/-!
# Lines of bytes

Bytes are cut into *lines* at line feeds. A carriage return right before a line feed belongs to the
end of the line and is dropped with it. The last line needs no line feed, and then keeps a carriage
return at its end; there is no empty line after a last line feed.

## Main definitions

* `FrontEnd.Text.lines` — the lines of a sequence of bytes.
* `FrontEnd.Text.linesOf` — the lines of a byte array.
-/

namespace FrontEnd.Text

/-- The byte of a line feed. -/
def lineFeed : UInt8 := 10

/-- The byte of a carriage return. -/
def carriageReturn : UInt8 := 13

/-- Puts a byte in front of the first of some lines, which it makes up alone if there is none. -/
def consFirst (b : UInt8) : List (List UInt8) → List (List UInt8)
  | [] => [[b]]
  | l :: ls => (b :: l) :: ls

/-- Whether a carriage return and a line feed stand at the front of the bytes `b :: bs`. -/
def endsLine (b : UInt8) (bs : List UInt8) : Bool :=
  b == carriageReturn && bs.head? == some lineFeed

/-- The lines of a sequence of bytes, without what ends them. -/
def lines : List UInt8 → List (List UInt8)
  | [] => []
  | b :: bs =>
    if b = lineFeed then [] :: lines bs
    else if endsLine b bs then lines bs
    else consFirst b (lines bs)

/-- The lines of a byte array, without what ends them. -/
def linesOf (bytes : ByteArray) : List ByteArray :=
  (lines bytes.data.toList).map List.toByteArray

end FrontEnd.Text
