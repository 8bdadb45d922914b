import FrontEnd.Text.Lines
import Mathlib.Data.List.Basic

/-!
# What the lines of bytes are

Lines are described by how they are put together: each is followed by a line feed, or by a carriage
return and a line feed, but the last one may be followed by nothing and is then not empty. A line
holds no line feed. If a line is followed by a line feed alone, it does not end with a carriage
return, since that would then belong to what ends the line.

Bytes can be put together from lines in one way only, and these are the lines that are read. If a
carriage return is put in front of every line feed, each line stays as it is or gets one carriage
return at its end, which it had lost before.

## Main definitions

* `FrontEnd.Text.IsLines` — the bytes are made up of the lines.
* `FrontEnd.Text.withReturns` — the bytes with a carriage return in front of every line feed.

## Main results

* `FrontEnd.Text.isLines_iff` — the lines that are read are those that the bytes are made up of.
* `FrontEnd.Text.IsLines.withReturns` — what more carriage returns change.
-/

namespace FrontEnd.Text

/-- The bytes are made up of the lines, each followed by what ends it, which may be missing after
the last one. -/
inductive IsLines : List UInt8 → List (List UInt8) → Prop
  | nil : IsLines [] []
  | last {l : List UInt8} (hne : l ≠ []) (hfeed : lineFeed ∉ l) : IsLines l [l]
  | feed {l bs : List UInt8} {ls : List (List UInt8)} (hfeed : lineFeed ∉ l)
      (hreturn : l.getLast? ≠ some carriageReturn) (hbs : IsLines bs ls) :
      IsLines (l ++ lineFeed :: bs) (l :: ls)
  | returnFeed {l bs : List UInt8} {ls : List (List UInt8)} (hfeed : lineFeed ∉ l)
      (hbs : IsLines bs ls) : IsLines (l ++ carriageReturn :: lineFeed :: bs) (l :: ls)

/-! ### The lines that are read -/

theorem foldr_consFirst_cons (l l' : List UInt8) (ls : List (List UInt8)) :
    l.foldr consFirst (l' :: ls) = (l ++ l') :: ls := by
  induction l with
  | nil => rfl
  | cons b l ih =>
    rw [List.foldr_cons, ih]
    rfl

theorem foldr_consFirst_nil {l : List UInt8} (hne : l ≠ []) : l.foldr consFirst [] = [l] := by
  obtain ⟨l, b, rfl⟩ := List.eq_nil_or_concat' l |>.resolve_left hne
  rw [List.foldr_append]
  exact foldr_consFirst_cons l [b] []

/-- Bytes in front of others belong to their first line, unless what ends a line begins with the
last one of them. -/
theorem lines_append {l : List UInt8} (hfeed : lineFeed ∉ l) {bs : List UInt8}
    (hbs : l.getLast? = some carriageReturn → bs.head? ≠ some lineFeed) :
    lines (l ++ bs) = l.foldr consFirst (lines bs) := by
  induction l with
  | nil => rfl
  | cons b l ih =>
    have hb : b ≠ lineFeed := fun h => hfeed (by simp [h])
    have hl : lineFeed ∉ l := fun h => hfeed (List.mem_cons_of_mem b h)
    have hends : endsLine b (l ++ bs) = false := by
      cases l with
      | nil =>
        by_contra h
        obtain ⟨rfl, hhead⟩ : b = carriageReturn ∧ bs.head? = some lineFeed := by
          simpa [endsLine] using h
        exact hbs rfl hhead
      | cons c l =>
        have hc : c ≠ lineFeed := fun h => hl (by simp [h])
        simp [endsLine, hc]
    rw [List.cons_append, lines, if_neg hb, hends, if_neg Bool.false_ne_true, List.foldr_cons]
    rw [ih hl]
    intro hlast hhead
    refine hbs ?_ hhead
    rw [List.getLast?_cons, hlast]
    rfl

theorem lines_feed (bs : List UInt8) : lines (lineFeed :: bs) = [] :: lines bs := by
  rw [lines, if_pos rfl]

theorem lines_returnFeed (bs : List UInt8) :
    lines (carriageReturn :: lineFeed :: bs) = [] :: lines bs := by
  rw [lines, if_neg (by decide), if_pos (by simp [endsLine]), lines_feed]

/-- The lines that bytes are made up of are the lines that are read. -/
theorem IsLines.lines_eq {bs : List UInt8} {ls : List (List UInt8)} (h : IsLines bs ls) :
    lines bs = ls := by
  induction h with
  | nil => rfl
  | @last l hne hfeed =>
    calc lines l = lines (l ++ []) := by rw [List.append_nil]
      _ = l.foldr consFirst (lines []) := lines_append hfeed (by simp)
      _ = [l] := foldr_consFirst_nil hne
  | @feed l bs ls hfeed hreturn _ ih =>
    rw [lines_append hfeed fun h => absurd h hreturn, lines_feed, foldr_consFirst_cons, ih,
      List.append_nil]
  | @returnFeed l bs ls hfeed _ ih =>
    have hhead : (carriageReturn :: lineFeed :: bs).head? ≠ some lineFeed := by
      simp [carriageReturn, lineFeed]
    rw [lines_append hfeed fun _ => hhead, lines_returnFeed, foldr_consFirst_cons, ih,
      List.append_nil]

/-- All bytes are made up of lines. -/
theorem exists_isLines (bs : List UInt8) : ∃ ls, IsLines bs ls := by
  induction hn : bs.length using Nat.strongRecOn generalizing bs with
  | ind n ih =>
    by_cases hfeed : lineFeed ∈ bs
    · obtain ⟨l, rest, rfl, hl⟩ := List.eq_append_cons_of_mem hfeed
      have hlt : rest.length < n := by
        rw [← hn, List.length_append, List.length_cons]
        omega
      obtain ⟨ls, hls⟩ := ih rest.length hlt rest rfl
      by_cases hreturn : l.getLast? = some carriageReturn
      · obtain ⟨l', rfl⟩ := List.getLast?_eq_some_iff.mp hreturn
        refine ⟨l' :: ls, ?_⟩
        rw [List.append_assoc]
        exact .returnFeed (fun h => hl (List.mem_append_left _ h)) hls
      · exact ⟨l :: ls, .feed hl hreturn hls⟩
    · by_cases hne : bs = []
      · exact ⟨[], hne ▸ .nil⟩
      · exact ⟨[bs], .last hne hfeed⟩

/-- **Bytes are made up of lines in one way**, and these are the lines that are read. -/
theorem isLines_iff {bs : List UInt8} {ls : List (List UInt8)} : IsLines bs ls ↔ lines bs = ls := by
  constructor
  · exact IsLines.lines_eq
  · rintro rfl
    obtain ⟨ls, hls⟩ := exists_isLines bs
    exact hls.lines_eq ▸ hls

/-! ### More carriage returns -/

/-- The bytes with a carriage return in front of every line feed. -/
def withReturns (bs : List UInt8) : List UInt8 :=
  bs.flatMap fun b => if b = lineFeed then [carriageReturn, lineFeed] else [b]

theorem withReturns_of_not_mem {l : List UInt8} (hfeed : lineFeed ∉ l) : withReturns l = l := by
  induction l with
  | nil => rfl
  | cons b l ih =>
    have hb : b ≠ lineFeed := fun h => hfeed (by simp [h])
    have hl : lineFeed ∉ l := fun h => hfeed (List.mem_cons_of_mem b h)
    rw [withReturns, List.flatMap_cons, if_neg hb]
    exact congrArg (b :: ·) (ih hl)

theorem withReturns_append_feed {l : List UInt8} (hfeed : lineFeed ∉ l) (bs : List UInt8) :
    withReturns (l ++ lineFeed :: bs) = l ++ carriageReturn :: lineFeed :: withReturns bs := by
  have hl := withReturns_of_not_mem hfeed
  rw [withReturns] at hl ⊢
  rw [List.flatMap_append, hl, List.flatMap_cons, if_pos rfl]
  rfl

/-- If a carriage return is put in front of every line feed, every line stays as it is or gets one
at its end. -/
theorem IsLines.withReturns {bs : List UInt8} {ls : List (List UInt8)} (h : IsLines bs ls) :
    ∃ ls', IsLines (withReturns bs) ls' ∧
      List.Forall₂ (fun l l' => l' = l ∨ l' = l ++ [carriageReturn]) ls ls' := by
  induction h with
  | nil => exact ⟨[], .nil, .nil⟩
  | @last l hne hfeed =>
    rw [withReturns_of_not_mem hfeed]
    exact ⟨[l], .last hne hfeed, .cons (.inl rfl) .nil⟩
  | @feed l bs ls hfeed _ _ ih =>
    obtain ⟨ls', hls', hsame⟩ := ih
    rw [withReturns_append_feed hfeed]
    exact ⟨l :: ls', .returnFeed hfeed hls', .cons (.inl rfl) hsame⟩
  | @returnFeed l bs ls hfeed _ ih =>
    -- The carriage return that ended the line with its line feed is now inside the line.
    obtain ⟨ls', hls', hsame⟩ := ih
    have hfeed' : lineFeed ∉ l ++ [carriageReturn] := by
      simpa [hfeed] using show lineFeed ≠ carriageReturn by decide
    have hbytes : FrontEnd.Text.withReturns (l ++ carriageReturn :: lineFeed :: bs) =
        (l ++ [carriageReturn]) ++ carriageReturn :: lineFeed :: FrontEnd.Text.withReturns bs := by
      rw [← withReturns_append_feed hfeed', List.append_assoc]
      rfl
    rw [hbytes]
    exact ⟨(l ++ [carriageReturn]) :: ls', .returnFeed hfeed' hls', .cons (.inr rfl) hsame⟩

end FrontEnd.Text
