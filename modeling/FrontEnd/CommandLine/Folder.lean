/-!
# Folders

A *folder* holds files by name; a name may lead through folders inside it. A *path* is followed from
the folder name by name: a dot stays at a folder, and two dots go to the folder above. A path may
lead out of the folder. Nothing is known of what is outside but that it is made of folders. Names
and paths may not be longer than the system allows.

A run of the program is given the reading of files as a function from paths
(`FrontEnd.CommandLine.run`), and what is said about a run holds for every such function. The
program itself asks the system. A folder stands for the system's own look-up of paths where there is
no system to ask: `FrontEnd.CommandLine.Folder.read` is the function to give to a run that takes
place in a folder with known files.

## Main definitions

* `FrontEnd.CommandLine.ReadFault` — why a file could not be read.
* `FrontEnd.CommandLine.Folder` — a folder.
* `FrontEnd.CommandLine.Folder.read` — the bytes of the file that a path leads to.
-/

namespace FrontEnd.CommandLine

/-- Why a file could not be read. -/
inductive ReadFault where
  /-- There is nothing of that name. -/
  | missing
  /-- The path leads through a file as if it were a folder. -/
  | throughFile
  /-- The path leads to a folder. -/
  | folder
  /-- A name on the path, or the whole path, is too long. -/
  | tooLong
  /-- The file is not text in UTF-8. -/
  | notText
  deriving DecidableEq, Repr

/-- The fault in words. -/
def ReadFault.message : ReadFault → String
  | .missing => "No such file or directory (os error 2)"
  | .throughFile => "Not a directory (os error 20)"
  | .folder => "Is a directory (os error 21)"
  | .tooLong => "File name too long (os error 36)"
  | .notText => "stream did not contain valid UTF-8"

/-- A folder: its files, each with the names that lead to it. -/
structure Folder where
  /-- The files. -/
  files : List (List String × ByteArray)

namespace Folder

/-- The folder with the given files, whose names may lead through folders. -/
def ofFiles (files : List (String × ByteArray)) : Folder :=
  ⟨files.map fun (name, bytes) => (name.splitOn "/", bytes)⟩

/-- Where a path has led so far. -/
inductive Place where
  /-- At the folder inside that the names lead to. -/
  | inside (names : List String)
  /-- At a folder outside. -/
  | outside
  /-- At a file. -/
  | file (bytes : ByteArray)

/-- The greatest length of a name, in bytes. -/
def longestName : Nat := 255

/-- The greatest length of a path, in bytes. -/
def longestPath : Nat := 4095

/-- What the names lead to: a file, a folder if they lead on to some file, or nothing. -/
def find? (f : Folder) (names : List String) : Option Place :=
  match f.files.lookup names with
  | some bytes => some (.file bytes)
  | none =>
    if f.files.any fun (file, _) => names.isPrefixOf file then some (.inside names) else none

/-- Follows a path by one name. An empty name, which comes of two slashes in a row or of one at the
end, stays where it is like a dot. -/
def follow (f : Folder) (name : String) : Place → Except ReadFault Place
  | .file _ => .error .throughFile
  | .outside =>
    if name = "" ∨ name = "." ∨ name = ".." then .ok .outside
    else if longestName < name.utf8ByteSize then .error .tooLong
    else .error .missing
  | .inside names =>
    if name = "" ∨ name = "." then .ok (.inside names)
    else if name = ".." then
      .ok (if names.isEmpty then .outside else .inside names.dropLast)
    else if longestName < name.utf8ByteSize then .error .tooLong
    else
      match f.find? (names ++ [name]) with
      | none => .error .missing
      | some place => .ok place

/-- Follows a path by its names in turn. -/
def followAll (f : Folder) : List String → Place → Except ReadFault Place
  | [], place => .ok place
  | name :: names, place => do
    let place ← f.follow name place
    f.followAll names place

/-- The bytes of the file that a path leads to. The empty path leads nowhere, and one that begins
with a slash begins outside. -/
def read (f : Folder) (path : String) : Except ReadFault ByteArray :=
  if path.isEmpty then .error .missing
  else if longestPath < path.utf8ByteSize then .error .tooLong
  else do
    let origin := if path.startsWith "/" then Place.outside else Place.inside []
    match ← f.followAll (path.splitOn "/") origin with
    | .file bytes => .ok bytes
    | .inside _ => .error .folder
    | .outside => .error .folder

end Folder

end FrontEnd.CommandLine
