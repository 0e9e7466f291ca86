import SealedCustody.Table
import SealedCustody.Text.Blank
import SealedCustody.Text.Utf8

/-!
# Files and directories

A disk holds files and directories, each at a location: the names that lead to it from the root. A path
is followed from some directory part by part, and every part but the last has to lead to a directory.
Making a directory makes those above it too; a file is only written into a directory that is there.
-/

namespace SealedCustody

/-- What stands at a location. -/
inductive DiskEntry where
  | file (content : List UInt8)
  | directory
deriving DecidableEq, Repr

/-- The names that lead to a file or directory from the root. -/
abbrev Location := List String

/-- What stands at each location below the root. -/
structure Disk where
  entries : Table Location DiskEntry
deriving Inhabited

/-! ## Paths -/

/-- The parts of a path, and whether it begins at the root. -/
structure Path where
  absolute : Bool
  parts : List String
deriving DecidableEq, Repr

namespace Path

/-- Whether a part leads nowhere else. -/
def isHere (part : String) : Bool := part = "" || part = "."

/-- The path that a text gives. The empty text gives none. -/
def ofText? (s : String) : Option Path :=
  match Text.split '/' s with
  | [""] => none
  | "" :: parts => some ⟨true, parts⟩
  | parts => some ⟨false, parts⟩

/-- The path to the directory that a path's last part stands in. -/
def parent (p : Path) : Path :=
  ⟨p.absolute, (p.parts.reverse.dropWhile isHere).reverse.dropLast⟩

/-- Whether a part is short enough to name something. -/
def isName (part : String) : Bool := part.utf8ByteSize ≤ 255

/-- The number of octets in the text of a path. -/
def size (p : Path) : Nat :=
  (if p.absolute then 1 else 0) + ("/".intercalate p.parts).utf8ByteSize

/-- Whether a disk can be asked for a path: it is not too long as a whole and has no zero character. -/
def isSound (p : Path) : Bool :=
  p.size < 4096 && p.parts.all fun part => !part.toList.contains '\x00'

/-- Where a path begins. -/
def start (p : Path) (cwd : Location) : Location := if p.absolute then [] else cwd

end Path

namespace Disk

/-- The disk that holds nothing. -/
def empty : Disk := ⟨∅⟩

/-- What stands at a location. -/
def at? (d : Disk) (l : Location) : Option DiskEntry :=
  if l.isEmpty then some .directory else d.entries.get? l

/-- Whether a directory stands at a location. -/
def isDirectory (d : Disk) (l : Location) : Bool := d.at? l = some .directory

/-- The location that parts lead to from a location; all but the last of them have to be
directories. -/
def follow? (d : Disk) (here : Location) : List String → Option Location
  | [] => some here
  | part :: parts =>
    if !d.isDirectory here then none
    else if Path.isHere part then follow? d here parts
    else if part = ".." then follow? d here.dropLast parts
    else if Path.isName part then follow? d (here ++ [part]) parts
    else none

/-- The location that a path leads to. -/
def locate? (d : Disk) (cwd : Location) (p : Path) : Option Location :=
  if p.isSound then d.follow? (p.start cwd) p.parts else none

/-- What a path leads to. -/
def find? (d : Disk) (cwd : Location) (p : Path) : Option DiskEntry :=
  (d.locate? cwd p).bind d.at?

/-- The content of the file that a path leads to. -/
def read? (d : Disk) (cwd : Location) (p : Path) : Option (List UInt8) :=
  match d.find? cwd p with
  | some (.file content) => some content
  | _ => none

/-- Makes the directories that parts lead through, as far as none of them is a file; whether all are
there. -/
def makeDirectories (d : Disk) (here : Location) : List String → Bool × Disk
  | [] => (true, d)
  | part :: parts =>
    if Path.isHere part then makeDirectories d here parts
    else if part = ".." then makeDirectories d here.dropLast parts
    else match d.at? (here ++ [part]) with
      | some .directory => makeDirectories d (here ++ [part]) parts
      | some (.file _) => (false, d)
      | none =>
        if Path.isName part then
          makeDirectories ⟨d.entries.insert (here ++ [part]) .directory⟩ (here ++ [part]) parts
        else (false, d)

/-- Makes the directory that a path leads to. -/
def makeDirectory (d : Disk) (cwd : Location) (p : Path) : Bool × Disk :=
  if p.isSound then d.makeDirectories (p.start cwd) p.parts else (false, d)

/-- Writes a file into a directory that is there; whether it was written. -/
def write (d : Disk) (cwd : Location) (p : Path) (content : List UInt8) : Bool × Disk :=
  match d.locate? cwd p with
  | none => (false, d)
  | some l =>
    if d.isDirectory l || !d.isDirectory l.dropLast then (false, d)
    else (true, ⟨d.entries.insert l (.file content)⟩)

/-- Writes a file, making the directories above it. -/
def save (d : Disk) (cwd : Location) (p : Path) (content : List UInt8) : Bool × Disk :=
  match d.makeDirectory cwd p.parent with
  | (true, d) => d.write cwd p content
  | (false, d) => (false, d)

end Disk

end SealedCustody
