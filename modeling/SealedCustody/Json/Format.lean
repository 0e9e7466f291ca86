import SealedCustody.Json.Value

/-!
# JSON forms of types

A `Format` is how a type is written as a tree and read from one. Writing is a function; reading takes
how many arrays and objects may still be opened. A record is written as an object with its fields in
order and read from an object, its fields in any order and none repeated, or from an array that gives
them in order and may stop early.
-/

namespace SealedCustody.Json

/-- How a type is written as a tree and read from one that nests at most so deep. -/
structure Format (α : Type) where
  tree : α → Tree
  read : Nat → Tree → Option α

namespace Format

/-- The text of a value. -/
def encode {α : Type} (f : Format α) (a : α) : String := (f.tree a).render

/-- The octets of a value. -/
def octets {α : Type} (f : Format α) (a : α) : List UInt8 := Utf8.octets (f.encode a)

/-- Reads a value from octets. -/
def ofOctets? {α : Type} (f : Format α) (bs : List UInt8) : Option α :=
  (Tree.ofOctets? bs).bind (f.read depthLimit)

/-- Reads a value from a text. -/
def ofText? {α : Type} (f : Format α) (s : String) : Option α :=
  (Tree.ofText? s).bind (f.read depthLimit)

/-- A text. -/
def text : Format String where
  tree s := .string (some s)
  read _
    | .string s => s
    | _ => none

/-- An unsigned word; a numeral with a fraction or exponent is refused. -/
def word : Format UInt64 where
  tree n := .number (some (.natural n))
  read _
    | .number (some (.natural n)) => some n
    | _ => none

/-- Any value. -/
def value : Format Value where
  tree := Value.tree
  read d t := t.value? d

/-- Reads each of some trees. -/
def readAll {α : Type} (f : Format α) (depth : Nat) : List Tree → Option (List α)
  | [] => some []
  | t :: rest =>
    match f.read depth t with
    | some a => (readAll f depth rest).map (a :: ·)
    | none => none

/-- An array of values of one form. -/
def list {α : Type} (f : Format α) : Format (List α) where
  tree as := .array (as.map f.tree)
  read
    | d + 1, .array items => f.readAll d items
    | _, _ => none

/-- The value that stands beside a name in a table. -/
def named? {α : Type} (table : List (String × α)) (name : String) : Option α :=
  (table.find? fun entry => entry.1 = name).map (·.2)

/-- One of some named values, written as its name. An object with the name as its one key and `null`
as the value is read too. -/
def choice {α : Type} (table : List (String × α)) (nameOf : α → String) : Format α where
  tree a := .string (some (nameOf a))
  read
    | _, .string (some s) => named? table s
    | _ + 1, .object [(some s, .null)] => named? table s
    | _, _ => none

end Format

/-! ## Records -/

/-- What becomes of a key that is no field. -/
inductive Unknown where
  | refused
  | ignored
deriving DecidableEq

/-- The trees given for the fields of a record. -/
abbrev Fields := String → Option Tree

/-- Whether no field is given twice. -/
def noneRepeated (names : List String) (members : List (Option String × Tree)) : Bool :=
  names.all fun name => (members.filter fun m => m.1 = some name).length ≤ 1

/-- Whether a key may stand in an object. Every key has to be a text. -/
def keyAllowed (names : List String) (unknown : Unknown) : Option String → Bool
  | none => false
  | some k => names.contains k || unknown == .ignored

/-- The fields given by a tree, and how many arrays and objects may be opened inside them. -/
def Tree.fields? (names : List String) (unknown : Unknown) : Nat → Tree → Option (Fields × Nat)
  | d + 1, .object members =>
    if members.all (fun m => keyAllowed names unknown m.1) && noneRepeated names members then
      some (fun name => (members.find? fun m => m.1 = some name).map (·.2), d)
    else none
  | d + 1, .array items =>
    if items.length ≤ names.length then some (fun name => items[names.idxOf name]?, d) else none
  | _, _ => none

namespace Fields

/-- A field that has to be given. -/
def required {α : Type} (fields : Fields) (name : String) (f : Format α) (depth : Nat) : Option α :=
  (fields name).bind (f.read depth)

/-- A field that stands for a given value when it is left out. -/
def withDefault {α : Type} (fields : Fields) (name : String) (f : Format α) (depth : Nat)
    (dflt : α) : Option α :=
  match fields name with
  | none => some dflt
  | some t => f.read depth t

/-- A field that may be left out or given as `null`. -/
def optional {α : Type} (fields : Fields) (name : String) (f : Format α) (depth : Nat) :
    Option (Option α) :=
  match fields name with
  | none | some .null => some none
  | some t => (f.read depth t).map some

end Fields

/-- The object with some members, those without a value left out. -/
def objectOf (members : List (String × Option Tree)) : Tree :=
  .object (members.filterMap fun (k, t) => t.map fun t => (some k, t))

end SealedCustody.Json
