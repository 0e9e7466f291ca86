/-!
# TOML values

A document is a table of items. A table remembers how it came to be, because that decides what may be
added to it later: by a header of its own, by being named on the way to another table, or by a dotted
key. Floats and dates are kept as a mark only; nothing that is configured has either type.
-/

namespace SealedCustody.Toml

/-- How a table came to be. -/
inductive Origin where
  /-- By a header or as an inline table. -/
  | explicit
  /-- On the way to a table with a header. -/
  | implicit
  /-- By a dotted key. -/
  | dotted
deriving DecidableEq, Repr, Inhabited

/-- A value or table. -/
inductive Item where
  | string (s : String)
  | integer (i : Int)
  | boolean (b : Bool)
  | float
  | date
  | array (items : List Item)
  /-- A table inside a value, which nothing can be added to. -/
  | inlined (entries : List (String × Item))
  | table (origin : Origin) (entries : List (String × Item))
  /-- Tables under one repeated header, last first. -/
  | tables (last : List (List (String × Item)))
deriving Inhabited

/-- The entries of a table, in the order in which they were given. -/
abbrev Entries := List (String × Item)

namespace Entries

/-- The item under a key. -/
def get? (key : String) (es : Entries) : Option Item := (es.find? fun e => e.1 = key).map (·.2)

/-- Sets the item under a key. -/
def set (key : String) (item : Item) : Entries → Entries
  | [] => [(key, item)]
  | (k, i) :: rest => if k = key then (k, item) :: rest else (k, i) :: set key item rest

end Entries

/-! ## Building tables -/

/-- Changes the table that a path leads to. A table on the way that is missing is made with the origin
given. A dotted key does not lead into a table that has a header. -/
def descend (origin : Origin) (change : Origin → Entries → Option Entries) :
    Origin → List String → Entries → Option Entries
  | here, [], es => change here es
  | _, key :: path, es =>
    match Entries.get? key es with
    | none => do
      let inner ← descend origin change origin path []
      some (Entries.set key (.table origin inner) es)
    | some (.table o inner) =>
      if origin = .dotted ∧ o = .explicit then none
      else do
        let inner ← descend origin change o path inner
        some (Entries.set key (.table o inner) es)
    | some (.tables (t :: ts)) => do
      let inner ← descend origin change .explicit path t
      some (Entries.set key (.tables (inner :: ts)) es)
    | _ => none

/-- Adds a value under a key that is not there yet. A dotted key adds to tables of dotted keys only,
and a plain key to no such table. -/
def addValue (plain : Bool) (key : String) (item : Item) (here : Origin) (es : Entries) :
    Option Entries :=
  if (here = .dotted) = plain ∨ (Entries.get? key es).isSome then none
  else some (Entries.set key item es)

/-- Adds a value under a key, dotted or not, to a table. -/
def addKey (path : List String) (key : String) (item : Item) (es : Entries) : Option Entries :=
  descend .dotted (addValue path.isEmpty key item) .explicit path es

/-- Opens the table of a header. -/
def openTable (key : String) (_ : Origin) (es : Entries) : Option Entries :=
  match Entries.get? key es with
  | none => some (Entries.set key (.table .explicit []) es)
  | some (.table .implicit inner) => some (Entries.set key (.table .explicit inner) es)
  | _ => none

/-- Opens a further table of a repeated header. -/
def openRepeated (key : String) (_ : Origin) (es : Entries) : Option Entries :=
  match Entries.get? key es with
  | none => some (Entries.set key (.tables [[]]) es)
  | some (.tables ts) => some (Entries.set key (.tables ([] :: ts)) es)
  | _ => none

end SealedCustody.Toml
