import SealedCustody.Json.Tree

/-!
# JSON values

A value is a tree that can be held: every string and number has a value, arrays and objects nest at
most 127 deep, and an object maps each key to one value, the last one written. The members of an
object are kept in ascending order of their keys.
-/

namespace SealedCustody.Json

/-- A JSON value. The members of an object are in strictly ascending order of their keys. -/
inductive Value where
  | null
  | bool (b : Bool)
  | number (n : Number)
  | string (s : String)
  | array (items : List Value)
  | object (members : List (String × Value))
deriving Inhabited

/-- The members of an object, in strictly ascending order of their keys. -/
abbrev Members := List (String × Value)

namespace Members

/-- The value of a key. -/
def get? (key : String) : Members → Option Value
  | [] => none
  | (k, v) :: rest => if k = key then some v else get? key rest

/-- Sets the value of a key, keeping the order. -/
def insert (key : String) (value : Value) : Members → Members
  | [] => [(key, value)]
  | (k, v) :: rest =>
    if key < k then (key, value) :: (k, v) :: rest
    else if key = k then (key, value) :: rest
    else (k, v) :: insert key value rest

/-- The members written in some order; the last one written for a key is kept. -/
def ofList (ms : List (String × Value)) : Members :=
  ms.foldl (fun done (k, v) => done.insert k v) []

end Members

/-- How deep arrays and objects may nest in a text that is read. -/
def depthLimit : Nat := 127

mutual

/-- The value of a tree that nests at most `depth` deep. -/
def Tree.value? (depth : Nat) : Tree → Option Value
  | .null => some .null
  | .bool b => some (.bool b)
  | .number n => n.map .number
  | .string s => s.map .string
  | .array items =>
    match depth with
    | 0 => none
    | d + 1 => (itemValues? d items).map .array
  | .object members =>
    match depth with
    | 0 => none
    | d + 1 => (memberValues? d members).map fun ms => .object (Members.ofList ms)

/-- The value of each item. -/
def itemValues? (depth : Nat) : List Tree → Option (List Value)
  | [] => some []
  | t :: rest =>
    match t.value? depth with
    | some v => (itemValues? depth rest).map (v :: ·)
    | none => none

/-- The key and value of each member. -/
def memberValues? (depth : Nat) : List (Option String × Tree) → Option (List (String × Value))
  | [] => some []
  | (key, t) :: rest =>
    match key, t.value? depth with
    | some k, some v => (memberValues? depth rest).map ((k, v) :: ·)
    | _, _ => none

end

mutual

/-- The tree of a value. -/
def Value.tree : Value → Tree
  | .null => .null
  | .bool b => .bool b
  | .number n => .number (some n)
  | .string s => .string (some s)
  | .array items => .array (itemTrees items)
  | .object members => .object (memberTrees members)

/-- The tree of each item. -/
def itemTrees : List Value → List Tree
  | [] => []
  | v :: rest => v.tree :: itemTrees rest

/-- The tree of each member. -/
def memberTrees : List (String × Value) → List (Option String × Tree)
  | [] => []
  | (k, v) :: rest => (some k, v.tree) :: memberTrees rest

end

namespace Value

/-- The text of a value, without white space. -/
def render (v : Value) : String := v.tree.render

/-- Whether the value is a number. -/
def isNumber : Value → Bool
  | number _ => true
  | _ => false

/-- Whether the value is an array. -/
def isArray : Value → Bool
  | array _ => true
  | _ => false

/-- The name of the kind of value. -/
def kind : Value → String
  | null => "null"
  | bool _ => "bool"
  | number _ => "number"
  | string _ => "string"
  | array _ => "array"
  | object _ => "object"

/-- The members of an object. -/
def members? : Value → Option Members
  | object ms => some ms
  | _ => none

/-- The number as a double. -/
def toBinary64? : Value → Option Binary64
  | number n => some n.toBinary64
  | _ => none

/-- The value of a text given as octets. -/
def ofOctets? (bs : List UInt8) : Option Value := (Tree.ofOctets? bs).bind (Tree.value? depthLimit)

end Value

end SealedCustody.Json
