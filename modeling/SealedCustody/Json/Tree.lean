import SealedCustody.Json.Token
import SealedCustody.Text.Utf8

/-!
# JSON trees

A tree is a JSON text without its white space: arrays and objects in the order written, repeated keys
kept. `Tree.tokens` is its one sequence of tokens, and `Tree.ofTokens?` reads a sequence back with a
stack of the arrays and objects that are still open, so that depth costs no more than length.
-/

namespace SealedCustody.Json

/-- A JSON text without its white space. -/
inductive Tree where
  | null
  | bool (b : Bool)
  | number (value : Option Number)
  | string (value : Option String)
  | array (items : List Tree)
  | object (members : List (Option String × Tree))
deriving Inhabited

/-! ## Writing -/

/-- Items with a comma between them. -/
def separated : List (List Token) → List Token
  | [] => []
  | [ts] => ts
  | ts :: rest => ts ++ .comma :: separated rest

mutual

/-- The tokens of a tree. -/
def Tree.tokens : Tree → List Token
  | .null => [.null]
  | .bool true => [.true]
  | .bool false => [.false]
  | .number n => [.number n]
  | .string s => [.string s]
  | .array items => .openArray :: (separated (itemTokens items) ++ [.closeArray])
  | .object members => .openObject :: (separated (memberTokens members) ++ [.closeObject])

/-- The tokens of each item. -/
def itemTokens : List Tree → List (List Token)
  | [] => []
  | t :: rest => t.tokens :: itemTokens rest

/-- The tokens of each member. -/
def memberTokens : List (Option String × Tree) → List (List Token)
  | [] => []
  | (key, t) :: rest => (.string key :: .colon :: t.tokens) :: memberTokens rest

end

/-- The text of a tree, without white space. -/
def Tree.render (t : Tree) : String := Token.render t.tokens

/-! ## Reading -/

/-- An array or object that is still open, with what it holds so far, last first. -/
inductive Frame where
  | array (done : List Tree)
  | object (done : List (Option String × Tree)) (key : Option String)

/-- What may come next, inside the frames that are open, innermost first. -/
inductive Reading where
  /-- A value. -/
  | value (open_ : List Frame)
  /-- The first item of an array, or its end. -/
  | firstItem (open_ : List Frame)
  /-- The first key of an object, or its end. -/
  | firstKey (open_ : List Frame)
  /-- A further key of an object. -/
  | key (done : List (Option String × Tree)) (open_ : List Frame)
  /-- The colon after a key. -/
  | colon (done : List (Option String × Tree)) (key : Option String) (open_ : List Frame)
  /-- A comma, or the end of the innermost frame, after a value. -/
  | after (last : Tree) (open_ : List Frame)

namespace Reading

/-- A token where a value has to start. -/
def start (open_ : List Frame) : Token → Option Reading
  | .null => some (.after .null open_)
  | .true => some (.after (.bool true) open_)
  | .false => some (.after (.bool false) open_)
  | .number n => some (.after (.number n) open_)
  | .string s => some (.after (.string s) open_)
  | .openArray => some (.firstItem open_)
  | .openObject => some (.firstKey open_)
  | _ => none

/-- One token. -/
def step : Reading → Token → Option Reading
  | .value open_, t => start open_ t
  | .firstItem open_, .closeArray => some (.after (.array []) open_)
  | .firstItem open_, t => start (.array [] :: open_) t
  | .firstKey open_, .closeObject => some (.after (.object []) open_)
  | .firstKey open_, .string k => some (.colon [] k open_)
  | .key done open_, .string k => some (.colon done k open_)
  | .colon done k open_, .colon => some (.value (.object done k :: open_))
  | .after t (.array done :: open_), .comma => some (.value (.array (t :: done) :: open_))
  | .after t (.array done :: open_), .closeArray =>
    some (.after (.array (t :: done).reverse) open_)
  | .after t (.object done k :: open_), .comma => some (.key ((k, t) :: done) open_)
  | .after t (.object done k :: open_), .closeObject =>
    some (.after (.object ((k, t) :: done).reverse) open_)
  | _, _ => none

/-- All tokens, to a state in which one value is complete and nothing is open. -/
def run : Reading → List Token → Option Tree
  | .after t [], [] => some t
  | _, [] => none
  | r, t :: rest =>
    match step r t with
    | some r' => run r' rest
    | none => none

end Reading

/-- The tree of a sequence of tokens. -/
def Tree.ofTokens? (ts : List Token) : Option Tree := Reading.run (.value []) ts

/-- The tree of a text. -/
def Tree.ofSymbols? (cs : List Symbol) : Option Tree := (tokens? cs).bind Tree.ofTokens?

/-- The tree of a text given as octets. -/
def Tree.ofOctets? (bs : List UInt8) : Option Tree := Tree.ofSymbols? (Utf8.decode bs)

/-- The tree of a text. -/
def Tree.ofText? (s : String) : Option Tree := Tree.ofSymbols? (s.toList.map some)

end SealedCustody.Json
