import SealedCustody.Json.Value
import SealedCustody.Text.Hex

/-!
# Access to JSON values

What a value is, and what the members of an object are. A member that is null counts as absent.
-/

namespace SealedCustody.Json.Value

/-- The text that a value is. -/
def text? : Value → Option String
  | string s => some s
  | _ => none

/-- The number that a value is, one that is not negative. -/
def natural? : Value → Option Nat
  | number (.natural n) => some n.toNat
  | _ => none

/-- The whole number that a value is. -/
def integer? : Value → Option Int
  | number n => n.toInt?
  | _ => none

/-- The truth value that a value is. -/
def truth? : Value → Option Bool
  | bool b => some b
  | _ => none

/-- The items of an array. -/
def items? : Value → Option (List Value)
  | array items => some items
  | _ => none

/-- The member of an object under a key. -/
def get? (v : Value) (key : String) : Option Value :=
  match v.members?.bind (Members.get? key) with
  | some null => none
  | m => m

/-- The text under a key. -/
def textAt? (v : Value) (key : String) : Option String := (v.get? key).bind text?

/-- The number under a key. -/
def naturalAt? (v : Value) (key : String) : Option Nat := (v.get? key).bind natural?

/-- The items of the array under a key. -/
def itemsAt? (v : Value) (key : String) : Option (List Value) := (v.get? key).bind items?

/-- The texts of the array under a key. -/
def textsAt? (v : Value) (key : String) : Option (List String) := (v.itemsAt? key).bind (·.mapM text?)

/-- The truth value under a key. -/
def truthAt? (v : Value) (key : String) : Option Bool := (v.get? key).bind truth?

/-- The octets under a key: those of a text, or those that hexadecimal digits under the key with the
ending `_hex` give. -/
def octetsAt? (v : Value) (key : String) : Option (List UInt8) :=
  match v.textAt? key with
  | some s => some (Utf8.octets s)
  | none => (v.textAt? (key ++ "_hex")).bind Hex.decode?

/-- The number that counts something. -/
def ofNat (n : Nat) : Value := number (.natural n.toUInt64)

/-- The object with given members. -/
def ofMembers (ms : List (String × Value)) : Value := object (Members.ofList ms)

/-- The array of some texts. -/
def ofTexts (ts : List String) : Value := array (ts.map string)

mutual

/-- The value with every text that is no key replaced. -/
def mapTexts (f : String → String) : Value → Value
  | string s => string (f s)
  | array items => array (mapItems f items)
  | object members => object (mapMembers f members)
  | v => v

/-- The items with every text in them replaced. -/
def mapItems (f : String → String) : List Value → List Value
  | [] => []
  | v :: rest => v.mapTexts f :: mapItems f rest

/-- The members with every text in their values replaced. -/
def mapMembers (f : String → String) : List (String × Value) → List (String × Value)
  | [] => []
  | (k, v) :: rest => (k, v.mapTexts f) :: mapMembers f rest

end

end SealedCustody.Json.Value
