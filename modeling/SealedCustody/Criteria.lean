import SealedCustody.Json.Format
import SealedCustody.Text.Blank

/-!
# Criteria

A criteria is two lists of rules: every rule of `all` has to hold and, unless `any` is empty, some
rule of `any`. A rule compares a field of a record with a literal. The field may be a dotted path into
nested objects; a key that holds the whole path is preferred.

`Rule.check` answers yes, no or a fault. `Criteria.check` combines those answers so that a definite
answer wins over a fault wherever it stands in the lists; `Criteria.evaluate` takes a fault for a no.
-/

namespace SealedCustody

open Json

/-- The record of a subject: the members of a JSON object. -/
abbrev Record := Members

/-! ## Looking up a field -/

namespace Record

/-- The value reached from a value along some keys. -/
def walk (current : Value) : List String → Option Value
  | [] => some current
  | part :: parts =>
    match current with
    | .object members =>
      match Members.get? part members with
      | some v => walk v parts
      | none => none
    | _ => none

/-- The value of a field: of the key that is the whole path, else along its dotted parts. -/
def resolve (record : Record) (field : String) : Option Value :=
  match Members.get? field record with
  | some v => some v
  | none => walk (.object record) (Text.split '.' field)

end Record

/-! ## Equality of values -/

/-- Whether two numbers are equal: integers exactly, otherwise as doubles that are close. -/
def Json.Number.agrees (x y : Number) : Bool :=
  match x.integerOrder? y with
  | some o => o == .eq
  | none => x.toBinary64.close y.toBinary64

mutual

/-- Deep equality: numbers by value, arrays item by item, objects key by key. -/
def Json.Value.agrees : Value → Value → Bool
  | .null, .null => true
  | .bool a, .bool b => a == b
  | .number x, .number y => x.agrees y
  | .string a, .string b => a == b
  | .array xs, .array ys => itemsAgree xs ys
  | .object xs, .object ys => xs.length == ys.length && membersAgree xs ys
  | _, _ => false

/-- Whether two lists of values agree item by item. -/
def itemsAgree : List Value → List Value → Bool
  | [], [] => true
  | x :: xs, y :: ys => x.agrees y && itemsAgree xs ys
  | _, _ => false

/-- Whether every member has an agreeing member of the same key. -/
def membersAgree : List (String × Value) → Members → Bool
  | [], _ => true
  | (k, x) :: xs, ys =>
    (match Members.get? k ys with
      | some y => x.agrees y
      | none => false)
    && membersAgree xs ys

end

/-! ## Rules -/

/-- How a rule compares. -/
inductive Comparison where
  | equal
  | greater
  | less
  | member
deriving DecidableEq, Repr, Inhabited

namespace Comparison

/-- The name of a comparison. -/
def name : Comparison → String
  | equal => "equal"
  | greater => "greater"
  | less => "less"
  | member => "in"

/-- A comparison is written as its name. -/
def format : Format Comparison :=
  .choice ([equal, greater, less, member].map fun c => (c.name, c)) name

end Comparison

/-- One comparison of a field with a literal. -/
structure Rule where
  field : String
  op : Comparison
  value : Value
deriving Inhabited

/-- Why a rule or record cannot be used. -/
inductive CriteriaFault where
  | emptyField
  | needsNumber (op : Comparison) (field : String) (value : Value)
  | needsArrayGot (field : String) (value : Value)
  | needsArray (field : String)
  | notNumeric (op : Comparison) (field : String) (actual value : Value)
  | notRecord (kind : String)

/-- The text of a fault. -/
def CriteriaFault.message : CriteriaFault → String
  | emptyField => "rule field must not be empty"
  | needsNumber op field value =>
    op.name ++ " on " ++ field ++ " needs a numeric value, got " ++ value.render
  | needsArrayGot field value =>
    "in on " ++ field ++ " needs an array value, got " ++ value.render
  | needsArray field => "in on " ++ field ++ " needs an array value"
  | notNumeric op field actual value =>
    op.name ++ " on " ++ field ++ " compares non-numeric operands (" ++ actual.render ++ " vs "
      ++ value.render ++ ")"
  | notRecord kind => "record must be a JSON object, got " ++ kind

namespace Rule

/-- Whether the literal has the shape that the comparison needs, whatever the record. -/
def validate (r : Rule) : Except CriteriaFault Unit :=
  if r.field = "" then .error .emptyField
  else match r.op with
    | .greater | .less =>
      if r.value.isNumber then .ok () else .error (.needsNumber r.op r.field r.value)
    | .member => if r.value.isArray then .ok () else .error (.needsArrayGot r.field r.value)
    | .equal => .ok ()

/-- The order of the field's value and the literal: exact between integers, else between doubles. -/
def numericOrder (r : Rule) (actual : Value) : Except CriteriaFault Ordering :=
  match actual, r.value with
  | .number x, .number y =>
    match x.integerOrder? y with
    | some o => .ok o
    | none => .ok (x.toBinary64.order y.toBinary64)
  | _, _ => .error (.notNumeric r.op r.field actual r.value)

/-- The answer of a rule on the value found for its field. -/
def checkValue (r : Rule) (actual : Value) : Except CriteriaFault Bool :=
  match r.op with
  | .equal => .ok (actual.agrees r.value)
  | .greater => (r.numericOrder actual).map (· == .gt)
  | .less => (r.numericOrder actual).map (· == .lt)
  | .member =>
    match r.value with
    | .array members => .ok (members.any actual.agrees)
    | _ => .error (.needsArray r.field)

/-- The answer of a rule on a record; a missing field is a no. -/
def check (r : Rule) (record : Record) : Except CriteriaFault Bool :=
  match record.resolve r.field with
  | none => .ok false
  | some actual => r.checkValue actual

/-- The answer of a rule, a fault taken for a no. -/
def «matches» (r : Rule) (record : Record) : Bool :=
  match r.check record with
  | .ok b => b
  | .error _ => false

/-- The fields of a rule. -/
def format : Format Rule where
  tree r := objectOf [("Field", some (Format.text.tree r.field)),
    ("Type", some (Comparison.format.tree r.op)), ("value", some (Format.value.tree r.value))]
  read d t := do
    let (fields, d) ← t.fields? ["Field", "Type", "value"] .refused d
    some ⟨← fields.required "Field" .text d, ← fields.required "Type" Comparison.format d,
      ← fields.required "value" .value d⟩

end Rule

/-! ## Criteria -/

/-- A named set of rules. -/
structure Criteria where
  name : Option String
  all : List Rule
  any : List Rule
deriving Inhabited

namespace Criteria

/-- The fields of a criteria, all of which may be left out. -/
def format : Format Criteria where
  tree c := objectOf [("Name", c.name.map Format.text.tree),
    ("All", some ((Format.list Rule.format).tree c.all)),
    ("Any", some ((Format.list Rule.format).tree c.any))]
  read d t := do
    let (fields, d) ← t.fields? ["Name", "All", "Any"] .refused d
    some ⟨← fields.optional "Name" .text d, ← fields.withDefault "All" (.list Rule.format) d [],
      ← fields.withDefault "Any" (.list Rule.format) d []⟩

/-- The first fault of any rule's shape. -/
def validate (c : Criteria) : Except CriteriaFault Unit := (c.all ++ c.any).forM Rule.validate

/-- Whether a record satisfies the criteria, a fault taken for a no. -/
def evaluate (c : Criteria) (record : Record) : Bool :=
  c.all.all (·.matches record) && (c.any.isEmpty || c.any.any (·.matches record))

/-- The answer of a conjunction: no at the first no, else the first fault, else yes. -/
def conjunction (record : Record) (pending : Option CriteriaFault) :
    List Rule → Except CriteriaFault Bool
  | [] =>
    match pending with
    | some e => .error e
    | none => .ok true
  | r :: rs =>
    match r.check record with
    | .ok true => conjunction record pending rs
    | .ok false => .ok false
    | .error e => conjunction record (pending <|> some e) rs

/-- The answer of a disjunction: yes at the first yes, else the first fault, else no. -/
def disjunction (record : Record) (pending : Option CriteriaFault) :
    List Rule → Except CriteriaFault Bool
  | [] =>
    match pending with
    | some e => .error e
    | none => .ok false
  | r :: rs =>
    match r.check record with
    | .ok true => .ok true
    | .ok false => disjunction record pending rs
    | .error e => disjunction record (pending <|> some e) rs

/-- The answer of the `any` list; an empty one is a yes. -/
def checkAny (c : Criteria) (record : Record) : Except CriteriaFault Bool :=
  if c.any.isEmpty then .ok true else disjunction record none c.any

/-- Whether a record satisfies the criteria. A fault is the answer only when the answer hinges on a
rule that could not be applied. -/
def check (c : Criteria) (record : Record) : Except CriteriaFault Bool :=
  match conjunction record none c.all with
  | .ok false => .ok false
  | .ok true => c.checkAny record
  | .error e =>
    match c.checkAny record with
    | .ok false => .ok false
    | _ => .error e

end Criteria

end SealedCustody
