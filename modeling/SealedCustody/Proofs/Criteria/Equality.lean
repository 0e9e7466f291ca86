import SealedCustody.Proofs.Criteria.Integers
import SealedCustody.Proofs.Json.Depth
import SealedCustody.Proofs.Json.Members
import Mathlib.Data.List.Forall2

/-!
# Values that agree

What a JSON value is does not hang on how it is held: an integer is an integer in whichever word, and an
object is a map from keys to values. `Value.datum` says what a value is in this sense. Two values without
doubles agree just when they are the same datum (`Value.agrees_iff`), so agreeing is an equivalence of
such values and a rule that asks for a member of an array asks just that (`Value.agrees_exact`).

## Shape of the proof

The induction is on the first value. Arrays are gone through side by side. For objects only the sizes
are compared and the members of the first looked up in the second, and that is enough because no key
stands twice in an object: a set of keys that lies in another of the same size is all of it
(`Members.keys_subset`).
-/

namespace SealedCustody

namespace Json

/-! ## What a value is -/

/-- A JSON value, whatever holds it. An object is a map from keys to values. -/
inductive Datum where
  | null
  | bool (b : Bool)
  | integer (i : Int)
  | double (x : Binary64)
  | string (s : String)
  | array (items : List Datum)
  | object (values : String → Option Datum)

/-- What a number is. -/
def Number.datum : Number → Datum
  | .natural n => .integer n.toNat
  | .negative i _ => .integer i.toInt
  | .double x => .double x

mutual

/-- What a value is. -/
def Value.datum : Value → Datum
  | .null => .null
  | .bool b => .bool b
  | .number n => n.datum
  | .string s => .string s
  | .array items => .array (itemData items)
  | .object members => .object (memberData members)

/-- What each item is. -/
def itemData : List Value → List Datum
  | [] => []
  | v :: rest => v.datum :: itemData rest

/-- What the value of each key is. -/
def memberData : List (String × Value) → String → Option Datum
  | [], _ => none
  | (k, v) :: rest, key => if k = key then some v.datum else memberData rest key

end

theorem Number.datum_eq {n : Number} {i : Int} (h : n.toInt? = some i) : n.datum = .integer i := by
  cases n with
  | double x => cases h
  | _ => exact congrArg Datum.integer (Option.some.inj h)

theorem itemData_eq (items : List Value) : itemData items = items.map Value.datum := by
  induction items with
  | nil => rfl
  | cons v items ih => rw [itemData, ih, List.map_cons]

theorem memberData_eq (members : Members) (key : String) :
    memberData members key = (members.get? key).map Value.datum := by
  induction members with
  | nil => rfl
  | cons m members ih =>
    obtain ⟨k, v⟩ := m
    rw [memberData, Members.get?]
    split
    · rfl
    · exact ih

/-! ## Agreeing, part by part -/

theorem itemsAgree_iff {xs ys : List Value} :
    itemsAgree xs ys = true ↔ List.Forall₂ (fun x y => x.agrees y = true) xs ys := by
  induction xs generalizing ys with
  | nil => cases ys <;> simp [itemsAgree]
  | cons x xs ih => cases ys <;> simp [itemsAgree, ih]

theorem membersAgree_iff {xs ys : Members} : membersAgree xs ys = true ↔
    ∀ m ∈ xs, ∃ y, ys.get? m.1 = some y ∧ m.2.agrees y = true := by
  induction xs with
  | nil => simp [membersAgree]
  | cons m xs ih =>
    obtain ⟨k, x⟩ := m
    rw [membersAgree, Bool.and_eq_true, ih, List.forall_mem_cons]
    cases ys.get? k <;> simp

/-- Arrays agree just when they are the same sequence, if agreeing is that on their items. -/
theorem itemsAgree_iff_datum {xs ys : List Value} (hys : ∀ y ∈ ys, y.Integral)
    (h : ∀ x ∈ xs, ∀ {y : Value}, y.Integral → (x.agrees y = true ↔ x.datum = y.datum)) :
    itemsAgree xs ys = true ↔ itemData xs = itemData ys := by
  rw [itemsAgree_iff, itemData_eq, itemData_eq]
  induction xs generalizing ys with
  | nil => cases ys <;> simp
  | cons x xs ih =>
    cases ys with
    | nil => simp
    | cons y ys =>
      obtain ⟨hy, hys⟩ := List.forall_mem_cons.1 hys
      rw [List.forall₂_cons, List.map_cons, List.map_cons, List.cons.injEq,
        h x List.mem_cons_self hy, ih hys fun x hx => h x (List.mem_cons_of_mem _ hx)]

/-- Objects agree just when they are the same map, if agreeing is that on their values. -/
theorem membersAgree_iff_datum {xs ys : Members} (hxs : xs.Pairwise (·.1 < ·.1))
    (hys : ys.Pairwise (·.1 < ·.1)) (hvalues : ∀ m ∈ ys, m.2.Integral)
    (h : ∀ m ∈ xs, ∀ {y : Value}, y.Integral → (m.2.agrees y = true ↔ m.2.datum = y.datum)) :
    (xs.length = ys.length ∧ membersAgree xs ys = true) ↔ memberData xs = memberData ys := by
  rw [membersAgree_iff]
  constructor
  · rintro ⟨hlength, hfound⟩
    have hsub : xs.map Prod.fst ⊆ ys.map Prod.fst := by
      intro key hkey
      obtain ⟨v, hv⟩ := Members.mem_keys.1 hkey
      obtain ⟨y, hy, -⟩ := hfound _ (Members.mem_of_get? hv)
      exact Members.mem_keys.2 ⟨y, hy⟩
    funext key
    rw [memberData_eq, memberData_eq]
    cases hx : xs.get? key with
    | some x =>
      have hmem := Members.mem_of_get? hx
      obtain ⟨y, hy, hagrees⟩ := hfound _ hmem
      have hintegral := hvalues _ (Members.mem_of_get? hy)
      rw [hy, Option.map_some, Option.map_some, (h _ hmem hintegral).1 hagrees]
    | none =>
      -- what is not a key of the first is none of the second, which has no more keys
      cases hy : ys.get? key with
      | none => rfl
      | some y =>
        have hkey := Members.keys_subset hxs hlength hsub (Members.mem_keys.2 ⟨y, hy⟩)
        obtain ⟨x, hx'⟩ := Members.mem_keys.1 hkey
        rw [hx] at hx'
        cases hx'
  · intro hsame
    have hget : ∀ key, (xs.get? key).map Value.datum = (ys.get? key).map Value.datum := by
      intro key
      rw [← memberData_eq, ← memberData_eq, hsame]
    have hkeys : ∀ key, key ∈ xs.map Prod.fst ↔ key ∈ ys.map Prod.fst := by
      intro key
      rw [Members.mem_keys, Members.mem_keys, ← Option.isSome_iff_exists, ← Option.isSome_iff_exists,
        ← Option.isSome_map (f := Value.datum), hget, Option.isSome_map]
    refine ⟨Members.length_eq_of_keys hxs hys hkeys, fun m hm => ?_⟩
    have hx := Members.get?_of_mem hxs hm
    have hm' := hget m.1
    rw [hx, Option.map_some] at hm'
    obtain ⟨y, hy, hdatum⟩ := Option.map_eq_some_iff.1 hm'.symm
    have hintegral := hvalues _ (Members.mem_of_get? hy)
    exact ⟨y, hy, (h m hm hintegral).2 hdatum.symm⟩

namespace Value

variable {a b : Value}

theorem number_agrees_iff {x : Number} {i : Int} (hx : x.toInt? = some i) (hb : b.Integral) :
    (number x).agrees b = true ↔ (number x).datum = b.datum := by
  rw [datum, Number.datum_eq hx]
  cases hb with
  | natural n => exact (Number.agrees_iff hx rfl).trans (Datum.integer.injEq ..).symm.to_iff
  | negative j hj => exact (Number.agrees_iff hx rfl).trans (Datum.integer.injEq ..).symm.to_iff
  | _ => exact iff_of_false Bool.false_ne_true Datum.noConfusion

/-- Values without doubles agree just when they are the same. -/
theorem agrees_iff (ha : a.Integral) (hb : b.Integral) : a.agrees b = true ↔ a.datum = b.datum := by
  induction ha generalizing b with
  | natural n => exact number_agrees_iff rfl hb
  | negative i hi => exact number_agrees_iff rfl hb
  | null => cases hb <;> simp [agrees, datum, Number.datum]
  | bool x => cases hb <;> simp [agrees, datum, Number.datum]
  | string s => cases hb <;> simp [agrees, datum, Number.datum]
  | array hxs ih =>
    cases hb with
    | array hys =>
      rw [agrees, datum, datum, Datum.array.injEq]
      exact itemsAgree_iff_datum hys ih
    | _ => simp [agrees, datum, Number.datum]
  | object hxs _ ih =>
    cases hb with
    | object hys hvalues =>
      rw [agrees, datum, datum, Datum.object.injEq, Bool.and_eq_true, beq_iff_eq]
      exact membersAgree_iff_datum hxs hys hvalues ih
    | _ => simp [agrees, datum, Number.datum]

end Value

end Json

/-! ## Rules -/

open Json

/-- A rule that asks for a member has an answer, and it is whether the value of the field is one. -/
theorem Rule.member_iff {field : String} {members : List Value} {record : Record}
    (hmembers : ∀ m ∈ members, m.Integral)
    (hfield : ∀ v, record.resolve field = some v → v.Integral) :
    let rule : Rule := ⟨field, .member, .array members⟩
    ∃ answer, rule.check record = .ok answer ∧ rule.matches record = answer ∧
      (answer = true ↔ ∃ v, record.resolve field = some v ∧ ∃ m ∈ members, m.datum = v.datum) := by
  intro rule
  cases hv : record.resolve field with
  | none =>
    have hcheck : rule.check record = .ok false := by
      unfold Rule.check
      rw [hv]
    refine ⟨false, hcheck, ?_, by simp⟩
    rw [Rule.matches, hcheck]
  | some v =>
    have hcheck : rule.check record = .ok (members.any v.agrees) := check_of_resolve hv
    refine ⟨_, hcheck, by rw [Rule.matches, hcheck], ?_⟩
    rw [List.any_eq_true]
    constructor
    · rintro ⟨m, hm, hagrees⟩
      exact ⟨v, rfl, m, hm, ((Value.agrees_iff (hfield v hv) (hmembers m hm)).1 hagrees).symm⟩
    · rintro ⟨w, hw, m, hm, hdatum⟩
      obtain rfl := Option.some.inj hw
      exact ⟨m, hm, (Value.agrees_iff (hfield v hv) (hmembers m hm)).2 hdatum.symm⟩

/-- Values without doubles agree just when they are the same JSON value. On them agreeing is therefore
reflexive, symmetric and transitive, and a rule that asks for a member of an array matches just when the
value of the field is a member. -/
theorem Json.Value.agrees_exact :
    (∀ a b : Value, a.Integral → b.Integral → (a.agrees b = true ↔ a.datum = b.datum)) ∧
    (∀ a : Value, a.Integral → a.agrees a = true) ∧
    (∀ a b : Value, a.Integral → b.Integral → a.agrees b = true → b.agrees a = true) ∧
    (∀ a b c : Value, a.Integral → b.Integral → c.Integral → a.agrees b = true →
      b.agrees c = true → a.agrees c = true) ∧
    ∀ (field : String) (members : List Value) (record : Record), (∀ m ∈ members, m.Integral) →
      (∀ v, record.resolve field = some v → v.Integral) →
      let rule : Rule := ⟨field, .member, .array members⟩
      ∃ answer, rule.check record = .ok answer ∧ rule.matches record = answer ∧
        (answer = true ↔ ∃ v, record.resolve field = some v ∧ ∃ m ∈ members, m.datum = v.datum) := by
  refine ⟨fun a b => agrees_iff, fun a ha => ?_, fun a b ha hb hab => ?_,
    fun a b c ha hb hc hab hbc => ?_, fun field members record => Rule.member_iff⟩
  · exact (agrees_iff ha ha).2 rfl
  · exact (agrees_iff hb ha).2 ((agrees_iff ha hb).1 hab).symm
  · exact (agrees_iff ha hc).2 (((agrees_iff ha hb).1 hab).trans ((agrees_iff hb hc).1 hbc))

/-- A nested object among the members of a rule. -/
theorem Json.Value.agrees_exact_of_address :
    let zip : Value := .number (.natural 33401)
    let address : Value := .object [("city", .string "WPB"), ("zip", zip)]
    let record : Record := [("address", address)]
    (∀ m ∈ [zip, address], m.Integral) ∧
      (∀ v, record.resolve "address" = some v → v.Integral) ∧
      (⟨"address", .member, .array [zip, address]⟩ : Rule).check record = .ok true := by
  intro zip address record
  have hzip : zip.Integral := .natural 33401
  have haddress : address.Integral := by
    refine .object (by decide) (List.forall_mem_cons.2 ⟨.string "WPB", ?_⟩)
    exact List.forall_mem_singleton.2 hzip
  have hmembers : ∀ m ∈ [zip, address], m.Integral :=
    List.forall_mem_cons.2 ⟨hzip, List.forall_mem_singleton.2 haddress⟩
  have hfield : ∀ v, record.resolve "address" = some v → v.Integral := by
    intro v hv
    obtain rfl : address = v := Option.some.inj hv
    exact haddress
  obtain ⟨answer, hcheck, -, hanswer⟩ :=
    agrees_exact.2.2.2.2 "address" [zip, address] record hmembers hfield
  obtain rfl : answer = true :=
    hanswer.2 ⟨address, rfl, address, List.mem_cons_of_mem _ List.mem_cons_self, rfl⟩
  exact ⟨hmembers, hfield, hcheck⟩

end SealedCustody
