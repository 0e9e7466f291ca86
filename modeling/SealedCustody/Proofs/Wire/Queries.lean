import SealedCustody.Proofs.Json.Members
import SealedCustody.Proofs.Wire.Messages
import SealedCustody.Proofs.Wire.Schemas
import SealedCustody.Stream.Handler

/-!
# Which criteria can be asked about

A criteria is submitted as a text of its own and sent to a custody node inside a query, one object
deeper. Both readers allow the same depth. What was read as a value nests no deeper than was allowed and
its keys ascend (`Tree.legible_of_value?`), so the literals of a criteria that was submitted nest at most
124 deep, below the object of the criteria, a list and the object of a rule. The query is decoded exactly
if they nest at most 123 deep (`Criteria.asked_iff`): a criteria with a literal in between can be
submitted and no custody node can read it.
-/

namespace SealedCustody

namespace Json

/-! ## Values that were read -/

/-- All numbers of the value are integers. -/
inductive Value.Whole : Value → Prop
  | null : Whole .null
  | bool (b : Bool) : Whole (.bool b)
  | natural (n : UInt64) : Whole (.number (.natural n))
  | negative (i : Int64) (h : i < 0) : Whole (.number (.negative i h))
  | string (s : String) : Whole (.string s)
  | array {items : List Value} (h : ∀ v ∈ items, Whole v) : Whole (.array items)
  | object {members : Members} (h : ∀ m ∈ members, Whole m.2) : Whole (.object members)

theorem Value.Whole.number {n : Number} (h : Whole (.number n)) (d : Nat) : Legible d (.number n) := by
  cases h with
  | natural n => exact .natural n
  | negative i hi => exact .negative i hi

mutual

/-- A value that was read is legible if its numbers are integers. -/
theorem Tree.legible_of_value? (d : Nat) : (t : Tree) → (v : Value) → t.value? d = some v → v.Whole →
    v.Legible d
  | .null, v, h, _ => by
    obtain rfl := Option.some.inj h
    exact .null
  | .bool b, v, h, _ => by
    obtain rfl := Option.some.inj h
    exact .bool b
  | .number n, v, h, hv => by
    obtain ⟨n, -, rfl⟩ := Option.map_eq_some_iff.1 h
    exact hv.number d
  | .string s, v, h, _ => by
    obtain ⟨s, -, rfl⟩ := Option.map_eq_some_iff.1 h
    exact .string s
  | .array items, v, h, hv => by
    cases d with
    | zero => cases h
    | succ d =>
      obtain ⟨vs, hvs, rfl⟩ := Option.map_eq_some_iff.1 h
      cases hv with
      | array hv => exact .array fun v hmem => legible_of_itemValues? d items vs hvs v hmem (hv v hmem)
  | .object members, v, h, hv => by
    cases d with
    | zero => cases h
    | succ d =>
      obtain ⟨ms, hms, rfl⟩ := Option.map_eq_some_iff.1 h
      obtain ⟨hascending, hmem⟩ := Members.ofList_spec ms
      cases hv with
      | object hv =>
        exact .object hascending fun m hm =>
          legible_of_memberValues? d members ms hms m (hmem m hm) (hv m hm)

theorem legible_of_itemValues? (d : Nat) : (items : List Tree) → (vs : List Value) →
    itemValues? d items = some vs → ∀ v ∈ vs, v.Whole → v.Legible d
  | [], vs, h, v, hv, _ => by
    obtain rfl := Option.some.inj h
    cases hv
  | t :: items, vs, h, v, hv, hwhole => by
    rw [itemValues?] at h
    cases ht : t.value? d with
    | none =>
      rw [ht] at h
      cases h
    | some w =>
      rw [ht] at h
      obtain ⟨ws, hws, rfl⟩ := Option.map_eq_some_iff.1 h
      rcases List.mem_cons.1 hv with rfl | hv
      · exact t.legible_of_value? d _ ht hwhole
      · exact legible_of_itemValues? d items ws hws v hv hwhole

theorem legible_of_memberValues? (d : Nat) : (members : List (Option String × Tree)) →
    (ms : List (String × Value)) → memberValues? d members = some ms →
    ∀ m ∈ ms, m.2.Whole → m.2.Legible d
  | [], ms, h, m, hm, _ => by
    obtain rfl := Option.some.inj h
    cases hm
  | (key, t) :: members, ms, h, m, hm, hwhole => by
    unfold memberValues? at h
    split at h
    · next k w ht =>
      obtain ⟨ws, hws, rfl⟩ := Option.map_eq_some_iff.1 h
      rcases List.mem_cons.1 hm with rfl | hm
      · exact t.legible_of_value? d _ ht hwhole
      · exact legible_of_memberValues? d members ws hws m hm hwhole
    · cases h

end

/-! ## Forms that were read -/

/-- A record takes one level of what may be opened. -/
theorem Tree.of_fields? {names : List String} {unknown : Unknown} {n d : Nat} {t : Tree}
    {fields : Fields} (h : t.fields? names unknown n = some (fields, d)) : n = d + 1 := by
  unfold fields? at h
  split at h
  · split at h
    · rw [← (Prod.mk.inj (Option.some.inj h)).2]
    · cases h
  · split at h
    · rw [← (Prod.mk.inj (Option.some.inj h)).2]
    · cases h
  · cases h

theorem Format.exists_of_mem_readAll {α : Type} {f : Format α} {d : Nat} {items : List Tree}
    {as : List α} (h : f.readAll d items = some as) {a : α} (ha : a ∈ as) :
    ∃ t, f.read d t = some a := by
  induction items generalizing as with
  | nil =>
    obtain rfl := Option.some.inj h
    cases ha
  | cons t items ih =>
    rw [readAll] at h
    cases ht : f.read d t with
    | none =>
      rw [ht] at h
      cases h
    | some b =>
      rw [ht] at h
      obtain ⟨bs, hbs, rfl⟩ := Option.map_eq_some_iff.1 h
      rcases List.mem_cons.1 ha with rfl | ha
      · exact ⟨t, ht⟩
      · exact ih hbs ha

/-- What was read as a list was read item by item, one level deeper. -/
theorem Format.of_list_read {α : Type} {f : Format α} {n : Nat} {t : Tree} {as : List α}
    (h : (list f).read n t = some as) : ∃ d, n = d + 1 ∧ ∀ a ∈ as, ∃ t, f.read d t = some a := by
  cases n with
  | zero => cases h
  | succ d =>
    cases t with
    | array items => exact ⟨d, rfl, fun a ha => exists_of_mem_readAll h ha⟩
    | _ => cases h

end Json

open Json

/-- The literal of a rule that was read was read one level deeper. -/
theorem Rule.of_read {n : Nat} {t : Tree} {r : Rule} (h : Rule.format.read n t = some r) :
    ∃ d, n = d + 1 ∧ ∃ t : Tree, t.value? d = some r.value := by
  obtain ⟨⟨fields, d⟩, hfields, h⟩ := Option.bind_eq_some_iff.1 h
  obtain ⟨field, -, h⟩ := Option.bind_eq_some_iff.1 h
  obtain ⟨op, -, h⟩ := Option.bind_eq_some_iff.1 h
  obtain ⟨value, hvalue, h⟩ := Option.bind_eq_some_iff.1 h
  obtain rfl := Option.some.inj h
  obtain ⟨t', -, ht'⟩ := Option.bind_eq_some_iff.1 hvalue
  exact ⟨d, Tree.of_fields? hfields, t', ht'⟩

/-- The numbers in the literals of all rules are integers. -/
def Criteria.Whole (c : Criteria) : Prop := ∀ r ∈ c.all ++ c.any, r.value.Whole

/-- The literals of a criteria that was read are legible three levels deeper. -/
theorem Criteria.legible_of_read {d : Nat} {t : Tree} {c : Criteria}
    (h : Criteria.format.read (d + 3) t = some c) (hc : c.Whole) : c.Legible d := by
  obtain ⟨⟨fields, d'⟩, hfields, h⟩ := Option.bind_eq_some_iff.1 h
  obtain ⟨name, -, h⟩ := Option.bind_eq_some_iff.1 h
  obtain ⟨all, hall, h⟩ := Option.bind_eq_some_iff.1 h
  obtain ⟨any, hany, h⟩ := Option.bind_eq_some_iff.1 h
  obtain rfl := Option.some.inj h
  have hd' : d' = d + 2 := (Nat.succ.inj (Tree.of_fields? hfields)).symm
  have hrules : ∀ (name : String) (rs : List Rule),
      fields.withDefault name (.list Rule.format) d' [] = some rs →
      ∀ r ∈ rs, ∃ t : Tree, t.value? d = some r.value := by
    intro name rs hrs r hr
    unfold Fields.withDefault at hrs
    split at hrs
    · obtain rfl := Option.some.inj hrs
      cases hr
    · obtain ⟨d₁, hd₁, hitems⟩ := Format.of_list_read hrs
      obtain ⟨t₁, ht₁⟩ := hitems r hr
      obtain ⟨d₂, hd₂, hvalue⟩ := Rule.of_read ht₁
      have hsame : d₂ = d := by omega
      exact hsame ▸ hvalue
  intro r hr
  obtain ⟨t', ht'⟩ := (List.mem_append.1 hr).elim (hrules "All" all hall r) (hrules "Any" any hany r)
  exact t'.legible_of_value? d r.value ht' (hc r hr)

/-- The literals of all rules nest at most so deep. -/
def Criteria.LiteralsNest (d : Nat) (c : Criteria) : Prop :=
  ∀ r ∈ c.all ++ c.any, r.value.tree.depth ≤ d

theorem Criteria.LiteralsNest.legible {d e : Nat} {c : Criteria} (h : c.LiteralsNest d)
    (hc : c.Legible e) : c.Legible d :=
  fun r hr => Value.legible_iff.2 ⟨(Value.legible_iff.1 (hc r hr)).1, h r hr⟩

/-- A query that is decoded nests no deeper than the reader allows, and its literals four levels less. -/
theorem VerifyRequest.literalsNest_of_read {d : Nat} {q : VerifyRequest} {e : Nat}
    (hq : q.criteria.Legible e)
    (h : (VerifyRequest.format.read (d + 4) (VerifyRequest.format.tree q)).isSome) :
    q.criteria.LiteralsNest d := by
  have hdepth := ((VerifyRequest.reads_schema _ _).1 h).1.2
  have hintegral : q.criteria.Integral := fun r hr => (Value.legible_iff.1 (hq r hr)).1
  have hlegible := Criteria.legible_of_depth hintegral (VerifyRequest.depth_criteria_le hdepth)
  exact fun r hr => (Value.legible_iff.1 (hlegible r hr)).2

theorem Json.Value.whole_nested (n : Nat) : (nested n).Whole := by
  induction n with
  | zero => exact .null
  | succ n ih => exact .array (List.forall_mem_singleton.2 ih)

/-- **Criteria that were submitted can be asked about, unless a literal nests 124 deep.** However a
criteria whose numbers are integers was submitted, its literals nest at most 124 deep. If they nest at
most 123 deep, a query with it is decoded as it was encoded, and every custody node answers it with its
verdict. If one nests 124 deep, the query is malformed on every protocol, and no custody node answers. -/
theorem Criteria.asked_iff {p : ProtocolId} {bs : List UInt8} {c : Criteria}
    (submitted : p.decode Criteria.format bs = .ok c) (hc : c.Whole) (requestId subjectId : String) :
    let q : VerifyRequest := ⟨requestId, subjectId, c⟩
    let asked := VerifyRequest.format.octets q
    c.LiteralsNest 124 ∧
      (c.LiteralsNest 123 → VerifyRequest.format.Survives q ∧
        ∀ custody, (Service.verify.respond custody asked).reply =
          .ok (VerifyResponse.format.octets ⟨requestId, custody.verdict subjectId c⟩)) ∧
      (¬c.LiteralsNest 123 →
        (∀ p' : ProtocolId, ∃ detail, p'.decode VerifyRequest.format asked =
          .error (.protocol p'.text (.malformed detail))) ∧
        ∀ custody, ∃ e, (Service.verify.respond custody asked).reply = .error e) := by
  intro q asked
  obtain ⟨t, -, ht⟩ := ProtocolId.exists_tree submitted
  have hlegible : c.Legible 124 := Criteria.legible_of_read ht hc
  refine ⟨fun r hr => (Value.legible_iff.1 (hlegible r hr)).2, fun hnest => ?_, fun hdeep => ?_⟩
  · have hsurvives : VerifyRequest.format.Survives q := fun p' =>
      p'.decode_octets (VerifyRequest.keeps (d := 123) (hnest.legible hlegible))
    refine ⟨hsurvives, fun custody => ?_⟩
    rw [Service.respond, Custody.answerQuery, hsurvives .verify]
    rfl
  · have hunread : VerifyRequest.format.ofOctets? asked = none := by
      rw [Format.ofOctets?_octets _ (VerifyRequest.keeps (q := q) hlegible).exact]
      by_contra hsome
      exact hdeep (VerifyRequest.literalsNest_of_read (d := 123) hlegible
        (Option.isSome_iff_ne_none.2 hsome))
    have hmalformed : ∀ p' : ProtocolId, ∃ detail, p'.decode VerifyRequest.format asked =
        .error (.protocol p'.text (.malformed detail)) := by
      intro p'
      rw [ProtocolId.decode, hunread]
      exact ⟨_, rfl⟩
    refine ⟨hmalformed, fun custody => ?_⟩
    obtain ⟨detail, hdetail⟩ := hmalformed .verify
    rw [Service.respond, Custody.answerQuery, hdetail]
    exact ⟨_, rfl⟩

/-- A criteria that can be submitted and not be asked about: one literal of 124 arrays. -/
theorem Criteria.submitted_not_asked :
    let c : Criteria := ⟨none, [⟨"age", .equal, .nested 124⟩], []⟩
    let asked := VerifyRequest.format.octets ⟨"r1", "u1", c⟩
    ProtocolId.verify.decode Criteria.format (Criteria.format.octets c) = .ok c ∧ c.Whole ∧
      ¬c.LiteralsNest 123 ∧
      ∃ detail, ProtocolId.verify.decode VerifyRequest.format asked =
        .error (.protocol ProtocolId.verify.text (.malformed detail)) := by
  intro c asked
  have hwhole : c.Whole := List.forall_mem_singleton.2 (Value.whole_nested 124)
  have hlegible : c.Legible 124 := List.forall_mem_singleton.2
    (Value.legible_iff.2 ⟨Value.integral_nested 124, (Value.depth_tree_nested 124).le⟩)
  have hsubmitted := ProtocolId.verify.decode_octets (Criteria.keeps hlegible)
  have hdeep : ¬c.LiteralsNest 123 := fun h => by
    have hle := h _ (List.mem_singleton_self _)
    rw [Value.depth_tree_nested] at hle
    omega
  obtain ⟨-, -, hnot⟩ := Criteria.asked_iff hsubmitted hwhole "r1" "u1"
  exact ⟨hsubmitted, hwhole, hdeep, (hnot hdeep).1 .verify⟩

end SealedCustody
