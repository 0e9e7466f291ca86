import SealedCustody.Criteria
import SealedCustody.Proofs.Json.Members
import SealedCustody.Proofs.Text.Splitting

/-!
# Dotted paths

A field is looked up as one key first, and part by part only if there is no such key. In a record without
dots in its keys only a field of one part can be found as a key, and there part by part comes to the same
(`Record.resolve_eq_walk`). So looking up a field is walking along its parts, and walking along the parts
of two paths is walking along those of the one and from there along those of the other
(`Record.walk_append`).

A rule with the path of an object put in front of its field therefore does on the record what the rule
does on the object, down to the faults, which name the longer field (`Record.paths_compose`).
-/

namespace SealedCustody

open Json

namespace Record

variable {record inner : Record} {field : String} {v : Value}

/-- No key contains a dot, neither of the record nor of any object that is nested in it. -/
inductive Undotted : Record → Prop
  | intro {record : Record} (keys : ∀ m ∈ record, '.' ∉ m.1.toList)
      (nested : ∀ key inner, (key, Value.object inner) ∈ record → Undotted inner) : Undotted record

/-! ## Walks -/

theorem walk_cons (record : Record) (key : String) (parts : List String) :
    walk (.object record) (key :: parts) = (record.get? key).bind (walk · parts) := by
  rw [walk]
  cases record.get? key <;> rfl

theorem walk_singleton (record : Record) (key : String) :
    walk (.object record) [key] = record.get? key := by
  rw [walk_cons]
  exact Option.bind_fun_some _

/-- A walk along some keys and then others is a walk on from where the first ends. -/
theorem walk_append (v : Value) (parts rest : List String) :
    walk v (parts ++ rest) = (walk v parts).bind (walk · rest) := by
  induction parts generalizing v with
  | nil => rfl
  | cons part parts ih =>
    cases v with
    | object members =>
      rw [List.cons_append, walk_cons, walk_cons, Option.bind_assoc]
      exact congrArg (Option.bind _) (funext ih)
    | _ => rfl

/-- Only an object is walked through. -/
theorem exists_object_of_walk {w : Value} (h : walk w (Text.split '.' field) = some v) :
    ∃ members, w = .object members := by
  cases hparts : Text.split '.' field with
  | nil => exact absurd hparts (Text.split_ne_nil '.' field)
  | cons part parts =>
    rw [hparts] at h
    cases w with
    | object members => exact ⟨members, rfl⟩
    | _ => cases h

/-- What is walked to has no dots in its keys either. -/
theorem Undotted.of_walk {parts : List String} (h : record.Undotted)
    (hwalk : walk (.object record) parts = some (.object inner)) : inner.Undotted := by
  induction parts generalizing record with
  | nil =>
    obtain rfl := Value.object.inj (Option.some.inj hwalk)
    exact h
  | cons part parts ih =>
    obtain ⟨-, hnested⟩ := h
    rw [walk_cons, Option.bind_eq_some_iff] at hwalk
    obtain ⟨w, hget, hwalk⟩ := hwalk
    cases w with
    | object members => exact ih (hnested part members (Members.mem_of_get? hget)) hwalk
    | _ =>
      -- nothing else is walked through, and it is no object to end at
      cases parts <;> cases hwalk

/-! ## Looking up a field -/

/-- A field without a dot is one key. -/
theorem resolve_eq_get? (h : '.' ∉ field.toList) (record : Record) :
    record.resolve field = record.get? field := by
  unfold resolve
  rw [Text.split_eq_singleton h, walk_singleton]
  cases record.get? field <;> rfl

/-- Without dots in the keys a field is looked up by a walk along its parts. -/
theorem resolve_eq_walk (h : record.Undotted) (field : String) :
    record.resolve field = walk (.object record) (Text.split '.' field) := by
  by_cases hdot : '.' ∈ field.toList
  · obtain ⟨hkeys, -⟩ := h
    unfold resolve
    cases hget : Members.get? field record with
    | none => rfl
    | some w => exact absurd hdot (hkeys _ (Members.mem_of_get? hget))
  · rw [resolve_eq_get? hdot, Text.split_eq_singleton hdot, walk_singleton]

/-- A path and another after a dot lead to where the other leads from the object that the first leads
to. -/
theorem resolve_append_eq_some_iff (h : record.Undotted) (p q : String) :
    record.resolve (p ++ "." ++ q) = some v ↔
      ∃ o, record.resolve p = some (.object o) ∧ Record.resolve o q = some v := by
  have hsplit : Text.split '.' (p ++ "." ++ q) = Text.split '.' p ++ Text.split '.' q :=
    Text.split_append '.' p q
  rw [resolve_eq_walk h, hsplit, walk_append, ← resolve_eq_walk h p, Option.bind_eq_some_iff]
  constructor
  · rintro ⟨w, hp, hq⟩
    obtain ⟨o, rfl⟩ := exists_object_of_walk hq
    have ho : Undotted o := h.of_walk (resolve_eq_walk h p ▸ hp)
    exact ⟨o, hp, (resolve_eq_walk ho q).trans hq⟩
  · rintro ⟨o, hp, hq⟩
    have ho : Undotted o := h.of_walk (resolve_eq_walk h p ▸ hp)
    exact ⟨_, hp, (resolve_eq_walk ho q).symm.trans hq⟩

end Record

/-! ## Rules on nested objects -/

/-- The fault of a rule whose field has a path put in front. -/
def CriteriaFault.under (path : String) : CriteriaFault → CriteriaFault
  | emptyField => emptyField
  | needsNumber op field value => needsNumber op (path ++ "." ++ field) value
  | needsArrayGot field value => needsArrayGot (path ++ "." ++ field) value
  | needsArray field => needsArray (path ++ "." ++ field)
  | notNumeric op field actual value => notNumeric op (path ++ "." ++ field) actual value
  | notRecord kind => notRecord kind

namespace Rule

variable {record : Record}

/-- The rule with a path put in front of its field. -/
def under (path : String) (r : Rule) : Rule := { r with field := path ++ "." ++ r.field }

theorem numericOrder_under (path : String) (r : Rule) (actual : Value) :
    (r.under path).numericOrder actual = (r.numericOrder actual).mapError (·.under path) := by
  obtain ⟨field, op, value⟩ := r
  unfold numericOrder under
  dsimp only
  split
  · split <;> rfl
  · rfl

/-- A rule does the same on a value, whatever stands in front of its field. -/
theorem checkValue_under (path : String) (r : Rule) (actual : Value) :
    (r.under path).checkValue actual = (r.checkValue actual).mapError (·.under path) := by
  have horder := numericOrder_under path r actual
  obtain ⟨field, op, value⟩ := r
  unfold checkValue
  rw [horder]
  cases op with
  | equal => rfl
  | member => cases value <;> rfl
  | greater => cases numericOrder ⟨field, .greater, value⟩ actual <;> rfl
  | less => cases numericOrder ⟨field, .less, value⟩ actual <;> rfl

/-- On the object that a path leads to a rule does what the rule with the path in front does on the
record. -/
theorem check_under {o : Record} {path : String} (h : record.Undotted)
    (hpath : record.resolve path = some (.object o)) (r : Rule) :
    (r.under path).check record = (r.check o).mapError (·.under path) := by
  have hresolve : record.resolve (r.under path).field = o.resolve r.field := by
    refine Option.ext fun v => (Record.resolve_append_eq_some_iff h path r.field).trans ?_
    rw [hpath]
    constructor
    · rintro ⟨o', ho', hv⟩
      obtain rfl := Value.object.inj (Option.some.inj ho')
      exact hv
    · exact fun hv => ⟨o, rfl, hv⟩
  unfold check
  rw [hresolve]
  cases o.resolve r.field with
  | none => rfl
  | some actual => exact checkValue_under path r actual

/-- Where a path does not lead to an object, the rule with the path in front finds nothing. -/
theorem check_under_of_not_object {path : String} (h : record.Undotted)
    (hpath : ∀ o, record.resolve path ≠ some (.object o)) (r : Rule) :
    (r.under path).check record = .ok false := by
  have hresolve : record.resolve (r.under path).field = none := by
    refine Option.eq_none_iff_forall_ne_some.2 fun v hv => ?_
    obtain ⟨o, ho, -⟩ := (Record.resolve_append_eq_some_iff h path r.field).1 hv
    exact hpath o ho
  unfold check
  rw [hresolve]

theorem matches_eq_of_check_eq {r r' : Rule} {o : Record} {f : CriteriaFault → CriteriaFault}
    (h : r'.check record = (r.check o).mapError f) : r'.matches record = r.matches o := by
  unfold Rule.matches
  rw [h]
  cases r.check o <;> rfl

end Rule

/-- A field without a dot is one key. In a record without dots in its keys, also in those of nested
objects, a path and another after a dot lead to where the other leads from the object that the first
leads to. So a rule with a path in front of its field does what the rule does on the object that the path
leads to, and nothing if it leads to none. -/
theorem Record.paths_compose :
    (∀ (record : Record) (field : String), '.' ∉ field.toList →
      record.resolve field = record.get? field) ∧
    ∀ record : Record, record.Undotted →
      (∀ (p q : String) (v : Value), record.resolve (p ++ "." ++ q) = some v ↔
        ∃ o, record.resolve p = some (.object o) ∧ Record.resolve o q = some v) ∧
      ∀ (path : String) (r : Rule),
        (∀ o, record.resolve path = some (.object o) →
          (r.under path).check record = (r.check o).mapError (·.under path) ∧
          (r.under path).matches record = r.matches o) ∧
        ((∀ o, record.resolve path ≠ some (.object o)) →
          (r.under path).check record = .ok false ∧ (r.under path).matches record = false) := by
  refine ⟨fun record field h => resolve_eq_get? h record, fun record h =>
    ⟨fun p q v => resolve_append_eq_some_iff h p q, fun path r => ⟨fun o ho => ?_, fun hnone => ?_⟩⟩⟩
  · have hcheck := Rule.check_under h ho r
    exact ⟨hcheck, Rule.matches_eq_of_check_eq hcheck⟩
  · have hcheck := Rule.check_under_of_not_object h hnone r
    refine ⟨hcheck, ?_⟩
    rw [Rule.matches, hcheck]

/-- A path with an empty part, into an object that is nested twice. -/
theorem Record.paths_compose_of_empty_part :
    let year : Value := .number (.natural 2003)
    let born : Record := [("year", year)]
    let record : Record := [("DOB", .object [("", .object born)])]
    let rule : Rule := ⟨"year", .less, .number (.natural 2008)⟩
    '.' ∉ "DOB".toList ∧ record.resolve "DOB" = some (.object [("", .object born)]) ∧
      record.Undotted ∧ record.resolve "DOB." = some (.object born) ∧
      record.resolve "DOB..year" = some year ∧
      (rule.under "DOB.").matches record = true ∧
      (∀ o, record.resolve "DOB..year" ≠ some (.object o)) ∧
      (rule.under "DOB..year").matches record = false := by
  intro year born record rule
  have hborn : Undotted born := by
    refine .intro (List.forall_mem_singleton.2 (by decide)) fun key inner hmem => ?_
    exact Value.noConfusion (Prod.mk.inj (List.mem_singleton.1 hmem)).2
  have hmiddle : Undotted [("", .object born)] := by
    refine .intro (List.forall_mem_singleton.2 (by decide)) fun key inner hmem => ?_
    cases (Prod.mk.inj (List.mem_singleton.1 hmem)).2
    exact hborn
  have hrecord : record.Undotted := by
    refine .intro (List.forall_mem_singleton.2 (by decide)) fun key inner hmem => ?_
    cases (Prod.mk.inj (List.mem_singleton.1 hmem)).2
    exact hmiddle
  obtain ⟨hkey, hcompose⟩ := paths_compose
  obtain ⟨hpaths, hrules⟩ := hcompose record hrecord
  have hdob : '.' ∉ "DOB".toList := by decide
  have hfield : record.resolve "DOB" = some (.object [("", .object born)]) := hkey record "DOB" hdob
  have hpath : record.resolve "DOB." = some (.object born) :=
    (hpaths "DOB" "" _).2 ⟨_, hfield, hkey _ "" (by decide)⟩
  have hyear : record.resolve "DOB..year" = some year :=
    (hpaths "DOB." "year" year).2 ⟨born, hpath, hkey born "year" (by decide)⟩
  have hnone : ∀ o, record.resolve "DOB..year" ≠ some (.object o) := by
    intro o ho
    exact Value.noConfusion (Option.some.inj (hyear.symm.trans ho))
  have hmatches := ((hrules "DOB." rule).1 born hpath).2
  exact ⟨hdob, hfield, hrecord, hpath, hyear, hmatches.trans rfl, hnone,
    ((hrules "DOB..year" rule).2 hnone).2⟩

end SealedCustody
