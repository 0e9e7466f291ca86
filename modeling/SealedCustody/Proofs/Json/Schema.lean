import SealedCustody.Proofs.Json.Depth
import SealedCustody.Proofs.Json.Parsing
import Mathlib.Data.List.Nodup

/-!
# Schemas

A schema tells the trees that a type is given by (`Schema.Accepts`), whatever reads them. A record is
given by an object, its fields in any order and none repeated, or by an array with the fields in order,
of which the last may be missing; either leaves out no field but those that may be.

A form reads a schema (`Format.Reads`) if it has a value for the trees that the schema accepts, that can
be held and that nest no deeper than allowed, and for no others. That is shown for the forms of texts,
values, lists and choices, and for the form of a record from those of its fields
(`Format.reads_record`).
-/

namespace SealedCustody.Json

/-- A field of a record: what it is called, what it holds and whether it may be left out. -/
structure Field (σ : Type) where
  name : String
  schema : σ
  omissible : Bool

/-- What a type is given by. -/
inductive Schema where
  | text
  | any
  | nullable (s : Schema)
  | list (s : Schema)
  | choice (names : List String)
  | record (fields : List (Field Schema))

/-- The tree is of the schema. -/
inductive Schema.Accepts : Schema → Tree → Prop
  | text (s : String) : Accepts .text (.string (some s))
  | any (t : Tree) : Accepts .any t
  | null (s : Schema) : Accepts (.nullable s) .null
  | given {s : Schema} {t : Tree} (h : Accepts s t) : Accepts (.nullable s) t
  | list {s : Schema} {items : List Tree} (h : ∀ t ∈ items, Accepts s t) :
      Accepts (.list s) (.array items)
  /-- One of the names, as a string. -/
  | name {names : List String} {n : String} (h : n ∈ names) :
      Accepts (.choice names) (.string (some n))
  /-- One of the names, as the one key of an object, with `null`. -/
  | keyed {names : List String} {n : String} (h : n ∈ names) :
      Accepts (.choice names) (.object [(some n, .null)])
  /-- Every key is a field, no key is repeated, and every field is there that may not be left out. -/
  | object {fields : List (Field Schema)} {members : List (Option String × Tree)}
      (known : ∀ m ∈ members, ∃ f ∈ fields, m.1 = some f.name)
      (once : (members.map (·.1)).Nodup)
      (present : ∀ f ∈ fields, f.omissible = false → ∃ m ∈ members, m.1 = some f.name)
      (accepted : ∀ f ∈ fields, ∀ m ∈ members, m.1 = some f.name → Accepts f.schema m.2) :
      Accepts (.record fields) (.object members)
  /-- There are no more items than fields, each stands in the place of its field, and every field for
  which there is no item may be left out. -/
  | array {fields : List (Field Schema)} {items : List Tree} (fitting : items.length ≤ fields.length)
      (present : ∀ (i : Nat) (f : Field Schema), fields[i]? = some f → items[i]? = none →
        f.omissible = true)
      (accepted : ∀ (i : Nat) (f : Field Schema) (t : Tree), fields[i]? = some f → items[i]? = some t →
        Accepts f.schema t) :
      Accepts (.record fields) (.array items)

/-! ## Legible trees -/

/-- The tree can be held and nests no deeper than allowed. -/
def Tree.Legible (d : Nat) (t : Tree) : Prop := t.Held ∧ t.depth ≤ d

namespace Tree

theorem legible_string_iff {d : Nat} {s : Option String} : (string s).Legible d ↔ s.isSome := by
  simp [Legible, held_string_iff, depth]

theorem legible_number_iff {d : Nat} {n : Option Number} : (number n).Legible d ↔ n.isSome := by
  simp [Legible, held_number_iff, depth]

theorem not_legible_array_zero {items : List Tree} : ¬(array items).Legible 0 :=
  fun h => not_depth_array_le_zero h.2

theorem not_legible_object_zero {members : List (Option String × Tree)} : ¬(object members).Legible 0 :=
  fun h => not_depth_object_le_zero h.2

theorem legible_array_iff {d : Nat} {items : List Tree} :
    (array items).Legible (d + 1) ↔ ∀ t ∈ items, t.Legible d := by
  rw [Legible, held_array_iff, depth_array_le_iff, ← forall₂_and]
  rfl

theorem legible_object_iff {d : Nat} {members : List (Option String × Tree)} :
    (object members).Legible (d + 1) ↔ ∀ m ∈ members, m.1.isSome ∧ m.2.Legible d := by
  rw [Legible, held_object_iff, depth_object_le_iff, ← forall₂_and]
  simp only [and_assoc]
  rfl

end Tree

mutual

/-- A value is read from every tree that is legible. -/
theorem Tree.isSome_value?_iff (d : Nat) : (t : Tree) → ((t.value? d).isSome ↔ t.Legible d)
  | .null | .bool true | .bool false => by
    simp [Tree.value?, Tree.Legible, Tree.Held, Tree.depth, Tree.tokens, Token.isHeld]
  | .number n => by
    rw [Tree.legible_number_iff, Tree.value?, Option.isSome_map]
  | .string s => by
    rw [Tree.legible_string_iff, Tree.value?, Option.isSome_map]
  | .array items => by
    cases d with
    | zero => exact iff_of_false nofun Tree.not_legible_array_zero
    | succ d =>
      rw [Tree.value?, Option.isSome_map, isSome_itemValues?_iff d items, Tree.legible_array_iff]
  | .object members => by
    cases d with
    | zero => exact iff_of_false nofun Tree.not_legible_object_zero
    | succ d =>
      rw [Tree.value?, Option.isSome_map, isSome_memberValues?_iff d members, Tree.legible_object_iff]

theorem isSome_itemValues?_iff (d : Nat) :
    (items : List Tree) → ((itemValues? d items).isSome ↔ ∀ t ∈ items, t.Legible d)
  | [] => by simp [itemValues?]
  | t :: items => by
    rw [List.forall_mem_cons, ← isSome_itemValues?_iff d items, ← t.isSome_value?_iff d, itemValues?]
    cases t.value? d <;> simp

theorem isSome_memberValues?_iff (d : Nat) : (members : List (Option String × Tree)) →
    ((memberValues? d members).isSome ↔ ∀ m ∈ members, m.1.isSome ∧ m.2.Legible d)
  | [] => by simp [memberValues?]
  | (key, t) :: members => by
    rw [List.forall_mem_cons, ← isSome_memberValues?_iff d members, ← t.isSome_value?_iff d]
    cases key <;> cases hv : t.value? d <;> simp [memberValues?, hv]

end

/-! ## Forms -/

/-- The form has a value for a tree exactly if the tree is legible and the schema accepts it. -/
def Format.Reads {α : Type} (f : Format α) (s : Schema) : Prop :=
  ∀ (d : Nat) (t : Tree), (f.read d t).isSome ↔ t.Legible d ∧ s.Accepts t

namespace Format

theorem reads_text : text.Reads .text := by
  intro d t
  cases t with
  | string s =>
    rw [Tree.legible_string_iff]
    cases s with
    | none => exact iff_of_false nofun fun h => nomatch h.1
    | some s => exact iff_of_true rfl ⟨rfl, .text s⟩
  | _ => exact iff_of_false nofun fun h => nomatch h.2

theorem reads_value : value.Reads .any := by
  intro d t
  refine (t.isSome_value?_iff d).trans ?_
  exact (and_iff_left (.any t)).symm

theorem isSome_readAll_iff {α : Type} {f : Format α} {d : Nat} {items : List Tree} :
    (f.readAll d items).isSome ↔ ∀ t ∈ items, (f.read d t).isSome := by
  induction items with
  | nil => simp [readAll]
  | cons t items ih =>
    rw [List.forall_mem_cons, ← ih, readAll]
    cases f.read d t <;> simp

theorem reads_list {α : Type} {f : Format α} {s : Schema} (hf : f.Reads s) :
    (list f).Reads (.list s) := by
  intro d t
  cases t with
  | array items =>
    cases d with
    | zero => exact iff_of_false nofun fun h => Tree.not_legible_array_zero h.1
    | succ d =>
      have hitems : (f.readAll d items).isSome ↔ ∀ t ∈ items, t.Legible d ∧ s.Accepts t :=
        isSome_readAll_iff.trans (forall₂_congr fun t _ => hf d t)
      rw [Tree.legible_array_iff]
      refine hitems.trans (forall₂_and.trans (and_congr_right fun _ => ⟨.list, ?_⟩))
      intro h
      cases h with
      | list h => exact h
  | _ => exact iff_of_false (by cases d <;> exact nofun) fun h => nomatch h.2

theorem isSome_named?_iff {α : Type} {table : List (String × α)} {name : String} :
    (named? table name).isSome ↔ name ∈ table.map (·.1) := by
  rw [named?, Option.isSome_map, List.find?_isSome, List.mem_map]
  simp

theorem isSome_choice_object_iff {α : Type} {table : List (String × α)} {nameOf : α → String} {d : Nat}
    {members : List (Option String × Tree)} : ((choice table nameOf).read d (.object members)).isSome ↔
      0 < d ∧ ∃ n ∈ table.map (·.1), members = [(some n, .null)] := by
  simp only [choice]
  split
  · contradiction
  · rename_i d n heq
    obtain rfl := Tree.object.inj heq
    rw [isSome_named?_iff]
    refine ⟨fun h => ⟨d.succ_pos, n, h, rfl⟩, ?_⟩
    rintro ⟨-, m, hm, heq⟩
    cases heq
    exact hm
  · rename_i hother
    refine iff_of_false nofun ?_
    rintro ⟨hd, n, -, rfl⟩
    obtain ⟨d, rfl⟩ := Nat.exists_eq_succ_of_ne_zero hd.ne'
    exact hother d n rfl rfl

theorem reads_choice {α : Type} (table : List (String × α)) (nameOf : α → String) :
    (choice table nameOf).Reads (.choice (table.map (·.1))) := by
  intro d t
  cases t with
  | string n =>
    rw [Tree.legible_string_iff]
    cases n with
    | none => exact iff_of_false (by cases d <;> exact nofun) fun h => nomatch h.1
    | some n =>
      have hread : (choice table nameOf).read d (.string (some n)) = named? table n := by
        cases d <;> rfl
      rw [hread, isSome_named?_iff]
      refine ⟨fun h => ⟨rfl, .name h⟩, ?_⟩
      rintro ⟨-, h⟩
      cases h with
      | name h => exact h
  | object members =>
    rw [isSome_choice_object_iff]
    constructor
    · rintro ⟨hd, n, hn, rfl⟩
      obtain ⟨d, rfl⟩ := Nat.exists_eq_succ_of_ne_zero hd.ne'
      refine ⟨?_, .keyed hn⟩
      rw [Tree.legible_object_iff, List.forall_mem_singleton]
      exact ⟨rfl, (Tree.isSome_value?_iff d .null).1 rfl⟩
    · rintro ⟨hlegible, h⟩
      cases h with
      | keyed h =>
        refine ⟨Nat.pos_of_ne_zero ?_, _, h, rfl⟩
        rintro rfl
        exact Tree.not_legible_object_zero hlegible
  | _ => exact iff_of_false (by cases d <;> exact nofun) fun h => nomatch h.2

end Format

/-! ## Records -/

/-- What is given for a field fits it: nothing if the field may be left out, or a legible tree of its
schema. -/
def Field.Fits (f : Field Schema) (d : Nat) : Option Tree → Prop
  | none => f.omissible = true
  | some t => t.Legible d ∧ f.schema.Accepts t

/-- What is given for the fields fits them. -/
def Fields.Fit (given : Fields) (d : Nat) (fields : List (Field Schema)) : Prop :=
  ∀ f ∈ fields, f.Fits d (given f.name)

/-! ### Objects -/

/-- A member of an object is the only one of its key if no key is repeated. -/
theorem fits_find?_iff {members : List (Option String × Tree)} (honce : (members.map (·.1)).Nodup)
    {f : Field Schema} {d : Nat} :
    f.Fits d ((members.find? fun m => m.1 = some f.name).map (·.2)) ↔
      (f.omissible = false → ∃ m ∈ members, m.1 = some f.name) ∧
        ∀ m ∈ members, m.1 = some f.name → m.2.Legible d ∧ f.schema.Accepts m.2 := by
  cases hfind : members.find? fun m => m.1 = some f.name with
  | none =>
    have hnone : ∀ m ∈ members, m.1 ≠ some f.name := by simpa using hfind
    constructor
    · intro h
      rw [Option.map_none, Field.Fits] at h
      exact ⟨fun hf => absurd h (by simp [hf]), fun m hm heq => absurd heq (hnone m hm)⟩
    · rintro ⟨h, -⟩
      rw [Option.map_none, Field.Fits, ← Bool.not_eq_false]
      intro hf
      obtain ⟨m, hm, heq⟩ := h hf
      exact hnone m hm heq
  | some m =>
    have hm : m ∈ members := List.mem_of_find?_eq_some hfind
    have hkey : m.1 = some f.name := by simpa using List.find?_some hfind
    constructor
    · intro h
      refine ⟨fun _ => ⟨m, hm, hkey⟩, fun n hn heq => ?_⟩
      obtain rfl := List.inj_on_of_nodup_map honce hn hm (heq.trans hkey.symm)
      exact h
    · rintro ⟨-, h⟩
      exact h m hm hkey

theorem keyAllowed_refused_iff {fields : List (Field Schema)} {key : Option String} :
    keyAllowed (fields.map (·.name)) .refused key = true ↔ ∃ f ∈ fields, key = some f.name := by
  cases key with
  | none => simp [keyAllowed]
  | some k =>
    have hfield : (∃ f ∈ fields, some k = some f.name) ↔ ∃ f ∈ fields, f.name = k := by
      simp only [Option.some.injEq, eq_comm]
    rw [hfield, ← List.mem_map, keyAllowed, ← List.contains_iff_mem]
    simp

/-- No key is repeated if no field is: every key is a field. -/
theorem noneRepeated_iff {names : List String} {members : List (Option String × Tree)}
    (hknown : ∀ m ∈ members, ∃ n ∈ names, m.1 = some n) :
    noneRepeated names members = true ↔ (members.map (·.1)).Nodup := by
  have hcount : ∀ key, (members.map (·.1)).count key = (members.filter fun m => m.1 = key).length := by
    intro key
    rw [List.count, List.countP_map, List.countP_eq_length_filter]
    exact congrArg List.length (List.filter_congr fun m _ => beq_eq_decide m.1 key)
  simp only [noneRepeated, List.all_eq_true, decide_eq_true_eq, ← hcount, List.nodup_iff_count_le_one]
  refine ⟨fun h key => ?_, fun h name _ => h _⟩
  by_cases hkey : key ∈ members.map (·.1)
  · obtain ⟨m, hm, rfl⟩ := List.mem_map.1 hkey
    obtain ⟨n, hn, heq⟩ := hknown m hm
    rw [heq]
    exact h n hn
  · rw [List.count_eq_zero.2 hkey]
    exact Nat.zero_le 1

/-- The keys that are let in are fields, and none is repeated. -/
theorem keysAllowed_iff {fields : List (Field Schema)} {members : List (Option String × Tree)} :
    (members.all (fun m => keyAllowed (fields.map (·.name)) .refused m.1) &&
        noneRepeated (fields.map (·.name)) members) = true ↔
      (∀ m ∈ members, ∃ f ∈ fields, m.1 = some f.name) ∧ (members.map (·.1)).Nodup := by
  simp only [Bool.and_eq_true, List.all_eq_true, keyAllowed_refused_iff]
  refine and_congr_right fun hknown => noneRepeated_iff fun m hm => ?_
  obtain ⟨f, hf, heq⟩ := hknown m hm
  exact ⟨f.name, List.mem_map_of_mem hf, heq⟩

theorem Tree.fields?_object_iff {fields : List (Field Schema)} {members : List (Option String × Tree)}
    {d : Nat} :
    (∃ given e, (object members).fields? (fields.map (·.name)) .refused d = some (given, e) ∧
      given.Fit e fields) ↔
        (object members).Legible d ∧ (Schema.record fields).Accepts (.object members) := by
  cases d with
  | zero => exact iff_of_false (fun ⟨_, _, h, _⟩ => nomatch h) fun h => not_legible_object_zero h.1
  | succ d =>
    rw [legible_object_iff]
    constructor
    · rintro ⟨given, e, hgiven, hfit⟩
      simp only [fields?] at hgiven
      split at hgiven
      · rename_i hcond
        obtain ⟨rfl, rfl⟩ := Prod.mk.inj (Option.some.inj hgiven)
        obtain ⟨hknown, honce⟩ := keysAllowed_iff.1 hcond
        have hfits := fun f hf => (fits_find?_iff honce).1 (hfit f hf)
        refine ⟨fun m hm => ?_, .object hknown honce (fun f hf => (hfits f hf).1)
          fun f hf m hm heq => ((hfits f hf).2 m hm heq).2⟩
        obtain ⟨f, hf, heq⟩ := hknown m hm
        exact ⟨by rw [heq]; rfl, ((hfits f hf).2 m hm heq).1⟩
      · cases hgiven
    · rintro ⟨hlegible, h⟩
      cases h with
      | object known once present accepted =>
        refine ⟨_, d, if_pos (keysAllowed_iff.2 ⟨known, once⟩), fun f hf => (fits_find?_iff once).2 ?_⟩
        exact ⟨present f hf, fun m hm heq => ⟨(hlegible m hm).2, accepted f hf m hm heq⟩⟩

/-! ### Arrays -/

/-- A field is looked for in its own place if no two have one name. -/
theorem idxOf_name_eq {fields : List (Field Schema)} (hnames : (fields.map (·.name)).Nodup) {i : Nat}
    {f : Field Schema} (hf : fields[i]? = some f) : (fields.map (·.name)).idxOf f.name = i := by
  obtain ⟨hi, rfl⟩ := List.getElem?_eq_some_iff.1 hf
  have h := hnames.idxOf_getElem i (by rwa [List.length_map])
  rwa [List.getElem_map] at h

theorem Tree.fields?_array_iff {fields : List (Field Schema)} (hnames : (fields.map (·.name)).Nodup)
    {items : List Tree} {d : Nat} :
    (∃ given e, (array items).fields? (fields.map (·.name)) .refused d = some (given, e) ∧
      given.Fit e fields) ↔
        (array items).Legible d ∧ (Schema.record fields).Accepts (.array items) := by
  cases d with
  | zero => exact iff_of_false (fun ⟨_, _, h, _⟩ => nomatch h) fun h => not_legible_array_zero h.1
  | succ d =>
    rw [legible_array_iff]
    constructor
    · rintro ⟨given, e, hgiven, hfit⟩
      simp only [fields?, List.length_map] at hgiven
      split at hgiven
      · rename_i hfitting
        obtain ⟨rfl, rfl⟩ := Prod.mk.inj (Option.some.inj hgiven)
        have hfits : ∀ (i : Nat) (f : Field Schema), fields[i]? = some f → f.Fits d items[i]? := by
          intro i f hf
          rw [← idxOf_name_eq hnames hf]
          exact hfit f (List.mem_of_getElem? hf)
        refine ⟨fun t ht => ?_, .array hfitting (fun i f hf hi => ?_) fun i f t hf hi => ?_⟩
        · obtain ⟨i, hi, rfl⟩ := List.mem_iff_getElem.1 ht
          have h := hfits i _ (List.getElem?_eq_getElem (hi.trans_le hfitting))
          rw [List.getElem?_eq_getElem hi] at h
          exact h.1
        · have h := hfits i f hf
          rwa [hi] at h
        · have h := hfits i f hf
          rw [hi] at h
          exact h.2
      · cases hgiven
    · rintro ⟨hlegible, h⟩
      cases h with
      | array fitting present accepted =>
        refine ⟨_, d, if_pos (by rwa [List.length_map]), fun f hf => ?_⟩
        obtain ⟨i, hi⟩ := List.mem_iff_getElem?.1 hf
        show f.Fits d items[(fields.map (·.name)).idxOf f.name]?
        rw [idxOf_name_eq hnames hi]
        cases ht : items[i]? with
        | none => exact present i f hi ht
        | some t => exact ⟨hlegible t (List.mem_of_getElem? ht), accepted i f t hi ht⟩

/-! ### The form of a record -/

/-- A record is read from its fields: all of them are given, each as its form reads it. -/
theorem Format.reads_record {α : Type} {F : Format α} {fields : List (Field Schema)}
    {body : Fields × Nat → Option α}
    (hread : ∀ d t, F.read d t = (t.fields? (fields.map (·.name)) .refused d).bind body)
    (hnames : (fields.map (·.name)).Nodup)
    (hbody : ∀ given d, (body (given, d)).isSome ↔ given.Fit d fields) :
    F.Reads (.record fields) := by
  intro d t
  have hfields : (F.read d t).isSome ↔
      ∃ given e, t.fields? (fields.map (·.name)) .refused d = some (given, e) ∧ given.Fit e fields := by
    rw [hread]
    cases hgiven : t.fields? (fields.map (·.name)) .refused d with
    | none => exact iff_of_false nofun fun ⟨_, _, h, _⟩ => nomatch h
    | some p =>
      obtain ⟨given, e⟩ := p
      refine (hbody given e).trans ⟨fun h => ⟨given, e, rfl, h⟩, ?_⟩
      rintro ⟨_, _, heq, h⟩
      obtain ⟨rfl, rfl⟩ := Prod.mk.inj (Option.some.inj heq)
      exact h
  rw [hfields]
  cases t with
  | object members => exact Tree.fields?_object_iff
  | array items => exact Tree.fields?_array_iff hnames
  | _ => exact iff_of_false (by rintro ⟨_, _, h, -⟩; cases d <;> cases h) fun h => nomatch h.2

namespace Fields

theorem fit_nil {α : Type} {given : Fields} {d : Nat} (a : α) : (some a).isSome ↔ given.Fit d [] :=
  iff_of_true rfl nofun

/-- Fields are read one after another. -/
theorem fit_cons {α β : Type} {given : Fields} {d : Nat} {f : Field Schema}
    {fields : List (Field Schema)} {first : Option α} {rest : α → Option β}
    (hfirst : first.isSome ↔ f.Fits d (given f.name))
    (hrest : ∀ a, (rest a).isSome ↔ given.Fit d fields) :
    (first.bind rest).isSome ↔ given.Fit d (f :: fields) := by
  rw [Fit, List.forall_mem_cons, ← hfirst]
  cases first with
  | none => simp
  | some a => exact (hrest a).trans (iff_and_self.2 fun _ => rfl)

section

variable {α : Type} {f : Format α} {s : Schema} {given : Fields} {d : Nat}

theorem isSome_required_iff (hf : f.Reads s) (name : String) :
    (given.required name f d).isSome ↔ Field.Fits ⟨name, s, false⟩ d (given name) := by
  rw [required]
  cases ht : given name with
  | none => simp [Field.Fits]
  | some t => exact hf d t

theorem isSome_withDefault_iff (hf : f.Reads s) (name : String) (dflt : α) :
    (given.withDefault name f d dflt).isSome ↔ Field.Fits ⟨name, s, true⟩ d (given name) := by
  rw [withDefault]
  cases ht : given name with
  | none => simp [Field.Fits]
  | some t => exact hf d t

theorem isSome_optional_iff (hf : f.Reads s) (name : String) :
    (given.optional name f d).isSome ↔ Field.Fits ⟨name, .nullable s, true⟩ d (given name) := by
  unfold optional
  split
  · simp [Field.Fits, *]
  · rename_i hnull
    rw [hnull]
    exact iff_of_true rfl ⟨(Tree.isSome_value?_iff d .null).1 rfl, .null s⟩
  · rename_i t hnull ht
    rw [Option.isSome_map, hf d t, ht]
    refine and_congr_right fun _ => ⟨.given, fun haccepts => ?_⟩
    cases haccepts with
    | null => exact absurd rfl hnull
    | given haccepts => exact haccepts

end

end Fields

end SealedCustody.Json
