import SealedCustody.Proofs.Json.RoundTrip

/-!
# Forms that keep what they write

A form keeps a value at a depth if it writes it exactly and reads it back from what it wrote
(`Format.Keeps`); such a value survives the way through octets (`Format.Keeps.ofOctets?_octets`). That
a form keeps a value is shown from its parts: texts, values, lists, choices, and the members of objects.
-/

namespace SealedCustody.Json

/-- The form writes a value exactly and reads it back from a tree that may nest so deep. -/
structure Format.Keeps {α : Type} (f : Format α) (depth : Nat) (a : α) : Prop where
  exact : (f.tree a).Exact
  read : f.read depth (f.tree a) = some a

namespace Format

/-- A value that is kept is read back from its octets. -/
theorem Keeps.ofOctets?_octets {α : Type} {f : Format α} {a : α} (h : f.Keeps depthLimit a) :
    f.ofOctets? (f.octets a) = some a := by
  rw [Format.ofOctets?_octets f h.exact, h.read]

/-- A text is written exactly. -/
theorem exact_text (s : String) : (text.tree s).Exact := Tree.exact_string s

theorem keeps_value {d : Nat} {v : Value} (h : v.Legible d) : value.Keeps d v :=
  ⟨h.exact, h.value?_tree⟩

/-- A choice keeps a value that its table gives for its name. -/
theorem keeps_choice {α : Type} {table : List (String × α)} {nameOf : α → String} {a : α} (d : Nat)
    (h : named? table (nameOf a) = some a) : (choice table nameOf).Keeps d a := by
  refine ⟨Tree.exact_string _, ?_⟩
  cases d <;> exact h

theorem readAll_map {α : Type} {f : Format α} {d : Nat} {as : List α}
    (h : ∀ a ∈ as, f.Keeps d a) : f.readAll d (as.map f.tree) = some as := by
  induction as with
  | nil => rfl
  | cons a as ih =>
    have hrest := ih fun b hb => h b (List.mem_cons_of_mem a hb)
    simp only [List.map_cons, readAll, (h a List.mem_cons_self).read, hrest, Option.map_some]

/-- A list is kept one deeper than its items. -/
theorem keeps_list {α : Type} {f : Format α} {d : Nat} {as : List α} (h : ∀ a ∈ as, f.Keeps d a) :
    (list f).Keeps (d + 1) as :=
  ⟨Tree.exact_array (List.forall_mem_map.2 fun a ha => (h a ha).exact), readAll_map h⟩

end Format

/-- The object with some members is written exactly if they are. -/
theorem exact_objectOf {members : List (String × Option Tree)}
    (h : ∀ m ∈ members, ∀ t, m.2 = some t → t.Exact) : (objectOf members).Exact := by
  refine Tree.exact_object fun m hm => ?_
  obtain ⟨⟨k, t⟩, hmem, heq⟩ := List.mem_filterMap.1 hm
  obtain ⟨t, ht, rfl⟩ := Option.map_eq_some_iff.1 heq
  exact ⟨rfl, h _ hmem t ht⟩

end SealedCustody.Json
