import SealedCustody.Proofs.Json.RoundTrip

/-!
# How deep a tree nests

The reader opens only so many arrays and objects inside one another. `Tree.depth` counts them from the
innermost to the outermost. A value is legible at a depth if its numbers are integers and its tree nests
no deeper (`Value.legible_iff`).
-/

namespace SealedCustody.Json

mutual

/-- How many arrays and objects of a tree stand inside one another. -/
def Tree.depth : Tree → Nat
  | .array items => itemsDepth items + 1
  | .object members => membersDepth members + 1
  | _ => 0

/-- How deep the deepest item nests. -/
def itemsDepth : List Tree → Nat
  | [] => 0
  | t :: rest => max t.depth (itemsDepth rest)

/-- How deep the value of the deepest member nests. -/
def membersDepth : List (Option String × Tree) → Nat
  | [] => 0
  | (_, t) :: rest => max t.depth (membersDepth rest)

end

theorem itemsDepth_le_iff {items : List Tree} {d : Nat} :
    itemsDepth items ≤ d ↔ ∀ t ∈ items, t.depth ≤ d := by
  induction items with
  | nil => simp [itemsDepth]
  | cons t items ih => rw [itemsDepth, Nat.max_le, ih, List.forall_mem_cons]

theorem membersDepth_le_iff {members : List (Option String × Tree)} {d : Nat} :
    membersDepth members ≤ d ↔ ∀ m ∈ members, m.2.depth ≤ d := by
  induction members with
  | nil => simp [membersDepth]
  | cons m members ih => rw [membersDepth, Nat.max_le, ih, List.forall_mem_cons]

namespace Tree

theorem depth_array_le_iff {items : List Tree} {d : Nat} :
    (array items).depth ≤ d + 1 ↔ ∀ t ∈ items, t.depth ≤ d := by
  rw [depth, Nat.add_le_add_iff_right, itemsDepth_le_iff]

theorem depth_object_le_iff {members : List (Option String × Tree)} {d : Nat} :
    (object members).depth ≤ d + 1 ↔ ∀ m ∈ members, m.2.depth ≤ d := by
  rw [depth, Nat.add_le_add_iff_right, membersDepth_le_iff]

theorem not_depth_array_le_zero {items : List Tree} : ¬(array items).depth ≤ 0 := by
  rw [depth]
  omega

theorem not_depth_object_le_zero {members : List (Option String × Tree)} :
    ¬(object members).depth ≤ 0 := by
  rw [depth]
  omega

end Tree

/-- An object nests one deeper than its members. -/
theorem depth_objectOf_le_iff {members : List (String × Option Tree)} {d : Nat} :
    (objectOf members).depth ≤ d + 1 ↔ ∀ m ∈ members, ∀ t, m.2 = some t → t.depth ≤ d := by
  rw [objectOf, Tree.depth_object_le_iff]
  constructor
  · rintro h ⟨k, _⟩ hm t rfl
    exact h (some k, t) (List.mem_filterMap.2 ⟨_, hm, rfl⟩)
  · intro h m hm
    obtain ⟨⟨k, t⟩, hmem, heq⟩ := List.mem_filterMap.1 hm
    obtain ⟨t, ht, rfl⟩ := Option.map_eq_some_iff.1 heq
    exact h _ hmem t ht

/-! ## Values -/

/-- All numbers of the value are integers, and the keys of its objects ascend, as they do in any value that
was read. -/
inductive Value.Integral : Value → Prop
  | null : Integral .null
  | bool (b : Bool) : Integral (.bool b)
  | natural (n : UInt64) : Integral (.number (.natural n))
  | negative (i : Int64) (h : i < 0) : Integral (.number (.negative i h))
  | string (s : String) : Integral (.string s)
  | array {items : List Value} (h : ∀ v ∈ items, Integral v) : Integral (.array items)
  | object {members : Members} (ascending : members.Pairwise (·.1 < ·.1))
      (h : ∀ m ∈ members, Integral m.2) : Integral (.object members)

theorem Value.legible_iff {d : Nat} {v : Value} :
    v.Legible d ↔ v.Integral ∧ v.tree.depth ≤ d := by
  constructor
  · intro h
    induction h with
    | null => exact ⟨.null, Nat.zero_le _⟩
    | bool b => exact ⟨.bool b, Nat.zero_le _⟩
    | natural n => exact ⟨.natural n, Nat.zero_le _⟩
    | negative i hi => exact ⟨.negative i hi, Nat.zero_le _⟩
    | string s => exact ⟨.string s, Nat.zero_le _⟩
    | array h ih =>
      refine ⟨.array fun v hv => (ih v hv).1, ?_⟩
      rw [Value.tree, itemTrees_eq, Tree.depth_array_le_iff, List.forall_mem_map]
      exact fun v hv => (ih v hv).2
    | object ascending h ih =>
      refine ⟨.object ascending fun m hm => (ih m hm).1, ?_⟩
      rw [Value.tree, memberTrees_eq, Tree.depth_object_le_iff, List.forall_mem_map]
      exact fun m hm => (ih m hm).2
  · rintro ⟨h, hdepth⟩
    induction h generalizing d with
    | null => exact .null
    | bool b => exact .bool b
    | natural n => exact .natural n
    | negative i hi => exact .negative i hi
    | string s => exact .string s
    | array h ih =>
      rw [Value.tree, itemTrees_eq] at hdepth
      cases d with
      | zero => exact absurd hdepth Tree.not_depth_array_le_zero
      | succ d =>
        rw [Tree.depth_array_le_iff, List.forall_mem_map] at hdepth
        exact .array fun v hv => ih v hv (hdepth v hv)
    | object ascending h ih =>
      rw [Value.tree, memberTrees_eq] at hdepth
      cases d with
      | zero => exact absurd hdepth Tree.not_depth_object_le_zero
      | succ d =>
        rw [Tree.depth_object_le_iff, List.forall_mem_map] at hdepth
        exact .object ascending fun m hm => ih m hm (hdepth m hm)

end SealedCustody.Json
