import SealedCustody.Json.Value
import Mathlib.Data.List.Perm.Subperm

/-!
# The members of an object

Members are held in ascending order of their keys, so no key stands twice: a member is what is found
under its key (`Members.get?_of_mem`), and keys that all lie among as many others are those others
(`Members.keys_subset`).

Inserting keeps the order. In whichever order members were written, they ascend once they are held, and
none is made up (`Members.ofList_spec`). Members that were written in ascending order are held as they
are (`Members.ofList_eq_self`).
-/

namespace SealedCustody.Json.Members

variable {members xs ys : Members} {key : String} {v : Value} {m : String × Value}

/-! ## Members by their keys -/

theorem mem_of_get? (h : xs.get? key = some v) : (key, v) ∈ xs := by
  induction xs with
  | nil => cases h
  | cons m xs ih =>
    rw [get?] at h
    split at h
    · rename_i hkey
      obtain rfl := Option.some.inj h
      exact hkey ▸ List.mem_cons_self
    · exact List.mem_cons_of_mem m (ih h)

/-- A member is the one that is found under its key, since no key stands twice. -/
theorem get?_of_mem (hasc : xs.Pairwise (·.1 < ·.1)) (h : (key, v) ∈ xs) :
    xs.get? key = some v := by
  induction xs with
  | nil => cases h
  | cons m xs ih =>
    obtain ⟨hfirst, hrest⟩ := List.pairwise_cons.1 hasc
    rw [get?]
    rcases List.mem_cons.1 h with rfl | hmem
    · exact if_pos rfl
    · have hlt : m.1 < key := hfirst (key, v) hmem
      have hne : m.1 ≠ key := fun heq => String.lt_irrefl key (heq ▸ hlt)
      rw [if_neg hne, ih hrest hmem]

theorem mem_keys : key ∈ xs.map Prod.fst ↔ ∃ v, xs.get? key = some v := by
  constructor
  · intro h
    induction xs with
    | nil => cases h
    | cons m xs ih =>
      rw [get?]
      split
      · exact ⟨m.2, rfl⟩
      · rename_i hne
        exact ih ((List.mem_cons.1 h).resolve_left (Ne.symm hne))
  · rintro ⟨v, hv⟩
    exact List.mem_map.2 ⟨(key, v), mem_of_get? hv, rfl⟩

theorem nodup_keys (hasc : xs.Pairwise (·.1 < ·.1)) : (xs.map Prod.fst).Nodup := by
  have hne : ∀ m m' : String × Value, m.1 < m'.1 → m.1 ≠ m'.1 :=
    fun m _ hlt heq => String.lt_irrefl m.1 (heq ▸ hlt)
  exact List.pairwise_map.2 (hasc.imp fun {m m'} => hne m m')

/-- Keys that stand once and all lie among as many others are those others. -/
theorem keys_subset (hasc : xs.Pairwise (·.1 < ·.1)) (hlength : xs.length = ys.length)
    (hsub : xs.map Prod.fst ⊆ ys.map Prod.fst) : ys.map Prod.fst ⊆ xs.map Prod.fst := by
  have hle : (ys.map Prod.fst).length ≤ (xs.map Prod.fst).length := by
    rw [List.length_map, List.length_map]
    exact Nat.le_of_eq hlength.symm
  exact (((nodup_keys hasc).subperm hsub).perm_of_length_le hle).symm.subset

/-- Objects with the same keys have as many members. -/
theorem length_eq_of_keys (hxs : xs.Pairwise (·.1 < ·.1)) (hys : ys.Pairwise (·.1 < ·.1))
    (h : ∀ key, key ∈ xs.map Prod.fst ↔ key ∈ ys.map Prod.fst) : xs.length = ys.length := by
  have hperm := (List.perm_ext_iff_of_nodup (nodup_keys hxs) (nodup_keys hys)).2 h
  simpa using hperm.length_eq

/-! ## Members in the order they were written -/

theorem mem_of_mem_insert (h : m ∈ members.insert key v) : m = (key, v) ∨ m ∈ members := by
  induction members with
  | nil => exact Or.inl (List.mem_singleton.1 h)
  | cons e rest ih =>
    obtain ⟨k, w⟩ := e
    unfold insert at h
    split at h
    · exact List.mem_cons.1 h
    split at h
    · exact (List.mem_cons.1 h).imp_right (List.mem_cons_of_mem _)
    · rcases List.mem_cons.1 h with rfl | h
      · exact Or.inr List.mem_cons_self
      · exact (ih h).imp_right (List.mem_cons_of_mem _)

/-- Inserting keeps the keys in ascending order. -/
theorem ascending_insert (h : members.Pairwise (·.1 < ·.1)) (key : String) (v : Value) :
    (members.insert key v).Pairwise (·.1 < ·.1) := by
  induction members with
  | nil => exact List.pairwise_singleton _ _
  | cons e rest ih =>
    obtain ⟨k, w⟩ := e
    obtain ⟨hk, hrest⟩ := List.pairwise_cons.1 h
    unfold insert
    split
    · next hlt =>
      have hrest : ∀ m ∈ rest, key < m.1 := fun m hm => String.lt_trans hlt (hk m hm)
      exact List.pairwise_cons.2 ⟨List.forall_mem_cons.2 ⟨hlt, hrest⟩, h⟩
    split
    · next heq => exact List.pairwise_cons.2 ⟨heq ▸ hk, hrest⟩
    · next hnlt hne =>
      have hgt : k < key := Decidable.byContradiction fun hle =>
        hne (String.le_antisymm (String.not_lt.1 hle) (String.not_lt.1 hnlt))
      refine List.pairwise_cons.2 ⟨fun m hm => ?_, ih hrest⟩
      rcases mem_of_mem_insert hm with rfl | hm
      · exact hgt
      · exact hk m hm

/-- Of the members written in some order none is made up, and their keys ascend. -/
theorem ofList_spec (written : List (String × Value)) :
    (ofList written).Pairwise (·.1 < ·.1) ∧ ∀ m ∈ ofList written, m ∈ written := by
  refine List.foldlRecOn (motive := fun done : Members =>
    done.Pairwise (·.1 < ·.1) ∧ ∀ m ∈ done, m ∈ written) written _ ⟨List.Pairwise.nil, nofun⟩ ?_
  rintro done ⟨hascending, hmem⟩ e he
  refine ⟨ascending_insert hascending e.1 e.2, fun m hm => ?_⟩
  rcases mem_of_mem_insert hm with rfl | hm
  · exact he
  · exact hmem m hm

theorem insert_append (v : Value) (h : ∀ m ∈ members, m.1 < key) :
    members.insert key v = members ++ [(key, v)] := by
  induction members with
  | nil => rfl
  | cons m members ih =>
    have hm : m.1 < key := h m List.mem_cons_self
    rw [insert, if_neg (String.lt_asymm hm), if_neg (fun e => String.lt_irrefl _ (e ▸ hm)),
      ih fun m' hm' => h m' (List.mem_cons_of_mem m hm'), List.cons_append]

/-- Each key comes after all that were put before it, so it is put at the end. -/
theorem foldl_insert_eq_append {rest done : Members} (h : (done ++ rest).Pairwise (·.1 < ·.1)) :
    rest.foldl (fun done (k, v) => done.insert k v) done = done ++ rest := by
  induction rest generalizing done with
  | nil => exact (List.append_nil done).symm
  | cons m rest ih =>
    have hlast : ∀ m' ∈ done, m'.1 < m.1 := fun m' hm' =>
      (List.pairwise_append.1 h).2.2 m' hm' m List.mem_cons_self
    have hnext : done ++ [m] ++ rest = done ++ m :: rest := List.append_cons done m rest |>.symm
    have hinsert : done.insert m.1 m.2 = done ++ [m] := insert_append m.2 hlast
    rw [List.foldl_cons]
    show rest.foldl _ (done.insert m.1 m.2) = _
    rw [hinsert, ih (hnext ▸ h), hnext]

/-- Members whose keys ascend are kept as they are. -/
theorem ofList_eq_self (h : members.Pairwise (·.1 < ·.1)) : ofList members = members :=
  foldl_insert_eq_append h

end SealedCustody.Json.Members
