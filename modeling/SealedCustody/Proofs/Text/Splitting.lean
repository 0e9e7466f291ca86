import SealedCustody.Text.Blank
import Mathlib.Data.List.Basic

/-!
# Splitting texts

Splitting at a separator is that of lists (`splitAt_eq_splitOn`), and the parts are known by what they are
put together to (`splitAt_eq_iff`). The parts of two texts with a separator between them are those of the
one and then those of the other (`split_append`), and a text without the separator is its own only part
(`split_eq_singleton`).
-/

namespace SealedCustody.Text

variable {sep : Char} {s : String}

theorem splitAt_eq_splitOn (sep : Char) (cs : List Char) : splitAt sep cs = cs.splitOn sep := by
  induction cs with
  | nil => rfl
  | cons c cs ih =>
    rw [splitAt, ih, List.splitOn_cons_eq_if_modifyHead]
    simp only [beq_iff_eq]
    cases hparts : cs.splitOn sep with
    | nil => exact absurd hparts (List.splitOn_ne_nil sep cs)
    | cons part parts => rfl

/-- No part contains the separator. -/
theorem not_mem_of_mem_splitAt {part cs : List Char} (h : part ∈ splitAt sep cs) : sep ∉ part := by
  induction cs generalizing part with
  | nil =>
    obtain rfl := List.mem_singleton.1 h
    exact List.not_mem_nil
  | cons c cs ih =>
    rw [splitAt] at h
    split at h
    · rcases List.mem_cons.1 h with rfl | hrest
      · exact List.not_mem_nil
      · exact ih hrest
    · rename_i hc
      cases hparts : splitAt sep cs with
      | nil =>
        rw [hparts] at h
        obtain rfl := List.mem_singleton.1 h
        exact fun hmem => hc (List.mem_singleton.1 hmem).symm
      | cons first parts =>
        rw [hparts] at h ih
        rcases List.mem_cons.1 h with rfl | hrest
        · -- the first part is longer by a character that is no separator
          intro hmem
          rcases List.mem_cons.1 hmem with rfl | hfirst
          · exact hc rfl
          · exact ih List.mem_cons_self hfirst
        · exact ih (List.mem_cons_of_mem _ hrest)

/-- The parts of a text are those without the separator that give the text with separators between. -/
theorem splitAt_eq_iff {cs : List Char} {parts : List (List Char)} :
    splitAt sep cs = parts ↔
      parts ≠ [] ∧ (∀ part ∈ parts, sep ∉ part) ∧ [sep].intercalate parts = cs := by
  constructor
  · rintro rfl
    refine ⟨?_, fun part => not_mem_of_mem_splitAt, ?_⟩
    · rw [splitAt_eq_splitOn]
      exact List.splitOn_ne_nil sep cs
    · rw [splitAt_eq_splitOn, List.intercalate_splitOn]
  · rintro ⟨hne, hparts, rfl⟩
    rw [splitAt_eq_splitOn, List.splitOn_intercalate sep hparts hne]

theorem split_ne_nil (sep : Char) (s : String) : split sep s ≠ [] := by
  unfold split
  rw [splitAt_eq_splitOn, Ne, List.map_eq_nil_iff]
  exact List.splitOn_ne_nil sep s.toList

theorem split_append (sep : Char) (s t : String) :
    split sep (s ++ String.singleton sep ++ t) = split sep s ++ split sep t := by
  have hlist : (s ++ String.singleton sep ++ t).toList = s.toList ++ sep :: t.toList := by
    rw [String.toList_append, String.toList_append, String.toList_singleton, List.append_assoc,
      List.singleton_append]
  unfold split
  rw [hlist, splitAt_eq_splitOn, splitAt_eq_splitOn, splitAt_eq_splitOn,
    List.splitOn_append_cons_self, List.map_append]

theorem split_eq_singleton (h : sep ∉ s.toList) : split sep s = [s] := by
  unfold split
  rw [splitAt_eq_splitOn, List.splitOn_eq_singleton h, List.map_singleton, String.ofList_toList]

/-- The part before the first separator is the first part. -/
theorem split_cons {first : String} (h : sep ∉ first.toList) (rest : String) :
    split sep (first ++ String.singleton sep ++ rest) = first :: split sep rest := by
  rw [split_append, split_eq_singleton h, List.singleton_append]

/-- A text with a separator in it has a part before the first. -/
theorem exists_first (h : sep ∈ s.toList) :
    ∃ first rest, s = first ++ String.singleton sep ++ rest ∧ sep ∉ first.toList := by
  obtain ⟨as, bs, hs, has⟩ := List.eq_append_cons_of_mem h
  refine ⟨String.ofList as, String.ofList bs, ?_, by rwa [String.toList_ofList]⟩
  apply String.toList_injective
  rw [hs, String.toList_append, String.toList_append, String.toList_singleton, String.toList_ofList,
    String.toList_ofList, List.append_assoc, List.singleton_append]

end SealedCustody.Text
