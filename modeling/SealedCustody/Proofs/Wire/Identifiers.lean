import SealedCustody.Proofs.Text.Splitting
import SealedCustody.Wire.ProtocolId

/-!
# The grammar of protocol identifiers

An identifier has at least one name, each after a slash, and after one more slash three numbers with dots
between them (`ProtocolId.Parts`). A text is taken for an identifier just when it is put together from such
parts, and then it is kept as it is; any other text is refused by name (`ProtocolId.ofText_exact`).

Reading cuts the text at every slash and the last part at every dot, so both ways go through
`Text.splitAt_eq_iff`: the parts of a cut are known by what they give when put together. A number has
neither slash nor dot in it, which is why what was put together is cut at the same places.
-/

namespace SealedCustody

theorem splitLast_append {α : Type} (init : List α) (last : α) :
    splitLast (init ++ [last]) = some (init, last) := by
  induction init with
  | nil => rfl
  | cons x init ih =>
    have hne : init ++ [last] ≠ [] := by simp
    rw [List.cons_append, splitLast.eq_3 _ _ hne, ih, Option.map_some]

theorem splitLast_eq_some_iff {α : Type} {xs init : List α} {last : α} :
    splitLast xs = some (init, last) ↔ xs = init ++ [last] := by
  constructor
  · intro h
    rcases List.eq_nil_or_concat xs with rfl | ⟨before, x, rfl⟩
    · cases h
    · rw [List.concat_eq_append, splitLast_append, Option.some.injEq, Prod.mk.injEq] at h
      rw [h.1, h.2, List.concat_eq_append]
  · rintro rfl
    exact splitLast_append init last

namespace ProtocolId

variable {cs a b c : List Char}

/-- A name: some characters, but no slash. -/
def IsName (s : String) : Prop := s ≠ "" ∧ '/' ∉ s.toList

/-- A number of a version: some characters, all of them decimal digits. Zeros may lead. -/
def IsNumeral (s : String) : Prop := s ≠ "" ∧ ∀ c ∈ s.toList, c.isDigit

/-- The parts of an identifier. -/
structure Parts where
  names : List String
  major : String
  minor : String
  patch : String
  names_ne_nil : names ≠ []
  names_isName : ∀ name ∈ names, IsName name
  major_isNumeral : IsNumeral major
  minor_isNumeral : IsNumeral minor
  patch_isNumeral : IsNumeral patch

/-- The text of some parts. -/
def Parts.text (p : Parts) : String :=
  String.join (p.names.map ("/" ++ ·)) ++ "/" ++ p.major ++ "." ++ p.minor ++ "." ++ p.patch

/-! ## Numbers and versions -/

theorem isNumber_toList {s : String} : isNumber s.toList = true ↔ IsNumeral s := by
  unfold isNumber IsNumeral
  rw [Bool.and_eq_true, List.all_eq_true, Bool.not_eq_true', List.isEmpty_eq_false_iff, Ne,
    String.toList_eq_nil_iff]
  simp only [Char.isDigit, Bool.and_eq_true, decide_eq_true_eq]
  rfl

/-- A character before the digits is in no number. -/
theorem not_mem_of_isNumber {c : Char} (hc : c < '0') (h : isNumber a = true) : c ∉ a := by
  intro hmem
  rw [isNumber, Bool.and_eq_true, List.all_eq_true] at h
  have hdigit := h.2 c hmem
  rw [Bool.and_eq_true, decide_eq_true_eq] at hdigit
  exact absurd hc (Std.not_lt.2 hdigit.1)

/-- A version is three numbers with dots between them. -/
theorem isVersion_iff : isVersion cs = true ↔ ∃ a b c, cs = a ++ '.' :: (b ++ '.' :: c) ∧
    isNumber a = true ∧ isNumber b = true ∧ isNumber c = true := by
  constructor
  · intro h
    rw [isVersion, Bool.and_eq_true, beq_iff_eq, List.length_eq_three] at h
    obtain ⟨⟨a, b, c, hparts⟩, hnumbers⟩ := h
    obtain ⟨-, -, rfl⟩ := Text.splitAt_eq_iff.1 hparts
    rw [hparts] at hnumbers
    simp only [List.all_cons, List.all_nil, Bool.and_true, Bool.and_eq_true] at hnumbers
    exact ⟨a, b, c, by simp, hnumbers⟩
  · rintro ⟨a, b, c, rfl, ha, hb, hc⟩
    have hparts : Text.splitAt '.' (a ++ '.' :: (b ++ '.' :: c)) = [a, b, c] := by
      refine Text.splitAt_eq_iff.2 ⟨by simp, ?_, by simp⟩
      simp only [List.forall_mem_cons, List.not_mem_nil, false_implies, implies_true, and_true]
      exact ⟨not_mem_of_isNumber (by decide) ha, not_mem_of_isNumber (by decide) hb,
        not_mem_of_isNumber (by decide) hc⟩
    simp [isVersion, hparts, ha, hb, hc]

theorem slash_not_mem_of_isVersion (h : isVersion cs = true) : '/' ∉ cs := by
  obtain ⟨a, b, c, rfl, ha, hb, hc⟩ := isVersion_iff.1 h
  have hslash : '/' < '0' := by decide
  simp [not_mem_of_isNumber hslash ha, not_mem_of_isNumber hslash hb, not_mem_of_isNumber hslash hc]

/-! ## Names -/

/-- Parts after one slash each are a slash and the parts with slashes between. -/
theorem flatMap_slash {parts : List (List Char)} (h : parts ≠ []) :
    parts.flatMap ('/' :: ·) = '/' :: ['/'].intercalate parts := by
  induction parts with
  | nil => exact absurd rfl h
  | cons part rest ih =>
    cases rest with
    | nil => simp
    | cons next rest =>
      rw [List.flatMap_cons, ih (by simp), List.intercalate_cons_cons]
      simp

/-- An identifier is some names and a version, each after a slash. -/
theorem isVersioned_iff : isVersioned cs = true ↔ ∃ names version,
    cs = names.flatMap ('/' :: ·) ++ '/' :: version ∧ names ≠ [] ∧
      (∀ name ∈ names, name ≠ [] ∧ '/' ∉ name) ∧ isVersion version = true := by
  constructor
  · intro h
    unfold isVersioned at h
    split at h
    · rename_i rest
      split at h
      · rename_i names version hlast
        simp only [Bool.and_eq_true, Bool.not_eq_true', List.isEmpty_eq_false_iff,
          List.all_eq_true] at h
        obtain ⟨⟨hne, hnames⟩, hversion⟩ := h
        obtain ⟨-, hslash, hrest⟩ := Text.splitAt_eq_iff.1 (splitLast_eq_some_iff.1 hlast)
        refine ⟨names, version, ?_, hne, fun name hname => ⟨hnames name hname, ?_⟩, hversion⟩
        · rw [← hrest, ← flatMap_slash (by simp), List.flatMap_append, List.flatMap_singleton]
        · exact hslash name (List.mem_append_left _ hname)
      · cases h
    · cases h
  · rintro ⟨names, version, rfl, hne, hnames, hversion⟩
    have hslash : ∀ part ∈ names ++ [version], '/' ∉ part := by
      intro part hpart
      rcases List.mem_append.1 hpart with hname | hlast
      · exact (hnames part hname).2
      · exact List.mem_singleton.1 hlast ▸ slash_not_mem_of_isVersion hversion
    have hparts : Text.splitAt '/' (['/'].intercalate (names ++ [version])) = names ++ [version] :=
      Text.splitAt_eq_iff.2 ⟨by simp, hslash, rfl⟩
    have htext : names.flatMap ('/' :: ·) ++ '/' :: version =
        '/' :: ['/'].intercalate (names ++ [version]) := by
      rw [← flatMap_slash (by simp), List.flatMap_append, List.flatMap_singleton]
    rw [htext, isVersioned, hparts, splitLast_append]
    simpa [hne, hversion] using fun name hname => (hnames name hname).1

/-! ## Texts -/

theorem Parts.toList_text (p : Parts) : p.text.toList =
    (p.names.map String.toList).flatMap ('/' :: ·) ++
      '/' :: (p.major.toList ++ '.' :: (p.minor.toList ++ '.' :: p.patch.toList)) := by
  simp [text, List.flatMap_map]

/-- A text is taken for an identifier just when it is put together from parts of one. -/
theorem isVersioned_toList {s : String} : isVersioned s.toList = true ↔ ∃ p : Parts, p.text = s := by
  constructor
  · intro h
    obtain ⟨names, version, hs, hne, hnames, hversion⟩ := isVersioned_iff.1 h
    obtain ⟨a, b, c, rfl, ha, hb, hc⟩ := isVersion_iff.1 hversion
    rw [← String.toList_ofList (l := a), isNumber_toList] at ha
    rw [← String.toList_ofList (l := b), isNumber_toList] at hb
    rw [← String.toList_ofList (l := c), isNumber_toList] at hc
    have hmap : ∀ name ∈ names.map String.ofList, IsName name := by
      intro name hname
      obtain ⟨cs, hcs, rfl⟩ := List.mem_map.1 hname
      obtain ⟨hcs, hslash⟩ := hnames cs hcs
      exact ⟨by simpa using hcs, by rwa [String.toList_ofList]⟩
    refine ⟨⟨names.map String.ofList, .ofList a, .ofList b, .ofList c, by simpa using hne, hmap,
      ha, hb, hc⟩, String.toList_injective ?_⟩
    rw [hs, Parts.toList_text]
    simp [Function.comp_def]
  · rintro ⟨p, rfl⟩
    refine isVersioned_iff.2 ⟨p.names.map String.toList, _, p.toList_text, by simpa using p.names_ne_nil,
      ?_, isVersion_iff.2 ⟨_, _, _, rfl, isNumber_toList.2 p.major_isNumeral,
        isNumber_toList.2 p.minor_isNumeral, isNumber_toList.2 p.patch_isNumeral⟩⟩
    intro cs hcs
    obtain ⟨name, hname, rfl⟩ := List.mem_map.1 hcs
    obtain ⟨hne, hslash⟩ := p.names_isName name hname
    exact ⟨by simpa using hne, hslash⟩

/-- A text is an identifier just when it is put together from some names and the three numbers of a
version. It is kept and shown as it is, and any other text is refused by name. -/
theorem ofText_exact (s : String) :
    ((∃ id, ofText s = .ok id) ↔ ∃ p : Parts, p.text = s) ∧
    (∀ id, ofText s = .ok id → id.text = s ∧ toString id = s) ∧
    ∀ e, ofText s = .error e ↔ (¬∃ p : Parts, p.text = s) ∧ e = .protocol s .invalidIdentifier := by
  rw [← isVersioned_toList, ofText]
  by_cases h : isVersioned s.toList = true
  · rw [if_pos h]
    refine ⟨⟨fun _ => h, fun _ => ⟨_, rfl⟩⟩, ?_, fun e => ⟨?_, fun he => absurd h he.1⟩⟩
    · intro id hid
      cases hid
      exact ⟨rfl, rfl⟩
    · intro he
      cases he
  · rw [if_neg h]
    refine ⟨⟨?_, fun hversioned => absurd hversioned h⟩, ?_, fun e => ?_⟩
    · rintro ⟨id, hid⟩
      cases hid
    · intro id hid
      cases hid
    · rw [Except.error.injEq, eq_comm]
      exact ⟨fun he => ⟨h, he⟩, fun he => he.2⟩

/-- Two names, one with a dot in it, and a version with a leading zero. -/
theorem ofText_exact_of_dotted_name :
    ∃ id, ofText "/dsn/v.1/02.1.0" = .ok id ∧ id.text = "/dsn/v.1/02.1.0" ∧
      toString id = "/dsn/v.1/02.1.0" := by
  obtain ⟨haccepted, hkept, -⟩ := ofText_exact "/dsn/v.1/02.1.0"
  have hname : ∀ name ∈ ["dsn", "v.1"], IsName name := by
    simp only [List.forall_mem_cons, IsName]
    decide +kernel
  have hnumeral : IsNumeral "02" ∧ IsNumeral "1" ∧ IsNumeral "0" := by
    simp only [← isNumber_toList]
    decide +kernel
  obtain ⟨id, hid⟩ := haccepted.2
    ⟨⟨["dsn", "v.1"], "02", "1", "0", by decide, hname, hnumeral.1, hnumeral.2.1, hnumeral.2.2⟩,
      by simp [Parts.text]⟩
  exact ⟨id, hid, hkept id hid⟩

/-- A name must not be missing between two slashes. -/
example : ofText "/a//b/1.0.0" = .error (.protocol "/a//b/1.0.0" .invalidIdentifier) := by
  decide +kernel

end ProtocolId

end SealedCustody
