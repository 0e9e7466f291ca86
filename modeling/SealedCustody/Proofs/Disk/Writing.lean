import SealedCustody.Disk

/-!
# What writing changes on a disk

Making directories only adds directories where nothing stood, so all that stood stays
(`Disk.at?_makeDirectories`). Writing a file changes one location, where no directory stands, and no
directory comes or goes with it; so a path leads to the same place afterwards, and what was written is found
there (`Disk.find?_of_write`).

Saving a file is both. It leaves every other file as it was, and if it fails, every file
(`Disk.at?_save`).
-/

namespace SealedCustody.Disk

variable {d d' : Disk} {cwd here l : Location} {p : Path} {content : List UInt8} {entry : DiskEntry}

/-! ## Locations -/

/-- The root has no entry to change. -/
theorem at?_insert (d : Disk) (hl : l ≠ []) (entry : DiskEntry) (x : Location) :
    (⟨d.entries.insert l entry⟩ : Disk).at? x = if l = x then some entry else d.at? x := by
  unfold at?
  cases x with
  | nil => rw [if_neg hl]; rfl
  | cons name rest => exact Table.get?_insert ..

/-- A path leads to the same place where the same locations are directories. -/
theorem follow?_congr (h : ∀ x, d.isDirectory x = d'.isDirectory x) (here : Location)
    (parts : List String) : d.follow? here parts = d'.follow? here parts := by
  induction parts generalizing here with
  | nil => rfl
  | cons part parts ih => simp only [follow?, h, ih]

theorem locate?_congr (h : ∀ x, d.isDirectory x = d'.isDirectory x) (cwd : Location) (p : Path) :
    d.locate? cwd p = d'.locate? cwd p := by
  rw [locate?, locate?, follow?_congr h]

/-! ## Making directories -/

/-- What stands somewhere stays there when directories are made. -/
theorem at?_makeDirectories (h : d.at? l = some entry) (here : Location) (parts : List String) :
    (d.makeDirectories here parts).2.at? l = some entry := by
  fun_induction makeDirectories d here parts with
  | case1 => exact h
  | case2 d here part parts hpart ih => exact ih h
  | case3 d here parts hpart ih => exact ih h
  | case4 d here part parts hpart hup hdir ih => exact ih h
  | case5 d here part parts hpart hup bs hfile => exact h
  | case6 d here part parts hpart hup hnone hname ih =>
    apply ih
    have hfree : here ++ [part] ≠ l := by
      rintro rfl
      rw [h] at hnone
      cases hnone
    rw [at?_insert d (by simp), if_neg hfree, h]
  | case7 d here part parts hpart hup hnone hname => exact h

theorem at?_makeDirectory (h : d.at? l = some entry) (cwd : Location) (p : Path) :
    (d.makeDirectory cwd p).2.at? l = some entry := by
  unfold makeDirectory
  split
  · exact at?_makeDirectories h ..
  · exact h

/-! ## Writing files -/

/-- What is written stands where the path leads to, and nothing else is changed. -/
theorem write_eq_true_iff : d.write cwd p content = (true, d') ↔ ∃ l, d.locate? cwd p = some l ∧
    d.isDirectory l = false ∧ d.isDirectory l.dropLast = true ∧
    d' = ⟨d.entries.insert l (.file content)⟩ := by
  unfold write
  cases d.locate? cwd p with
  | none => simp
  | some l =>
    dsimp only
    constructor
    · intro h
      split at h
      · cases h
      · rename_i hplace
        rw [Bool.or_eq_true, not_or, Bool.not_eq_true, Bool.not_eq_true, Bool.not_eq_false'] at hplace
        exact ⟨l, rfl, hplace.1, hplace.2, (Prod.mk.inj h).2.symm⟩
    · rintro ⟨_, ⟨⟩, hdir, hparent, rfl⟩
      rw [hdir, hparent]
      rfl

/-- A file that cannot be written leaves the disk as it is. -/
theorem eq_of_write (h : d.write cwd p content = (false, d')) : d' = d := by
  unfold write at h
  split at h
  · cases h
    rfl
  · split at h
    · cases h
      rfl
    · cases h

theorem ne_root_of_isDirectory (h : d.isDirectory l = false) : l ≠ [] := by
  rintro rfl
  cases h

/-- A path leads to the same place after a file is written. -/
theorem locate?_of_write (h : d.write cwd p content = (true, d')) (q : Path) :
    d'.locate? cwd q = d.locate? cwd q := by
  obtain ⟨l, -, hdir, -, rfl⟩ := write_eq_true_iff.1 h
  refine locate?_congr (fun x => ?_) cwd q
  unfold isDirectory at hdir ⊢
  rw [at?_insert d (ne_root_of_isDirectory hdir)]
  by_cases hx : l = x
  · -- no directory stood there, and none does now
    subst hx
    rw [hdir, if_pos rfl]
    rfl
  · rw [if_neg hx]

/-- What was written is found by the path that it was written to. -/
theorem find?_of_write (h : d.write cwd p content = (true, d')) :
    d'.find? cwd p = some (.file content) := by
  have hsame := locate?_of_write h p
  obtain ⟨l, hlocate, hdir, -, rfl⟩ := write_eq_true_iff.1 h
  rw [find?, hsame, hlocate, Option.bind_some, at?_insert d (ne_root_of_isDirectory hdir), if_pos rfl]

/-! ## Saving files -/

theorem find?_of_save (h : d.save cwd p content = (true, d')) : d'.find? cwd p = some (.file content) := by
  unfold save at h
  split at h
  · exact find?_of_write h
  · cases h

/-- A file stays when another is saved, unless the saved one stands in its place. -/
theorem at?_save {saved : Bool} (h : d.save cwd p content = (saved, d')) (hl : d.at? l = some entry) :
    d'.at? l = some entry ∨ saved = true ∧ d'.locate? cwd p = some l := by
  have hkept := at?_makeDirectory hl cwd p.parent
  unfold save at h
  split at h
  · rename_i made hmade
    rw [hmade] at hkept
    cases saved with
    | false => exact Or.inl (eq_of_write h ▸ hkept)
    | true =>
      have hsame := locate?_of_write h p
      obtain ⟨x, hlocate, hdir, -, rfl⟩ := write_eq_true_iff.1 h
      by_cases hx : x = l
      · exact Or.inr ⟨rfl, by rw [hsame, hlocate, hx]⟩
      · refine Or.inl ?_
        rw [at?_insert made (ne_root_of_isDirectory hdir), if_neg hx]
        exact hkept
  · rename_i made hmade
    cases h
    rw [hmade] at hkept
    exact Or.inl hkept

end SealedCustody.Disk
