import SealedCustody.Identity.KeyFile
import SealedCustody.Proofs.Disk.Writing
import SealedCustody.Proofs.Identity.Encoding

/-!
# Identities on a disk

A key file that is there is read and nothing is written, whatever comes of it. Where there is none, the
fresh identity is written, and since its octets are read back as that identity and a path leads to what was
written to it, it is what every later load gives (`KeyFile.loads_of_ok`).

Besides, no file on the disk is changed but the one that the path leads to in the end, and that one only
if the path led to nothing and the load succeeds. A path may go through a directory that is missing and
out of it again: it leads nowhere until that directory is made.
-/

namespace SealedCustody.KeyFile

variable {d d' : Disk} {cwd l : Location} {path : String} {fresh i : Identity} {entry : DiskEntry}
  {bs : List UInt8}

/-- The location that the text of a path leads to. -/
def locate? (d : Disk) (cwd : Location) (path : String) : Option Location :=
  (Path.ofText? path).bind (d.locate? cwd)

/-- Loads one after another, each with a fresh identity of its own at hand: the results, and the disk that
is left. -/
def loads (cwd : Location) (path : String) : Disk → List Identity → List (Except Error Identity) × Disk
  | d, [] => ([], d)
  | d, fresh :: later =>
    let (result, d) := loadOrKeep d cwd path fresh
    let (results, d) := loads cwd path d later
    (result :: results, d)

/-! ## Octets -/

theorem decode_eq_ok_iff : decode bs = .ok i ↔ Identity.decode? bs = some i := by
  unfold decode
  cases Identity.decode? bs <;> simp

theorem decode_encode (h : i.IsKeyPair) : decode i.encode = .ok i :=
  decode_eq_ok_iff.2 (Identity.decode?_encode h)

/-! ## One load -/

theorem loadOrKeep_of_file (h : find? d cwd path = some (.file bs)) :
    loadOrKeep d cwd path fresh = (decode bs, d) := by
  rw [loadOrKeep, h]

/-- Something that stands at the path is left as it is, and only a file that holds an identity gives
one. -/
theorem loadOrKeep_of_some (h : find? d cwd path = some entry) (fresh : Identity) :
    ∃ result, loadOrKeep d cwd path fresh = (result, d) ∧
      ∀ i, result = .ok i ↔ ∃ bs, entry = .file bs ∧ decode bs = .ok i := by
  rw [loadOrKeep, h]
  cases entry with
  | file bs => exact ⟨decode bs, rfl, by simp⟩
  | directory => exact ⟨_, rfl, by simp⟩

/-- A fresh identity is saved, or nothing comes of it. -/
theorem loadOrKeep_of_none (h : find? d cwd path = none) (fresh : Identity) :
    (∃ p d', Path.ofText? path = some p ∧ d.save cwd p fresh.encode = (true, d') ∧
      loadOrKeep d cwd path fresh = (.ok fresh, d')) ∨
    ∃ e, (loadOrKeep d cwd path fresh).1 = .error e ∧
      ((loadOrKeep d cwd path fresh).2 = d ∨
        ∃ p, d.save cwd p fresh.encode = (false, (loadOrKeep d cwd path fresh).2)) := by
  rw [loadOrKeep, h]
  unfold save
  cases hp : Path.ofText? path with
  | none => exact Or.inr ⟨_, rfl, Or.inl rfl⟩
  | some p =>
    dsimp only
    rcases hsave : d.save cwd p fresh.encode with ⟨saved, d'⟩
    cases saved with
    | true => exact Or.inl ⟨p, d', rfl, hsave, rfl⟩
    | false => exact Or.inr ⟨_, rfl, Or.inr ⟨p, hsave⟩⟩

/-- What a load gives is what the file at the path holds afterwards. -/
theorem find?_of_ok (hfresh : fresh.IsKeyPair) (h : loadOrKeep d cwd path fresh = (.ok i, d')) :
    ∃ bs, find? d' cwd path = some (.file bs) ∧ decode bs = .ok i := by
  cases hfind : find? d cwd path with
  | some entry =>
    obtain ⟨result, hload, hresult⟩ := loadOrKeep_of_some hfind fresh
    obtain ⟨rfl, rfl⟩ := Prod.mk.inj (hload.symm.trans h)
    obtain ⟨bs, rfl, hbs⟩ := (hresult i).1 rfl
    exact ⟨bs, hfind, hbs⟩
  | none =>
    rcases loadOrKeep_of_none hfind fresh with ⟨p, d₁, hp, hsave, hload⟩ | ⟨e, he, -⟩
    · obtain ⟨hi, rfl⟩ := Prod.mk.inj (hload.symm.trans h)
      obtain rfl := Except.ok.inj hi
      refine ⟨fresh.encode, ?_, decode_encode hfresh⟩
      rw [find?, hp, Option.bind_some, Disk.find?_of_save hsave]
    · rw [h] at he
      cases he

/-- A file stays when an identity is loaded, unless the path led to nothing before and leads to that file
now. -/
theorem at?_loadOrKeep (hl : d.at? l = some (.file bs)) (cwd : Location) (path : String)
    (fresh : Identity) :
    (loadOrKeep d cwd path fresh).2.at? l = some (.file bs) ∨
      find? d cwd path = none ∧ (∃ i, (loadOrKeep d cwd path fresh).1 = .ok i) ∧
        locate? (loadOrKeep d cwd path fresh).2 cwd path = some l := by
  cases hfind : find? d cwd path with
  | some entry =>
    obtain ⟨result, hload, -⟩ := loadOrKeep_of_some hfind fresh
    exact Or.inl (hload ▸ hl)
  | none =>
    rcases loadOrKeep_of_none hfind fresh with ⟨p, d', hp, hsave, hload⟩ |
      ⟨e, -, hsame | ⟨p, hsave⟩⟩
    · rw [hload]
      rcases Disk.at?_save hsave hl with hkept | ⟨-, hlocate⟩
      · exact Or.inl hkept
      · refine Or.inr ⟨rfl, ⟨fresh, rfl⟩, ?_⟩
        rw [locate?, hp, Option.bind_some, hlocate]
    · rw [hsame]
      exact Or.inl hl
    · rcases Disk.at?_save hsave hl with hkept | ⟨hsaved, -⟩
      · exact Or.inl hkept
      · cases hsaved

/-! ## Many loads -/

/-- Once a file holds an identity, every load gives it and leaves the disk as it is. -/
theorem loads_of_file (hfile : find? d cwd path = some (.file bs)) (hbs : decode bs = .ok i)
    (later : List Identity) :
    loads cwd path d later = (List.replicate later.length (.ok i), d) := by
  induction later with
  | nil => rfl
  | cons fresh later ih =>
    rw [loads, loadOrKeep_of_file hfile, hbs]
    dsimp only
    rw [ih]
    rfl

/-- A node key is not replaced. What stands at the path is left as it is, and gives the identity that its
octets hold or an error. An identity that is given is in the file from then on, and every later load gives
it, whatever fresh identities are at hand. No other file is changed, and a file is overwritten only by a
load that succeeds, and only if the path led to nothing before. An identity is read from its own octets,
and from any octets that give one the same is read after writing it. -/
theorem key_never_replaced (d : Disk) (cwd : Location) (path : String) (fresh : Identity)
    (hfresh : fresh.IsKeyPair) :
    (∀ entry, find? d cwd path = some entry →
      ∃ result, loadOrKeep d cwd path fresh = (result, d) ∧
        ∀ i, result = .ok i ↔ ∃ bs, entry = .file bs ∧ decode bs = .ok i) ∧
    (∀ i d', loadOrKeep d cwd path fresh = (.ok i, d') →
      (∃ bs, find? d' cwd path = some (.file bs) ∧ decode bs = .ok i) ∧
        ∀ later, loads cwd path d' later = (List.replicate later.length (.ok i), d')) ∧
    (∀ l bs, d.at? l = some (.file bs) →
      (loadOrKeep d cwd path fresh).2.at? l = some (.file bs) ∨
        find? d cwd path = none ∧ (∃ i, (loadOrKeep d cwd path fresh).1 = .ok i) ∧
          locate? (loadOrKeep d cwd path fresh).2 cwd path = some l) ∧
    (∀ i : Identity, i.IsKeyPair → decode i.encode = .ok i) ∧
    ∀ bs i, decode bs = .ok i → decode i.encode = .ok i := by
  refine ⟨fun entry hentry => loadOrKeep_of_some hentry fresh, fun i d' hload => ?_,
    fun l bs hl => at?_loadOrKeep hl cwd path fresh, fun i => decode_encode, fun bs i hbs => ?_⟩
  · obtain ⟨bs, hfile, hbs⟩ := find?_of_ok hfresh hload
    exact ⟨⟨bs, hfile, hbs⟩, loads_of_file hfile hbs⟩
  · exact decode_encode (.of_decode? (decode_eq_ok_iff.1 hbs))

/-- An identity is kept in a directory that is made for it, and found again by every load after that. -/
theorem key_never_replaced_of_nested :
    let fresh (n : UInt8) := Identity.ofSecret (List.replicate 32 n)
    let path := "nested/node_key"
    (fresh 1).IsKeyPair ∧ ∃ d' bs, loadOrKeep .empty [] path (fresh 1) = (.ok (fresh 1), d') ∧
      find? d' [] path = some (.file bs) ∧ decode bs = .ok (fresh 1) ∧
      loadOrKeep d' [] path (fresh 2) = (.ok (fresh 1), d') ∧
      loads [] path d' [fresh 2, fresh 3] = ([.ok (fresh 1), .ok (fresh 1)], d') := by
  intro fresh path
  have hfresh (n : UInt8) : (fresh n).IsKeyPair := Identity.isKeyPair_ofSecret rfl
  have hpath : Path.ofText? path = some ⟨false, ["nested", "node_key"]⟩ := by decide +kernel
  obtain ⟨d', hload⟩ : ∃ d', loadOrKeep .empty [] path (fresh 1) = (.ok (fresh 1), d') := by
    generalize fresh 1 = i
    rw [loadOrKeep, find?, save, hpath]
    exact ⟨_, rfl⟩
  obtain ⟨-, hkept, -⟩ := key_never_replaced .empty [] path (fresh 1) (hfresh 1)
  obtain ⟨⟨bs, hfile, hbs⟩, hlater⟩ := hkept _ _ hload
  obtain ⟨hstands, -⟩ := key_never_replaced d' [] path (fresh 2) (hfresh 2)
  obtain ⟨result, hagain, hresult⟩ := hstands _ hfile
  obtain rfl := (hresult (fresh 1)).2 ⟨bs, rfl, hbs⟩
  exact ⟨hfresh 1, d', bs, hload, hfile, hbs, hagain, hlater [fresh 2, fresh 3]⟩

end SealedCustody.KeyFile
