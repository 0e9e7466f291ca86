import SealedCustody.Proofs.Custody.Receipts

/-!
# Everything is kept under its own name

A block is kept under the hash of its octets and a record under the id of its user, whatever was handed
over and refused before. The one who hands over a block gives its hash, in letters of either size; since
it is compared, put and looked up in small letters, it makes no difference in which it was given.

What a call that succeeds does is `Custody.Puts`: it sets one entry. From that the invariant of a single
call follows (`Custody.Addressed.perform`), and by induction that of any number of them
(`Custody.addressed_after`).
-/

namespace SealedCustody

/-! ## Letters of either size -/

/-- Two texts are the same but for the size of ASCII letters. -/
def CaseVariants (s t : String) : Prop :=
  List.Forall₂ (fun a b : Char => b = a ∨ b = a.toLower ∨ b = a.toUpper) s.toList t.toList

theorem CaseVariants.asciiLower_eq {s t : String} (h : CaseVariants s t) :
    asciiLower s = asciiLower t := by
  have hmap : ∀ {as bs : List Char},
      List.Forall₂ (fun a b : Char => b = a ∨ b = a.toLower ∨ b = a.toUpper) as bs →
        as.map Char.toLower = bs.map Char.toLower := by
    intro as bs h
    induction h with
    | nil => rfl
    | @cons a b as bs hab _ ih =>
      have hlower : a.toLower = b.toLower := by
        rcases hab with rfl | rfl | rfl
        · rfl
        · exact (Char.toLower_toLower_eq_toLower a).symm
        · exact (Char.toLower_toUpper_eq_toLower a).symm
      rw [List.map_cons, List.map_cons, hlower, ih]
  rw [asciiLower, asciiLower, hmap h]

namespace Custody

/-! ## One call -/

/-- A record or a block that is handed over. -/
inductive Call where
  | putUser (m : NewUser)
  | putBlock (b : DataBlock)

/-- What a call returns, and what is in custody after it. -/
def perform (c : Custody) : Call → Except Error Unit × Custody
  | .putUser m => c.putUser m
  | .putBlock b => c.putBlock b

/-- What a call that succeeds leaves: the entry of what was handed over, and every other as it was. -/
inductive Puts (c c' : Custody) : Call → Prop
  | user {m : NewUser} {envelope : List UInt8} {key : EnvelopeKey} (named : m.id ≠ "")
      (sealed : Base64.decodeTrimmed? m.envelope = some envelope)
      (opened : EnvelopeKey.ofBase64 m.key = .ok key)
      (own : c'.user? m.id = some ⟨m.id, envelope, key⟩)
      (others : ∀ id, id ≠ m.id → c'.users.get? id = c.users.get? id)
      (blocks : c'.blocks = c.blocks) : Puts c c' (.putUser m)
  | block {b : DataBlock} {octets : List UInt8} (read : Base64.decodeTrimmed? b.cipher = some octets)
      (hash : asciiLower b.hash = contentHash octets) (own : c'.block? b.hash = some octets)
      (others : ∀ h, h ≠ contentHash octets → c'.blocks.get? h = c.blocks.get? h)
      (users : c'.users = c.users) : Puts c c' (.putBlock b)

/-- A call that cannot succeed is refused and nothing is changed, any other succeeds. -/
theorem perform_cases (c : Custody) (call : Call) :
    ((∃ e, c.perform call = (.error e, c)) ∧ ∀ c', ¬c.Puts c' call) ∨
      ∃ c', c.perform call = (.ok (), c') ∧ c.Puts c' call := by
  cases call with
  | putUser m =>
    rw [perform, putUser]
    cases hrecord : recordOf m with
    | error e =>
      refine Or.inl ⟨⟨e, rfl⟩, fun c' hputs => ?_⟩
      cases hputs with
      | user named sealed opened =>
        cases hrecord.symm.trans (recordOf_eq_ok_iff.2 ⟨named, _, _, sealed, opened, rfl⟩)
    | ok r =>
      obtain ⟨hid, envelope, key, henvelope, hkey, rfl⟩ := recordOf_eq_ok_iff.1 hrecord
      refine Or.inr ⟨_, rfl, .user hid henvelope hkey ?_ (fun id hne => ?_) rfl⟩
      · rw [user?, Table.get?_insert, if_pos rfl]
      · rw [Table.get?_insert, if_neg hne.symm]
  | putBlock b =>
    rw [perform, putBlock]
    cases hoctets : octetsOf b with
    | error e =>
      refine Or.inl ⟨⟨e, rfl⟩, fun c' hputs => ?_⟩
      cases hputs with
      | block read hash => cases hoctets.symm.trans (octetsOf_eq_ok_iff.2 ⟨read, hash.symm⟩)
    | ok octets =>
      obtain ⟨hread, hhash⟩ := octetsOf_eq_ok_iff.1 hoctets
      refine Or.inr ⟨_, rfl, .block hread hhash.symm ?_ (fun h hne => ?_) rfl⟩
      · rw [block?, Table.get?_insert, if_pos rfl]
      · rw [Table.get?_insert, if_neg fun heq => hne (heq.symm.trans hhash.symm)]

/-- Everything stands under its own name: a block under the hash of its octets, a record under the id of
its user, which is not empty. -/
structure Addressed (c : Custody) : Prop where
  blocks : ∀ h octets, c.blocks.get? h = some octets → h = contentHash octets
  users : ∀ id r, c.users.get? id = some r → r.userId = id ∧ id ≠ ""

theorem addressed_empty : empty.Addressed where
  blocks := nofun
  users := nofun

theorem Addressed.puts {c c' : Custody} {call : Call} (h : c.Addressed) (hputs : c.Puts c' call) :
    c'.Addressed := by
  cases hputs with
  | @user m envelope key named sealed opened own others blocks =>
    refine ⟨blocks ▸ h.blocks, fun id r hr => ?_⟩
    by_cases hid : id = m.id
    · subst hid
      obtain rfl := Option.some.inj (hr.symm.trans own)
      exact ⟨rfl, named⟩
    · exact h.users id r (others id hid ▸ hr)
  | @block b octets read hash own others users =>
    refine ⟨fun hash' octets' hr => ?_, users ▸ h.users⟩
    by_cases heq : hash' = contentHash octets
    · rw [block?, hash, ← heq] at own
      obtain rfl := Option.some.inj (hr.symm.trans own)
      exact heq
    · exact h.blocks hash' octets' (others hash' heq ▸ hr)

theorem Addressed.perform {c : Custody} (h : c.Addressed) (call : Call) :
    (c.perform call).2.Addressed := by
  rcases c.perform_cases call with ⟨⟨e, heq⟩, -⟩ | ⟨c', heq, hputs⟩
  · rw [heq]
    exact h
  · rw [heq]
    exact h.puts hputs

/-! ## Any calls -/

/-- What is in custody once calls were made one after another. -/
def after (c : Custody) (calls : List Call) : Custody :=
  calls.foldl (fun c call => (c.perform call).2) c

theorem Addressed.after {c : Custody} (h : c.Addressed) (calls : List Call) :
    (c.after calls).Addressed := by
  induction calls generalizing c with
  | nil => exact h
  | cons call rest ih => exact ih (h.perform call)

/-- **Whatever is handed over, everything is kept under its own name.** Once any calls were made, each
block stands under the hash of its octets and each record under the id of its user; a hash finds the same
block in letters of either size; and one more call puts what was handed over and changes no other entry,
or it fails, since that is not possible, and changes nothing. -/
theorem addressed_after (calls : List Call) (call : Call) :
    let c := empty.after calls
    c.Addressed ∧ (∀ h h', CaseVariants h h' → c.block? h = c.block? h') ∧
      match c.perform call with
      | (.error _, c') => c' = c ∧ ∀ c'', ¬c.Puts c'' call
      | (.ok (), c') => c.Puts c' call := by
  intro c
  refine ⟨addressed_empty.after calls, fun h h' hvariants => ?_, ?_⟩
  · rw [block?, block?, hvariants.asciiLower_eq]
  · rcases c.perform_cases call with ⟨⟨e, heq⟩, hnothing⟩ | ⟨c', heq, hputs⟩
    · rw [heq]
      exact ⟨rfl, hnothing⟩
    · rw [heq]
      exact hputs

end Custody

end SealedCustody
