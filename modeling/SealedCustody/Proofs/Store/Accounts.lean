import SealedCustody.Store
import Mathlib.Data.List.Induction

/-!
# Accounts and their emails

An account is stored under its id and looked up by its email. Nothing but a scan before each write keeps
two accounts from having one email, and the look-up scans a table that has no order; both are sound
because of each other. Users and providers are two tables of one kind, so what is said here is said once
of a table of accounts, with what tells an account's id and email.

`Registry.Tracks` relates a table to the versions that were stored in it: at each id stands the latest
one, and no email stands at two ids. Every upsert keeps it (`Registry.Tracks.after_upsert`). Under it a
look-up by email has at most one answer, in whatever order the table is gone through
(`Registry.Tracks.find?_eq_some_iff`).
-/

namespace SealedCustody

namespace Registry

section Accounts

variable {α : Type} (idOf emailOf : α → String)

/-- Puts an account under its id, unless another one has its email. -/
def upsert (t : Table String α) (a : α) : Except Error α × Table String α :=
  if t.values.any fun b => emailOf b = emailOf a ∧ idOf b ≠ idOf a then
    (.error (Store.emailTaken (emailOf a)), t)
  else (.ok a, t.insert (idOf a) a)

/-- The version of an account that was stored last, of versions in the order in which they were. -/
def latest (versions : List α) (k : String) : Option α := versions.reverse.find? fun a => idOf a = k

/-- An email is held by the account of another id. -/
def HeldByOther (versions : List α) (a : α) : Prop :=
  ∃ b, latest idOf versions (idOf b) = some b ∧ emailOf b = emailOf a ∧ idOf b ≠ idOf a

/-- The table holds the latest version of each account, and no email twice. -/
structure Tracks (versions : List α) (t : Table String α) : Prop where
  stored : ∀ k, t.get? k = latest idOf versions k
  unique : ∀ k a k' a', t.get? k = some a → t.get? k' = some a' → emailOf a = emailOf a' → k = k'

variable {idOf emailOf} {versions : List α} {t : Table String α} {k : String} {a b : α}

theorem id_of_latest (h : latest idOf versions k = some a) : idOf a = k := by
  simpa using List.find?_some h

theorem latest_concat (versions : List α) (a : α) (k : String) :
    latest idOf (versions ++ [a]) k = if idOf a = k then some a else latest idOf versions k := by
  rw [latest, List.reverse_append, List.reverse_singleton, List.singleton_append]
  split
  · rename_i hk
    exact List.find?_cons_of_pos (by simpa using hk)
  · rename_i hk
    exact List.find?_cons_of_neg (by simpa using hk)

theorem tracks_empty : Tracks idOf emailOf [] ∅ where
  stored _ := rfl
  unique := nofun

namespace Tracks

/-- An account stands under its id. -/
theorem keyed (h : Tracks idOf emailOf versions t) (ha : t.get? k = some a) : idOf a = k :=
  id_of_latest ((h.stored k).symm.trans ha)

theorem mem_values_iff (h : Tracks idOf emailOf versions t) :
    a ∈ t.values ↔ latest idOf versions (idOf a) = some a := by
  rw [Table.mem_values, ← h.stored]
  constructor
  · rintro ⟨k, hk⟩
    rwa [h.keyed hk]
  · intro ha
    exact ⟨idOf a, ha⟩

theorem any_iff_heldByOther (h : Tracks idOf emailOf versions t) (a : α) :
    (t.values.any fun b => emailOf b = emailOf a ∧ idOf b ≠ idOf a) = true ↔
      HeldByOther idOf emailOf versions a := by
  rw [List.any_eq_true]
  constructor
  · rintro ⟨b, hb, hheld⟩
    exact ⟨b, h.mem_values_iff.1 hb, of_decide_eq_true hheld⟩
  · rintro ⟨b, hb, hheld⟩
    exact ⟨b, h.mem_values_iff.2 hb, decide_eq_true hheld⟩

theorem upsert_of_held (h : Tracks idOf emailOf versions t) (ha : HeldByOther idOf emailOf versions a) :
    upsert idOf emailOf t a = (.error (Store.emailTaken (emailOf a)), t) := by
  rw [upsert, if_pos ((h.any_iff_heldByOther a).2 ha)]

theorem upsert_of_free (h : Tracks idOf emailOf versions t) (ha : ¬HeldByOther idOf emailOf versions a) :
    upsert idOf emailOf t a = (.ok a, t.insert (idOf a) a) := by
  rw [upsert, if_neg fun hany => ha ((h.any_iff_heldByOther a).1 hany)]

/-- An account whose email no other one has may be put under its id. -/
theorem insert (h : Tracks idOf emailOf versions t) (ha : ¬HeldByOther idOf emailOf versions a) :
    Tracks idOf emailOf (versions ++ [a]) (t.insert (idOf a) a) := by
  -- an account at another id is one of those that the email was compared with
  have hother : ∀ k b, idOf a ≠ k → t.get? k = some b → emailOf b ≠ emailOf a := by
    intro k b hne hb hemail
    obtain rfl := h.keyed hb
    exact ha ⟨b, (h.stored _).symm.trans hb, hemail, hne.symm⟩
  refine ⟨fun k => ?_, fun k b k' b' hb hb' hemail => ?_⟩
  · rw [Table.get?_insert, latest_concat, h.stored]
  · rw [Table.get?_insert] at hb hb'
    split at hb <;> split at hb'
    · rename_i hk hk'
      exact hk.symm.trans hk'
    · rename_i hk hk'
      obtain rfl := Option.some.inj hb
      exact absurd hemail.symm (hother k' b' hk' hb')
    · rename_i hk hk'
      obtain rfl := Option.some.inj hb'
      exact absurd hemail (hother k b hk hb)
    · exact h.unique k b k' b' hb hb' hemail

/-- An upsert that fails changes nothing, and one that succeeds adds a version. -/
theorem after_upsert (h : Tracks idOf emailOf versions t) (a : α) :
    Tracks idOf emailOf (versions ++ (upsert idOf emailOf t a).1.toOption.toList)
      (upsert idOf emailOf t a).2 := by
  by_cases ha : HeldByOther idOf emailOf versions a
  · rw [h.upsert_of_held ha]
    exact (List.append_nil versions).symm ▸ h
  · rw [h.upsert_of_free ha]
    exact h.insert ha

/-- Going through the accounts in any order finds the one whose latest version has an email. -/
theorem find?_eq_some_iff (h : Tracks idOf emailOf versions t) {as : List α}
    (has : as.Perm t.values) (e : String) : (as.find? fun b => emailOf b = e) = some a ↔
      latest idOf versions (idOf a) = some a ∧ emailOf a = e := by
  have hfound : ∀ b, (as.find? fun b => emailOf b = e) = some b →
      latest idOf versions (idOf b) = some b ∧ emailOf b = e := by
    intro b hb
    refine ⟨h.mem_values_iff.1 (has.mem_iff.1 (List.mem_of_find?_eq_some hb)), ?_⟩
    simpa using List.find?_some hb
  refine ⟨hfound a, fun ⟨ha, hemail⟩ => ?_⟩
  -- something is found, and only one account has the email
  have hsome : (as.find? fun b => emailOf b = e).isSome := by
    rw [List.find?_isSome]
    exact ⟨a, has.mem_iff.2 (h.mem_values_iff.2 ha), decide_eq_true hemail⟩
  obtain ⟨b, hb⟩ := Option.isSome_iff_exists.1 hsome
  obtain ⟨hlatest, hemail'⟩ := hfound b hb
  have ha' := (h.stored (idOf a)).trans ha
  have hb' := (h.stored (idOf b)).trans hlatest
  have hid := h.unique _ _ _ _ hb' ha' (hemail'.trans hemail.symm)
  rw [hb, ← hb', ← ha', hid]

end Tracks

variable (idOf emailOf) in
/-- Accounts stand under their ids and no two have one email; a look-up by email gives the account whose
latest version has it, nothing if there is none, and does not depend on the order of the table. -/
structure Exact (versions : List α) (t : Table String α) (byEmail : String → Option α) : Prop where
  keyed : ∀ k a, t.get? k = some a → idOf a = k
  unique : ∀ k a k' a', t.get? k = some a → t.get? k' = some a' → emailOf a = emailOf a' → k = k'
  found : ∀ e a, byEmail e = some a ↔ latest idOf versions (idOf a) = some a ∧ emailOf a = e
  missing : ∀ e, byEmail e = none ↔ ∀ a, latest idOf versions (idOf a) = some a → emailOf a ≠ e
  unordered : ∀ e (as : List α), as.Perm t.values → (as.find? fun a => emailOf a = e) = byEmail e

theorem Tracks.exact (h : Tracks idOf emailOf versions t) :
    Exact idOf emailOf versions t fun e => t.values.find? fun a => emailOf a = e where
  keyed _ _ := h.keyed
  unique := h.unique
  found e _ := h.find?_eq_some_iff (.refl _) e
  missing e := by
    rw [List.find?_eq_none]
    constructor
    · intro hnone a ha hemail
      exact hnone a (h.mem_values_iff.2 ha) (decide_eq_true hemail)
    · intro hnone a ha hemail
      exact hnone a (h.mem_values_iff.1 ha) (of_decide_eq_true hemail)
  unordered e as has := by
    ext a
    rw [h.find?_eq_some_iff has, h.find?_eq_some_iff (.refl _)]

end Accounts

end Registry

namespace Store

/-! ## Upserts -/

/-- An account that is to be added or replaced, with the id that is drawn for it if it has none. -/
inductive Upsert where
  | user (fresh : String) (u : User)
  | provider (fresh : String) (p : Provider)

/-- What an upsert returns. -/
inductive Upserted where
  | user (result : Except Error User)
  | provider (result : Except Error Provider)

/-- One upsert. -/
def upsert (s : Store) : Upsert → Upserted × Store
  | .user fresh u => ((s.upsertUser fresh u).map .user id)
  | .provider fresh p => ((s.upsertProvider fresh p).map .provider id)

/-- What upserts return one after another, and the store that they leave. -/
def upsertAll (s : Store) (upserts : List Upsert) : List Upserted × Store :=
  upserts.foldl (fun (done, s) u => ((s.upsert u).map (done ++ [·]) id)) ([], s)

/-- The user that was stored. -/
def Upserted.user? : Upserted → Option User
  | .user result => result.toOption
  | .provider _ => none

/-- The provider that was stored. -/
def Upserted.provider? : Upserted → Option Provider
  | .user _ => none
  | .provider result => result.toOption

theorem upsertUser_eq (s : Store) (fresh : String) (u : User) :
    s.upsertUser fresh u =
      (Registry.upsert User.id User.email s.users { u with id := idOr fresh u.id }).map id
        fun users => { s with users } := by
  unfold upsertUser Registry.upsert
  dsimp only
  split <;> rfl

theorem upsertProvider_eq (s : Store) (fresh : String) (p : Provider) :
    s.upsertProvider fresh p =
      (Registry.upsert Provider.id Provider.email s.providers { p with id := idOr fresh p.id }).map id
        fun providers => { s with providers } := by
  unfold upsertProvider Registry.upsert
  dsimp only
  split <;> rfl

/-- The tables hold what upserts have stored. -/
structure Tracked (done : List Upserted) (s : Store) : Prop where
  users : Registry.Tracks User.id User.email (done.filterMap Upserted.user?) s.users
  providers : Registry.Tracks Provider.id Provider.email (done.filterMap Upserted.provider?) s.providers

theorem tracked_empty : Tracked [] empty := ⟨Registry.tracks_empty, Registry.tracks_empty⟩

theorem filterMap_concat {α β : Type} (f : α → Option β) (as : List α) (a : α) :
    (as ++ [a]).filterMap f = as.filterMap f ++ (f a).toList := by
  rw [List.filterMap_append]
  cases h : f a <;> simp [h]

theorem Tracked.upsert {done : List Upserted} {s : Store} (h : Tracked done s) (u : Upsert) :
    Tracked (done ++ [(s.upsert u).1]) (s.upsert u).2 := by
  cases u with
  | user fresh u =>
    have hresult : s.upsert (.user fresh u) = (s.upsertUser fresh u).map .user id := rfl
    rw [hresult, upsertUser_eq]
    refine ⟨?_, ?_⟩
    · rw [filterMap_concat]
      exact h.users.after_upsert _
    · rw [filterMap_concat]
      exact (List.append_nil _).symm ▸ h.providers
  | provider fresh p =>
    have hresult : s.upsert (.provider fresh p) = (s.upsertProvider fresh p).map .provider id := rfl
    rw [hresult, upsertProvider_eq]
    refine ⟨?_, ?_⟩
    · rw [filterMap_concat]
      exact (List.append_nil _).symm ▸ h.users
    · rw [filterMap_concat]
      exact h.providers.after_upsert _

theorem tracked_upsertAll (upserts : List Upsert) :
    Tracked (empty.upsertAll upserts).1 (empty.upsertAll upserts).2 := by
  induction upserts using List.reverseRecOn with
  | nil => exact tracked_empty
  | append_singleton upserts u ih =>
    rw [upsertAll, List.foldl_append]
    exact ih.upsert u

/-- **Emails are unique among accounts of one kind and look-ups are exact.** Once any upserts were made,
whatever ids they gave or were drawn: each account stands under its id and no two of a kind have one email;
a look-up by email gives the account whose latest stored version has it, in whatever order the table is
gone through, and nothing if there is none; and one more upsert fails, and changes nothing, exactly if an
account of another id and the same kind has the email. -/
theorem accounts_exact (upserts : List Upsert) :
    let done := (empty.upsertAll upserts).1
    let s := (empty.upsertAll upserts).2
    let users := done.filterMap Upserted.user?
    let providers := done.filterMap Upserted.provider?
    Registry.Exact User.id User.email users s.users s.userByEmail ∧
      Registry.Exact Provider.id Provider.email providers s.providers s.providerByEmail ∧
      (∀ fresh u, let u' : User := { u with id := idOr fresh u.id }
        (Registry.HeldByOther User.id User.email users u' →
          s.upsertUser fresh u = (.error (emailTaken u.email), s)) ∧
        (¬Registry.HeldByOther User.id User.email users u' →
          s.upsertUser fresh u = (.ok u', { s with users := s.users.insert u'.id u' }))) ∧
      ∀ fresh p, let p' : Provider := { p with id := idOr fresh p.id }
        (Registry.HeldByOther Provider.id Provider.email providers p' →
          s.upsertProvider fresh p = (.error (emailTaken p.email), s)) ∧
        (¬Registry.HeldByOther Provider.id Provider.email providers p' →
          s.upsertProvider fresh p = (.ok p', { s with providers := s.providers.insert p'.id p' })) := by
  intro done s users providers
  have h : Tracked done s := tracked_upsertAll upserts
  refine ⟨h.users.exact, h.providers.exact, fun fresh u => ⟨fun held => ?_, fun free => ?_⟩,
    fun fresh p => ⟨fun held => ?_, fun free => ?_⟩⟩
  · rw [upsertUser_eq, h.users.upsert_of_held held]
    rfl
  · rw [upsertUser_eq, h.users.upsert_of_free free]
    rfl
  · rw [upsertProvider_eq, h.providers.upsert_of_held held]
    rfl
  · rw [upsertProvider_eq, h.providers.upsert_of_free free]
    rfl

end Store

end SealedCustody
