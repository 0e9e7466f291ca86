import SealedCustody.Proofs.Json.RoundTrip

/-!
# Which texts have a tree

A text of a tree's tokens, with any white space between them and in UTF-8, is read as that tree
(`Tree.WrittenAs.ofOctets?`). What is read as a tree is a text of it if the tree can be held
(`Tree.writtenAs_of_ofOctets?`): if every string is one of characters and every number is in range.

That a tree is read back from its tokens is `Tree.ofTokens?_tokens`; the converse is that the reader never
forgets what it has read. `Reading.spent` tells from a state of the reader the tokens that led to it, and
each step adds the token that it takes.
-/

namespace SealedCustody.Json

open Grammar

/-! ## Trees and their tokens -/

/-- All but the last have a comma behind them. -/
theorem separated_concat (tss : List (List Token)) (ts : List Token) :
    separated (tss ++ [ts]) = tss.flatMap (· ++ [.comma]) ++ ts := by
  induction tss with
  | nil => rfl
  | cons us tss ih =>
    have hcomma : separated (us :: (tss ++ [ts])) = us ++ .comma :: separated (tss ++ [ts]) := by
      cases tss <;> rfl
    rw [List.cons_append, hcomma, ih]
    simp only [List.flatMap_cons, List.append_assoc, List.cons_append, List.nil_append]

/-- The tokens of a member. -/
def memberText (m : Option String × Tree) : List Token := .string m.1 :: .colon :: m.2.tokens

/-- The tokens of the members of an object that were read, each with the comma behind it. -/
def membersText (done : List (Option String × Tree)) : List Token :=
  done.reverse.flatMap fun m => memberText m ++ [.comma]

/-- The tokens of an array or object that is still open. -/
def Frame.tokens : Frame → List Token
  | .array done => .openArray :: done.reverse.flatMap fun t => t.tokens ++ [.comma]
  | .object done k => .openObject :: (membersText done ++ [.string k, .colon])

/-- The tokens of all that is open, innermost first. -/
def openText : List Frame → List Token
  | [] => []
  | f :: open_ => openText open_ ++ f.tokens

namespace Reading

/-- The tokens that were taken to come to a state. -/
def spent : Reading → List Token
  | .value open_ => openText open_
  | .firstItem open_ => openText open_ ++ [.openArray]
  | .firstKey open_ => openText open_ ++ [.openObject]
  | .key done open_ => openText open_ ++ .openObject :: membersText done
  | .colon done k open_ => openText open_ ++ .openObject :: (membersText done ++ [.string k])
  | .after last open_ => openText open_ ++ last.tokens

theorem spent_start {open_ : List Frame} {token : Token} {r : Reading}
    (h : start open_ token = some r) : r.spent = openText open_ ++ [token] := by
  cases token <;> cases h <;> rfl

theorem spent_step {r r' : Reading} {token : Token} (h : step r token = some r') :
    r'.spent = r.spent ++ [token] := by
  unfold step at h
  split at h
  · exact spent_start h
  · cases h
    rw [spent, spent, List.append_assoc]
    rfl
  · rw [spent_start h, openText, spent]
    rfl
  · cases h
    rw [spent, spent, List.append_assoc]
    rfl
  · cases h
    rw [spent, spent, List.append_assoc]
    rfl
  · cases h
    rw [spent, spent, List.append_assoc]
    rfl
  · cases h
    rw [spent, spent, openText, Frame.tokens]
    simp only [List.append_assoc, List.cons_append, List.nil_append]
  · cases h
    rw [spent, spent, openText, openText, Frame.tokens, Frame.tokens, List.reverse_cons,
      List.flatMap_append]
    simp only [List.append_assoc, List.cons_append, List.nil_append, List.flatMap_cons,
      List.flatMap_nil]
  · rename_i last done open_
    cases h
    rw [spent, spent, openText, Frame.tokens, Tree.tokens, itemTokens_eq, List.reverse_cons,
      List.map_append, List.map_singleton, separated_concat, List.flatMap_map]
    simp only [List.append_assoc, List.cons_append]
  · cases h
    rw [spent, spent, openText, Frame.tokens, membersText, membersText, List.reverse_cons,
      List.flatMap_append]
    simp only [List.append_assoc, List.cons_append, List.nil_append, List.flatMap_cons,
      List.flatMap_nil, memberText]
  · cases h
    rw [spent, spent, openText, Frame.tokens, Tree.tokens, memberTokens_eq, List.reverse_cons,
      List.map_append, List.map_singleton, separated_concat, List.flatMap_map, membersText]
    simp only [List.append_assoc, List.cons_append, List.nil_append, memberText]
  · cases h

/-- All tokens of a tree were taken when it is complete. -/
theorem spent_run {r : Reading} {ts : List Token} {t : Tree} (h : run r ts = some t) :
    r.spent ++ ts = t.tokens := by
  induction ts generalizing r with
  | nil =>
    unfold run at h
    split at h
    · cases h
      rw [List.append_nil]
      rfl
    · cases h
    · contradiction
  | cons token ts ih =>
    unfold run at h
    split at h
    · contradiction
    · cases h
    · rename_i heq
      obtain ⟨rfl, rfl⟩ := List.cons.inj heq
      split at h
      · rename_i r' hstep
        rw [← ih h, spent_step hstep, List.append_assoc]
        rfl
      · cases h

end Reading

theorem Tree.ofTokens?_eq_some_iff {ts : List Token} {t : Tree} :
    Tree.ofTokens? ts = some t ↔ ts = t.tokens :=
  ⟨fun h => Reading.spent_run h, fun h => h ▸ t.ofTokens?_tokens⟩

/-! ## Texts and their trees -/

/-- The tree can be held: no string has half of a surrogate pair in it, and no number is out of range. -/
def Tree.Held (t : Tree) : Prop := ∀ token ∈ t.tokens, token.isHeld = true

theorem Tree.held_string_iff {s : Option String} : (Tree.string s).Held ↔ s.isSome := by
  rw [Held, Tree.tokens, List.forall_mem_singleton]
  cases s <;> simp [Token.isHeld]

theorem Tree.held_number_iff {n : Option Number} : (Tree.number n).Held ↔ n.isSome := by
  rw [Held, Tree.tokens, List.forall_mem_singleton]
  cases n <;> simp [Token.isHeld]

theorem Tree.held_array_iff {items : List Tree} : (Tree.array items).Held ↔ ∀ t ∈ items, t.Held :=
  Tree.forall_mem_array (P := (·.isHeld = true)) rfl rfl rfl

theorem Tree.held_object_iff {members : List (Option String × Tree)} :
    (Tree.object members).Held ↔ ∀ m ∈ members, m.1.isSome ∧ m.2.Held := by
  refine (Tree.forall_mem_object (P := (·.isHeld = true)) rfl rfl rfl rfl).trans ?_
  refine forall₂_congr fun m _ => and_congr_left fun _ => ?_
  cases m.1 <;> simp [Token.isHeld]

/-- The octets are a text of the tree: its tokens, each in any of its spellings and with any white space
between them, in UTF-8. -/
def Tree.WrittenAs (t : Tree) (bs : List UInt8) : Prop :=
  ∃ cs : List Char, bs = Utf8.encode cs ∧ Spells cs t.tokens

/-- The reader reads the tree that was written, whether it can be held or not. -/
theorem Tree.WrittenAs.ofOctets? {bs : List UInt8} {t : Tree} (h : t.WrittenAs bs) :
    Tree.ofOctets? bs = some t := by
  obtain ⟨cs, rfl, hspells⟩ := h
  rw [Tree.ofOctets?, Tree.ofSymbols?, Utf8.decode_encode, tokens?_of_spells hspells t.isChain_tokens]
  exact t.ofTokens?_tokens

/-- What was read is written by the grammar, if it can be held. -/
theorem Tree.writtenAs_of_ofOctets? {bs : List UInt8} {t : Tree} (h : Tree.ofOctets? bs = some t)
    (hheld : t.Held) : t.WrittenAs bs := by
  obtain ⟨ts, htokens, htree⟩ := Option.bind_eq_some_iff.1 h
  obtain rfl := Tree.ofTokens?_eq_some_iff.1 htree
  obtain ⟨cs, hcs, hspells⟩ := spells_of_tokens? htokens hheld
  exact ⟨cs, Utf8.eq_encode_of_decode hcs, hspells⟩

end SealedCustody.Json
