import SealedCustody.Json.Format
import SealedCustody.Proofs.Json.Characters
import SealedCustody.Proofs.Json.Lexing
import SealedCustody.Proofs.Json.Members

/-!
# What is written is read back

A tree is read back from its text (`Tree.ofOctets?_render`): its octets are decoded, the characters cut
into tokens, and the tokens put together with a stack of what is open. The last step is `run_tree`, an
induction over the tree: whatever is open, reading the tokens of a tree ends right behind it.

A value is read back from its tree if it is `Legible`: its numbers are integers, the keys of its objects
ascend, and it does not nest deeper than the reader allows.
-/

namespace SealedCustody.Json

/-! ## The tokens of a tree -/

theorem itemTokens_eq (items : List Tree) : itemTokens items = items.map Tree.tokens := by
  induction items with
  | nil => rfl
  | cons t items ih => rw [itemTokens, ih, List.map_cons]

theorem memberTokens_eq (members : List (Option String × Tree)) :
    memberTokens members = members.map fun m => .string m.1 :: .colon :: m.2.tokens := by
  induction members with
  | nil => rfl
  | cons m members ih => rw [memberTokens, ih, List.map_cons]

theorem separated_cons (ts : List Token) (tss : List (List Token)) :
    separated (ts :: tss) = ts ++ tss.flatMap (.comma :: ·) := by
  induction tss generalizing ts with
  | nil => rw [separated, List.flatMap_nil, List.append_nil]
  | cons us tss ih => rw [separated, ih us, List.flatMap_cons, List.cons_append]; exact nofun

/-! ### What holds of every token -/

section

variable {P : Token → Prop}

theorem forall_mem_separated (hcomma : P .comma) {tss : List (List Token)} :
    (∀ token ∈ separated tss, P token) ↔ ∀ ts ∈ tss, ∀ token ∈ ts, P token := by
  cases tss with
  | nil => exact ⟨nofun, nofun⟩
  | cons ts tss =>
    rw [separated_cons, List.forall_mem_append, List.forall_mem_cons]
    refine and_congr_right fun _ => ?_
    simp only [List.mem_flatMap, forall_exists_index, and_imp]
    constructor
    · intro h us hus token htoken
      exact h token us hus (List.mem_cons_of_mem _ htoken)
    · intro h token us hus htoken
      rcases List.mem_cons.1 htoken with rfl | htoken
      · exact hcomma
      · exact h us hus token htoken

/-- What holds of brackets and commas holds of every token of an array if it does of its items. -/
theorem Tree.forall_mem_array (hopen : P .openArray) (hcomma : P .comma) (hclose : P .closeArray)
    {items : List Tree} : (∀ token ∈ (Tree.array items).tokens, P token) ↔
      ∀ t ∈ items, ∀ token ∈ t.tokens, P token := by
  rw [Tree.tokens, itemTokens_eq, List.forall_mem_cons, List.forall_mem_append,
    List.forall_mem_singleton, forall_mem_separated hcomma, List.forall_mem_map]
  exact ⟨fun h => h.2.1, fun h => ⟨hopen, h, hclose⟩⟩

theorem Tree.forall_mem_object (hopen : P .openObject) (hcolon : P .colon) (hcomma : P .comma)
    (hclose : P .closeObject) {members : List (Option String × Tree)} :
    (∀ token ∈ (Tree.object members).tokens, P token) ↔
      ∀ m ∈ members, P (.string m.1) ∧ ∀ token ∈ m.2.tokens, P token := by
  rw [Tree.tokens, memberTokens_eq, List.forall_mem_cons, List.forall_mem_append,
    List.forall_mem_singleton, forall_mem_separated hcomma, List.forall_mem_map]
  simp only [List.forall_mem_cons, hopen, hcolon, hclose, true_and, and_true]

end

/-! ### No number stands behind a number -/

theorem isChain_cons {t : Token} {ts : List Token} (ht : t.isNumber = false)
    (h : ts.IsChain Apart) : (t :: ts).IsChain Apart := by
  cases ts with
  | nil => exact List.isChain_singleton t
  | cons u ts => exact List.isChain_cons_cons.2 ⟨Or.inl ht, h⟩

theorem isChain_append {ts us : List Token} {u : Token} (hu : u.isNumber = false)
    (hts : ts.IsChain Apart) (hus : us.IsChain Apart) : (ts ++ u :: us).IsChain Apart := by
  rw [List.isChain_append]
  refine ⟨hts, isChain_cons hu hus, fun x _ y hy => Or.inr ?_⟩
  obtain rfl := Option.some.inj hy
  exact hu

theorem isChain_separated {tss : List (List Token)} (h : ∀ ts ∈ tss, ts.IsChain Apart) :
    (separated tss).IsChain Apart := by
  induction tss with
  | nil => exact List.isChain_nil
  | cons ts tss ih =>
    have hts := h ts List.mem_cons_self
    have hrest := ih fun us hus => h us (List.mem_cons_of_mem ts hus)
    cases tss with
    | nil => exact hts
    | cons us tss => exact isChain_append rfl hts hrest

mutual

theorem Tree.isChain_tokens : (t : Tree) → t.tokens.IsChain Apart
  | .null => List.isChain_singleton _
  | .bool true => List.isChain_singleton _
  | .bool false => List.isChain_singleton _
  | .number _ => List.isChain_singleton _
  | .string _ => List.isChain_singleton _
  | .array items =>
    isChain_cons rfl (isChain_append rfl (isChain_separated (isChain_itemTokens items))
      List.isChain_nil)
  | .object members =>
    isChain_cons rfl (isChain_append rfl (isChain_separated (isChain_memberTokens members))
      List.isChain_nil)

theorem isChain_itemTokens : (items : List Tree) → ∀ ts ∈ itemTokens items, ts.IsChain Apart
  | [], _, h => nomatch h
  | t :: items, ts, h => by
    rcases List.mem_cons.1 h with rfl | h
    · exact t.isChain_tokens
    · exact isChain_itemTokens items ts h

theorem isChain_memberTokens :
    (members : List (Option String × Tree)) → ∀ ts ∈ memberTokens members, ts.IsChain Apart
  | [], _, h => nomatch h
  | (key, t) :: members, ts, h => by
    rcases List.mem_cons.1 h with rfl | h
    · exact isChain_cons rfl (isChain_cons rfl t.isChain_tokens)
    · exact isChain_memberTokens members ts h

end

/-! ### Trees that are written exactly -/

/-- Every token of a tree is written so that it is read back. -/
def Tree.Exact (t : Tree) : Prop := ∀ token ∈ t.tokens, token.isExact = true

theorem Tree.exact_string (s : String) : (Tree.string (some s)).Exact := by
  intro token h
  obtain rfl := List.mem_singleton.1 h
  rfl

theorem Tree.exact_array {items : List Tree} (h : ∀ t ∈ items, t.Exact) :
    (Tree.array items).Exact :=
  (Tree.forall_mem_array (P := (·.isExact = true)) rfl rfl rfl).2 h

theorem Tree.exact_object {members : List (Option String × Tree)}
    (h : ∀ m ∈ members, m.1.isSome ∧ m.2.Exact) : (Tree.object members).Exact := by
  refine (Tree.forall_mem_object (P := (·.isExact = true)) rfl rfl rfl rfl).2 fun m hm => ?_
  obtain ⟨hkey, hexact⟩ := h m hm
  obtain ⟨key, hkey⟩ := Option.isSome_iff_exists.1 hkey
  exact ⟨by rw [hkey]; rfl, hexact⟩

/-! ## Reading the tokens of a tree -/

namespace Reading

theorem run_cons {r r' : Reading} {t : Token} (h : step r t = some r') (rest : List Token) :
    run r (t :: rest) = run r' rest := by
  rw [run, h]

/-- The first token of a tree closes nothing. -/
theorem exists_first (t : Tree) : ∃ token rest, t.tokens = token :: rest ∧ token ≠ .closeArray := by
  cases t with
  | bool b => cases b <;> exact ⟨_, _, rfl, fun h => nomatch h⟩
  | _ => exact ⟨_, _, rfl, fun h => nomatch h⟩

/-- The first item of an array is read like any value. -/
theorem run_firstItem (open_ : List Frame) (t : Tree) (rest : List Token) :
    run (.firstItem open_) (t.tokens ++ rest) = run (.value (.array [] :: open_)) (t.tokens ++ rest) := by
  obtain ⟨token, tokens, htokens, hne⟩ := exists_first t
  have hstep : step (.firstItem open_) token = step (.value (.array [] :: open_)) token := by
    cases token with
    | closeArray => exact absurd rfl hne
    | _ => rfl
  rw [htokens, List.cons_append, run, run, hstep]

mutual

/-- Whatever is open, reading the tokens of a tree ends right behind it. -/
theorem run_tree : (t : Tree) → (open_ : List Frame) → (rest : List Token) →
    run (.value open_) (t.tokens ++ rest) = run (.after t open_) rest
  | .null, _, _ => rfl
  | .bool true, _, _ => rfl
  | .bool false, _, _ => rfl
  | .number _, _, _ => rfl
  | .string _, _, _ => rfl
  | .array [], _, _ => rfl
  | .array (t :: items), open_, rest => by
    -- the first item is read by `run_tree`, what comes behind it by `run_items`
    have htokens : (Tree.array (t :: items)).tokens ++ rest = .openArray :: (t.tokens ++
        ((itemTokens items).flatMap (.comma :: ·) ++ .closeArray :: rest)) := by
      rw [Tree.tokens, itemTokens, separated_cons, List.cons_append, List.append_assoc,
        List.append_assoc, List.singleton_append]
    rw [htokens, run_cons rfl, run_firstItem, run_tree t, run_items items]
    rfl
  | .object [], _, _ => rfl
  | .object ((k, t) :: members), open_, rest => by
    have htokens : (Tree.object ((k, t) :: members)).tokens ++ rest =
        .openObject :: .string k :: .colon :: (t.tokens ++
          ((memberTokens members).flatMap (.comma :: ·) ++ .closeObject :: rest)) := by
      rw [Tree.tokens, memberTokens, separated_cons]
      simp only [List.cons_append, List.append_assoc, List.nil_append]
    rw [htokens, run_cons rfl, run_cons rfl, run_cons rfl, run_tree t, run_members members]
    rfl

/-- Behind an item of an array, the rest of its items are read up to its end. -/
theorem run_items : (items : List Tree) → (last : Tree) → (done : List Tree) →
    (open_ : List Frame) → (rest : List Token) →
    run (.after last (.array done :: open_))
        ((itemTokens items).flatMap (.comma :: ·) ++ .closeArray :: rest) =
      run (.after (.array (done.reverse ++ last :: items)) open_) rest
  | [], last, done, open_, rest => by
    rw [itemTokens, List.flatMap_nil, List.nil_append, run_cons rfl, List.reverse_cons]
  | t :: items, last, done, open_, rest => by
    have htokens : (itemTokens (t :: items)).flatMap (.comma :: ·) ++ .closeArray :: rest =
        .comma :: (t.tokens ++ ((itemTokens items).flatMap (.comma :: ·) ++ .closeArray :: rest)) := by
      simp only [itemTokens, List.flatMap_cons, List.cons_append, List.append_assoc]
    rw [htokens, run_cons rfl, run_tree t, run_items items, List.reverse_cons, List.append_assoc,
      List.singleton_append]

/-- Behind a member of an object, the rest of its members are read up to its end. -/
theorem run_members : (members : List (Option String × Tree)) → (last : Tree) →
    (done : List (Option String × Tree)) → (k : Option String) → (open_ : List Frame) →
    (rest : List Token) →
    run (.after last (.object done k :: open_))
        ((memberTokens members).flatMap (.comma :: ·) ++ .closeObject :: rest) =
      run (.after (.object (done.reverse ++ (k, last) :: members)) open_) rest
  | [], last, done, k, open_, rest => by
    rw [memberTokens, List.flatMap_nil, List.nil_append, run_cons rfl, List.reverse_cons]
  | (k', t) :: members, last, done, k, open_, rest => by
    have htokens : (memberTokens ((k', t) :: members)).flatMap (.comma :: ·) ++ .closeObject :: rest =
        .comma :: .string k' :: .colon ::
          (t.tokens ++ ((memberTokens members).flatMap (.comma :: ·) ++ .closeObject :: rest)) := by
      simp only [memberTokens, List.flatMap_cons, List.cons_append, List.append_assoc]
    rw [htokens, run_cons rfl, run_cons rfl, run_cons rfl, run_tree t, run_members members,
      List.reverse_cons, List.append_assoc, List.singleton_append]

end

end Reading

theorem Tree.ofTokens?_tokens (t : Tree) : Tree.ofTokens? t.tokens = some t := by
  have h := Reading.run_tree t [] []
  rw [List.append_nil] at h
  exact h

/-- A tree that is written exactly is read back from its text. -/
theorem Tree.ofOctets?_render {t : Tree} (h : t.Exact) :
    Tree.ofOctets? (Utf8.octets t.render) = some t := by
  have htokens : tokens? (symbols t.render.toList) = some t.tokens :=
    tokens?_render h t.isChain_tokens
  rw [Tree.ofOctets?, Utf8.decode_octets, Tree.ofSymbols?, htokens]
  exact t.ofTokens?_tokens

/-- What a form writes exactly is read as the form reads the tree. -/
theorem Format.ofOctets?_octets {α : Type} (f : Format α) {a : α} (h : (f.tree a).Exact) :
    f.ofOctets? (f.octets a) = f.read depthLimit (f.tree a) := by
  rw [Format.ofOctets?, Format.octets, Format.encode, Tree.ofOctets?_render h, Option.bind_some]

/-! ## Values -/

/-- The value nests at most so deep, its numbers are integers, and the keys of its objects ascend. -/
inductive Value.Legible : Nat → Value → Prop
  | null {d : Nat} : Legible d .null
  | bool {d : Nat} (b : Bool) : Legible d (.bool b)
  | natural {d : Nat} (n : UInt64) : Legible d (.number (.natural n))
  | negative {d : Nat} (i : Int64) (h : i < 0) : Legible d (.number (.negative i h))
  | string {d : Nat} (s : String) : Legible d (.string s)
  | array {d : Nat} {items : List Value} (h : ∀ v ∈ items, Legible d v) : Legible (d + 1) (.array items)
  | object {d : Nat} {members : Members} (ascending : members.Pairwise (·.1 < ·.1))
      (h : ∀ m ∈ members, Legible d m.2) : Legible (d + 1) (.object members)

theorem itemTrees_eq (items : List Value) : itemTrees items = items.map Value.tree := by
  induction items with
  | nil => rfl
  | cons v items ih => rw [itemTrees, ih, List.map_cons]

theorem memberTrees_eq (members : Members) :
    memberTrees members = members.map fun m => (some m.1, m.2.tree) := by
  induction members with
  | nil => rfl
  | cons m members ih => rw [memberTrees, ih, List.map_cons]

theorem Value.Legible.exact {d : Nat} {v : Value} (h : v.Legible d) : v.tree.Exact := by
  induction h with
  | null => intro t ht; obtain rfl := List.mem_singleton.1 ht; rfl
  | bool b => cases b <;> (intro t ht; obtain rfl := List.mem_singleton.1 ht; rfl)
  | natural n => intro t ht; obtain rfl := List.mem_singleton.1 ht; rfl
  | negative i hi => intro t ht; obtain rfl := List.mem_singleton.1 ht; rfl
  | string s => exact Tree.exact_string s
  | array h ih =>
    rw [Value.tree, itemTrees_eq]
    exact Tree.exact_array (List.forall_mem_map.2 ih)
  | object ascending h ih =>
    rw [Value.tree, memberTrees_eq]
    exact Tree.exact_object (List.forall_mem_map.2 fun m hm => ⟨rfl, ih m hm⟩)

theorem itemValues?_map {d : Nat} {items : List Value}
    (h : ∀ v ∈ items, v.tree.value? d = some v) : itemValues? d (items.map Value.tree) = some items := by
  induction items with
  | nil => rfl
  | cons v items ih =>
    have hrest := ih fun w hw => h w (List.mem_cons_of_mem v hw)
    rw [List.map_cons, itemValues?, h v List.mem_cons_self, hrest]
    rfl

theorem memberValues?_map {d : Nat} {members : Members}
    (h : ∀ m ∈ members, m.2.tree.value? d = some m.2) :
    memberValues? d (members.map fun m => (some m.1, m.2.tree)) = some members := by
  induction members with
  | nil => rfl
  | cons m members ih =>
    have hrest := ih fun m' hm' => h m' (List.mem_cons_of_mem m hm')
    have hvalue := h m List.mem_cons_self
    simp only [List.map_cons, memberValues?, hvalue, hrest, Option.map_some]

/-- A legible value is read back from its tree. -/
theorem Value.Legible.value?_tree {d : Nat} {v : Value} (h : v.Legible d) :
    v.tree.value? d = some v := by
  induction h with
  | null => rfl
  | bool b => rfl
  | natural n => rfl
  | negative i hi => rfl
  | string s => rfl
  | array h ih =>
    rw [Value.tree, itemTrees_eq, Tree.value?, itemValues?_map ih]
    rfl
  | object ascending h ih =>
    rw [Value.tree, memberTrees_eq, Tree.value?, memberValues?_map ih, Option.map_some,
      Members.ofList_eq_self ascending]

/-- A legible value is read back from its text. -/
theorem Value.Legible.ofOctets?_render {v : Value} (h : v.Legible depthLimit) :
    Value.ofOctets? (Utf8.octets v.render) = some v := by
  rw [Value.ofOctets?, Value.render, Tree.ofOctets?_render h.exact, Option.bind_some, h.value?_tree]

end SealedCustody.Json
