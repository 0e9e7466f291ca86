import SealedCustody.Proofs.Json.Parsing
import Mathlib.Algebra.Order.BigOperators.Group.List

/-!
# How long a text is

Every token has a least size: the characters of its string and two quotes, or one character. No text of a
tree is shorter than the least sizes of its tokens together (`Tree.WrittenAs.leastSizes_le`), and what is
written for brackets, commas and strings of plain characters is just that long
(`Tree.length_octets_render`).
-/

namespace SealedCustody

namespace Utf8

theorem length_le_length_encode (cs : List Char) : cs.length ≤ (encode cs).length := by
  induction cs with
  | nil => exact Nat.le_refl 0
  | cons c cs ih =>
    have hc := c.utf8Size_pos
    rw [encode, List.flatMap_cons, List.length_append, String.length_utf8EncodeChar, List.length_cons]
    rw [encode] at ih
    omega

/-- A character of ASCII is one octet. -/
theorem length_encode {cs : List Char} (h : ∀ c ∈ cs, c.toNat < 0x80) :
    (encode cs).length = cs.length := by
  induction cs with
  | nil => rfl
  | cons c cs ih =>
    have hc : c.utf8Size = 1 := Char.utf8Size_eq_one_iff.2 <| UInt32.le_iff_toNat_le.2 <|
      Nat.le_of_lt_succ (h c List.mem_cons_self)
    have hrest := ih fun c' hc' => h c' (List.mem_cons_of_mem c hc')
    rw [encode, List.flatMap_cons, List.length_append, String.length_utf8EncodeChar, List.length_cons,
      hc]
    rw [encode] at hrest
    omega

end Utf8

namespace Json

open Grammar

/-! ## Tokens -/

/-- A character that is written in a string as itself, as one octet. -/
def IsPlain (c : Char) : Prop := 0x20 ≤ c.toNat ∧ c.toNat < 0x80 ∧ c ≠ '"' ∧ c ≠ '\\'

instance (c : Char) : Decidable (IsPlain c) := inferInstanceAs (Decidable (_ ∧ _ ∧ _ ∧ _))

namespace Token

/-- The characters that a token takes at least. -/
def leastSize : Token → Nat
  | string (some s) => s.toList.length + 2
  | _ => 1

/-- A bracket, a colon, a comma, or a string of plain characters. -/
def IsPlain : Token → Prop
  | string (some s) => ∀ c ∈ s.toList, Json.IsPlain c
  | openArray | closeArray | openObject | closeObject | colon | comma => True
  | _ => False

theorem escaped_of_isPlain {c : Char} (h : Json.IsPlain c) : escaped c = [c] := by
  obtain ⟨hcontrol, -, hquote, hbackslash⟩ := h
  have hne : ∀ d : Char, d.toNat < 0x20 → c ≠ d := by
    rintro d hd rfl
    omega
  rw [escaped, if_neg hquote, if_neg hbackslash, if_neg (hne _ (by decide)), if_neg (hne _ (by decide)),
    if_neg (hne _ (by decide)), if_neg (hne _ (by decide)), if_neg (hne _ (by decide)),
    if_neg (Nat.not_lt.2 hcontrol)]

/-- A string of plain characters is written as it is. -/
theorem quoted_of_isPlain {s : String} (h : ∀ c ∈ s.toList, Json.IsPlain c) :
    quoted s = '"' :: (s.toList ++ ['"']) := by
  have hself : s.toList.flatMap escaped = s.toList.flatMap fun c => [c] :=
    List.flatMap_congr fun c hc => escaped_of_isPlain (h c hc)
  rw [quoted, hself, List.flatMap_singleton']

/-- What is written for a plain token is as short as can be, and ASCII. -/
theorem IsPlain.text {t : Token} (h : t.IsPlain) :
    t.text.length = t.leastSize ∧ ∀ c ∈ t.text, c.toNat < 0x80 := by
  cases t with
  | string s =>
    cases s with
    | none => exact h.elim
    | some s =>
      have hquoted : (Token.string (some s)).text = '"' :: (s.toList ++ ['"']) := quoted_of_isPlain h
      rw [hquoted]
      refine ⟨by simp [leastSize], fun c hc => ?_⟩
      rcases List.mem_cons.1 hc with rfl | hc
      · decide
      · rcases List.mem_append.1 hc with hc | hc
        · exact (h c hc).2.1
        · rw [List.mem_singleton.1 hc]
          decide
  | openArray | closeArray | openObject | closeObject | colon | comma =>
    exact ⟨rfl, List.forall_mem_singleton.2 (by decide)⟩
  | null | true | false | number => exact h.elim

end Token

/-- The characters that some tokens take at least. -/
def leastSizes (ts : List Token) : Nat := (ts.map Token.leastSize).sum

@[simp] theorem leastSizes_nil : leastSizes [] = 0 := rfl

@[simp] theorem leastSizes_cons (t : Token) (ts : List Token) :
    leastSizes (t :: ts) = t.leastSize + leastSizes ts := rfl

@[simp] theorem leastSizes_append (ts us : List Token) :
    leastSizes (ts ++ us) = leastSizes ts + leastSizes us := by
  rw [leastSizes, List.map_append, List.sum_append]
  rfl

theorem leastSizes_le_of_sublist {ts us : List Token} (h : ts.Sublist us) :
    leastSizes ts ≤ leastSizes us :=
  (h.map Token.leastSize).sum_le_sum fun _ _ => Nat.zero_le _

/-! ## Any text -/

theorem Grammar.Spelling.length_pos {form : List Char} {c : Char} (h : Spelling form c) :
    1 ≤ form.length := by
  cases h <;> simp

theorem Grammar.Body.length_le {cs s : List Char} (h : Body cs s) : s.length ≤ cs.length := by
  induction h with
  | nil => exact Nat.le_refl 0
  | cons h _ ih =>
    have hform := h.length_pos
    rw [List.length_cons, List.length_append]
    omega

theorem Grammar.NumeralForm.length_pos {negative : Bool} {cs : List Char} {t : NumeralText}
    (h : NumeralForm negative cs t) : 1 ≤ cs.length := by
  obtain ⟨⟨⟨hne, -⟩, -⟩, -, -⟩ := h
  have hpos := List.length_pos_iff.2 hne
  rw [List.length_append]
  omega

theorem Grammar.Numeral.length_pos {cs : List Char} {t : NumeralText} (h : Numeral cs t) :
    1 ≤ cs.length := by
  cases h with
  | positive h => exact h.length_pos
  | negative h => exact Nat.le_add_left 1 _

theorem Grammar.Lexeme.leastSize_le {text : List Char} {t : Token} (h : Lexeme text t) :
    t.leastSize ≤ text.length := by
  cases h with
  | string h =>
    have hbody := h.length_le
    simpa [Token.leastSize] using hbody
  | illFormed => exact Nat.le_add_left 1 _
  | number h | outOfRange h => exact h.length_pos
  | _ => decide

theorem Grammar.Spells.leastSizes_le {cs : List Char} {ts : List Token} (h : Spells cs ts) :
    leastSizes ts ≤ cs.length := by
  induction h with
  | nil => exact Nat.le_refl 0
  | space _ _ ih => exact ih.trans (Nat.le_succ _)
  | token h _ ih =>
    have htoken := h.leastSize_le
    rw [leastSizes_cons, List.length_append]
    omega

/-- A text of a tree takes an octet for each character that its tokens take at least. -/
theorem Tree.WrittenAs.leastSizes_le {t : Tree} {bs : List UInt8} (h : t.WrittenAs bs) :
    leastSizes t.tokens ≤ bs.length := by
  obtain ⟨cs, rfl, hspells⟩ := h
  exact hspells.leastSizes_le.trans (Utf8.length_le_length_encode cs)

/-! ## What is written -/

/-- Plain tokens are written in just so many octets. -/
theorem Tree.length_octets_render {t : Tree} (h : ∀ token ∈ t.tokens, token.IsPlain) :
    (Utf8.octets t.render).length = leastSizes t.tokens := by
  have hascii : ∀ c ∈ t.tokens.flatMap Token.text, c.toNat < 0x80 := by
    intro c hc
    obtain ⟨token, htoken, hc⟩ := List.mem_flatMap.1 hc
    exact (h token htoken).text.2 c hc
  have hsizes : t.tokens.map (fun token => token.text.length) = t.tokens.map Token.leastSize :=
    List.map_congr_left fun token htoken => (h token htoken).text.1
  rw [Utf8.octets_eq, Tree.render, Token.render, String.toList_ofList, Utf8.length_encode hascii,
    List.length_flatMap, hsizes, leastSizes]

/-! ## The parts of a tree -/

theorem sublist_separated {ts : List Token} {tss : List (List Token)} (h : ts ∈ tss) :
    ts.Sublist (separated tss) := by
  cases tss with
  | nil => cases h
  | cons us tss =>
    rw [separated_cons]
    rcases List.mem_cons.1 h with rfl | h
    · exact List.sublist_append_left _ _
    · have hrest : ts.Sublist (tss.flatMap (.comma :: ·)) :=
        (List.sublist_cons_self _ _).trans (List.sublist_flatten_of_mem (List.mem_map_of_mem h))
      exact hrest.trans (List.sublist_append_right _ _)

/-- An array has room for its items and two brackets. -/
theorem leastSizes_item_le {items : List Tree} {t : Tree} (h : t ∈ items) :
    leastSizes t.tokens + 2 ≤ leastSizes (Tree.array items).tokens := by
  have hitem := leastSizes_le_of_sublist
    (sublist_separated (itemTokens_eq items ▸ List.mem_map_of_mem h : t.tokens ∈ itemTokens items))
  simp only [Tree.tokens, leastSizes_cons, leastSizes_append, leastSizes_nil, Token.leastSize]
  omega

/-- An object has room for the values of its members and two brackets. -/
theorem leastSizes_member_le {members : List (Option String × Tree)} {m : Option String × Tree}
    (h : m ∈ members) : leastSizes m.2.tokens + 2 ≤ leastSizes (Tree.object members).tokens := by
  have hmember := leastSizes_le_of_sublist (sublist_separated
    (memberTokens_eq members ▸ List.mem_map_of_mem h :
      Token.string m.1 :: .colon :: m.2.tokens ∈ memberTokens members))
  simp only [Tree.tokens, leastSizes_cons, leastSizes_append, leastSizes_nil,
    Token.leastSize] at hmember ⊢
  omega

/-- The tree given for a field leaves room for two brackets. -/
theorem Tree.leastSizes_field_le {names : List String} {unknown : Unknown} {n d : Nat} {t field : Tree}
    {fields : Fields} (h : t.fields? names unknown n = some (fields, d)) {name : String}
    (hfield : fields name = some field) : leastSizes field.tokens + 2 ≤ leastSizes t.tokens := by
  unfold fields? at h
  split at h
  · split at h
    · obtain ⟨rfl, -⟩ := Prod.mk.inj (Option.some.inj h)
      obtain ⟨m, hm, rfl⟩ := Option.map_eq_some_iff.1 hfield
      exact leastSizes_member_le (List.mem_of_find?_eq_some hm)
    · cases h
  · split at h
    · obtain ⟨rfl, -⟩ := Prod.mk.inj (Option.some.inj h)
      exact leastSizes_item_le (List.mem_of_getElem? hfield)
    · cases h
  · cases h

end Json

end SealedCustody
