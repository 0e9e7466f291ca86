import SealedCustody.Proofs.Json.Grammar
import Mathlib.Algebra.Group.Nat.Defs

/-!
# Tokens and their text

What tokens are written as is a text of them by the grammar (`spells_text`), so they are read back from
it. Two things are asked of them. Every token has a value that is written exactly: a string or number
that cannot be held has no text, and a double is written to be read as one that is near
(`Token.isExact`). And no number stands right behind another, for their digits would run together.
-/

namespace SealedCustody.Json

open Grammar

/-! ## Strings -/

theorem hexDigit_digit {n : Nat} (h : n < 16) : HexDigit (Hex.digit n) n := by
  have hall : ∀ k : Fin 16, Hex.value? (Hex.digit k) = some k.val := by decide
  exact hexValue?_eq_some_iff.1 (hall ⟨n, h⟩)

/-- A control character is written by its number. -/
theorem hexUnit_control {c : Char} (h : c.toNat < 0x20) :
    HexUnit ('0' :: '0' :: Hex.octet c.toNat.toUInt8) c.toNat := by
  have hoctet : (c.toNat.toUInt8).toNat = c.toNat := by
    rw [Nat.toUInt8_eq, UInt8.toNat_ofNat']
    omega
  have hzero : HexDigit '0' 0 := .decimal (by decide)
  have hunit := HexUnit.mk hzero hzero (hexDigit_digit (n := c.toNat / 16) (by omega))
    (hexDigit_digit (n := c.toNat % 16) (by omega))
  have hvalue : ((0 * 16 + 0) * 16 + c.toNat / 16) * 16 + c.toNat % 16 = c.toNat := by omega
  rw [hvalue] at hunit
  rwa [Hex.octet, hoctet]

/-- A character is written by a letter that stands for it, as a control character or as itself. -/
theorem spelling_escaped (c : Char) : Spelling (Token.escaped c) c := by
  have hletter : ∀ {d letter : Char}, c = d → Token.escaped d = ['\\', letter] → Escape letter d →
      Spelling (Token.escaped c) c := by
    rintro d letter rfl hd hescape
    rw [hd]
    exact .letter hescape
  -- the characters that have a letter, one by one; what is left is written by its number or as itself
  by_cases h1 : c = '"'
  · exact hletter h1 rfl .quote
  by_cases h2 : c = '\\'
  · exact hletter h2 rfl .backslash
  by_cases h3 : c = '\x08'
  · exact hletter h3 rfl .backspace
  by_cases h4 : c = '\x0c'
  · exact hletter h4 rfl .formFeed
  by_cases h5 : c = '\n'
  · exact hletter h5 rfl .newline
  by_cases h6 : c = '\r'
  · exact hletter h6 rfl .carriageReturn
  by_cases h7 : c = '\t'
  · exact hletter h7 rfl .tab
  unfold Token.escaped
  rw [if_neg h1, if_neg h2, if_neg h3, if_neg h4, if_neg h5, if_neg h6, if_neg h7]
  split
  · rename_i hcontrol
    have hunit := Spelling.unit (hexUnit_control hcontrol) (Or.inl (by omega))
    rwa [Char.ofNat_toNat] at hunit
  · exact .plain (by omega) h1 h2

theorem body_escaped (s : List Char) : Body (s.flatMap Token.escaped) s := by
  induction s with
  | nil => exact .nil
  | cons c s ih => exact .cons (spelling_escaped c) ih

/-! ## Numbers -/

theorem digit_toDigits {n : Nat} {c : Char} (h : c ∈ Nat.toDigits 10 n) : '0' ≤ c ∧ c ≤ '9' := by
  have hdigit := Nat.isDigit_of_mem_toDigits (by decide) (by decide) h
  simpa [Char.isDigit, Char.le_def] using hdigit

/-- A number is written with a zero in front only if it is zero. -/
theorem toDigits_head {n : Nat} (h : 0 < n) : (Nat.toDigits 10 n).head? ≠ some '0' := by
  induction n using Nat.strongRecOn with
  | ind n ih =>
    by_cases hlt : n < 10
    · rw [Nat.toDigits_of_lt_base hlt]
      have hall : ∀ k : Fin 10, 0 < k.val → [Nat.digitChar k].head? ≠ some '0' := by decide
      exact hall ⟨n, hlt⟩ h
    · rw [Nat.toDigits_of_base_le (by decide) (by omega), List.head?_append]
      have hhead := ih (n / 10) (by omega) (by omega)
      cases hdigits : Nat.toDigits 10 (n / 10) with
      | nil => exact absurd hdigits Nat.toDigits_ne_nil
      | cons d ds =>
        rw [hdigits] at hhead
        exact hhead

/-- The digits of a number are a numeral without a fraction or an exponent. -/
theorem numeralForm_toDigits (negative : Bool) (n : Nat) :
    NumeralForm negative (Nat.toDigits 10 n) ⟨negative, Nat.toDigits 10 n, none, none⟩ := by
  have hwhole : Whole (Nat.toDigits 10 n) := by
    refine ⟨⟨Nat.toDigits_ne_nil, fun c => digit_toDigits⟩, fun hzero => ?_⟩
    rcases Nat.eq_zero_or_pos n with rfl | hpos
    · rfl
    · exact absurd hzero (toDigits_head hpos)
  have hform : NumeralForm negative (Nat.toDigits 10 n ++ ([] ++ [])) _ := .mk hwhole .absent .absent
  rwa [List.append_nil, List.append_nil] at hform

/-- Digits that spell a number that fits a word are all taken. -/
theorem takeWord_eq {cs : List Char} {n : Nat} (h : Nat.ofDigitChars 10 cs n < UInt64.size) :
    takeWord n cs = (Nat.ofDigitChars 10 cs n, []) := by
  have hfills : Fills n cs [] (Nat.ofDigitChars 10 cs n) := ⟨rfl, h, nofun⟩
  have hword := hfills.takeWord
  rwa [List.append_nil] at hword

/-- The digits of a number that fits a word stand for an integer. -/
theorem number?_toDigits (negative : Bool) {n : Nat} (h : n < UInt64.size) :
    NumeralText.number? ⟨negative, Nat.toDigits 10 n, none, none⟩ =
      some (NumeralText.integer negative n) := by
  have hword : takeWord 0 (Nat.toDigits 10 n) = (n, []) := by
    rw [takeWord_eq (by rwa [Nat.ofDigitChars_ten_toDigits]), Nat.ofDigitChars_ten_toDigits]
  simp only [NumeralText.number?, hword]

theorem integer_natural (n : UInt64) : NumeralText.integer false n.toNat = .natural n := by
  unfold NumeralText.integer
  rw [if_neg Bool.false_ne_true]
  exact congrArg Number.natural UInt64.ofNat_toNat

theorem natAbs_le (i : Int64) : i.toInt.natAbs ≤ 2 ^ 63 := by
  have hle := i.le_toInt
  have hlt := i.toInt_lt
  omega

theorem integer_negative (i : Int64) (h : i < 0) :
    NumeralText.integer true i.toInt.natAbs = .negative i h := by
  have hneg : i.toInt < 0 := by
    have hlt := Int64.lt_iff_toInt_lt.1 h
    simpa using hlt
  have hval : -(i.toInt.natAbs : Int) = i.toInt := by omega
  have hofInt : Int64.ofInt i.toInt = i := Int64.ofInt_toInt i
  unfold NumeralText.integer
  rw [if_pos rfl]
  simp only [hval, hofInt]
  rw [dif_pos]
  exact ⟨by omega, natAbs_le i, h⟩

/-! ## Tokens -/

/-- A token whose value is written so that it is read back. -/
def Token.isExact : Token → Bool
  | .number (some (.double _)) => .false
  | .number none => .false
  | .string none => .false
  | _ => .true

theorem lexeme_text {t : Token} (ht : t.isExact = true) : Lexeme t.text t := by
  cases t with
  | number value =>
    match value, ht with
    | some (.natural n), _ =>
      refine (Numeral.positive (numeralForm_toDigits false n.toNat)).lexeme ?_
      rw [number?_toDigits _ n.toNat_lt, integer_natural]
    | some (.negative i h), _ =>
      have hlt : i.toInt.natAbs < UInt64.size := Nat.lt_of_le_of_lt (natAbs_le i) (by decide)
      refine (Numeral.negative (numeralForm_toDigits true i.toInt.natAbs)).lexeme ?_
      rw [number?_toDigits _ hlt, integer_negative]
  | string value =>
    match value, ht with
    | some s, _ =>
      have hstring := Lexeme.string (body_escaped s.toList)
      rwa [String.ofList_toList] at hstring
  | openArray => exact .openArray
  | closeArray => exact .closeArray
  | openObject => exact .openObject
  | closeObject => exact .closeObject
  | colon => exact .colon
  | comma => exact .comma
  | null => exact .nullWord
  | «true» => exact .trueWord
  | «false» => exact .falseWord

theorem spells_text {ts : List Token} (h : ∀ t ∈ ts, t.isExact = true) :
    Spells (ts.flatMap Token.text) ts := by
  induction ts with
  | nil => exact .nil
  | cons t ts ih =>
    exact .token (lexeme_text (h t List.mem_cons_self)) (ih fun u hu => h u (List.mem_cons_of_mem t hu))

/-- The tokens of a text that was written from tokens. -/
theorem tokens?_render {ts : List Token} (hexact : ∀ t ∈ ts, t.isExact = true)
    (hapart : ts.IsChain Apart) : tokens? (symbols (Token.render ts).toList) = some ts := by
  rw [Token.render, String.toList_ofList]
  exact tokens?_of_spells (spells_text hexact) hapart

end SealedCustody.Json
