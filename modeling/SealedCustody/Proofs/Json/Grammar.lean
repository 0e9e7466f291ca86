import SealedCustody.Json.Token
import SealedCustody.Proofs.Json.Numerals
import Mathlib.Data.List.Chain
import Mathlib.Data.List.TakeDrop
import Mathlib.Data.List.TakeWhile

/-!
# The grammar of JSON tokens

How a text spells tokens, by the rules of RFC 8259 and without regard to how it is read: what a numeral
is made of (`Grammar.Numeral`), what may stand in a string (`Grammar.Marks`) and the ways to write a
character in one (`Grammar.Spelling`), the text of a token (`Grammar.Lexeme`), and a text of tokens with
white space between them (`Grammar.Spells`).

The grammar has texts that nothing can be held for. It lets half of a surrogate pair stand in a string
where no character is written, and it sets no bounds to a numeral. These are tokens without a value
(`Token.isHeld`): a string whose marks spell no characters, and a numeral that is out of range
(`NumeralText.InRange`).

The reader of tokens reads every text of the grammar, of which it asks that no number stands right behind
another, for their digits would be read as one (`tokens?_of_spells`). What it read is a text of the
grammar if all of it can be held (`spells_of_tokens?`).
-/

namespace SealedCustody.Json

/-- Characters as the symbols of a text. -/
abbrev symbols (cs : List Char) : List Symbol := cs.map some

namespace Grammar

/-! ## Numerals -/

/-- Decimal digits, at least one. -/
def Digits (ds : List Char) : Prop := ds ≠ [] ∧ ∀ c ∈ ds, '0' ≤ c ∧ c ≤ '9'

/-- The digits in front of the point: zero, or digits of which the first is not zero. -/
def Whole (ds : List Char) : Prop := Digits ds ∧ (ds.head? = some '0' → ds = ['0'])

/-- Nothing, or a point and digits. -/
inductive Fraction : List Char → Option (List Char) → Prop
  | absent : Fraction [] none
  | present {ds : List Char} (h : Digits ds) : Fraction ('.' :: ds) (some ds)

/-- The sign of an exponent, of which the plus may be left out. -/
inductive Sign : List Char → Bool → Prop
  | absent : Sign [] false
  | plus : Sign ['+'] false
  | minus : Sign ['-'] true

/-- Nothing, or a mark, a sign and digits. -/
inductive Exponent : List Char → Option (Bool × List Char) → Prop
  | absent : Exponent [] none
  | present {mark : Char} {sign ds : List Char} {negative : Bool} (hmark : mark = 'e' ∨ mark = 'E')
      (hsign : Sign sign negative) (h : Digits ds) : Exponent (mark :: (sign ++ ds)) (some (negative, ds))

/-- The parts of a numeral after its sign. -/
inductive NumeralForm (negative : Bool) : List Char → NumeralText → Prop
  | mk {whole fs es : List Char} {fraction : Option (List Char)} {exponent : Option (Bool × List Char)}
      (hwhole : Whole whole) (hfraction : Fraction fs fraction) (hexponent : Exponent es exponent) :
      NumeralForm negative (whole ++ (fs ++ es)) ⟨negative, whole, fraction, exponent⟩

/-- The text of a numeral. -/
inductive Numeral : List Char → NumeralText → Prop
  | positive {cs : List Char} {t : NumeralText} (h : NumeralForm false cs t) : Numeral cs t
  | negative {cs : List Char} {t : NumeralText} (h : NumeralForm true cs t) : Numeral ('-' :: cs) t

/-! ## Strings -/

/-- The letters that stand for characters after a backslash. -/
inductive Escape : Char → Char → Prop
  | quote : Escape '"' '"'
  | backslash : Escape '\\' '\\'
  | slash : Escape '/' '/'
  | backspace : Escape 'b' '\x08'
  | formFeed : Escape 'f' '\x0c'
  | newline : Escape 'n' '\n'
  | carriageReturn : Escape 'r' '\r'
  | tab : Escape 't' '\t'

/-- A hexadecimal digit of either case, and its number. -/
inductive HexDigit : Char → Nat → Prop
  | decimal {c : Char} (h : '0' ≤ c ∧ c ≤ '9') : HexDigit c (c.toNat - '0'.toNat)
  | lower {c : Char} (h : 'a' ≤ c ∧ c ≤ 'f') : HexDigit c (c.toNat - 'a'.toNat + 10)
  | upper {c : Char} (h : 'A' ≤ c ∧ c ≤ 'F') : HexDigit c (c.toNat - 'A'.toNat + 10)

/-- Four hexadecimal digits, and the number that they spell. -/
inductive HexUnit : List Char → Nat → Prop
  | mk {a b c d : Char} {w x y z : Nat} (ha : HexDigit a w) (hb : HexDigit b x) (hc : HexDigit c y)
      (hd : HexDigit d z) : HexUnit [a, b, c, d] (((w * 16 + x) * 16 + y) * 16 + z)

/-- What may stand in a string: a character as itself, a letter after a backslash, or a number of sixteen
bits. -/
inductive Mark : List Char → Prop
  | plain {c : Char} (hcontrol : 0x20 ≤ c.toNat) (hquote : c ≠ '"') (hbackslash : c ≠ '\\') : Mark [c]
  | letter {l c : Char} (h : Escape l c) : Mark ['\\', l]
  | unit {ds : List Char} {n : Nat} (h : HexUnit ds n) : Mark ('\\' :: 'u' :: ds)

/-- What may stand between the quotes of a string. -/
inductive Marks : List Char → Prop
  | nil : Marks []
  | cons {mark cs : List Char} (h : Mark mark) (rest : Marks cs) : Marks (mark ++ cs)

/-- The ways to write a character of a string: as itself, by a letter that stands for it, by its number,
or by the numbers of a surrogate pair. -/
inductive Spelling : List Char → Char → Prop
  | plain {c : Char} (hcontrol : 0x20 ≤ c.toNat) (hquote : c ≠ '"') (hbackslash : c ≠ '\\') :
      Spelling [c] c
  | letter {l c : Char} (h : Escape l c) : Spelling ['\\', l] c
  | unit {ds : List Char} {n : Nat} (h : HexUnit ds n) (hn : n < 0xd800 ∨ 0xe000 ≤ n) :
      Spelling ('\\' :: 'u' :: ds) (Char.ofNat n)
  | pair {ds es : List Char} {hi lo : Nat} (hds : HexUnit ds hi) (hhi : 0xd800 ≤ hi ∧ hi < 0xdc00)
      (hes : HexUnit es lo) (hlo : 0xdc00 ≤ lo ∧ lo < 0xe000) :
      Spelling ('\\' :: 'u' :: (ds ++ '\\' :: 'u' :: es))
        (Char.ofNat (0x10000 + (hi - 0xd800) * 0x400 + (lo - 0xdc00)))

/-- What stands between the quotes of a string of characters. -/
inductive Body : List Char → List Char → Prop
  | nil : Body [] []
  | cons {form cs : List Char} {c : Char} {s : List Char} (h : Spelling form c) (rest : Body cs s) :
      Body (form ++ cs) (c :: s)

/-! ## Tokens -/

/-- The text of a token. -/
inductive Lexeme : List Char → Token → Prop
  | openArray : Lexeme ['['] .openArray
  | closeArray : Lexeme [']'] .closeArray
  | openObject : Lexeme ['\x7b'] .openObject
  | closeObject : Lexeme ['\x7d'] .closeObject
  | colon : Lexeme [':'] .colon
  | comma : Lexeme [','] .comma
  | nullWord : Lexeme ['n', 'u', 'l', 'l'] .null
  | trueWord : Lexeme ['t', 'r', 'u', 'e'] .true
  | falseWord : Lexeme ['f', 'a', 'l', 's', 'e'] .false
  | number {cs : List Char} {t : NumeralText} (h : Numeral cs t) (hrange : t.InRange) :
      Lexeme cs (.number (some t.value))
  | outOfRange {cs : List Char} {t : NumeralText} (h : Numeral cs t) (hrange : ¬t.InRange) :
      Lexeme cs (.number none)
  | string {cs s : List Char} (h : Body cs s) :
      Lexeme ('"' :: (cs ++ ['"'])) (.string (some (String.ofList s)))
  /-- The marks spell no characters: there is half of a surrogate pair among them. -/
  | illFormed {cs : List Char} (h : Marks cs) (hbody : ∀ s, ¬Body cs s) :
      Lexeme ('"' :: (cs ++ ['"'])) (.string none)

/-- White space between tokens. -/
inductive Space : Char → Prop
  | space : Space ' '
  | tab : Space '\t'
  | lineFeed : Space '\n'
  | carriageReturn : Space '\r'

/-- A text of tokens, with any white space before, between and after them. -/
inductive Spells : List Char → List Token → Prop
  | nil : Spells [] []
  | space {c : Char} {cs : List Char} {ts : List Token} (h : Space c) (rest : Spells cs ts) :
      Spells (c :: cs) ts
  | token {text cs : List Char} {t : Token} {ts : List Token} (h : Lexeme text t) (rest : Spells cs ts) :
      Spells (text ++ cs) (t :: ts)

end Grammar

open Grammar

/-! ## Digits -/

theorem isDigit_some_iff {c : Char} : isDigit (some c) = true ↔ '0' ≤ c ∧ c ≤ '9' := by
  simp [isDigit]

/-- What follows digits is no further digit. -/
def endsDigits (rest : List Symbol) : Prop := ∀ s ∈ rest.head?, isDigit s = false

/-- Digits are read up to where they end. -/
theorem spanDigits_append {ds : List Char} (hds : ∀ c ∈ ds, '0' ≤ c ∧ c ≤ '9') {rest : List Symbol}
    (h : endsDigits rest) : spanDigits (symbols ds ++ rest) = (ds, rest) := by
  have hall : ∀ s ∈ symbols ds, isDigit s = true := by
    intro s hs
    obtain ⟨c, hc, rfl⟩ := List.mem_map.1 hs
    exact isDigit_some_iff.2 (hds c hc)
  have hstop : rest.takeWhile isDigit = [] ∧ rest.dropWhile isDigit = rest := by
    cases rest with
    | nil => exact ⟨rfl, rfl⟩
    | cons s rest =>
      have hs : ¬ isDigit s = true := by simp [h s rfl]
      exact ⟨List.takeWhile_cons_of_neg hs, List.dropWhile_cons_of_neg hs⟩
  unfold spanDigits
  rw [List.span_eq_takeWhile_dropWhile, List.takeWhile_append_of_pos hall,
    List.dropWhile_append_of_pos hall, hstop.1, hstop.2, List.append_nil]
  simp [List.filterMap_map]

/-- The digits read are those at the front. -/
theorem of_spanDigits {cs rest : List Symbol} {ds : List Char} (h : spanDigits cs = (ds, rest)) :
    cs = symbols ds ++ rest ∧ ∀ c ∈ ds, '0' ≤ c ∧ c ≤ '9' := by
  have hchars : ∀ ss : List Symbol, (∀ s ∈ ss, isDigit s = true) →
      symbols (ss.filterMap id) = ss ∧ ∀ c ∈ ss.filterMap id, '0' ≤ c ∧ c ≤ '9' := by
    intro ss
    induction ss with
    | nil => exact fun _ => ⟨rfl, nofun⟩
    | cons s ss ih =>
      intro hss
      obtain ⟨hsymbols, hdigits⟩ := ih fun s' hs' => hss s' (List.mem_cons_of_mem s hs')
      have hs : isDigit s = true := hss s List.mem_cons_self
      cases s with
      | none => cases hs
      | some c =>
        exact ⟨congrArg (some c :: ·) hsymbols, List.forall_mem_cons.2 ⟨isDigit_some_iff.1 hs, hdigits⟩⟩
  unfold spanDigits at h
  rw [List.span_eq_takeWhile_dropWhile] at h
  obtain ⟨rfl, rfl⟩ := Prod.mk.inj h
  obtain ⟨hsymbols, hdigits⟩ := hchars _ fun s hs => List.mem_takeWhile_imp hs
  exact ⟨by rw [hsymbols, List.takeWhile_append_dropWhile], hdigits⟩

/-! ## Reading a numeral -/

/-- What follows a numeral cannot be taken for more of it. -/
def endsNumeral (rest : List Symbol) : Prop :=
  ∀ s ∈ rest.head?, isDigit s = false ∧ s ≠ some '.' ∧ s ≠ some 'e' ∧ s ≠ some 'E'

theorem Grammar.Digits.spanDigits {ds : List Char} (h : Digits ds) {rest : List Symbol}
    (hrest : endsDigits rest) : ∃ d tail, ds = d :: tail ∧
      Json.spanDigits (symbols ds ++ rest) = (d :: tail, rest) := by
  cases ds with
  | nil => exact absurd rfl h.1
  | cons d tail => exact ⟨d, tail, rfl, spanDigits_append h.2 hrest⟩

theorem Grammar.Fraction.read {fs : List Char} {fraction : Option (List Char)}
    (h : Fraction fs fraction) {rest : List Symbol} (hdigits : endsDigits rest)
    (hpoint : rest.head? ≠ some (some '.')) :
    fraction? (symbols fs ++ rest) = some (fraction, rest) := by
  cases h with
  | absent =>
    show fraction? rest = _
    unfold fraction?
    split
    · exact absurd rfl hpoint
    · rfl
  | @present ds h =>
    obtain ⟨d, tail, rfl, hspan⟩ := h.spanDigits hdigits
    show fraction? (some '.' :: (symbols (d :: tail) ++ rest)) = _
    rw [fraction?, hspan]

theorem Grammar.Digits.exponentDigits {ds : List Char} (h : Digits ds) (negative : Bool)
    {rest : List Symbol} (hrest : endsDigits rest) :
    exponentDigits? negative (symbols ds ++ rest) = some (some (negative, ds), rest) := by
  obtain ⟨d, tail, rfl, hspan⟩ := h.spanDigits hrest
  rw [exponentDigits?, hspan]

theorem Grammar.Exponent.read {es : List Char} {exponent : Option (Bool × List Char)}
    (h : Exponent es exponent) {rest : List Symbol} (hrest : endsNumeral rest) :
    exponent? (symbols es ++ rest) = some (exponent, rest) := by
  have hdigits : endsDigits rest := fun s hs => (hrest s hs).1
  cases h with
  | absent =>
    show exponent? rest = _
    unfold exponent?
    split
    · obtain ⟨-, -, he, hE⟩ := hrest _ rfl
      rw [if_neg]
      rintro (rfl | rfl)
      · exact he rfl
      · exact hE rfl
    · rfl
  | @present mark sign ds negative hmark hsign h =>
    cases hsign with
    | absent =>
      have hread := h.exponentDigits false hdigits
      obtain ⟨d, tail, rfl, -⟩ := h.spanDigits hdigits
      -- the first of the digits is no sign
      have hsign : ∀ c : Char, ¬('0' ≤ c ∧ c ≤ '9') →
          ∀ rest', some d :: (symbols tail ++ rest) ≠ some c :: rest' := by
        intro c hc rest' heq
        obtain rfl := Option.some.inj (List.cons.inj heq).1
        exact hc (h.2 d List.mem_cons_self)
      show exponent? (some mark :: some d :: (symbols tail ++ rest)) = _
      rw [exponent?]
      · rw [if_pos hmark]
        exact hread
      · exact hsign '+' (by decide)
      · exact hsign '-' (by decide)
    | plus =>
      show exponent? (some mark :: some '+' :: (symbols ds ++ rest)) = _
      rw [exponent?, if_pos hmark, h.exponentDigits false hdigits]
    | minus =>
      show exponent? (some mark :: some '-' :: (symbols ds ++ rest)) = _
      rw [exponent?, if_pos hmark, h.exponentDigits true hdigits]

/-- An exponent starts with its mark. -/
theorem Grammar.Exponent.head {es : List Char} {exponent : Option (Bool × List Char)}
    (h : Exponent es exponent) : es = [] ∨ es.head? = some 'e' ∨ es.head? = some 'E' := by
  cases h with
  | absent => exact Or.inl rfl
  | present hmark =>
    rcases hmark with rfl | rfl
    · exact Or.inr (Or.inl rfl)
    · exact Or.inr (Or.inr rfl)

/-- A numeral is read up to where it ends. -/
theorem Grammar.NumeralForm.read {negative : Bool} {cs : List Char} {t : NumeralText}
    (h : NumeralForm negative cs t) {rest : List Symbol} (hrest : endsNumeral rest) :
    numeral? negative (symbols cs ++ rest) = some (t, rest) := by
  cases h with
  | @mk whole fs es fraction exponent hwhole hfraction hexponent =>
    have hexp := hexponent.read hrest
    have hend : endsDigits (symbols es ++ rest) ∧ (symbols es ++ rest).head? ≠ some (some '.') := by
      rcases hexponent.head with rfl | hhead | hhead
      · exact ⟨fun s hs => (hrest s hs).1, fun hpoint => (hrest _ hpoint).2.1 rfl⟩
      all_goals
        obtain ⟨tail, rfl⟩ := List.head?_eq_some_iff.1 hhead
        exact ⟨fun s hs => Option.some.inj hs ▸ rfl, nofun⟩
    have hfrac := hfraction.read hend.1 hend.2
    have hfracEnd : endsDigits (symbols fs ++ (symbols es ++ rest)) := by
      cases hfraction with
      | absent => exact hend.1
      | present => exact fun s hs => Option.some.inj hs ▸ rfl
    have hsplit : symbols (whole ++ (fs ++ es)) ++ rest =
        symbols whole ++ (symbols fs ++ (symbols es ++ rest)) := by
      simp only [symbols, List.map_append, List.append_assoc]
    rw [hsplit]
    generalize symbols fs ++ (symbols es ++ rest) = after at hfrac hfracEnd
    obtain ⟨d, tail, rfl, hspan⟩ := hwhole.1.spanDigits hfracEnd
    unfold numeral?
    split
    rename_i whole' rest' heq
    have hwhole' : d :: tail = whole' ∧ after = rest' := by
      split at heq
      · rename_i hzero
        obtain ⟨rfl, rfl⟩ := Prod.mk.inj heq
        have hd : d = '0' := Option.some.inj (List.cons.inj hzero).1
        have honly := hwhole.2 (congrArg some hd)
        refine ⟨honly, ?_⟩
        rw [honly] at hzero
        exact (List.cons.inj hzero).2
      · exact Prod.mk.inj (hspan.symm.trans heq)
    obtain ⟨rfl, rfl⟩ := hwhole'
    simp only [List.isEmpty_cons, Bool.false_eq_true, if_false, Option.bind_eq_bind, hfrac,
      Option.bind_some, hexp]

/-! ### What was read is a numeral -/

theorem of_fraction? {cs rest : List Symbol} {fraction : Option (List Char)}
    (h : fraction? cs = some (fraction, rest)) :
    ∃ fs, cs = symbols fs ++ rest ∧ Fraction fs fraction := by
  unfold fraction? at h
  split at h
  · split at h
    · cases h
    · rename_i ds rest' hne hspan
      obtain ⟨rfl, rfl⟩ := Prod.mk.inj (Option.some.inj h)
      obtain ⟨rfl, hdigits⟩ := of_spanDigits hspan
      exact ⟨'.' :: ds, rfl, .present ⟨hne, hdigits⟩⟩
  · obtain ⟨rfl, rfl⟩ := Prod.mk.inj (Option.some.inj h)
    exact ⟨[], rfl, .absent⟩

theorem of_exponentDigits? {negative : Bool} {cs rest : List Symbol}
    {exponent : Option (Bool × List Char)} (h : exponentDigits? negative cs = some (exponent, rest)) :
    ∃ ds, cs = symbols ds ++ rest ∧ Digits ds ∧ exponent = some (negative, ds) := by
  unfold exponentDigits? at h
  split at h
  · cases h
  · rename_i ds rest' hne hspan
    obtain ⟨rfl, rfl⟩ := Prod.mk.inj (Option.some.inj h)
    obtain ⟨rfl, hdigits⟩ := of_spanDigits hspan
    exact ⟨ds, rfl, ⟨hne, hdigits⟩, rfl⟩

theorem of_exponent? {cs rest : List Symbol} {exponent : Option (Bool × List Char)}
    (h : exponent? cs = some (exponent, rest)) :
    ∃ es, cs = symbols es ++ rest ∧ Exponent es exponent := by
  unfold exponent? at h
  split at h
  · rename_i mark cs
    split at h
    · rename_i hmark
      split at h
      · obtain ⟨ds, rfl, hds, rfl⟩ := of_exponentDigits? h
        exact ⟨mark :: '+' :: ds, rfl, .present hmark .plus hds⟩
      · obtain ⟨ds, rfl, hds, rfl⟩ := of_exponentDigits? h
        exact ⟨mark :: '-' :: ds, rfl, .present hmark .minus hds⟩
      · obtain ⟨ds, rfl, hds, rfl⟩ := of_exponentDigits? h
        exact ⟨mark :: ds, rfl, .present hmark .absent hds⟩
    · obtain ⟨rfl, rfl⟩ := Prod.mk.inj (Option.some.inj h)
      exact ⟨[], rfl, .absent⟩
  · obtain ⟨rfl, rfl⟩ := Prod.mk.inj (Option.some.inj h)
    exact ⟨[], rfl, .absent⟩

theorem of_numeral? {negative : Bool} {cs rest : List Symbol} {t : NumeralText}
    (h : numeral? negative cs = some (t, rest)) :
    ∃ text, cs = symbols text ++ rest ∧ NumeralForm negative text t := by
  unfold numeral? at h
  split at h
  rename_i whole after hstart
  split at h
  · cases h
  rename_i hne
  have hwhole : cs = symbols whole ++ after ∧ Whole whole := by
    have hne' : whole ≠ [] := fun hnil => hne (by rw [hnil]; rfl)
    split at hstart
    · obtain ⟨rfl, rfl⟩ := Prod.mk.inj hstart
      exact ⟨rfl, ⟨hne', List.forall_mem_singleton.2 (by decide)⟩, fun _ => rfl⟩
    · rename_i hzero
      obtain ⟨rfl, hdigits⟩ := of_spanDigits hstart
      refine ⟨rfl, ⟨hne', hdigits⟩, fun hhead => ?_⟩
      obtain ⟨tail, rfl⟩ := List.head?_eq_some_iff.1 hhead
      exact absurd rfl (hzero _)
  obtain ⟨rfl, hwhole⟩ := hwhole
  obtain ⟨⟨fraction, after'⟩, hfraction, h⟩ := Option.bind_eq_some_iff.1 h
  obtain ⟨⟨exponent, after''⟩, hexponent, h⟩ := Option.bind_eq_some_iff.1 h
  obtain ⟨rfl, rfl⟩ := Prod.mk.inj (Option.some.inj h)
  obtain ⟨fs, rfl, hfs⟩ := of_fraction? hfraction
  obtain ⟨es, rfl, hes⟩ := of_exponent? hexponent
  refine ⟨_, ?_, .mk hwhole hfs hes⟩
  simp only [symbols, List.map_append, List.append_assoc]

/-! ## Reading a string -/

theorem letterEscape?_eq_some_iff {l c : Char} : letterEscape? l = some c ↔ Escape l c := by
  constructor
  · intro h
    unfold letterEscape? at h
    split at h
    · rename_i hl
      obtain rfl := hl
      exact Option.some.inj h ▸ .quote
    split at h
    · rename_i hl
      obtain rfl := hl
      exact Option.some.inj h ▸ .backslash
    split at h
    · rename_i hl
      obtain rfl := hl
      exact Option.some.inj h ▸ .slash
    split at h
    · rename_i hl
      obtain rfl := hl
      exact Option.some.inj h ▸ .backspace
    split at h
    · rename_i hl
      obtain rfl := hl
      exact Option.some.inj h ▸ .formFeed
    split at h
    · rename_i hl
      obtain rfl := hl
      exact Option.some.inj h ▸ .newline
    split at h
    · rename_i hl
      obtain rfl := hl
      exact Option.some.inj h ▸ .carriageReturn
    split at h
    · rename_i hl
      obtain rfl := hl
      exact Option.some.inj h ▸ .tab
    · cases h
  · intro h
    cases h <;> decide

theorem hexValue?_eq_some_iff {c : Char} {n : Nat} : Hex.value? c = some n ↔ HexDigit c n := by
  constructor
  · intro h
    unfold Hex.value? at h
    split at h
    · rename_i hdigit
      exact Option.some.inj h ▸ .decimal hdigit
    split at h
    · rename_i hlower
      exact Option.some.inj h ▸ .lower hlower
    split at h
    · rename_i hupper
      exact Option.some.inj h ▸ .upper hupper
    · cases h
  · -- no character is a digit of two kinds
    intro h
    cases h with
    | decimal h => exact if_pos h
    | lower h =>
      have hdecimal : ¬('0' ≤ c ∧ c ≤ '9') := fun h' => absurd (Char.le_trans h.1 h'.2) (by decide)
      rw [Hex.value?, if_neg hdecimal, if_pos h]
    | upper h =>
      have hdecimal : ¬('0' ≤ c ∧ c ≤ '9') := fun h' => absurd (Char.le_trans h.1 h'.2) (by decide)
      have hlower : ¬('a' ≤ c ∧ c ≤ 'f') := fun h' => absurd (Char.le_trans h'.1 h.2) (by decide)
      rw [Hex.value?, if_neg hdecimal, if_neg hlower, if_pos h]

theorem Grammar.HexUnit.read {ds : List Char} {n : Nat} (h : HexUnit ds n) (rest : List Symbol) :
    unit? (symbols ds ++ rest) = some (n, rest) := by
  obtain ⟨ha, hb, hc, hd⟩ := h
  show unit? (some _ :: some _ :: some _ :: some _ :: rest) = _
  rw [unit?, hexValue?_eq_some_iff.2 ha, hexValue?_eq_some_iff.2 hb, hexValue?_eq_some_iff.2 hc,
    hexValue?_eq_some_iff.2 hd]
  rfl

theorem of_unit? {cs rest : List Symbol} {n : Nat} (h : unit? cs = some (n, rest)) :
    ∃ ds, cs = symbols ds ++ rest ∧ HexUnit ds n := by
  unfold unit? at h
  split at h
  · rename_i a b c d rest'
    simp only [Option.bind_eq_bind, Option.bind_eq_some_iff, hexValue?_eq_some_iff] at h
    obtain ⟨w, ha, x, hb, y, hc, z, hd, heq⟩ := h
    obtain ⟨rfl, rfl⟩ := Prod.mk.inj (Option.some.inj heq)
    exact ⟨[a, b, c, d], rfl, .mk ha hb hc hd⟩
  · cases h

theorem Grammar.Spelling.escapes {form : List Char} {c : Char} (h : Spelling form c)
    {ds : List Char} (hform : form = '\\' :: 'u' :: ds) (content : Content) (rest : List Symbol) :
    unicodeEscape? content (symbols ds ++ rest) = some (content.push c, rest) := by
  cases h with
  | plain => cases hform
  | letter h =>
    obtain rfl : _ = 'u' := (List.cons.inj (List.cons.inj hform).2).1
    cases h
  | unit h hn =>
    obtain rfl := (List.cons.inj (List.cons.inj hform).2).2
    unfold unicodeEscape?
    rw [h.read]
    simp only [Option.bind_eq_bind, Option.bind_some]
    rw [if_neg (by omega), if_neg (by omega)]
  | @pair ds' es hi lo hds hhi hes hlo =>
    obtain rfl := (List.cons.inj (List.cons.inj hform).2).2
    have hsplit : symbols (ds' ++ '\\' :: 'u' :: es) ++ rest =
        symbols ds' ++ some '\\' :: some 'u' :: (symbols es ++ rest) := by
      simp only [symbols, List.map_append, List.map_cons, List.append_assoc, List.cons_append]
    unfold unicodeEscape?
    rw [hsplit, hds.read]
    simp only [Option.bind_eq_bind, Option.bind_some]
    rw [if_pos hhi, hes.read]
    simp only
    rw [if_pos hlo]

theorem string?_plain {c : Char} (hcontrol : 0x20 ≤ c.toNat) (hquote : c ≠ '"') (hbackslash : c ≠ '\\')
    (content : Content) (rest : List Symbol) :
    string? content (some c :: rest) = string? (content.push c) rest := by
  rw [string?]
  · rw [if_neg (by omega)]
  · exact hquote
  · exact fun _ _ hc => hbackslash hc
  · exact fun _ _ _ hc => hbackslash hc
  · exact hbackslash

theorem string?_letter {l c : Char} (h : Escape l c) (content : Content) (rest : List Symbol) :
    string? content (some '\\' :: some l :: rest) = string? (content.push c) rest := by
  rw [string?]
  · rw [letterEscape?_eq_some_iff.2 h]
  · rintro rfl
    cases h

theorem string?_unicode {content content' : Content} {cs rest : List Symbol}
    (h : unicodeEscape? content cs = some (content', rest)) (hshorter : rest.length < cs.length) :
    string? content (some '\\' :: some 'u' :: cs) = string? content' rest := by
  rw [string?, h]
  exact if_pos hshorter

/-- A character of a string is read from each of its spellings. -/
theorem Grammar.Spelling.read {form : List Char} {c : Char} (h : Spelling form c) (done : List Char)
    (rest : List Symbol) :
    string? (some done) (symbols form ++ rest) = string? (some (c :: done)) rest := by
  have hunicode : ∀ ds, ds ≠ [] → form = '\\' :: 'u' :: ds →
      string? (some done) (symbols form ++ rest) = string? (some (c :: done)) rest := by
    rintro ds hds rfl
    refine string?_unicode (h.escapes rfl (some done) rest) ?_
    have hpos := List.length_pos_iff.2 hds
    show rest.length < (symbols ds ++ rest).length
    rw [List.length_append, List.length_map]
    omega
  cases h with
  | plain hcontrol hquote hbackslash => exact string?_plain hcontrol hquote hbackslash _ rest
  | letter h => exact string?_letter h _ rest
  | unit h => exact hunicode _ (by rintro rfl; cases h) rfl
  | pair => exact hunicode _ (by simp) rfl

/-- A string is read up to its closing quote. -/
theorem Grammar.Body.read {cs s : List Char} (h : Body cs s) (done : List Char) (rest : List Symbol) :
    string? (some done) (symbols (cs ++ ['"']) ++ rest) =
      some (some (String.ofList (done.reverse ++ s)), rest) := by
  induction h generalizing done with
  | nil =>
    show string? (some done) (some '"' :: rest) = _
    rw [string?, List.append_nil]
    rfl
  | @cons form cs c s hform _ ih =>
    have hsplit : symbols (form ++ cs ++ ['"']) ++ rest =
        symbols form ++ (symbols (cs ++ ['"']) ++ rest) := by
      simp only [symbols, List.map_append, List.append_assoc]
    rw [hsplit, hform.read, ih, List.reverse_cons, List.append_assoc, List.singleton_append]

/-! ### Marks that spell no characters -/

/-- A number is read, and with it the other half of its pair if that stands behind it. -/
theorem Grammar.HexUnit.escapes {ds : List Char} {n : Nat} (h : HexUnit ds n) {cs : List Char}
    (hcs : Marks cs) (content : Content) (rest : List Symbol) :
    ∃ content' cs', Marks cs' ∧ cs'.length ≤ cs.length ∧
      unicodeEscape? content (symbols ds ++ (symbols (cs ++ ['"']) ++ rest)) =
        some (content', symbols (cs' ++ ['"']) ++ rest) := by
  unfold unicodeEscape?
  rw [h.read]
  simp only [Option.bind_eq_bind, Option.bind_some]
  split
  · -- the first half of a pair: what stands behind it is looked at
    have hsame {after : List Symbol} (hafter : after = symbols (cs ++ ['"']) ++ rest) :
        ∃ content' cs', Marks cs' ∧ cs'.length ≤ cs.length ∧
          some ((none : Content), after) = some (content', symbols (cs' ++ ['"']) ++ rest) :=
      ⟨none, cs, hcs, Nat.le_refl _, by rw [hafter]⟩
    split
    · rename_i after hafter
      split
      · rename_i lo after' hlow
        split
        · cases hcs with
          | nil => cases hafter
          | @cons mark cs hmark hcs =>
            cases hmark with
            | plain _ _ hbackslash =>
              exact absurd (Option.some.inj (List.cons.inj hafter).1) hbackslash
            | letter h =>
              obtain rfl := Option.some.inj (List.cons.inj (List.cons.inj hafter).2).1
              cases h
            | @unit es lo' hes =>
              have hsplit : symbols ('\\' :: 'u' :: es ++ cs ++ ['"']) ++ rest =
                  some '\\' :: some 'u' :: (symbols es ++ (symbols (cs ++ ['"']) ++ rest)) := by
                simp only [symbols, List.map_append, List.map_cons, List.append_assoc, List.cons_append]
              obtain rfl := (List.cons.inj (List.cons.inj (hsplit.symm.trans hafter)).2).2
              rw [hes.read] at hlow
              obtain ⟨rfl, rfl⟩ := Prod.mk.inj (Option.some.inj hlow)
              exact ⟨_, cs, hcs, by rw [List.length_append]; omega, rfl⟩
        · exact hsame rfl
      · exact hsame rfl
    · exact hsame rfl
  · split
    · exact ⟨none, cs, hcs, Nat.le_refl _, rfl⟩
    · exact ⟨_, cs, hcs, Nat.le_refl _, rfl⟩

/-- Marks are read up to the closing quote. -/
theorem Grammar.Marks.read {cs : List Char} (h : Marks cs) (content : Content) (rest : List Symbol) :
    ∃ s, string? content (symbols (cs ++ ['"']) ++ rest) = some (s, rest) := by
  induction hn : cs.length using Nat.strongRecOn generalizing cs content with
  | ind n ih =>
    subst hn
    cases h with
    | nil =>
      refine ⟨content.map fun cs => String.ofList cs.reverse, ?_⟩
      show string? content (some '"' :: rest) = _
      rw [string?]
    | @cons mark cs hmark hcs =>
      have hshorter : 0 < mark.length := by cases hmark <;> simp
      have hrest (content' : Content) :
          ∃ s, string? content' (symbols (cs ++ ['"']) ++ rest) = some (s, rest) :=
        ih cs.length (by rw [List.length_append]; omega) hcs content' rfl
      have hsplit : symbols (mark ++ cs ++ ['"']) ++ rest =
          symbols mark ++ (symbols (cs ++ ['"']) ++ rest) := by
        simp only [symbols, List.map_append, List.append_assoc]
      rw [hsplit]
      cases hmark with
      | plain hcontrol hquote hbackslash =>
        obtain ⟨s, hs⟩ := hrest (content.push _)
        exact ⟨s, (string?_plain hcontrol hquote hbackslash content _).trans hs⟩
      | letter h =>
        obtain ⟨s, hs⟩ := hrest (content.push _)
        exact ⟨s, (string?_letter h content _).trans hs⟩
      | @unit ds n h =>
        obtain ⟨content', cs', hcs', hle, hread⟩ := h.escapes hcs content rest
        obtain ⟨s, hs⟩ := ih cs'.length (by rw [List.length_append]; omega) hcs' content' rfl
        refine ⟨s, (string?_unicode hread ?_).trans hs⟩
        have hds : ds.length = 4 := by
          cases h
          rfl
        simp only [List.length_append, List.length_map]
        omega

/-- A number that was read as a character is written as one. -/
theorem of_unicodeEscape? {content : Content} {cs rest : List Symbol} {done : List Char}
    (h : unicodeEscape? content cs = some (some done, rest)) :
    ∃ form c before, some '\\' :: some 'u' :: cs = symbols form ++ rest ∧ Spelling form c ∧
      content = some before ∧ done = c :: before := by
  have hpush : ∀ {c : Char}, content.push c = some done →
      ∃ before, content = some before ∧ done = c :: before := by
    intro c hc
    obtain ⟨before, rfl, rfl⟩ := Option.map_eq_some_iff.1 hc
    exact ⟨before, rfl, rfl⟩
  unfold unicodeEscape? at h
  obtain ⟨⟨hi, after⟩, hunit, hread⟩ := Option.bind_eq_some_iff.1 h
  obtain ⟨ds, rfl, hds⟩ := of_unit? hunit
  dsimp only at hread
  split at hread
  · rename_i hhi
    split at hread
    · split at hread
      · rename_i lo after' hlow
        split at hread
        · rename_i hlo
          obtain ⟨hcontent, rfl⟩ := Prod.mk.inj (Option.some.inj hread)
          obtain ⟨before, hbefore, hdone⟩ := hpush hcontent
          obtain ⟨es, rfl, hes⟩ := of_unit? hlow
          refine ⟨_, _, before, ?_, .pair hds hhi hes hlo, hbefore, hdone⟩
          simp only [symbols, List.map_append, List.map_cons, List.append_assoc, List.cons_append]
        · cases hread
      · cases hread
    · cases hread
  · rename_i hhi
    split at hread
    · cases hread
    · rename_i hlo
      obtain ⟨hcontent, rfl⟩ := Prod.mk.inj (Option.some.inj hread)
      obtain ⟨before, hbefore, hdone⟩ := hpush hcontent
      exact ⟨_, _, before, rfl, .unit hds (by omega), hbefore, hdone⟩

/-- A string that was read is written between quotes. -/
theorem of_string? {content : Content} {cs rest : List Symbol} {s : String}
    (h : string? content cs = some (some s, rest)) :
    ∃ text chars done, cs = symbols (text ++ ['"']) ++ rest ∧ Body text chars ∧ content = some done ∧
      s = String.ofList (done.reverse ++ chars) := by
  fun_induction string? content cs with
  | case1 => cases h
  | case2 content rest' ih =>
    obtain ⟨text, chars, done, -, -, hcontent, -⟩ := ih h
    cases hcontent
  | case3 content rest' =>
    obtain ⟨hcontent, rfl⟩ := Prod.mk.inj (Option.some.inj h)
    obtain ⟨done, rfl, rfl⟩ := Option.map_eq_some_iff.1 hcontent
    exact ⟨[], [], done, rfl, .nil, rfl, by rw [List.append_nil]⟩
  | case4 content rest' content' after hunicode hshorter ih =>
    obtain ⟨text, chars, done, rfl, hbody, rfl, rfl⟩ := ih h
    obtain ⟨form, c, before, heq, hform, rfl, rfl⟩ := of_unicodeEscape? hunicode
    refine ⟨form ++ text, c :: chars, before, ?_, .cons hform hbody, rfl, ?_⟩
    · rw [heq]
      simp only [symbols, List.map_append, List.append_assoc]
    · rw [List.reverse_cons, List.append_assoc, List.singleton_append]
  | case5 => cases h
  | case6 => cases h
  | case7 content l rest' hu c hl ih =>
    obtain ⟨text, chars, done, rfl, hbody, hcontent, rfl⟩ := ih h
    obtain ⟨before, rfl, rfl⟩ := Option.map_eq_some_iff.1 hcontent
    refine ⟨'\\' :: l :: text, c :: chars, before, rfl,
      .cons (.letter (letterEscape?_eq_some_iff.1 hl)) hbody, rfl, ?_⟩
    rw [List.reverse_cons, List.append_assoc, List.singleton_append]
  | case8 => cases h
  | case9 => cases h
  | case10 => cases h
  | case11 content c rest' hquote _ _ hbackslash hcontrol ih =>
    obtain ⟨text, chars, done, rfl, hbody, hcontent, rfl⟩ := ih h
    obtain ⟨before, rfl, rfl⟩ := Option.map_eq_some_iff.1 hcontent
    refine ⟨c :: text, c :: chars, before, rfl,
      .cons (.plain (by omega) hquote hbackslash) hbody, rfl, ?_⟩
    rw [List.reverse_cons, List.append_assoc, List.singleton_append]

/-! ## Reading a token -/

namespace Token

/-- A token that can be held. -/
def isHeld : Token → Bool
  | .number none | .string none => .false
  | _ => .true

/-- A token that is a number. -/
def isNumber : Token → Bool
  | .number _ => .true
  | _ => .false

end Token

/-- A number is read as such: its first digit starts no other token. -/
theorem next?_digit {d : Char} (hd : '0' ≤ d ∧ d ≤ '9') (rest : List Symbol) :
    Token.next? (some d :: rest) = number? .false (some d :: rest) := by
  unfold Token.next?
  -- every other token starts with a character that is no digit
  split <;> rename_i heq <;> first
    | rfl
    | (obtain rfl := Option.some.inj (List.cons.inj heq).1
       exact absurd hd (by decide))

/-- A numeral starts with a digit. -/
theorem Grammar.NumeralForm.head {negative : Bool} {cs : List Char} {t : NumeralText}
    (h : NumeralForm negative cs t) : ∃ d tail, cs = d :: tail ∧ '0' ≤ d ∧ d ≤ '9' := by
  cases h with
  | @mk whole fs es fraction exponent hwhole =>
    obtain ⟨⟨hne, hdigits⟩, -⟩ := hwhole
    cases whole with
    | nil => exact absurd rfl hne
    | cons d tail => exact ⟨d, _, rfl, hdigits d List.mem_cons_self⟩

theorem Grammar.NumeralForm.number {negative : Bool} {cs : List Char} {t : NumeralText}
    (h : NumeralForm negative cs t) {rest : List Symbol} (hrest : endsNumeral rest) :
    number? negative (symbols cs ++ rest) = some (.number t.number?, rest) := by
  rw [number?, h.read hrest]
  rfl

theorem Grammar.Numeral.read {cs : List Char} {t : NumeralText} (h : Numeral cs t) {rest : List Symbol}
    (hrest : endsNumeral rest) : Token.next? (symbols cs ++ rest) = some (.number t.number?, rest) := by
  cases h with
  | positive h =>
    have hread := h.number hrest
    obtain ⟨d, tail, rfl, hd⟩ := h.head
    exact (next?_digit hd _).trans hread
  | negative h => exact h.number hrest

/-- Marks that spell no characters are read as a string without a value. -/
theorem Grammar.Marks.read_none {cs : List Char} (h : Marks cs) (hbody : ∀ s, ¬Body cs s)
    (rest : List Symbol) : string? (some []) (symbols (cs ++ ['"']) ++ rest) = some (none, rest) := by
  obtain ⟨s, hs⟩ := h.read (some []) rest
  cases s with
  | none => exact hs
  | some s =>
    obtain ⟨text, chars, done, heq, htext, -, -⟩ := of_string? hs
    have hsame : cs ++ ['"'] = text ++ ['"'] :=
      List.map_injective_iff.2 (Option.some_injective Char) (List.append_cancel_right heq)
    rw [List.append_cancel_right hsame] at hbody
    exact absurd htext (hbody chars)

/-- A token is read from its text; a number only if its digits end there. -/
theorem Grammar.Lexeme.read {cs : List Char} {t : Token} (h : Lexeme cs t) {rest : List Symbol}
    (hrest : t.isNumber = true → endsNumeral rest) :
    Token.next? (symbols cs ++ rest) = some (t, rest) := by
  cases h with
  | number h hrange =>
    rw [h.read (hrest rfl), NumeralText.number?_eq_some_iff.2 ⟨hrange, rfl⟩]
  | outOfRange h hrange =>
    rw [h.read (hrest rfl), NumeralText.number?_eq_none_iff.2 hrange]
  | @string cs s h =>
    have hread := h.read [] rest
    show (string? (some []) (symbols (cs ++ ['"']) ++ rest)).map _ = _
    rw [hread]
    rfl
  | @illFormed cs h hbody =>
    have hread := h.read_none hbody rest
    show (string? (some []) (symbols (cs ++ ['"']) ++ rest)).map _ = _
    rw [hread]
    rfl
  | _ => rfl

theorem Grammar.Numeral.lexeme {cs : List Char} {t : NumeralText} (h : Numeral cs t) {n : Number}
    (hn : t.number? = some n) : Lexeme cs (.number (some n)) := by
  obtain ⟨hrange, rfl⟩ := NumeralText.number?_eq_some_iff.1 hn
  exact .number h hrange

theorem of_number? {negative : Bool} {cs rest : List Symbol} {t : Token}
    (h : number? negative cs = some (t, rest)) (ht : t.isHeld = true) :
    ∃ text numeral n, cs = symbols text ++ rest ∧ NumeralForm negative text numeral ∧
      numeral.number? = some n ∧ t = .number (some n) := by
  obtain ⟨⟨numeral, after⟩, hnumeral, hread⟩ := Option.bind_eq_some_iff.1 h
  obtain ⟨rfl, rfl⟩ := Prod.mk.inj (Option.some.inj hread)
  obtain ⟨text, rfl, hform⟩ := of_numeral? hnumeral
  cases hn : numeral.number? with
  | none =>
    rw [hn] at ht
    cases ht
  | some n => exact ⟨text, numeral, n, rfl, hform, hn, rfl⟩

/-- A token that was read and can be held is written as its text. -/
theorem of_next? {cs rest : List Symbol} {t : Token} (h : Token.next? cs = some (t, rest))
    (ht : t.isHeld = true) : ∃ text, cs = symbols text ++ rest ∧ Lexeme text t := by
  unfold Token.next? at h
  split at h
  · obtain ⟨rfl, rfl⟩ := Prod.mk.inj (Option.some.inj h); exact ⟨_, rfl, .openArray⟩
  · obtain ⟨rfl, rfl⟩ := Prod.mk.inj (Option.some.inj h); exact ⟨_, rfl, .closeArray⟩
  · obtain ⟨rfl, rfl⟩ := Prod.mk.inj (Option.some.inj h); exact ⟨_, rfl, .openObject⟩
  · obtain ⟨rfl, rfl⟩ := Prod.mk.inj (Option.some.inj h); exact ⟨_, rfl, .closeObject⟩
  · obtain ⟨rfl, rfl⟩ := Prod.mk.inj (Option.some.inj h); exact ⟨_, rfl, .colon⟩
  · obtain ⟨rfl, rfl⟩ := Prod.mk.inj (Option.some.inj h); exact ⟨_, rfl, .comma⟩
  · obtain ⟨rfl, rfl⟩ := Prod.mk.inj (Option.some.inj h); exact ⟨_, rfl, .nullWord⟩
  · obtain ⟨rfl, rfl⟩ := Prod.mk.inj (Option.some.inj h); exact ⟨_, rfl, .trueWord⟩
  · obtain ⟨rfl, rfl⟩ := Prod.mk.inj (Option.some.inj h); exact ⟨_, rfl, .falseWord⟩
  · rename_i cs
    obtain ⟨⟨value, after⟩, hstring, heq⟩ := Option.map_eq_some_iff.1 h
    obtain ⟨rfl, rfl⟩ := Prod.mk.inj heq
    cases value with
    | none => cases ht
    | some s =>
      obtain ⟨text, chars, done, rfl, hbody, hdone, rfl⟩ := of_string? hstring
      obtain rfl := Option.some.inj hdone
      exact ⟨'"' :: (text ++ ['"']), rfl, .string hbody⟩
  · obtain ⟨text, numeral, n, rfl, hform, hn, rfl⟩ := of_number? h ht
    exact ⟨'-' :: text, rfl, (Numeral.negative hform).lexeme hn⟩
  · obtain ⟨text, numeral, n, rfl, hform, hn, rfl⟩ := of_number? h ht
    exact ⟨text, rfl, (Numeral.positive hform).lexeme hn⟩

/-! ## Sequences of tokens -/

theorem isSpace_iff {c : Char} : isSpace c = true ↔ Space c := by
  constructor
  · intro h
    simp only [isSpace, Bool.or_eq_true, beq_iff_eq] at h
    rcases h with ((rfl | rfl) | rfl) | rfl
    · exact .space
    · exact .tab
    · exact .lineFeed
    · exact .carriageReturn
  · rintro (_ | _ | _ | _) <;> rfl

theorem Grammar.Spells.append {cs ds : List Char} {ts us : List Token} (h : Spells cs ts)
    (h' : Spells ds us) : Spells (cs ++ ds) (ts ++ us) := by
  induction h with
  | nil => exact h'
  | space hspace _ ih => exact .space hspace ih
  | token hlexeme _ ih =>
    rw [List.append_assoc]
    exact .token hlexeme ih

theorem Grammar.Numeral.head {cs : List Char} {t : NumeralText} (h : Numeral cs t) :
    ∃ c tail, cs = c :: tail ∧ isSpace c = false := by
  cases h with
  | positive h =>
    obtain ⟨d, tail, rfl, hd⟩ := h.head
    refine ⟨d, tail, rfl, Bool.eq_false_iff.2 fun hspace => ?_⟩
    cases isSpace_iff.1 hspace <;> exact absurd hd (by decide)
  | negative => exact ⟨_, _, rfl, by decide⟩

/-- A token has a text, which starts with no space; what may follow a numeral starts like no more of
it. -/
theorem Grammar.Lexeme.head {cs : List Char} {t : Token} (h : Lexeme cs t) :
    ∃ c tail, cs = c :: tail ∧ isSpace c = false ∧
      (t.isNumber = false → isDigit (some c) = false ∧ c ≠ '.' ∧ c ≠ 'e' ∧ c ≠ 'E') := by
  cases h with
  | number h | outOfRange h =>
    obtain ⟨c, tail, rfl, hspace⟩ := h.head
    exact ⟨c, tail, rfl, hspace, nofun⟩
  | _ => exact ⟨_, _, rfl, by decide, fun _ => by decide⟩

/-- Two tokens may stand side by side: not both are numbers. -/
def Apart (s t : Token) : Prop := s.isNumber = false ∨ t.isNumber = false

/-- What comes after a number is the end, white space, or a token that starts like no more of it. -/
theorem Grammar.Spells.endsNumeral {cs : List Char} {ts : List Token} (h : Spells cs ts)
    (hts : ∀ t ∈ ts.head?, t.isNumber = false) : endsNumeral (symbols cs) := by
  cases h with
  | nil => exact nofun
  | space h =>
    intro s hs
    obtain rfl := Option.some.inj hs
    cases h <;> decide
  | token h =>
    obtain ⟨c, tail, rfl, -, hmore⟩ := h.head
    obtain ⟨hdigit, hdot, he, hE⟩ := hmore (hts _ rfl)
    intro s hs
    obtain rfl := Option.some.inj hs
    exact ⟨hdigit, fun h => hdot (Option.some.inj h), fun h => he (Option.some.inj h),
      fun h => hE (Option.some.inj h)⟩

theorem Grammar.Spells.readOnto {cs : List Char} {ts : List Token} (h : Spells cs ts)
    (hapart : ts.IsChain Apart) (done : List Token) :
    tokensOnto done (symbols cs) = some (done.reverse ++ ts) := by
  induction h generalizing done with
  | nil => rw [symbols, List.map_nil, tokensOnto, List.append_nil]
  | @space c cs ts hspace _ ih =>
    show tokensOnto done (some c :: symbols cs) = _
    rw [tokensOnto, if_pos (by simpa using isSpace_iff.2 hspace)]
    exact ih hapart done
  | @token text cs t ts hlexeme hrest ih =>
    have hends : t.isNumber = true → Json.endsNumeral (symbols cs) := by
      intro hnumber
      refine hrest.endsNumeral fun u hu => ?_
      obtain ⟨ts', rfl⟩ := List.head?_eq_some_iff.1 hu
      rcases (List.isChain_cons_cons.1 hapart).1 with h | h
      · rw [hnumber] at h
        cases h
      · exact h
    have hnext := hlexeme.read hends
    obtain ⟨c, tail, rfl, hspace, -⟩ := hlexeme.head
    rw [symbols, List.map_append]
    show tokensOnto done (some c :: (symbols tail ++ symbols cs)) = _
    have hnext' : Token.next? (some c :: (symbols tail ++ symbols cs)) = some (t, symbols cs) := hnext
    -- the reader goes on only with less than it had
    have hshorter : (symbols cs).length < (symbols tail ++ symbols cs).length + 1 := by
      rw [List.length_append]
      omega
    rw [tokensOnto, if_neg (by simp [hspace]), hnext']
    dsimp only
    rw [if_pos hshorter, ih hapart.tail, List.reverse_cons, List.append_assoc]
    rfl

/-- The tokens that a text spells are read from it. -/
theorem tokens?_of_spells {cs : List Char} {ts : List Token} (h : Spells cs ts)
    (hapart : ts.IsChain Apart) : tokens? (symbols cs) = some ts :=
  h.readOnto hapart []

/-- A text that was read as tokens which can be held spells them. -/
theorem spells_of_tokens? {ss : List Symbol} {ts : List Token} (h : tokens? ss = some ts)
    (hheld : ∀ t ∈ ts, t.isHeld = true) : ∃ cs, ss = symbols cs ∧ Spells cs ts := by
  have honto : ∀ (done : List Token) (ss : List Symbol), tokensOnto done ss = some ts →
      ∃ cs ts', ss = symbols cs ∧ Spells cs ts' ∧ ts = done.reverse ++ ts' := by
    intro done ss h
    fun_induction tokensOnto done ss with
    | case1 done => exact ⟨[], [], rfl, .nil, by rw [List.append_nil, ← Option.some.inj h]⟩
    | case2 done s rest hspace ih =>
      obtain ⟨cs, ts', rfl, hspells, hts⟩ := ih h
      cases s with
      | none => cases hspace
      | some c => exact ⟨c :: cs, ts', rfl, .space (isSpace_iff.1 (by simpa using hspace)) hspells, hts⟩
    | case3 done s rest hspace t rest' hnext hshorter ih =>
      obtain ⟨cs, ts', rfl, hspells, hts⟩ := ih h
      rw [List.reverse_cons, List.append_assoc] at hts
      have ht : t ∈ ts := by simp [hts]
      obtain ⟨text, heq, hlexeme⟩ := of_next? hnext (hheld t ht)
      refine ⟨text ++ cs, t :: ts', ?_, .token hlexeme hspells, hts⟩
      rw [heq, symbols, symbols, symbols, List.map_append]
    | case4 => cases h
    | case5 => cases h
  obtain ⟨cs, ts', hcs, hspells, rfl⟩ := honto [] ss h
  exact ⟨cs, hcs, hspells⟩

end SealedCustody.Json
