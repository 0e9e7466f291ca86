import SealedCustody.Json.Number
import SealedCustody.Text.Hex

/-!
# JSON tokens

A JSON text is a sequence of tokens with white space between them. Reading keeps a string whose text
is ill formed (an undecodable octet, half of a surrogate pair) and a numeral out of range as tokens
without a value, because such a token may still be skipped. `Token.render` writes tokens one after
another without white space.
-/

namespace SealedCustody.Json

/-- A lexical unit. A string or number without a value is well formed but cannot be held. -/
inductive Token where
  | openArray
  | closeArray
  | openObject
  | closeObject
  | colon
  | comma
  | null
  | true
  | false
  | number (value : Option Number)
  | string (value : Option String)
deriving DecidableEq, Inhabited

/-! ## Writing -/

namespace Token

/-- A four-digit escape of a control character. -/
def controlEscape (c : Char) : List Char :=
  '\\' :: 'u' :: '0' :: '0' :: Hex.octet c.toNat.toUInt8

/-- A character of a string as it is written. -/
def escaped (c : Char) : List Char :=
  if c = '"' then ['\\', '"']
  else if c = '\\' then ['\\', '\\']
  else if c = '\x08' then ['\\', 'b']
  else if c = '\x0c' then ['\\', 'f']
  else if c = '\n' then ['\\', 'n']
  else if c = '\r' then ['\\', 'r']
  else if c = '\t' then ['\\', 't']
  else if c.toNat < 0x20 then controlEscape c
  else [c]

/-- A string between quotes. -/
def quoted (s : String) : List Char := '"' :: (s.toList.flatMap escaped ++ ['"'])

/-- The text of a token. One without a value, which no value is written as, has none. -/
def text : Token → List Char
  | openArray => ['[']
  | closeArray => [']']
  | openObject => ['\x7b']
  | closeObject => ['\x7d']
  | colon => [':']
  | comma => [',']
  | null => ['n', 'u', 'l', 'l']
  | true => ['t', 'r', 'u', 'e']
  | false => ['f', 'a', 'l', 's', 'e']
  | number (some n) => n.text
  | string (some s) => quoted s
  | number none | string none => []

/-- The text of some tokens, without white space. -/
def render (ts : List Token) : String := String.ofList (ts.flatMap text)

end Token

/-! ## Reading -/

/-- A character of the text, or `none` for an undecodable octet. -/
abbrev Symbol := Option Char

/-- White space between tokens. -/
def isSpace (c : Char) : Bool := c == ' ' || c == '\t' || c == '\n' || c == '\r'

/-- A decimal digit. -/
def isDigit (s : Symbol) : Bool :=
  match s with
  | some c => '0' ≤ c && c ≤ '9'
  | none => .false

/-- The digits at the front, and what follows them. -/
def spanDigits (cs : List Symbol) : List Char × List Symbol :=
  let (ds, rest) := cs.span isDigit
  (ds.filterMap id, rest)

/-- The unit of sixteen bits that four hexadecimal digits spell. -/
def unit? : List Symbol → Option (Nat × List Symbol)
  | some a :: some b :: some c :: some d :: rest => do
    let n := (((← Hex.value? a) * 16 + (← Hex.value? b)) * 16 + (← Hex.value? c)) * 16
      + (← Hex.value? d)
    some (n, rest)
  | _ => none

/-- The characters of a string read so far, last first, or `none` once one was ill formed. -/
abbrev Content := Option (List Char)

/-- Adds a character to the content of a string. -/
def Content.push (content : Content) (c : Char) : Content := content.map (c :: ·)

/-- The character that a single-letter escape stands for. -/
def letterEscape? (c : Char) : Option Char :=
  if c = '"' then some '"'
  else if c = '\\' then some '\\'
  else if c = '/' then some '/'
  else if c = 'b' then some '\x08'
  else if c = 'f' then some '\x0c'
  else if c = 'n' then some '\n'
  else if c = 'r' then some '\r'
  else if c = 't' then some '\t'
  else none

/-- What follows `\u`: one character, given by one unit or by a surrogate pair. Half a pair leaves the
content ill formed. -/
def unicodeEscape? (content : Content) (cs : List Symbol) : Option (Content × List Symbol) := do
  let (hi, rest) ← unit? cs
  if 0xd800 ≤ hi ∧ hi < 0xdc00 then
    match rest with
    | some '\\' :: some 'u' :: rest' =>
      match unit? rest' with
      | some (lo, rest'') =>
        if 0xdc00 ≤ lo ∧ lo < 0xe000 then
          let n := 0x10000 + (hi - 0xd800) * 0x400 + (lo - 0xdc00)
          some (content.push (Char.ofNat n), rest'')
        else some (none, rest)
      | none => some (none, rest)
    | _ => some (none, rest)
  else if 0xdc00 ≤ hi ∧ hi < 0xe000 then some (none, rest)
  else some (content.push (Char.ofNat hi), rest)

/-- Reads a string up to its closing quote. A bare control character and an unknown escape are
refused. -/
def string? (content : Content) : List Symbol → Option (Option String × List Symbol)
  | [] => none
  | none :: rest => string? none rest
  | some '"' :: rest => some (content.map fun cs => String.ofList cs.reverse, rest)
  | some '\\' :: some 'u' :: rest =>
    match unicodeEscape? content rest with
    | some (content', rest') =>
      if rest'.length < rest.length then string? content' rest' else none
    | none => none
  | some '\\' :: some c :: rest =>
    match letterEscape? c with
    | some e => string? (content.push e) rest
    | none => none
  | some '\\' :: _ => none
  | some c :: rest => if c.toNat < 0x20 then none else string? (content.push c) rest
termination_by cs => cs.length
decreasing_by all_goals simp_wf <;> omega

/-- The part after the decimal point, if there is one: at least one digit. -/
def fraction? : List Symbol → Option (Option (List Char) × List Symbol)
  | some '.' :: rest =>
    match spanDigits rest with
    | ([], _) => none
    | (ds, rest') => some (some ds, rest')
  | cs => some (none, cs)

/-- The digits of an exponent after its mark and sign. -/
def exponentDigits? (negative : Bool) (cs : List Symbol) :
    Option (Option (Bool × List Char) × List Symbol) :=
  match spanDigits cs with
  | ([], _) => none
  | (ds, rest) => some (some (negative, ds), rest)

/-- The exponent, if there is one: a mark, an optional sign and at least one digit. -/
def exponent? : List Symbol → Option (Option (Bool × List Char) × List Symbol)
  | some c :: rest =>
    if c = 'e' ∨ c = 'E' then
      match rest with
      | some '+' :: rest' => exponentDigits? .false rest'
      | some '-' :: rest' => exponentDigits? .true rest'
      | _ => exponentDigits? .false rest
    else some (none, some c :: rest)
  | cs => some (none, cs)

/-- Reads a numeral after its sign. A zero in front of another digit stands alone. -/
def numeral? (negative : Bool) (cs : List Symbol) : Option (NumeralText × List Symbol) := do
  let (whole, rest) := match cs with
    | some '0' :: rest => (['0'], rest)
    | _ => spanDigits cs
  if whole.isEmpty then none
  else
    let (fraction, rest) ← fraction? rest
    let (exponent, rest) ← exponent? rest
    some (⟨negative, whole, fraction, exponent⟩, rest)

/-- The token of a numeral. -/
def number? (negative : Bool) (cs : List Symbol) : Option (Token × List Symbol) := do
  let (t, rest) ← numeral? negative cs
  some (.number t.number?, rest)

/-- Reads one token from a text that starts with neither white space nor the end. -/
def Token.next? : List Symbol → Option (Token × List Symbol)
  | some '[' :: rest => some (.openArray, rest)
  | some ']' :: rest => some (.closeArray, rest)
  | some '\x7b' :: rest => some (.openObject, rest)
  | some '\x7d' :: rest => some (.closeObject, rest)
  | some ':' :: rest => some (.colon, rest)
  | some ',' :: rest => some (.comma, rest)
  | some 'n' :: some 'u' :: some 'l' :: some 'l' :: rest => some (.null, rest)
  | some 't' :: some 'r' :: some 'u' :: some 'e' :: rest => some (.true, rest)
  | some 'f' :: some 'a' :: some 'l' :: some 's' :: some 'e' :: rest => some (.false, rest)
  | some '"' :: rest => (string? (some []) rest).map fun (s, rest) => (.string s, rest)
  | some '-' :: rest => number? .true rest
  | cs => number? .false cs

/-- Reads tokens to the end of the text, after those read so far, last first. -/
def tokensOnto (done : List Token) : List Symbol → Option (List Token)
  | [] => some done.reverse
  | s :: rest =>
    if s.any isSpace then tokensOnto done rest
    else match Token.next? (s :: rest) with
      | some (t, rest') =>
        if rest'.length < rest.length + 1 then tokensOnto (t :: done) rest' else none
      | none => none
termination_by cs => cs.length
decreasing_by all_goals simp_wf <;> omega

/-- The tokens of a text. -/
def tokens? (cs : List Symbol) : Option (List Token) := tokensOnto [] cs

end SealedCustody.Json
