import SealedCustody.Text.Hex
import SealedCustody.Toml.Value

/-!
# Writing TOML

A document is written as its plain keys, then its tables, with a blank line before each header. Of the
four kinds of string the first that needs no escapes is taken; lists of two or more items stand one
item to a line.
-/

namespace SealedCustody.Toml

/-! ## Strings -/

/-- A character that no string may hold unescaped, line breaks aside. -/
def needsEscape (c : Char) : Bool := (c.toNat < 0x20 && c != '\t' && c != '\n') || c.toNat == 0x7f

/-- The longest run of a character. -/
def longestRun (q : Char) (cs : List Char) : Nat :=
  (cs.foldl (fun (here, best) c => if c = q then (here + 1, max best (here + 1)) else (0, best))
    (0, 0)).2

/-- A control character by its number. -/
def numbered (c : Char) : List Char :=
  '\\' :: 'u' :: (Hex.encode [(c.toNat / 256).toUInt8, c.toNat.toUInt8]).toList.map Char.toUpper

/-- A character between double quotes. With `free` quotes left before three would stand in a row, a
quote stands for itself. -/
def escaped (multiline : Bool) (free : Nat) (c : Char) : List Char :=
  if c = '\x08' then ['\\', 'b']
  else if c = '\t' then ['\\', 't']
  else if c = '\n' then if multiline then ['\n'] else ['\\', 'n']
  else if c = '\x0c' then ['\\', 'f']
  else if c = '\r' then ['\\', 'r']
  else if c = '"' then if free = 0 then ['\\', '"'] else ['"']
  else if c = '\\' then ['\\', '\\']
  else if needsEscape c then numbered c
  else [c]

/-- The body of a string between double quotes, of which `run` may stand side by side. -/
def escapedBody (multiline : Bool) (run : Nat) : Nat → List Char → List Char
  | _, [] => []
  | free, c :: cs =>
    escaped multiline free c ++
      escapedBody multiline run (if c = '"' ∧ free ≠ 0 then free - 1 else run) cs

/-- A string between marks, with a line break in front if it holds one. -/
def multilineString (mark : String) (breaks : Bool) (body : List Char) : String :=
  mark ++ (if breaks then "\n" else "") ++ String.ofList body ++ mark

/-- A string as it is written. -/
def quote (s : String) : String :=
  let cs := s.toList
  let controls := cs.any needsEscape
  let breaks := cs.contains '\n'
  let slashes := cs.contains '\\'
  if !controls && !slashes && !breaks && !cs.contains '"' then
    "\"" ++ String.ofList (escapedBody false 0 0 cs) ++ "\""
  else if !controls && !breaks && !cs.contains '\'' then "'" ++ s ++ "'"
  else if !controls && !slashes && longestRun '"' cs ≤ 2 then
    multilineString "\"\"\"" breaks (escapedBody true 2 2 cs)
  else if !controls && longestRun '\'' cs ≤ 2 then multilineString "'''" breaks cs
  else if breaks then multilineString "\"\"\"" breaks (escapedBody true 2 2 cs)
  else "\"" ++ String.ofList (escapedBody false 0 0 cs) ++ "\""

/-! ## Documents -/

/-- What a plain key can hold. -/
inductive Setting where
  | text (s : String)
  | count (n : Nat)
  | texts (ss : List String)
deriving DecidableEq, Repr

/-- A value as it is written. Integers are signed words of 64 bits. -/
def Setting.render? : Setting → Option String
  | .text s => some (quote s)
  | .count n => if n < 0x8000000000000000 then some (toString n) else none
  | .texts [] => some "[]"
  | .texts [s] => some ("[" ++ quote s ++ "]")
  | .texts ss => some ("[\n" ++ String.join (ss.map fun s => "    " ++ quote s ++ ",\n") ++ "]")

/-- Lines of keys with their values. -/
def renderKeys? (settings : List (String × Setting)) : Option String :=
  (settings.mapM fun (k, v) => (Setting.render? v).map fun s => k ++ " = " ++ s ++ "\n").map String.join

/-- A document of plain keys and of tables of plain keys. -/
def render? (settings : List (String × Setting)) (tables : List (String × List (String × Setting))) :
    Option String := do
  let top ← renderKeys? settings
  let rest ← tables.mapM fun (k, settings) =>
    (renderKeys? settings).map fun s => "\n[" ++ k ++ "]\n" ++ s
  some (top ++ String.join rest)

end SealedCustody.Toml
