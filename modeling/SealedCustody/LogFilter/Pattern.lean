import SealedCustody.Text.Hex

/-!
# Patterns

Which texts are regular expressions: groups and sets are closed, what is repeated is there, what a
backslash makes special exists. Boundaries of words and counted repetitions have no place in a pattern.
-/

namespace SealedCustody.Pattern

/-! ## After a backslash -/

/-- What a backslash and the characters after it stand for. -/
inductive Escape where
  | literal (c : Char)
  /-- A class of characters. -/
  | kind
  /-- The start or the end of the text. -/
  | anchor
deriving DecidableEq, Repr

/-- A character by the hexadecimal digits of its number. -/
def numbered? (digits : Nat) (cs : List Char) : Option (Escape × List Char) := do
  if cs.length < digits then none
  else
    let values ← (cs.take digits).mapM Hex.value?
    let n := values.foldl (fun n v => n * 16 + v) 0
    if n.isValidChar then some (.literal (Char.ofNat n), cs.drop digits) else none

/-- Control characters by the letter that stands for them. -/
def controls : List (Char × Char) :=
  [('a', '\x07'), ('f', '\x0c'), ('t', '\t'), ('n', '\n'), ('r', '\x0d'), ('v', '\x0b')]

/-- The first letters of the general categories of characters. -/
def categories : List Char := ['c', 'l', 'm', 'n', 'p', 's', 'z']

/-- Reads what stands behind a backslash. -/
def escape? : List Char → Option (Escape × List Char)
  | [] => none
  | c :: rest =>
    if c = 'x' then numbered? 2 rest
    else if c = 'u' then numbered? 4 rest
    else if c = 'U' then numbered? 8 rest
    else if c = 'p' ∨ c = 'P' then
      match rest with
      | [] => none
      | d :: rest => if categories.contains d.toLower then some (.kind, rest) else none
    else if ['d', 'D', 's', 'S', 'w', 'W'].contains c then some (.kind, rest)
    else if c = 'A' ∨ c = 'z' then some (.anchor, rest)
    else match controls.lookup c with
      | some d => some (.literal d, rest)
      | none =>
        if c.toNat < 128 ∧ ¬c.isAlphanum ∧ c ≠ '<' ∧ c ≠ '>' then some (.literal c, rest) else none

/-! ## Reading along -/

/-- Where the reading of a set stands. -/
inductive SetPlace where
  /-- Behind the bracket. -/
  | opened
  /-- Where only dashes have come; whether none has. -/
  | leading (bare : Bool)
  /-- Behind an item: a character, a class of characters, or one that cannot begin a range. -/
  | item (last : Option Escape)
  /-- Behind the dash of a range. -/
  | range (first : Char)
deriving DecidableEq, Repr

/-- Where the reading of a pattern stands. -/
inductive Place where
  /-- Outside of sets; whether something stands there that can be repeated. -/
  | plain (repeatable : Bool)
  /-- Among the flags of a group, those that have come. -/
  | flags (read : List Char)
  /-- In the name of a group, and whether it has begun. -/
  | name (begun : Bool)
  /-- In a set that stands in so many others. -/
  | set (depth : Nat) (place : SetPlace)
deriving DecidableEq, Repr

/-- The flags of a group. -/
def flagLetters : List Char := ['i', 'm', 's', 'U', 'u', 'x', 'R', '-']

/-- The names of classes that stand between colons in a set. -/
def classNames : List String :=
  ["alnum", "alpha", "ascii", "blank", "cntrl", "digit", "graph", "lower", "print", "punct", "space",
    "upper", "word", "xdigit"]

/-- What follows the name of a class and its last bracket. -/
def afterClassName? (cs : List Char) : Option (List Char) :=
  (classNames.flatMap fun n => [":" ++ n ++ ":]", ":^" ++ n ++ ":]"]).findSome? fun n =>
    if n.toList.isPrefixOf cs then some (cs.drop n.length) else none

/-- The place behind a set that is closed. -/
def Place.afterSet : Nat → Place
  | 0 => .plain true
  | depth + 1 => .set depth (.item none)

/-- The groups that stand open, the place and the rest of the characters after one step, if there is
one. -/
def step? (groups : Nat) : Place → List Char → Option (Nat × Place × List Char)
  | _, [] => none
  | .plain _, '\\' :: rest => (escape? rest).map fun (_, rest) => (groups, .plain true, rest)
  | .plain _, '(' :: '?' :: 'P' :: '<' :: rest | .plain _, '(' :: '?' :: '<' :: rest =>
    some (groups, .name false, rest)
  | .plain _, '(' :: '?' :: rest => some (groups, .flags [], rest)
  | .plain _, '(' :: rest => some (groups + 1, .plain false, rest)
  | .plain _, ')' :: rest => if groups = 0 then none else some (groups - 1, .plain true, rest)
  | .plain _, '[' :: rest => some (groups, .set 0 .opened, rest)
  | .plain _, '|' :: rest => some (groups, .plain false, rest)
  | .plain repeatable, c :: rest =>
    if c = '{' ∨ (['*', '+', '?'].contains c ∧ ¬repeatable) then none
    else some (groups, .plain true, rest)
  | .flags read, c :: rest =>
    if c = ':' then if read.head? = some '-' then none else some (groups + 1, .plain false, rest)
    else if c = ')' then
      if read.isEmpty ∨ read.head? = some '-' then none else some (groups, .plain false, rest)
    else if flagLetters.contains c ∧ ¬read.contains c then some (groups, .flags (c :: read), rest)
    else none
  | .name begun, c :: rest =>
    if c = '>' then if begun then some (groups + 1, .plain false, rest) else none
    else if c = '_' ∨ c.isAlpha ∨ (begun ∧ (c.isDigit ∨ ['.', '[', ']'].contains c)) then
      some (groups, .name true, rest)
    else none
  | .set depth .opened, '^' :: rest => some (groups, .set depth (.leading true), rest)
  | .set depth .opened, cs => some (groups, .set depth (.leading true), cs)
  | .set depth (.leading _), '-' :: rest => some (groups, .set depth (.leading false), rest)
  | .set depth (.leading true), ']' :: rest => some (groups, .set depth (.item none), rest)
  | .set depth (.leading _), cs => some (groups, .set depth (.item none), cs)
  | .set depth (.item _), ']' :: rest => some (groups, .afterSet depth, rest)
  | .set depth (.item _), '[' :: rest =>
    match afterClassName? rest with
    | some rest => some (groups, .set depth (.item none), rest)
    | none => some (groups, .set (depth + 1) .opened, rest)
  | .set depth (.item _), '&' :: '&' :: rest | .set depth (.item _), '-' :: '-' :: rest
  | .set depth (.item _), '~' :: '~' :: rest => some (groups, .set depth (.item none), rest)
  | .set depth (.item (some (.literal a))), '-' :: c :: rest =>
    if c = ']' then some (groups, .set depth (.item none), c :: rest)
    else some (groups, .set depth (.range a), c :: rest)
  | .set depth (.item (some _)), '-' :: c :: rest =>
    if c = ']' then some (groups, .set depth (.item none), c :: rest) else none
  | .set depth (.item _), '\\' :: rest =>
    match escape? rest with
    | some (.anchor, _) | none => none
    | some (e, rest) => some (groups, .set depth (.item (some e)), rest)
  | .set depth (.item _), c :: rest => some (groups, .set depth (.item (some (.literal c))), rest)
  | .set depth (.range a), '\\' :: rest =>
    match escape? rest with
    | some (.literal b, rest) =>
      if a ≤ b then some (groups, .set depth (.item none), rest) else none
    | _ => none
  | .set depth (.range a), b :: rest =>
    if a ≤ b then some (groups, .set depth (.item none), rest) else none

/-- Whether so many steps lead to the end of the characters with nothing left open. -/
def ends : Nat → Nat → Place → List Char → Bool
  | _, groups, .plain _, [] => groups = 0
  | 0, _, _, _ => false
  | fuel + 1, groups, place, cs =>
    match step? groups place cs with
    | some (groups, place, rest) => ends fuel groups place rest
    | none => false

/-- Whether a text is a pattern. A set takes two steps to begin, and all else no more than one for each
character. -/
def isPattern (s : String) : Bool := ends (3 * s.length) 0 (.plain false) s.toList

end SealedCustody.Pattern
