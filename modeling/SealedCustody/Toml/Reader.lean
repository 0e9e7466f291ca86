import SealedCustody.Number.Binary64
import SealedCustody.Text.Hex
import SealedCustody.Toml.Value

/-!
# Reading TOML

Lines are blank, a comment, a header or a key with its value. Keys are bare or quoted and may be
dotted; values nest less than eighty deep. A document may start with a byte order mark.
-/

namespace SealedCustody.Toml

/-- Reads something from the front of a text. -/
abbrev Parser (α : Type) := List Char → Option (α × List Char)

/-! ## Characters -/

/-- White space inside a line. -/
def isSpace (c : Char) : Bool := c == ' ' || c == '\t'

/-- A character that may stand in a comment. -/
def inComment (c : Char) : Bool := c == '\t' || (0x20 ≤ c.toNat && c.toNat != 0x7f)

/-- The text after white space inside a line. -/
def skipSpace (cs : List Char) : List Char := cs.dropWhile isSpace

/-- The text after a line break, if there is one. -/
def newline? : List Char → Option (List Char)
  | '\n' :: rest => some rest
  | '\r' :: '\n' :: rest => some rest
  | _ => none

/-- The text after a comment, if there is one. -/
def skipComment : List Char → List Char
  | '#' :: rest => rest.dropWhile inComment
  | cs => cs

/-- The text after white space, comments and line breaks. -/
def skipLines : Nat → List Char → List Char
  | 0, cs => cs
  | fuel + 1, cs =>
    let cs := skipComment (skipSpace cs)
    match newline? cs with
    | some rest => skipLines fuel rest
    | none => cs

/-- The text after the end of a line: white space, a comment, and a line break or the end. -/
def endOfLine? (cs : List Char) : Option (List Char) :=
  match skipComment (skipSpace cs) with
  | [] => some []
  | cs => newline? cs

/-! ## Strings -/

/-- The character of so many hexadecimal digits. -/
def codePoint? (width : Nat) (cs : List Char) : Option (Char × List Char) := do
  let ds ← (cs.take width).mapM Hex.value?
  let n := ds.foldl (fun n d => n * 16 + d) 0
  if h : n.isValidChar then
    if ds.length = width then some (Char.ofNatAux n h, cs.drop width) else none
  else none

/-- The character of an escape, after the backslash. -/
def escape? : List Char → Option (Char × List Char)
  | 'b' :: rest => some ('\x08', rest)
  | 't' :: rest => some ('\t', rest)
  | 'n' :: rest => some ('\n', rest)
  | 'f' :: rest => some ('\x0c', rest)
  | 'r' :: rest => some ('\r', rest)
  | '"' :: rest => some ('"', rest)
  | '\\' :: rest => some ('\\', rest)
  | 'u' :: rest => codePoint? 4 rest
  | 'U' :: rest => codePoint? 8 rest
  | _ => none

/-- A character that may stand for itself in a string. -/
def inString (c : Char) : Bool := inComment c

/-- The rest of a string in double quotes on one line. -/
def basic? : Nat → List Char → Parser String
  | 0, _, _ => none
  | fuel + 1, done, cs =>
    match cs with
    | '"' :: rest => some (String.ofList done.reverse, rest)
    | '\\' :: rest =>
      match escape? rest with
      | some (c, rest) => basic? fuel (c :: done) rest
      | none => none
    | c :: rest => if inString c then basic? fuel (c :: done) rest else none
    | [] => none

/-- The rest of a string in single quotes on one line. -/
def literal? (cs : List Char) : Option (String × List Char) :=
  let body := cs.takeWhile fun c => inString c && c != '\''
  match cs.drop body.length with
  | '\'' :: rest => some (String.ofList body, rest)
  | _ => none

/-- The number of quotes at the front, at most five. -/
def quotes (q : Char) (cs : List Char) : Nat := ((cs.take 5).takeWhile (· == q)).length

/-- The text after white space and line breaks. -/
def skipBlank : List Char → List Char
  | '\n' :: rest => skipBlank rest
  | '\r' :: '\n' :: rest => skipBlank rest
  | c :: rest => if isSpace c then skipBlank rest else c :: rest
  | [] => []

/-- The text after white space and line breaks, of which there is at least one. -/
def joinedLine? (cs : List Char) : Option (List Char) := (newline? (skipSpace cs)).map skipBlank

/-- The rest of a string in three quotes. Up to two quotes may stand in it, also in front of those
that close it. -/
def multiline? (q : Char) : Nat → List Char → Parser String
  | 0, _, _ => none
  | fuel + 1, done, cs =>
    match newline? cs with
    | some rest => multiline? q fuel ('\n' :: done) rest
    | none =>
      let n := quotes q cs
      if 3 ≤ n then
        some (String.ofList ((List.replicate (n - 3) q ++ done).reverse), cs.drop n)
      else if 0 < n then multiline? q fuel (List.replicate n q ++ done) (cs.drop n)
      else match cs with
        | '\\' :: rest =>
          if q = '\'' then multiline? q fuel ('\\' :: done) rest
          else match joinedLine? rest with
            | some rest => multiline? q fuel done rest
            | none =>
              match escape? rest with
              | some (c, rest) => multiline? q fuel (c :: done) rest
              | none => none
        | c :: rest => if inString c then multiline? q fuel (c :: done) rest else none
        | [] => none

/-- The text after a line break right behind the opening quotes. -/
def afterOpening (cs : List Char) : List Char := (newline? cs).getD cs

/-- A string on one line. -/
def lineString? : Parser String
  | '"' :: rest => basic? (rest.length + 1) [] rest
  | '\'' :: rest => literal? rest
  | _ => none

/-- A string of any of the four kinds. -/
def string? : Parser String
  | '"' :: '"' :: '"' :: rest => multiline? '"' (rest.length + 1) [] (afterOpening rest)
  | '\'' :: '\'' :: '\'' :: rest => multiline? '\'' (rest.length + 1) [] (afterOpening rest)
  | cs => lineString? cs

/-! ## Keys -/

/-- A character of a bare key. -/
def inKey (c : Char) : Bool := c.isAlphanum || c == '_' || c == '-'

/-- A key without dots outside quotes. -/
def simpleKey? (cs : List Char) : Option (String × List Char) :=
  match cs with
  | '"' :: _ | '\'' :: _ => lineString? cs
  | _ =>
    let k := cs.takeWhile inKey
    if k.isEmpty then none else some (String.ofList k, cs.drop k.length)

/-- The parts of a dotted key, those read so far last first. -/
def dottedKey? : Nat → List String → Parser (List String)
  | 0, _, _ => none
  | fuel + 1, done, cs =>
    match simpleKey? (skipSpace cs) with
    | none => none
    | some (k, rest) =>
      match skipSpace rest with
      | '.' :: rest' => dottedKey? fuel (k :: done) rest'
      | _ => some ((k :: done).reverse, skipSpace rest)

/-- How deep values nest, and how many parts a key has, at most. -/
def depthLimit : Nat := 79

/-- A key: the path to its table and its last part. -/
def key? (cs : List Char) : Option ((List String × String) × List Char) := do
  let (parts, rest) ← dottedKey? (cs.length + 1) [] cs
  if depthLimit < parts.length then none
  else some ((parts.dropLast, ← parts.getLast?), rest)

/-! ## Numbers and dates -/

/-- A decimal digit. -/
def isDigit (c : Char) : Bool := '0' ≤ c && c ≤ '9'

/-- The rest of digits with single underscores between them. A digit is `due` at the
start and after an underscore. -/
def groups? (ok : Char → Bool) (due : Bool) : List Char → Option (List Char × List Char)
  | [] => if due then none else some ([], [])
  | c :: rest =>
    if ok c then (groups? ok false rest).map fun (ds, r) => (c :: ds, r)
    else if due then none
    else if c = '_' then groups? ok true rest
    else some ([], c :: rest)

/-- Digits with single underscores between them. -/
def grouped? (ok : Char → Bool) (cs : List Char) : Option (List Char × List Char) :=
  groups? ok true cs

/-- The number that digits spell. -/
def digitsValue (base : Nat) (ds : List Char) : Nat :=
  ds.foldl (fun n c => n * base + (Hex.value? c).getD 0) 0

/-- Whether a number fits a signed word of 64 bits. -/
def fits (i : Int) : Bool := -0x8000000000000000 ≤ i && i < 0x8000000000000000

/-- An integer with a base mark. -/
def based? (base : Nat) (cs : List Char) : Option (Item × List Char) := do
  let (ds, rest) ← grouped? (fun c => (Hex.value? c).any (· < base)) cs
  let n := digitsValue base ds
  if fits n then some (.integer n, rest) else none

/-- Whether digits have no leading zero, unless they are a single zero. -/
def noLeadingZero (ds : List Char) : Bool :=
  match ds with
  | '0' :: _ :: _ => false
  | _ => true

/-- The exponent of a float, after its mark: an optional sign and digits. -/
def exponent? : List Char → Option (Int × List Char)
  | '+' :: rest => (grouped? isDigit rest).map fun (ds, rest) => ((digitsValue 10 ds : Int), rest)
  | '-' :: rest => (grouped? isDigit rest).map fun (ds, rest) => (-(digitsValue 10 ds : Int), rest)
  | cs => (grouped? isDigit cs).map fun (ds, rest) => ((digitsValue 10 ds : Int), rest)

/-- What makes a number a float: the digits of a fraction, an exponent or both. -/
def floatRest? : List Char → Option ((List Char × Int) × List Char)
  | '.' :: rest => do
    let (ds, rest) ← grouped? isDigit rest
    match rest with
    | 'e' :: rest' | 'E' :: rest' => (exponent? rest').map fun (e, rest) => ((ds, e), rest)
    | _ => some ((ds, 0), rest)
  | 'e' :: rest | 'E' :: rest => (exponent? rest).map fun (e, rest) => (([], e), rest)
  | _ => none

/-- Whether digits with a power of ten are nearer to infinity than to a double. -/
def isInfinite (ds : List Char) (power : Int) : Bool :=
  let ds := ds.dropWhile (· == '0')
  let places := (ds.length : Int) + power
  if ds.isEmpty || places < 300 then false
  else if 310 < places then true
  else
    let n := digitsValue 10 ds
    let x? :=
      if 0 ≤ power then Binary64.ofRatio? false (n * Nat.pow 10 power.toNat) 1
      else Binary64.ofRatio? false n (Nat.pow 10 power.natAbs)
    x?.isNone

/-- A decimal number after its sign. A float that is positive is not infinite. -/
def decimal? (negative : Bool) (cs : List Char) : Option (Item × List Char) := do
  let (ds, rest) ← grouped? isDigit cs
  if !noLeadingZero ds then none
  else match rest with
    | '.' :: _ | 'e' :: _ | 'E' :: _ =>
      let ((fraction, exponent), rest) ← floatRest? rest
      if !negative && isInfinite (ds ++ fraction) (exponent - fraction.length) then none
      else some (.float, rest)
    | _ =>
      let i : Int := if negative then -(digitsValue 10 ds : Int) else digitsValue 10 ds
      if fits i then some (.integer i, rest) else none

/-- So many digits, as a number up to a limit. -/
def fixed? (width least most : Nat) (cs : List Char) : Option (Nat × List Char) :=
  let ds := cs.take width
  let n := digitsValue 10 ds
  if ds.length = width ∧ ds.all isDigit ∧ least ≤ n ∧ n ≤ most then some (n, cs.drop width) else none

/-- A given character. -/
def char? (c : Char) : List Char → Option (List Char)
  | d :: rest => if d = c then some rest else none
  | [] => none

/-- The number of days in a month. -/
def daysIn (y m : Nat) : Nat :=
  if m = 2 then (if y % 4 = 0 ∧ (y % 100 ≠ 0 ∨ y % 400 = 0) then 29 else 28)
  else if m = 4 ∨ m = 6 ∨ m = 9 ∨ m = 11 then 30 else 31

/-- A day. -/
def day? (cs : List Char) : Option (List Char) := do
  let (y, cs) ← fixed? 4 0 9999 cs
  let (m, cs) ← fixed? 2 1 12 (← char? '-' cs)
  let (_, cs) ← fixed? 2 1 (daysIn y m) (← char? '-' cs)
  some cs

/-- A time of day. -/
def time? (cs : List Char) : Option (List Char) := do
  let (_, cs) ← fixed? 2 0 23 cs
  let (_, cs) ← fixed? 2 0 59 (← char? ':' cs)
  let (_, cs) ← fixed? 2 0 60 (← char? ':' cs)
  match cs with
  | '.' :: rest =>
    let ds := rest.takeWhile isDigit
    if ds.isEmpty then none else some (rest.drop ds.length)
  | _ => some cs

/-- An offset from UTC, if there is one. -/
def offset? : List Char → Option (List Char)
  | 'Z' :: rest | 'z' :: rest => some rest
  | '+' :: rest | '-' :: rest => do
    let (_, cs) ← fixed? 2 0 23 rest
    let (_, cs) ← fixed? 2 0 59 (← char? ':' cs)
    some cs
  | cs => some cs

/-- A date with or without a time, or a time alone. -/
def date? (cs : List Char) : Option (List Char) :=
  match day? cs with
  | some rest =>
    match rest with
    | c :: rest' =>
      if c = 'T' ∨ c = 't' ∨ c = ' ' then
        match time? rest' with
        | some rest'' => offset? rest''
        | none => if c = ' ' then some rest else none
      else some rest
    | [] => some []
  | none => time? cs

/-- Whether a text starts as a date or time does. -/
def startsDate (cs : List Char) : Bool :=
  ((cs.take 4).all isDigit && (cs.drop 4).head? == some '-' && 4 ≤ cs.length)
    || ((cs.take 2).all isDigit && (cs.drop 2).head? == some ':' && 2 ≤ cs.length)

/-- A number or date. -/
def number? (cs : List Char) : Option (Item × List Char) :=
  if startsDate cs then (date? cs).map fun rest => (.date, rest)
  else match cs with
    | '0' :: 'x' :: rest => based? 16 rest
    | '0' :: 'o' :: rest => based? 8 rest
    | '0' :: 'b' :: rest => based? 2 rest
    | 'i' :: 'n' :: 'f' :: rest => some (.float, rest)
    | 'n' :: 'a' :: 'n' :: rest => some (.float, rest)
    | '+' :: 'i' :: 'n' :: 'f' :: rest => some (.float, rest)
    | '-' :: 'i' :: 'n' :: 'f' :: rest => some (.float, rest)
    | '+' :: 'n' :: 'a' :: 'n' :: rest => some (.float, rest)
    | '-' :: 'n' :: 'a' :: 'n' :: rest => some (.float, rest)
    | '+' :: rest => decimal? false rest
    | '-' :: rest => decimal? true rest
    | _ => decimal? false cs

/-! ## Values -/

/-- The rest of an array: items with commas between them, over any number of lines. -/
def items? (value? : Parser Item) : Nat → List Item → Parser Item
  | 0, _, _ => none
  | fuel + 1, done, cs =>
    match skipLines cs.length cs with
    | ']' :: rest => some (.array done.reverse, rest)
    | cs =>
      match value? cs with
      | none => none
      | some (v, rest) =>
        match skipLines rest.length rest with
        | ',' :: rest => items? value? fuel (v :: done) rest
        | ']' :: rest => some (.array (v :: done).reverse, rest)
        | _ => none

/-- One key with its value. -/
def pair? (value? : Parser Item) (cs : List Char) :
    Option ((List String × String × Item) × List Char) := do
  let ((path, key), rest) ← key? cs
  let rest ← char? '=' rest
  let (v, rest) ← value? (skipSpace rest)
  some ((path, key, v), rest)

/-- The rest of an inline table that is not empty: keys with commas between them, on one line. -/
def pairs? (value? : Parser Item) : Nat → Entries → Parser Item
  | 0, _, _ => none
  | fuel + 1, es, cs =>
    match pair? value? cs with
    | none => none
    | some ((path, key, v), rest) =>
      match addKey path key v es with
      | none => none
      | some es =>
        match skipSpace rest with
        | ',' :: rest => pairs? value? fuel es rest
        | '\x7d' :: rest => some (.inlined es, rest)
        | _ => none

/-- A value that nests at most so deep. -/
def value? : Nat → Parser Item
  | depth, cs =>
    match cs with
    | '"' :: _ | '\'' :: _ => (string? cs).map fun (s, rest) => (.string s, rest)
    | 't' :: 'r' :: 'u' :: 'e' :: rest => some (.boolean true, rest)
    | 'f' :: 'a' :: 'l' :: 's' :: 'e' :: rest => some (.boolean false, rest)
    | '[' :: rest =>
      match depth with
      | 0 => none
      | d + 1 => items? (value? d) (rest.length + 1) [] rest
    | '\x7b' :: rest =>
      match depth with
      | 0 => none
      | d + 1 =>
        match skipSpace rest with
        | '\x7d' :: rest => some (.inlined [], rest)
        | rest => pairs? (value? d) (rest.length + 1) [] rest
    | _ => number? cs

/-! ## Documents -/

/-- The rest of a header, after its brackets: its key, and whether it is a repeated one. -/
def header? (repeated : Bool) (cs : List Char) :
    Option ((List String × String) × List Char) := do
  let (key, rest) ← key? cs
  let rest ← char? ']' rest
  if repeated then some (key, ← char? ']' rest) else some (key, rest)

/-- Reads lines into a document; `here` is the path of the table that keys are added to. -/
def lines? : Nat → List String → Entries → List Char → Option Entries
  | 0, _, _, _ => none
  | fuel + 1, here, doc, cs =>
    match skipLines cs.length cs with
    | [] => some doc
    | '[' :: rest =>
      let repeated := rest.head? == some '['
      match header? repeated (if repeated then rest.drop 1 else rest) with
      | none => none
      | some ((path, key), rest) =>
        match descend .implicit (if repeated then openRepeated key else openTable key) .explicit
            path doc, endOfLine? rest with
        | some doc, some rest => lines? fuel (path ++ [key]) doc rest
        | _, _ => none
    | cs =>
      match pair? (value? depthLimit) cs with
      | none => none
      | some ((path, key, v), rest) =>
        match descend .implicit (fun _ es => addKey path key v es) .explicit here doc,
            endOfLine? rest with
        | some doc, some rest => lines? fuel here doc rest
        | _, _ => none

/-- The document that a text is. -/
def ofText? (s : String) : Option Entries :=
  let cs := match s.toList with
    | '\ufeff' :: rest => rest
    | cs => cs
  lines? (cs.length + 1) [] [] cs

end SealedCustody.Toml
