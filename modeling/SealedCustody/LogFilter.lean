import SealedCustody.LogFilter.Directive

/-!
# Log filters

A filter is a list of directives between commas. A directive that names no span and asks for no value is
meant for messages: those whose target begins with the one it names, and which have the field that it
names. Of the directives that are meant for a message the most telling one decides: that with the longest
target, then that with a field, then that with the greater field name, then the last. A directive that
names a span or a field is meant for spans as well, and lets through what happens inside of them. A filter
without directives lets errors through.
-/

namespace SealedCustody

/-- A stretch of work that messages come from. -/
structure LogSpan where
  level : LogLevel
  target : String
  name : String
deriving DecidableEq, Repr

/-- A message that may be logged. -/
structure LogMessage where
  level : LogLevel
  target : String
  /-- The names of its fields. -/
  fields : List String
  /-- The span that it comes from. -/
  span : Option LogSpan
  text : String
deriving DecidableEq, Repr

namespace LogDirective

/-- Whether a directive is meant for messages. -/
def isForMessages (d : LogDirective) : Bool := d.span.isNone && d.field.all (·.value.isNone)

/-- Whether a directive is meant for spans. -/
def isForSpans (d : LogDirective) : Bool := d.span.isSome || d.field.isSome

/-- Whether a directive is meant for a message. -/
def isFor (d : LogDirective) (m : LogMessage) : Bool :=
  d.isForMessages && d.target.all (m.target.startsWith ·) && d.field.all fun f => m.fields.contains f.name

/-- Whether a directive lets through what happens in a span. Spans have no fields. -/
def isForSpan (d : LogDirective) (s : LogSpan) : Bool :=
  d.isForSpans && d.target.all (s.target.startsWith ·) && d.span.all (· = s.name) && d.field.isNone

/-- How telling a directive is: the octets of its target, one more than there are, and its field. -/
def weight (d : LogDirective) : Nat × Option String :=
  (d.target.elim 0 fun t => t.utf8ByteSize + 1, d.field.map (·.name))

/-- Whether one directive is no more telling than another. -/
def atMost (a b : LogDirective) : Bool :=
  a.weight.1 < b.weight.1 ||
    (a.weight.1 = b.weight.1 &&
      match a.weight.2, b.weight.2 with
      | none, _ => true
      | some _, none => false
      | some x, some y => !(y < x))

end LogDirective

/-- What a log lets through. -/
structure LogFilter where
  directives : List LogDirective
deriving DecidableEq, Repr

namespace LogFilter

/-- The texts between commas that are not empty. -/
def parts (s : String) : List String := (Text.split ',' s).filter (· ≠ "")

/-- The filter of some directives. -/
def ofDirectives (ds : List LogDirective) : LogFilter :=
  ⟨if ds.isEmpty then [⟨none, none, none, LogLevel.error.rank⟩] else ds⟩

/-- Reads a filter, if every part of it is a directive. -/
def ofText (s : String) : Except LogDirective.Fault LogFilter :=
  ((parts s).mapM LogDirective.ofText).map ofDirectives

/-- Reads a filter and drops the parts that are no directives, unless one is broken. -/
def ofTextLossy (s : String) : Except LogDirective.Fault LogFilter :=
  let read (part : String) : Except LogDirective.Fault (Option LogDirective) :=
    match LogDirective.ofText part with
    | .ok d => .ok (some d)
    | .error .refused => .ok none
    | .error .broken => .error .broken
  ((parts s).mapM read).map fun ds => ofDirectives (ds.filterMap id)

/-- The directive that decides on a message. -/
def deciding? (f : LogFilter) (m : LogMessage) : Option LogDirective :=
  (f.directives.filter fun d => d.isFor m).foldl
    (fun best d => match best with
      | some b => if b.atMost d then some d else some b
      | none => some d) none

/-- The least grave level that may be let through at all: any level, if a value is asked for. -/
def ceiling (f : LogFilter) : Nat :=
  f.directives.foldl (fun n d =>
    max n (if d.field.any (·.value.isSome) then LogLevel.trace.rank else d.limit)) 0

/-- Whether a message is let through for the sake of the span that it comes from. -/
def passesInSpan (f : LogFilter) (m : LogMessage) : Bool :=
  m.span.any fun s =>
    s.level.rank ≤ f.ceiling && f.directives.any fun d => d.isForSpan s && m.level.rank ≤ d.limit

/-- Whether a message is let through. -/
def passes (f : LogFilter) (m : LogMessage) : Bool :=
  f.passesInSpan m || (f.deciding? m).any fun d => m.level.rank ≤ d.limit

end LogFilter

end SealedCustody
