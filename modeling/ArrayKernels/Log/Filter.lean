import ArrayKernels.Log.Event
import ArrayKernels.Text.Alphanumeric
import ArrayKernels.Text.Split

/-!
# Log filters

A filter is a list of directives with commas between them. A directive is a level, or the start of
an origin, an equals sign and a level; levels are written in any case or as numbers, and none after
the equals sign means that everything passes. An event passes if its level is allowed by the
directive that fits its origin best: the one with the longest start, and of equal ones the last.
What no directive fits is left out. A filter without directives lets errors pass.

A directive may name a scope between square brackets behind the origin. It holds inside such scopes
only, and events are emitted outside of all scopes.
-/

namespace ArrayKernels

/-! ## Levels -/

/-- How much may be logged: everything up to a level, or nothing. -/
structure Threshold where
  /-- The verbosity of the least grave level that may be logged. -/
  verbosity : Nat
deriving DecidableEq

namespace Threshold

/-- The threshold that lets everything pass. -/
def all : Threshold := ⟨Level.trace.verbosity⟩

/-- The words for thresholds. -/
def words : List (String × Threshold) :=
  [("off", ⟨0⟩), ("error", ⟨Level.error.verbosity⟩), ("warn", ⟨Level.warn.verbosity⟩),
   ("info", ⟨Level.info.verbosity⟩), ("debug", ⟨Level.debug.verbosity⟩), ("trace", all)]

/-- The threshold that a text stands for: a word in any case, or a verbosity. -/
def ofText? (text : List Char) : Option Threshold :=
  match Text.naturalBelow? (all.verbosity + 1) text with
  | some verbosity => some ⟨verbosity⟩
  | none =>
    words.findSome? fun (word, threshold) =>
      if text.map Char.toLower = word.toList then some threshold else none

end Threshold

/-! ## Directives -/

/-- A directive: what may be logged of origins that start so. -/
structure Directive where
  origin : List Char
  threshold : Threshold
  /-- The directive holds inside a scope only. -/
  inScope : Bool
deriving DecidableEq

namespace Directive

/-- Whether the character can be the first one of a directive. -/
def isStart (c : Char) : Bool :=
  c = '-' || c = ':' || c = '_' || c = '[' || Text.isAlphanumeric c

/-- Whether the character belongs to the origin in front of it. -/
def isOriginChar (c : Char) : Bool := c ≠ '=' && c ≠ '['

/-- The text after a scope whose bracket is open. A scope is a name and perhaps, between braces, the
fields that it has to have. -/
def afterScope? (text : List Char) : Option (List Char) :=
  match text.dropWhile fun c => c ≠ ']' && c ≠ '\x7b' with
  | ']' :: after => some after
  | '\x7b' :: fields =>
    match fields.span (· ≠ '\x7d') with
    | (_ :: _, '\x7d' :: ']' :: after) => some after
    | _ => none
  | _ => none

/-- The threshold at the end of a directive: after an equals sign, or the default. White space in
front of the directive is an error if there is an equals sign. -/
def threshold? (indented : Bool) : List Char → Option Threshold
  | '=' :: level =>
    if indented then none
    else if level.isEmpty then some .all
    else Threshold.ofText? level
  | rest => if (Text.trimStart rest).isEmpty then some .all else none

/-- The directive that a text stands for. A text that is neither a level nor has an equals sign lets
everything pass that starts with it. -/
def parse? (text : List Char) : Option Directive :=
  let trimmed := Text.trimStart text
  let indented := trimmed.length != text.length
  if trimmed.head?.any isStart then
    match trimmed.span isOriginChar with
    | (_, []) =>
      match Threshold.ofText? text with
      | some threshold => some ⟨[], threshold, false⟩
      | none => some ⟨text, .all, false⟩
    | (origin, '[' :: scope) => do
      let rest ← afterScope? scope
      return ⟨origin, ← threshold? indented rest, true⟩
    | (origin, rest) => (threshold? indented rest).map fun threshold => ⟨origin, threshold, false⟩
  else none

end Directive

/-! ## Filters -/

/-- A log filter. -/
abbrev Filter := List Directive

namespace Filter

/-- The filter that a text stands for. Empty parts do not count. -/
def parse? (text : String) : Option Filter :=
  let parts := (Text.splitAtChar ',' text.toList).filter (!·.isEmpty)
  if parts.isEmpty then some [⟨[], ⟨Level.error.verbosity⟩, false⟩] else parts.mapM Directive.parse?

/-- The directive that fits an origin outside of all scopes best, when `best` is the best one so
far. -/
def bestFrom (origin : List Char) : Option Directive → List Directive → Option Directive
  | best, [] => best
  | best, d :: ds =>
    if !d.inScope ∧ d.origin.isPrefixOf origin ∧
        ∀ b ∈ best, b.origin.length ≤ d.origin.length then
      bestFrom origin (some d) ds
    else bestFrom origin best ds

/-- Whether an event passes. -/
def allows (filter : Filter) (event : Event) : Bool :=
  match bestFrom event.origin.toList none filter with
  | none => false
  | some d => event.level.verbosity ≤ d.threshold.verbosity

end Filter

end ArrayKernels
