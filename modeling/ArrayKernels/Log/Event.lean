/-!
# Log events

What the library reports while it works. An event has a level, the part of the library that it comes
from, a message and named fields whose values are texts. Operations return the events that they emit
next to their results.
-/

namespace ArrayKernels

/-- The level of an event, the gravest first. -/
inductive Level where
  | error | warn | info | debug | trace
deriving DecidableEq

namespace Level

/-- The name of the level. -/
def name : Level → String
  | error => "ERROR"
  | warn => "WARN"
  | info => "INFO"
  | debug => "DEBUG"
  | trace => "TRACE"

/-- How much is logged at the level: the gravest level comes first. -/
def verbosity : Level → Nat
  | error => 1
  | warn => 2
  | info => 3
  | debug => 4
  | trace => 5

end Level

/-- A log event. -/
structure Event where
  level : Level
  /-- The part of the library that emits the event. -/
  origin : String
  message : String
  /-- Names and values, in the order in which they are reported. -/
  fields : List (String × String)
deriving DecidableEq

/-- A result, and the events emitted on the way to it. -/
structure Logged (α : Type) where
  value : α
  events : List Event

namespace Logged

/-- A result without events. -/
def silent {α : Type} (value : α) : Logged α := ⟨value, []⟩

/-- The result of a second step that goes on from the first one, with the events of both. -/
def andThen {α β : Type} (first : Logged α) (next : α → Logged β) : Logged β :=
  ⟨(next first.value).value, first.events ++ (next first.value).events⟩

/-- The result with a function applied to it if it is not an error. -/
def mapOk {ε α β : Type} (f : α → β) (l : Logged (Except ε α)) : Logged (Except ε β) :=
  ⟨l.value.map f, l.events⟩

end Logged

end ArrayKernels
