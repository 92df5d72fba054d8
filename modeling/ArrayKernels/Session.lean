import ArrayKernels.Registry.Description

/-!
# Sessions

Work with one registry: requests, queries, building and calling. A session keeps what has been made
on request and what has been built, in the order in which it came about, so that later actions can
refer to it by position. It also keeps the notes of all constructors that have been run, whatever
became of the action that ran them. No action changes the registry.
-/

namespace ArrayKernels

/-! ## What a session holds -/

/-- A built function of either family. -/
inductive AnyUfunc where
  | elementwise (ufunc : Ufunc)
  | core (ufunc : CoreUfunc)

/-- Builds the function of a vectorizer. -/
def AnyVectorizer.build : AnyVectorizer → Logged (Except Error AnyUfunc)
  | elementwise v => v.build.mapOk .elementwise
  | core v => v.build.mapOk .core

/-- The state of a session. -/
structure Session where
  registry : Registry
  /-- What has been made on request. -/
  vectorizers : List AnyVectorizer
  /-- What has been built. -/
  ufuncs : List AnyUfunc
  /-- The constructors that have been run. -/
  invoked : List Invocation

/-! ## Actions and replies -/

/-- What can be done in a session. -/
inductive Action where
  /-- Asks for the strategies that have entries. -/
  | strategies (family : Family)
  /-- Asks for the targets that have entries under a strategy. -/
  | targets (family : Family) (backend : String)
  /-- Asks for the label of an entry. -/
  | resolve (family : Family) (selector : Selector)
  /-- Asks why there is no device. -/
  | device
  /-- Asks for a description of the registry, on one line or on many. -/
  | describe (spread : Bool)
  /-- Asks for a vectorizer. -/
  | vectorize (function : ScalarFunction) (selector : Selector)
  /-- Asks for a core vectorizer. -/
  | vectorizeCore (function : CoreFunction) (signature : Signature) (selector : Selector)
  /-- Builds the function of a vectorizer. -/
  | build (vectorizer : Nat)
  /-- Calls a built elementwise function. -/
  | call (ufunc : Nat) (columns : List Column)
  /-- Calls a built core function. -/
  | callCore (ufunc : Nat) (inputs : List NdArray)

/-- What an action gives. -/
inductive Reply where
  | names (names : List String)
  | kind (kind : Kind)
  /-- Why there is no device, if that is known. -/
  | noDevice (reason : Option GpuError)
  | description (text : String)
  /-- A new vectorizer and its position. -/
  | vectorizer (position : Nat) (made : AnyVectorizer)
  /-- A newly built function and its position. -/
  | ufunc (position : Nat) (built : AnyUfunc)
  | column (out : Column)
  | array (out : NdArray)

/-- Why an action gives nothing. -/
inductive Refusal where
  | error (cause : Error)
  /-- Nothing of the right family stands at the position. -/
  | noSuchHandle

/-- What an action leads to. -/
structure Outcome where
  session : Session
  reply : Except Refusal Reply
  events : List Event

namespace Session

/-- A session in which nothing has happened. -/
def start (registry : Registry) : Session := ⟨registry, [], [], []⟩

/-- How often the constructor with that number has been run. -/
def invocations (s : Session) (number : Nat) : Nat := s.invoked.countP (·.number = number)

/-! ## Single actions -/

/-- An action that changes nothing and gives no events. -/
def answer (s : Session) (reply : Except Error Reply) : Outcome :=
  ⟨s, reply.mapError .error, []⟩

/-- Keeps a vectorizer that has been made on request, and in any case the notes of the constructors
that have been run. -/
def keepVectorizer (s : Session) : Requested AnyVectorizer → Outcome
  | ⟨⟨.error fault, events⟩, invocations⟩ =>
    ⟨{ s with invoked := s.invoked ++ invocations }, .error (.error (.request fault)), events⟩
  | ⟨⟨.ok made, events⟩, invocations⟩ =>
    ⟨{ s with vectorizers := s.vectorizers ++ [made], invoked := s.invoked ++ invocations },
      .ok (.vectorizer s.vectorizers.length made), events⟩

/-- Keeps a function that has been built. -/
def keepUfunc (s : Session) : Logged (Except Error AnyUfunc) → Outcome
  | ⟨.error fault, events⟩ => ⟨s, .error (.error fault), events⟩
  | ⟨.ok built, events⟩ =>
    ⟨{ s with ufuncs := s.ufuncs ++ [built] }, .ok (.ufunc s.ufuncs.length built), events⟩

/-- The result of a call. -/
def finish {α : Type} (s : Session) (wrap : α → Reply) : Logged (Except Error α) → Outcome
  | ⟨result, events⟩ => ⟨s, (result.map wrap).mapError .error, events⟩

/-! ## Steps -/

/-- Carries out an action. -/
def step (s : Session) : Action → Outcome
  | .strategies family => s.answer (.ok (.names ((s.registry.strategies family).map Strategy.name)))
  | .targets family backend =>
    s.answer <|
      match Strategy.parse backend with
      | .error fault => .error (.request fault)
      | .ok strategy => .ok (.names ((s.registry.targets family strategy).map Target.name))
  | .resolve family selector =>
    s.answer <|
      match s.registry.resolve family selector with
      | .error fault => .error (.request fault)
      | .ok kind => .ok (.kind kind)
  | .device => s.answer (.ok (.noDevice s.registry.fallback))
  | .describe spread =>
    let outline := s.registry.outline
    let text := if spread then outline.spread 0 else outline.inline
    s.answer (.ok (.description (String.ofList text)))
  | .vectorize function selector =>
    s.keepVectorizer ((s.registry.vectorize function selector).map .elementwise)
  | .vectorizeCore function signature selector =>
    s.keepVectorizer ((s.registry.vectorizeCore function signature selector).map .core)
  | .build position =>
    match s.vectorizers[position]? with
    | none => ⟨s, .error .noSuchHandle, []⟩
    | some vectorizer => s.keepUfunc vectorizer.build
  | .call position columns =>
    match s.ufuncs[position]? with
    | some (.elementwise ufunc) => s.finish .column (ufunc.call columns)
    | _ => ⟨s, .error .noSuchHandle, []⟩
  | .callCore position inputs =>
    match s.ufuncs[position]? with
    | some (.core ufunc) => s.finish .array (ufunc.call inputs)
    | _ => ⟨s, .error .noSuchHandle, []⟩

/-- Carries out actions one after the other: the final state, and what each action led to. -/
def run (s : Session) : List Action → Session × List Outcome
  | [] => (s, [])
  | action :: actions =>
    let outcome := s.step action
    let (final, outcomes) := outcome.session.run actions
    (final, outcome :: outcomes)

end Session

end ArrayKernels
