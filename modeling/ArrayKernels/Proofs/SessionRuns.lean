import ArrayKernels.Proofs.RegistryHistory

/-!
# Runs of a session

What one action does to a session, and what a sequence of actions does. The registry of a session is
never changed. A request that is accepted adds the vectorizer that has been made for it, and no other
action adds one; a build that succeeds adds the function that it has built. The constructors that a
request has run are noted after those of the actions before, and no other action runs one.

## Main results

- `Session.step_cases`: what a step can do.
- `Session.run_invariant`: what every step keeps holds after a run.
-/

namespace ArrayKernels

/-! ## Requests among the actions -/

/-- What an action hands in and how it names the entry, if it is a request for a vectorizer. -/
def Action.request? : Action → Option (Job × Selector)
  | vectorize function selector => some (.elementwise function, selector)
  | vectorizeCore function signature selector => some (.core function signature, selector)
  | strategies _ | targets _ _ | resolve _ _ | device | describe _ => none
  | build _ | call _ _ | callCore _ _ => none

/-- The action was a request, and it has been accepted. -/
def Outcome.accepted (o : Outcome) : Bool :=
  match o.reply with
  | .ok (.vectorizer _ _) => true
  | _ => false

namespace Session

/-! ## Steps -/

theorem keepUfunc_keeps (s : Session) (l : Logged (Except Error AnyUfunc)) :
    (s.keepUfunc l).accepted = false ∧ (s.keepUfunc l).session.registry = s.registry ∧
      (s.keepUfunc l).session.vectorizers = s.vectorizers ∧
      (s.keepUfunc l).session.invoked = s.invoked := by
  obtain ⟨result, events⟩ := l
  cases result <;> exact ⟨rfl, rfl, rfl, rfl⟩

theorem accepted_finish {α : Type} (s : Session) {wrap : α → Reply}
    (hwrap : ∀ x position made, wrap x ≠ .vectorizer position made)
    (l : Logged (Except Error α)) : (s.finish wrap l).accepted = false := by
  obtain ⟨result, events⟩ := l
  cases result with
  | error fault => rfl
  | ok x =>
    show Outcome.accepted ⟨s, .ok (wrap x), events⟩ = false
    cases hx : wrap x with
    | vectorizer position made => exact absurd hx (hwrap x position made)
    | names | kind | noDevice | description | ufunc | column | array => rfl

/-- **What a step can do.** A request keeps what the registry answers, with the constructors that
have been run for it. Every other action makes no vectorizer and runs no constructor. In no case is
the registry changed. -/
theorem step_cases (s : Session) (action : Action) :
    (∃ job selector answer, action.request? = some (job, selector) ∧
      answer.constructed = s.registry.request selector job ∧
      s.step action = s.keepVectorizer answer) ∨
    (action.request? = none ∧ (s.step action).accepted = false ∧
      (s.step action).session.registry = s.registry ∧
      (s.step action).session.vectorizers = s.vectorizers ∧
      (s.step action).session.invoked = s.invoked) := by
  cases action with
  | vectorize function selector => exact .inl ⟨_, selector, _, rfl, rfl, rfl⟩
  | vectorizeCore function signature selector => exact .inl ⟨_, selector, _, rfl, rfl, rfl⟩
  | strategies family => exact .inr ⟨rfl, rfl, rfl, rfl, rfl⟩
  | targets family backend =>
    refine .inr ⟨rfl, ?_, rfl, rfl, rfl⟩
    simp only [step, answer]
    cases Strategy.parse backend <;> rfl
  | resolve family selector =>
    refine .inr ⟨rfl, ?_, rfl, rfl, rfl⟩
    simp only [step, answer]
    cases s.registry.resolve family selector <;> rfl
  | device => exact .inr ⟨rfl, rfl, rfl, rfl, rfl⟩
  | describe spread => exact .inr ⟨rfl, rfl, rfl, rfl, rfl⟩
  | build position =>
    simp only [step]
    cases s.vectorizers[position]? with
    | none => exact .inr ⟨rfl, rfl, rfl, rfl, rfl⟩
    | some vectorizer => exact .inr ⟨rfl, s.keepUfunc_keeps vectorizer.build⟩
  | call position columns =>
    simp only [step]
    split
    · exact .inr ⟨rfl, s.accepted_finish (fun _ _ _ h => by cases h) _, rfl, rfl, rfl⟩
    · exact .inr ⟨rfl, rfl, rfl, rfl, rfl⟩
  | callCore position inputs =>
    simp only [step]
    split
    · exact .inr ⟨rfl, s.accepted_finish (fun _ _ _ h => by cases h) _, rfl, rfl, rfl⟩
    · exact .inr ⟨rfl, rfl, rfl, rfl, rfl⟩

theorem keepVectorizer_of_ok (s : Session) {answer : Requested AnyVectorizer}
    {made : AnyVectorizer} {runs : List Invocation} (h : answer.constructed = ⟨.ok made, runs⟩) :
    s.keepVectorizer answer =
      ⟨{ s with vectorizers := s.vectorizers ++ [made], invoked := s.invoked ++ runs },
        .ok (.vectorizer s.vectorizers.length made), answer.events⟩ := by
  obtain ⟨⟨result, events⟩, invocations⟩ := answer
  cases h
  rfl

theorem keepVectorizer_of_error (s : Session) {answer : Requested AnyVectorizer}
    {fault : RequestError} {runs : List Invocation}
    (h : answer.constructed = ⟨.error fault, runs⟩) :
    s.keepVectorizer answer =
      ⟨{ s with invoked := s.invoked ++ runs }, .error (.error (.request fault)),
        answer.events⟩ := by
  obtain ⟨⟨result, events⟩, invocations⟩ := answer
  cases h
  rfl

theorem keepVectorizer_reply (s : Session) (answer : Requested AnyVectorizer) :
    (s.keepVectorizer answer).reply =
      match answer.value with
      | .error fault => .error (.error (.request fault))
      | .ok made => .ok (.vectorizer s.vectorizers.length made) := by
  obtain ⟨⟨result, events⟩, invocations⟩ := answer
  cases result <;> rfl

/-- A request keeps the registry and what has been built, whatever the answer. -/
theorem keepVectorizer_keeps (s : Session) (answer : Requested AnyVectorizer) :
    (s.keepVectorizer answer).session.registry = s.registry ∧
      (s.keepVectorizer answer).session.ufuncs = s.ufuncs := by
  obtain ⟨⟨result, events⟩, invocations⟩ := answer
  cases result <;> exact ⟨rfl, rfl⟩

/-- No action changes the registry. -/
theorem step_registry (s : Session) (action : Action) :
    (s.step action).session.registry = s.registry := by
  rcases s.step_cases action with ⟨job, selector, answer, -, -, hstep⟩ | ⟨-, -, hregistry, -⟩
  · rw [hstep]
    exact (s.keepVectorizer_keeps answer).1
  · exact hregistry

/-- An action that is no request runs no constructor. -/
theorem invoked_of_no_request (s : Session) {action : Action} (h : action.request? = none) :
    (s.step action).session.invoked = s.invoked := by
  rcases s.step_cases action with ⟨job, selector, answer, hrequest, -⟩ | ⟨-, -, -, -, hinvoked⟩
  · rw [h] at hrequest
    cases hrequest
  · exact hinvoked

/-- A request gets the answer of the registry, with the position of what has been made. -/
theorem reply_of_request (s : Session) {action : Action} {job : Job} {selector : Selector}
    (h : action.request? = some (job, selector)) :
    (s.step action).reply =
      match (s.registry.request selector job).value with
      | .error fault => .error (.error (.request fault))
      | .ok made => .ok (.vectorizer s.vectorizers.length made) := by
  rcases s.step_cases action with
    ⟨job', selector', answer, hrequest, hanswer, hstep⟩ | ⟨hnone, -⟩
  · cases h.symm.trans hrequest
    rw [hstep, ← hanswer]
    exact s.keepVectorizer_reply answer
  · rw [h] at hnone
    cases hnone

/-! ## Runs -/

theorem run_cons (s : Session) (action : Action) (actions : List Action) :
    s.run (action :: actions) =
      (((s.step action).session.run actions).1,
        s.step action :: ((s.step action).session.run actions).2) :=
  rfl

/-- The outcomes of the first actions are those of a run of these actions alone. -/
theorem take_run (s : Session) (actions : List Action) (n : Nat) :
    (s.run actions).2.take n = (s.run (actions.take n)).2 := by
  induction actions generalizing s n with
  | nil => exact List.take_nil.trans (congrArg (fun l => (s.run l).2) List.take_nil.symm)
  | cons action actions ih =>
    cases n with
    | zero => rfl
    | succ n => rw [run_cons, List.take_succ_cons, List.take_succ_cons, run_cons, ih]

/-- The first actions and their outcomes are the actions and outcomes of a run of these alone. -/
theorem take_zip_run (s : Session) (actions : List Action) (n : Nat) :
    (actions.zip (s.run actions).2).take n =
      (actions.take n).zip (s.run (actions.take n)).2 := by
  rw [← take_run, List.zip_eq_zipWith, List.zip_eq_zipWith, List.take_zipWith]

/-- Every action is a step from the state that the actions before have left. -/
theorem getElem?_run (s : Session) (actions : List Action) (n : Nat) :
    (s.run actions).2[n]? = actions[n]?.map fun action =>
      (s.run (actions.take n)).1.step action := by
  induction actions generalizing s n with
  | nil => rfl
  | cons action actions ih =>
    cases n with
    | zero => rfl
    | succ n => exact ih _ n

/-- **What every step keeps holds after a run.** -/
theorem run_invariant {P : Session → Prop}
    (hstep : ∀ s action, P s → P (s.step action).session) {s : Session} (hs : P s)
    (actions : List Action) : P (s.run actions).1 := by
  induction actions generalizing s with
  | nil => exact hs
  | cons action actions ih => exact ih (hstep s action hs)

theorem run_registry (s : Session) (actions : List Action) :
    (s.run actions).1.registry = s.registry :=
  run_invariant (P := fun t => t.registry = s.registry)
    (fun t action ht => (t.step_registry action).trans ht) rfl actions

end Session

end ArrayKernels
