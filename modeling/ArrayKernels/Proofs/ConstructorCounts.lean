import ArrayKernels.Proofs.SessionRuns

/-!
# How often constructors are run

The constructor of an entry is run once for each request that is accepted under the key of the entry,
on what the request hands in, and the request is answered with what it has made. No constructor is
run at any other time. Of the additions under one key only the last one counts, so the constructors
of the others are never run. Since the registry does not change, neither does what later actions are
told.

## Layers

- **Last additions**: there is at most one for each key, and they have numbers of their own.
- **Requests**: an accepted one runs one constructor, a refused one runs none.
- **Runs**: the constructors that have been run answer the accepted requests, one by one.
- **Counts**: the runs of a constructor are counted by the requests that they answer.

## Main results

- `Session.step_invoked`: the constructors that one step runs.
- `Session.run_invoked`: the constructors that a sequence of actions runs.
- `constructors_run_once_per_request`: what has been run after every prefix of a sequence, and how
  often.
-/

namespace ArrayKernels

/-! ## Last additions -/

namespace LastAdded

variable {family family' : Family} {strategy strategy' : Strategy} {target target' : Target}
  {history : List Addition} {a a' : Addition} {number number' : Nat}

theorem getElem?_eq (h : LastAdded family strategy target history a number) :
    history[number]? = some a := by
  obtain ⟨before, after, rfl, rfl, -, -⟩ := h
  simp

theorem under (h : LastAdded family strategy target history a number) :
    a.Under family strategy target := by
  obtain ⟨before, after, -, -, hunder, -⟩ := h
  exact hunder

/-- Nothing is added under the key after the last addition. -/
theorem le_of_under (h : LastAdded family strategy target history a number)
    (hother : history[number']? = some a') (hunder : a'.Under family strategy target) :
    number' ≤ number := by
  obtain ⟨before, after, rfl, rfl, -, hafter⟩ := h
  by_contra hlt
  rw [List.getElem?_append_right (by omega)] at hother
  obtain ⟨k, hk⟩ := Nat.exists_eq_add_of_le' (show 1 ≤ number' - before.length by omega)
  rw [hk, List.getElem?_cons_succ] at hother
  exact hafter a' (List.mem_of_getElem? hother) hunder

/-- There is one last addition under a key. -/
theorem number_unique (h : LastAdded family strategy target history a number)
    (h' : LastAdded family strategy target history a' number') : number = number' :=
  Nat.le_antisymm (h'.le_of_under h.getElem?_eq h.under) (h.le_of_under h'.getElem?_eq h'.under)

/-- An addition belongs to one key. -/
theorem key_unique (h : LastAdded family strategy target history a number)
    (h' : LastAdded family' strategy' target' history a' number) :
    (family, strategy, target) = (family', strategy', target') := by
  obtain rfl : a = a' := Option.some.inj (h.getElem?_eq.symm.trans h'.getElem?_eq)
  obtain ⟨hfamily, hkey⟩ := h.under
  obtain ⟨hfamily', hkey'⟩ := h'.under
  rw [← hfamily, ← hfamily', ← hkey, ← hkey']

end LastAdded

/-! ## Requests -/

/-- The family and the key that an action asks a vectorizer of, if it is a request and its names can
be read. -/
def Action.requested? (action : Action) : Option (Family × Strategy × Target) :=
  action.request?.bind fun (job, selector) => selector.resolve.toOption.map (job.family, ·)

/-- **A request is answered by the constructor of the last addition under its key**, which is run
once, or it is refused and no constructor is run. -/
theorem Start.request_cases (start : Start) (additions : List Addition) (selector : Selector)
    (job : Job) :
    (∃ strategy target a number made, selector.resolve = .ok (strategy, target) ∧
      LastAdded job.family strategy target (start.additions ++ additions) a number ∧
      a.make job = some made ∧
      (start.registry additions).request selector job = ⟨.ok made, [⟨number, made⟩]⟩) ∨
    ∃ fault, (start.registry additions).request selector job = ⟨.error fault, []⟩ := by
  cases hresolve : selector.resolve with
  | error fault =>
    -- a name that cannot be read
    exact .inr ⟨fault, Registry.request_of_unresolved _ hresolve job⟩
  | ok key =>
    obtain ⟨strategy, target⟩ := key
    rw [Registry.request_of_resolved _ hresolve]
    have hfollows := start.follows additions job.family
    by_cases hadded : ∃ a ∈ start.additions ++ additions, a.Under job.family strategy target
    · obtain ⟨a, number, hlast⟩ := exists_lastAdded hadded
      obtain ⟨made, hmake, hrequest⟩ :=
        (hfollows.accepted strategy target a number hlast).2 job rfl
      exact .inl ⟨strategy, target, a, number, made, rfl, hlast, hmake, hrequest⟩
    · -- under a key without additions there is nothing to run
      obtain ⟨fault, -, hrefused, -⟩ := hfollows.refused strategy target
        fun a ha hunder => hadded ⟨a, ha, hunder⟩
      exact .inr ⟨fault, hrefused job rfl⟩

/-! ## Runs -/

namespace Session

variable {start : Start} {additions : List Addition} {s : Session}

/-- The action is a request, the constructor that was run is the one of the last addition under the
key of the request, and what it makes of the job is the reply. -/
def AnsweredBy (history : List Addition) (step : Action × Outcome) (run : Invocation) : Prop :=
  ∃ job selector strategy target a position,
    step.1.request? = some (job, selector) ∧ selector.resolve = .ok (strategy, target) ∧
    LastAdded job.family strategy target history a run.number ∧ a.make job = some run.made ∧
    step.2.reply = .ok (.vectorizer position run.made)

/-- **The constructors that one step runs.** If the step is an accepted request, one constructor is
run and answers it; otherwise none is. -/
theorem step_invoked (hs : s.registry = start.registry additions) (action : Action) :
    ∃ runs, (s.step action).session.invoked = s.invoked ++ runs ∧
      List.Forall₂ (AnsweredBy (start.additions ++ additions))
        ([(action, s.step action)].filter (·.2.accepted)) runs := by
  rcases s.step_cases action with
    ⟨job, selector, answer, hrequest, hanswer, hstep⟩ | ⟨-, hrefused, -, -, hinvoked⟩
  · rw [hs] at hanswer
    rcases start.request_cases additions selector job with
      ⟨strategy, target, a, number, made, hresolve, hlast, hmake, hmade⟩ | ⟨fault, hfault⟩
    · -- the one run is noted, and what it has made is the reply
      rw [hstep, s.keepVectorizer_of_ok (hanswer.trans hmade)]
      refine ⟨[⟨number, made⟩], rfl, List.forall₂_cons.mpr ⟨?_, .nil⟩⟩
      exact ⟨job, selector, strategy, target, a, _, hrequest, hresolve, hlast, hmake, rfl⟩
    · rw [hstep, s.keepVectorizer_of_error (hanswer.trans hfault)]
      exact ⟨[], rfl, .nil⟩
  · refine ⟨[], hinvoked.trans (List.append_nil _).symm, ?_⟩
    rw [List.filter_singleton, hrefused]
    exact .nil

/-- An action that is no accepted request runs no constructor. -/
theorem invoked_of_not_accepted (hs : s.registry = start.registry additions) {action : Action}
    (h : (s.step action).accepted = false) : (s.step action).session.invoked = s.invoked := by
  obtain ⟨runs, hinvoked, hanswered⟩ := step_invoked hs action
  rw [List.filter_singleton, h] at hanswered
  cases hanswered
  rw [hinvoked, List.append_nil]

/-- **The constructors that a sequence of actions runs.** They answer the accepted requests, one by
one and in their order. -/
theorem run_invoked (hs : s.registry = start.registry additions) (actions : List Action) :
    ∃ runs, (s.run actions).1.invoked = s.invoked ++ runs ∧
      List.Forall₂ (AnsweredBy (start.additions ++ additions))
        ((actions.zip (s.run actions).2).filter (·.2.accepted)) runs := by
  -- the state changes from step to step, but its registry stays the one of the start
  induction actions generalizing s with
  | nil => exact ⟨[], (List.append_nil _).symm, .nil⟩
  | cons action actions ih =>
    obtain ⟨first, hfirst, hanswered⟩ := step_invoked hs action
    obtain ⟨rest, hrest, hrestAnswered⟩ := ih ((s.step_registry action).trans hs)
    refine ⟨first ++ rest, ?_, ?_⟩
    · rw [run_cons, hrest, hfirst, List.append_assoc]
    · rw [run_cons, List.zip_cons_cons, ← List.singleton_append, List.filter_append]
      exact List.rel_append hanswered hrestAnswered

/-! ## Counts -/

/-- The action is a request under the key, and it has been accepted. -/
def AcceptedUnder (key : Family × Strategy × Target) (step : Action × Outcome) : Prop :=
  step.1.requested? = some key ∧ step.2.accepted = true

instance (key : Family × Strategy × Target) : DecidablePred (AcceptedUnder key) := fun step =>
  inferInstanceAs (Decidable (step.1.requested? = some key ∧ step.2.accepted = true))

/-- The number of accepted requests under a key. -/
def acceptedRequests (key : Family × Strategy × Target) (steps : List (Action × Outcome)) : Nat :=
  steps.countP (AcceptedUnder key ·)

namespace AnsweredBy

variable {history : List Addition} {step : Action × Outcome} {run : Invocation}

/-- A constructor that was run is the one of the last addition under a key exactly if what it
answers is a request under the key. -/
theorem number_eq_iff (h : AnsweredBy history step run) {family : Family} {strategy : Strategy}
    {target : Target} {a : Addition} {number : Nat}
    (hlast : LastAdded family strategy target history a number) :
    AcceptedUnder (family, strategy, target) step ↔ run.number = number := by
  obtain ⟨job, selector, strategy', target', a', position, hrequest, hresolve, hlast', -, hreply⟩ :=
    h
  have hrequested : step.1.requested? = some (job.family, strategy', target') := by
    simp only [Action.requested?, hrequest, Option.bind_some, hresolve]
    rfl
  have haccepted : step.2.accepted = true := by
    rw [Outcome.accepted, hreply]
  constructor
  · intro hunder
    cases hrequested.symm.trans hunder.1
    exact hlast'.number_unique hlast
  · intro hnumber
    have hkey := (hnumber ▸ hlast').key_unique hlast
    exact ⟨hrequested.trans (congrArg some hkey), haccepted⟩

/-- The constructor of an addition that was overridden is not run. -/
theorem number_ne (h : AnsweredBy history step run) {a : Addition} {number : Nat}
    (ha : history[number]? = some a)
    (hoverridden : ¬LastAdded a.family a.key.1 a.key.2 history a number) : run.number ≠ number := by
  obtain ⟨job, selector, strategy, target, a', position, -, -, hlast, -⟩ := h
  intro hnumber
  rw [hnumber] at hlast
  obtain rfl : a = a' := Option.some.inj (ha.symm.trans hlast.getElem?_eq)
  obtain ⟨hfamily, hkey⟩ := hlast.under
  rw [hfamily, hkey] at hoverridden
  exact hoverridden hlast

end AnsweredBy

variable {history : List Addition} {steps : List (Action × Outcome)}

/-- The runs of a constructor are as many as the requests that they answer. -/
theorem invocations_eq_countP
    (h : List.Forall₂ (AnsweredBy history) (steps.filter (·.2.accepted)) s.invoked) {number : Nat}
    {P : Action × Outcome → Prop} [DecidablePred P]
    (hiff : ∀ step run, AnsweredBy history step run → (P step ↔ run.number = number)) :
    s.invocations number = (steps.filter (·.2.accepted)).countP (P ·) := by
  -- a request is counted exactly if the run that answers it is
  have hmatch := List.rel_filter (p := fun step => decide (P step))
    (q := fun run => decide (run.number = number)) (fun step run hanswered => by
      simpa only [decide_eq_true_iff] using hiff step run hanswered) h
  rw [invocations, List.countP_eq_length_filter, List.countP_eq_length_filter, hmatch.length_eq]

/-- The runs of the constructor of the last addition under a key are the accepted requests under
it. -/
theorem invocations_of_lastAdded
    (h : List.Forall₂ (AnsweredBy history) (steps.filter (·.2.accepted)) s.invoked)
    {family : Family} {strategy : Strategy} {target : Target} {a : Addition} {number : Nat}
    (hlast : LastAdded family strategy target history a number) :
    s.invocations number = acceptedRequests (family, strategy, target) steps := by
  rw [invocations_eq_countP h fun step run hanswered => hanswered.number_eq_iff hlast,
    List.countP_filter, acceptedRequests]
  -- a request that is accepted under the key is accepted
  refine List.countP_congr fun step _ => ?_
  rw [Bool.and_eq_true, and_iff_left_iff_imp, decide_eq_true_iff]
  exact fun hunder => hunder.2

theorem invocations_of_overridden
    (h : List.Forall₂ (AnsweredBy history) (steps.filter (·.2.accepted)) s.invoked)
    {a : Addition} {number : Nat} (ha : history[number]? = some a)
    (hoverridden : ¬LastAdded a.family a.key.1 a.key.2 history a number) :
    s.invocations number = 0 := by
  -- no request is answered by it, so the requests to be counted are none
  have hnone : ∀ step run, AnsweredBy history step run → (False ↔ run.number = number) := by
    intro step run hanswered
    exact (iff_false_intro (hanswered.number_ne ha hoverridden)).symm
  rw [invocations_eq_countP h hnone, List.countP_eq_zero]
  simp

end Session

/-- **A constructor is run once for every accepted request under its key, and never otherwise.** In
every registry, after the first `n` of any actions: the constructors that have been run answer the
accepted requests, one by one and in their order, each with what it makes of the job. So the
constructor of the last addition under a key has been run as often as a request under the key has
been accepted, and that of an addition that was overridden has never been run. From there on, an
action that is no request or is not accepted runs no constructor; every key resolves as in the
beginning, and every request is answered by what the registry answered in the beginning. -/
theorem constructors_run_once_per_request (start : Start) (additions : List Addition)
    (actions : List Action) (n : Nat) :
    let registry := start.registry additions
    let history := start.additions ++ additions
    let outcomes := ((Session.start registry).run actions).2
    let reached := ((Session.start registry).run (actions.take n)).1
    List.Forall₂ (Session.AnsweredBy history)
      (((actions.zip outcomes).take n).filter (·.2.accepted)) reached.invoked ∧
    (∀ family strategy target a number, LastAdded family strategy target history a number →
      reached.invocations number =
        Session.acceptedRequests (family, strategy, target) ((actions.zip outcomes).take n)) ∧
    (∀ number a, history[number]? = some a →
      ¬LastAdded a.family a.key.1 a.key.2 history a number → reached.invocations number = 0) ∧
    (∀ action, action.request? = none ∨ (reached.step action).accepted = false →
      (reached.step action).session.invoked = reached.invoked) ∧
    reached.registry = registry ∧
    (∀ family selector, (reached.step (.resolve family selector)).reply =
      ((Session.start registry).step (.resolve family selector)).reply) ∧
    ∀ action job selector, action.request? = some (job, selector) →
      (reached.step action).reply =
        match (registry.request selector job).value with
        | .error fault => .error (.error (.request fault))
        | .ok made => .ok (.vectorizer reached.vectorizers.length made) := by
  intro registry history outcomes reached
  have hregistry : reached.registry = registry := Session.run_registry _ _
  have hanswered : List.Forall₂ (Session.AnsweredBy history)
      (((actions.zip outcomes).take n).filter (·.2.accepted)) reached.invoked := by
    obtain ⟨runs, hinvoked, hruns⟩ :=
      Session.run_invoked (s := .start registry) rfl (actions.take n)
    -- nothing has been run when the session starts
    have hnil : (Session.start registry).invoked = [] := rfl
    rw [hnil, List.nil_append] at hinvoked
    rw [Session.take_zip_run, hinvoked]
    exact hruns
  refine ⟨hanswered, ?_, ?_, ?_, hregistry, ?_, ?_⟩
  · intro family strategy target a number hlast
    exact Session.invocations_of_lastAdded hanswered hlast
  · intro number a ha hoverridden
    exact Session.invocations_of_overridden hanswered ha hoverridden
  · intro action h
    rcases h with hnone | hrefused
    · exact reached.invoked_of_no_request hnone
    · exact Session.invoked_of_not_accepted hregistry hrefused
  · intro family selector
    simp only [Session.step, Session.answer, hregistry]
    rfl
  · intro action job selector hrequest
    rw [← hregistry]
    exact reached.reply_of_request hrequest

/-- Two additions under one key. Of six actions one is an accepted request under it, by names; the
others are a query, a request by key that is refused, one with a name that no strategy has, a build
and a call. Only the second constructor has been run, once, on the function of the request. -/
theorem constructors_run_once_per_request_after_override :
    let reached := ((Session.start (Start.registry .empty
        [.elementwise .closure .cpu .serialTreeWalk (.mk ⟨.serialTreeWalk, .treeWalk, .serial⟩),
         .elementwise .closure .cpu .serialClosure (.mk ⟨.serialClosure, .closure, .serial⟩)])).run
      [.resolve .elementwise (.key .closure .cpu),
       .vectorize ⟨"f", 1, .arg 0, rfl⟩ (.names "ast" "cpu"),
       .vectorize ⟨"f", 1, .arg 0, rfl⟩ (.key .closure .stream),
       .vectorize ⟨"f", 1, .arg 0, rfl⟩ (.names "llvm" "cpu"), .build 0, .call 0 [#[2.0]]]).1
    reached.invocations 0 = 0 ∧ reached.invocations 1 = 1 ∧
      reached.invoked =
        [⟨1, .elementwise ⟨⟨.serialClosure, .closure, .serial⟩, "f", 1, .arg 0, rfl⟩⟩] := by
  obtain ⟨-, hlast, hoverridden, -⟩ := constructors_run_once_per_request .empty
    [.elementwise .closure .cpu .serialTreeWalk (.mk ⟨.serialTreeWalk, .treeWalk, .serial⟩),
     .elementwise .closure .cpu .serialClosure (.mk ⟨.serialClosure, .closure, .serial⟩)]
    [.resolve .elementwise (.key .closure .cpu),
     .vectorize ⟨"f", 1, .arg 0, rfl⟩ (.names "ast" "cpu"),
     .vectorize ⟨"f", 1, .arg 0, rfl⟩ (.key .closure .stream),
     .vectorize ⟨"f", 1, .arg 0, rfl⟩ (.names "llvm" "cpu"), .build 0, .call 0 [#[2.0]]] 6
  have hsecond : LastAdded .elementwise .closure .cpu
      [.elementwise .closure .cpu .serialTreeWalk (.mk ⟨.serialTreeWalk, .treeWalk, .serial⟩),
       .elementwise .closure .cpu .serialClosure (.mk ⟨.serialClosure, .closure, .serial⟩)]
      (.elementwise .closure .cpu .serialClosure (.mk ⟨.serialClosure, .closure, .serial⟩)) 1 :=
    ⟨[_], [], rfl, rfl, ⟨rfl, rfl⟩, by simp⟩
  refine ⟨hoverridden 0 _ rfl fun hfirst => ?_, (hlast _ _ _ _ 1 hsecond).trans (by rfl), by rfl⟩
  cases hfirst.number_unique hsecond

end ArrayKernels
