import ArrayKernels.Proofs.CoreCalls
import ArrayKernels.Proofs.ElementwiseCalls
import ArrayKernels.Proofs.SessionRuns
import Mathlib.Data.Finset.Card

/-!
# Events of a session

Every event of a session can be told beforehand from the registry, from what has been built and from
the action. Opening a session warns once if there is no device, and then counts the keys of the
registry. A request is reported if it is accepted, a build if it succeeds, and a call as soon as its
arguments fit. Nothing else emits an event, and no event after the opening is a warning.

## Layers

- **Keys**: the size of a table is the number of its keys.
- **Operations**: when a request, a build or a call emits an event, and which one.
- **Sessions**: core functions in a session have been lowered against their signatures.

## Main results

- `Table.Records.size_eq`: a table has one value for each key of its history.
- `Session.step_traced`: the events of one step.
- `session_trace`: the events of a session, from the opening on.
-/

namespace ArrayKernels

/-! ## Keys -/

theorem Ranked.lookup_eq_some_iff {κ α : Type} [DecidableEq κ] {rank : κ → Nat}
    {entries : List (κ × α)} (h : Ranked rank entries) {key : κ} {value : α} :
    entries.lookup key = some value ↔ (key, value) ∈ entries := by
  induction entries with
  | nil => simp
  | cons first rest ih =>
    obtain ⟨k, v⟩ := first
    obtain ⟨hfirst, hrest⟩ := List.pairwise_cons.mp h
    rw [List.lookup_cons, List.mem_cons]
    by_cases hkey : key = k
    · -- the key does not occur again in the rest
      subst hkey
      have hnone : (key, value) ∉ rest := fun hmem => Nat.lt_irrefl _ (hfirst (key, value) hmem)
      simp [hnone, eq_comm]
    · have hne : (key == k) = false := beq_eq_false_iff_ne.mpr hkey
      simp only [hne, ih hrest, Prod.mk.injEq, hkey, false_and, false_or]

namespace Table

variable {α : Type} {t : Table α} {strategy : Strategy} {target : Target}

theorem length_keys (t : Table α) : t.keys.length = t.size := by
  simp [keys, size, List.length_flatMap]

theorem Ordered.mem_keys_iff (h : t.Ordered) :
    (strategy, target) ∈ t.keys ↔ (t.value? strategy target).isSome = true := by
  simp only [keys, List.mem_flatMap, List.mem_map, Option.isSome_iff_exists, value?, Table.row]
  constructor
  · rintro ⟨⟨strategy', row⟩, hrow, ⟨target', value⟩, hvalue, heq⟩
    cases heq
    refine ⟨value, ?_⟩
    rw [h.strategies.lookup_eq_some_iff.mpr hrow]
    exact (h.targets _ hrow).lookup_eq_some_iff.mpr hvalue
  · rintro ⟨value, hvalue⟩
    cases hrow : t.lookup strategy with
    | none =>
      rw [hrow] at hvalue
      cases hvalue
    | some row =>
      rw [hrow] at hvalue
      have hmem := h.strategies.lookup_eq_some_iff.mp hrow
      exact ⟨_, hmem, _, (h.targets _ hmem).lookup_eq_some_iff.mp hvalue, rfl⟩

/-- No key occurs twice. -/
theorem Ordered.nodup_keys (h : t.Ordered) : t.keys.Nodup := by
  refine List.nodup_flatMap.mpr ⟨fun entry hentry => ?_, h.strategies.imp fun {a b} hlt => ?_⟩
  · refine List.pairwise_map.mpr ((h.targets entry hentry).imp fun {a b} hlt heq => ?_)
    rw [(Prod.mk.injEq ..).mp heq |>.2] at hlt
    exact Nat.lt_irrefl _ hlt
  · -- two rows belong to different strategies
    rintro key hfirst hsecond
    obtain ⟨_, -, rfl⟩ := List.mem_map.mp hfirst
    obtain ⟨_, -, heq⟩ := List.mem_map.mp hsecond
    rw [(Prod.mk.injEq ..).mp heq |>.1] at hlt
    exact Nat.lt_irrefl _ hlt

end Table

/-- The keys under which entries of a family have been added. -/
def Addition.keys (family : Family) (history : List Addition) : Finset (Strategy × Target) :=
  ((history.filter (·.family = family)).map Addition.key).toFinset

theorem Addition.mem_keys_iff {family : Family} {history : List Addition} {strategy : Strategy}
    {target : Target} :
    (strategy, target) ∈ keys family history ↔ ∃ a ∈ history, a.Under family strategy target := by
  simp [keys, Under, and_assoc]

/-- **A table has one value for each key of its history.** -/
theorem Table.Records.size_eq {κ : Type} {brings? : Addition → Nat → Option (Entry κ)}
    {history : List Addition} {t : Table (Entry κ)} {family : Family}
    (h : t.Records brings? history)
    (hfamily : ∀ a number, (brings? a number).isSome = true ↔ a.family = family) :
    t.size = (Addition.keys family history).card := by
  rw [← t.length_keys, ← List.toFinset_card_of_nodup h.ordered.nodup_keys]
  congr 1
  ext ⟨strategy, target⟩
  rw [List.mem_toFinset, h.ordered.mem_keys_iff, h.value?_isSome_iff hfamily,
    Addition.mem_keys_iff]

/-! ## Opening -/

namespace Start

/-- The builder that is started from, with the events on the way. -/
def logged : Start → Logged Builder
  | empty => .silent .empty
  | standard workers settings reason => Builder.standard workers settings reason

/-- The registry that a start and more additions lead to, with the events on the way. -/
def opened (start : Start) (additions : List Addition) : Logged Registry :=
  start.logged.andThen fun builder => (builder.addAll additions).build

/-- The warning that the gpu target runs on the cpu, with the reason. -/
def warnings : Start → List Event
  | empty => []
  | standard _ _ reason =>
    [⟨.warn, registryOrigin, "GPU support unavailable, gpu target falls back to cpu vectorizers",
      [("reason", reason.message)]⟩]

/-- The event of a registry that has been built, with the numbers of its keys. -/
def built (start : Start) (additions : List Addition) : Event :=
  ⟨.debug, registryOrigin, "Built vectorizer registry",
    [("vectorizers",
        toString (Addition.keys .elementwise (start.additions ++ additions)).card),
     ("gu_vectorizers", toString (Addition.keys .core (start.additions ++ additions)).card),
     ("gpu", "false")]⟩

theorem opened_value (start : Start) (additions : List Addition) :
    (start.opened additions).value = start.registry additions := by
  cases start <;> rfl

theorem opened_events (start : Start) (additions : List Addition) :
    (start.opened additions).events = start.warnings ++ [start.built additions] := by
  have hrecords := start.records.addAll additions
  rw [built, ← hrecords.elementwise.size_eq brings?_isSome_iff,
    ← hrecords.core.size_eq bringsCore?_isSome_iff]
  cases start <;> rfl

end Start

/-! ## Requests -/

/-- The event of an accepted request under a key that resolves to the kind. -/
def Job.event (strategy : Strategy) (target : Target) (kind : Kind) : Job → Event
  | elementwise function =>
    ⟨.debug, registryOrigin, "Constructing vectorizer",
      [("strategy", strategy.name), ("target", target.name), ("kind", kind.name),
       ("name", function.name)]⟩
  | core function signature =>
    ⟨.debug, registryOrigin, "Constructing gufunc vectorizer",
      [("strategy", strategy.name), ("target", target.name), ("kind", kind.name),
       ("name", function.name), ("signature", signature.render)]⟩

/-- The answer to a request is either a vectorizer, with one event that names the key and what it
resolves to, or an error without events. -/
def Registry.Reports (r : Registry) (selector : Selector) (job : Job) {α : Type}
    (answer : Logged (Except RequestError α)) : Prop :=
  (∃ made strategy target kind, answer.value = .ok made ∧
    selector.resolve = .ok (strategy, target) ∧
    r.resolve job.family (.key strategy target) = .ok kind ∧
    answer.events = [job.event strategy target kind]) ∨
  ∃ fault, answer.value = .error fault ∧ answer.events = []

namespace Registry

variable {r : Registry} {strategy : Strategy} {target : Target}

theorem resolve_elementwise {entry : Entry Constructor}
    (h : r.elementwise.find strategy target = .ok entry) :
    r.resolve .elementwise (.key strategy target) = .ok entry.label := by
  show (r.elementwise.mapValues Entry.label).find strategy target = _
  rw [Table.find_mapValues, h]
  rfl

theorem resolve_core {entry : Entry CoreConstructor}
    (h : r.core.find strategy target = .ok entry) :
    r.resolve .core (.key strategy target) = .ok entry.label := by
  show (r.core.mapValues Entry.label).find strategy target = _
  rw [Table.find_mapValues, h]
  rfl

theorem reports_vectorize (r : Registry) (function : ScalarFunction) (selector : Selector) :
    r.Reports selector (.elementwise function) (r.vectorize function selector).toLogged := by
  unfold vectorize
  split
  · exact .inr ⟨_, rfl, rfl⟩
  · next hresolve =>
    split
    · exact .inr ⟨_, rfl, rfl⟩
    · next hfind => exact .inl ⟨_, _, _, _, rfl, hresolve, resolve_elementwise hfind, rfl⟩

theorem reports_vectorizeCore (r : Registry) (function : CoreFunction) (signature : Signature)
    (selector : Selector) :
    r.Reports selector (.core function signature)
      (r.vectorizeCore function signature selector).toLogged := by
  unfold vectorizeCore
  split
  · exact .inr ⟨_, rfl, rfl⟩
  · next hresolve =>
    split
    · exact .inr ⟨_, rfl, rfl⟩
    · next hfind => exact .inl ⟨_, _, _, _, rfl, hresolve, resolve_core hfind, rfl⟩

theorem Reports.mapOk {α β : Type} {selector : Selector} {job : Job}
    {answer : Logged (Except RequestError α)} (h : r.Reports selector job answer) (f : α → β) :
    r.Reports selector job (answer.mapOk f) := by
  rcases h with ⟨made, strategy, target, kind, hvalue, hkey⟩ | ⟨fault, hvalue, hevents⟩
  · exact .inl ⟨f made, strategy, target, kind, by rw [Logged.mapOk, hvalue]; rfl, hkey⟩
  · exact .inr ⟨fault, by rw [Logged.mapOk, hvalue]; rfl, hevents⟩

end Registry

/-! ## Builds and calls -/

/-- The event of a function that has been built. -/
def AnyUfunc.built : AnyUfunc → Event
  | elementwise u =>
    ⟨.debug, callOrigin, "Built ufunc",
      [("kind", u.kind.name), ("name", u.name), ("arity", toString u.arity)]⟩
  | core u =>
    ⟨.debug, callOrigin, "Built gufunc",
      [("kind", u.kind.name), ("name", u.name), ("signature", u.signature.render)]⟩

/-- The event of a call with that many rows. -/
def Ufunc.called (u : Ufunc) (len : Nat) : Event :=
  ⟨.trace, callOrigin, "Calling ufunc",
    [("kind", u.kind.name), ("name", u.name), ("len", toString len)]⟩

/-- The event of a call with that many iterations. -/
def CoreUfunc.called (u : CoreUfunc) (loops : Nat) : Event :=
  ⟨.trace, callOrigin, "Calling gufunc",
    [("kind", u.kind.name), ("name", u.name), ("loops", toString loops)]⟩

/-- A build emits one event exactly if it gives a function. -/
theorem AnyVectorizer.build_cases (v : AnyVectorizer) :
    (∃ u, v.build.value = .ok u ∧ v.build.events = [u.built]) ∨
    ∃ fault, v.build.value = .error fault ∧ v.build.events = [] := by
  cases v with
  | elementwise v =>
    simp only [build, Vectorizer.build]
    split
    · exact .inr ⟨_, rfl, rfl⟩
    · exact .inl ⟨_, rfl, rfl⟩
  | core v =>
    simp only [build, CoreVectorizer.build]
    split
    · exact .inr ⟨_, rfl, rfl⟩
    · exact .inl ⟨_, rfl, rfl⟩

/-- A call emits one event if there are as many columns as arguments and their lengths agree. -/
theorem Ufunc.call_events {u : Ufunc} {columns : List Column} (harity : columns.length = u.arity)
    (hagree : ¬∃ index len expected, LengthConflict columns index len expected) :
    (u.call columns).events = [u.called ((firstLength columns).getD 1)] := by
  rcases rowCount_spec columns with ⟨n, hcount, rfl, -⟩ | ⟨index, len, expected, -, hconflict⟩
  · have hrows : u.rows columns = .ok ((firstLength columns).getD 1) := by
      rw [rows, if_pos harity, hcount]
    simp only [call, hrows, called]
  · exact absurd ⟨index, len, expected, hconflict⟩ hagree

/-- A call whose columns are not as many as the arguments, or do not agree in length, emits none. -/
theorem Ufunc.call_events_of_refused {u : Ufunc} {columns : List Column}
    (h : columns.length = u.arity → ∃ index len expected,
      LengthConflict columns index len expected) :
    (u.call columns).events = [] := by
  have hrows : ∃ fault, u.rows columns = .error fault := by
    by_cases harity : columns.length = u.arity
    · obtain ⟨index, len, expected, hconflict⟩ := h harity
      rw [rows, if_pos harity]
      rcases rowCount_spec columns with ⟨n, -, hn, hagree⟩ | ⟨_, _, _, hcount, -⟩
      · exact absurd hagree (hconflict.not_agree hn)
      · exact ⟨_, hcount⟩
    · exact ⟨_, if_neg harity⟩
  obtain ⟨fault, hrows⟩ := hrows
  simp only [call, hrows, Logged.silent]

theorem CoreUfunc.call_events {u : CoreUfunc} {inputs : List NdArray} {call : BoundCall}
    {shape : Shape} (h : u.program.bind inputs = .ok (call, shape)) :
    (u.call inputs).events = [u.called call.loopCount] := by
  simp only [CoreUfunc.call, h, called]

theorem CoreUfunc.call_events_of_refused {u : CoreUfunc} {inputs : List NdArray}
    {fault : CallError} (h : u.program.bind inputs = .error fault) :
    (u.call inputs).events = [] := by
  simp only [call, h, Logged.silent]

/-! ## Core functions in a session -/

/-- The program has been lowered against the signature. -/
def CoreUfunc.Lowered (u : CoreUfunc) : Prop :=
  ∃ f : CoreFunction, f.lower u.signature = .ok u.program

theorem Logged.mapOk_eq_ok_iff {ε α β : Type} {f : α → β} {l : Logged (Except ε α)} {y : β} :
    (l.mapOk f).value = .ok y ↔ ∃ x, l.value = .ok x ∧ f x = y := by
  rw [mapOk]
  cases l.value with
  | error fault =>
    constructor
    · rintro ⟨⟩
    · rintro ⟨_, ⟨⟩, -⟩
  | ok x =>
    constructor
    · intro h
      exact ⟨x, rfl, Except.ok.inj h⟩
    · rintro ⟨_, ⟨⟩, rfl⟩
      rfl

theorem AnyVectorizer.lowered_of_build {v : AnyVectorizer} {u : CoreUfunc}
    (h : v.build.value = .ok (.core u)) : u.Lowered := by
  cases v with
  | elementwise v =>
    obtain ⟨_, -, heq⟩ := Logged.mapOk_eq_ok_iff.mp h
    cases heq
  | core v =>
    obtain ⟨_, hbuild, heq⟩ := Logged.mapOk_eq_ok_iff.mp h
    cases heq
    unfold CoreVectorizer.build at hbuild
    split at hbuild
    · cases hbuild
    · next hufunc =>
      cases hbuild
      obtain ⟨p, hp, heq⟩ := bind_eq_ok_iff.mp hufunc
      cases heq
      exact ⟨v.function, hp⟩

/-- The iterations of a bound call are the elements of its loop shape. -/
theorem CoreUfunc.Lowered.loopCount_eq {u : CoreUfunc} (h : u.Lowered) {inputs : List NdArray}
    {call : BoundCall} {shape : Shape} (hbind : u.program.bind inputs = .ok (call, shape)) :
    call.loopCount = (elementCount (u.signature.loopShape inputs)).getD 0 := by
  obtain ⟨f, hf⟩ := h
  have hlowers := CoreFunction.lowers_of_lower hf
  rw [(hlowers.binds_of_bind hbind).loopCount, Program.loopShape, hlowers.coreRanks_eq]
  rfl

namespace Session

theorem keepUfunc_of_ok (s : Session) {l : Logged (Except Error AnyUfunc)} {u : AnyUfunc}
    (h : l.value = .ok u) :
    s.keepUfunc l =
      ⟨{ s with ufuncs := s.ufuncs ++ [u] }, .ok (.ufunc s.ufuncs.length u), l.events⟩ := by
  obtain ⟨_, events⟩ := l
  cases h
  rfl

theorem keepUfunc_of_error (s : Session) {l : Logged (Except Error AnyUfunc)} {fault : Error}
    (h : l.value = .error fault) : s.keepUfunc l = ⟨s, .error (.error fault), l.events⟩ := by
  obtain ⟨_, events⟩ := l
  cases h
  rfl

/-- What has been built for core functions has been lowered against its signature. -/
def Lowered (s : Session) : Prop := ∀ u, AnyUfunc.core u ∈ s.ufuncs → u.Lowered

theorem lowered_start (registry : Registry) : (start registry).Lowered :=
  fun _ hmem => absurd hmem List.not_mem_nil

/-- A step keeps the functions that have been built, and adds at most what a vectorizer builds. -/
theorem step_ufuncs (s : Session) (action : Action) :
    (s.step action).session.ufuncs = s.ufuncs ∨
    ∃ (v : AnyVectorizer) (u : AnyUfunc), v.build.value = .ok u ∧
      (s.step action).session.ufuncs = s.ufuncs ++ [u] := by
  cases action with
  | build position =>
    simp only [step]
    cases s.vectorizers[position]? with
    | none => exact .inl rfl
    | some made =>
      rcases made.build_cases with ⟨u, hvalue, -⟩ | ⟨fault, hvalue, -⟩
      · exact .inr ⟨made, u, hvalue, by simp only [s.keepUfunc_of_ok hvalue]⟩
      · exact .inl (by simp only [s.keepUfunc_of_error hvalue])
  | vectorize function selector => exact .inl (s.keepVectorizer_keeps _).2
  | vectorizeCore function signature selector => exact .inl (s.keepVectorizer_keeps _).2
  | call position columns =>
    simp only [step]
    split <;> exact .inl rfl
  | callCore position inputs =>
    simp only [step]
    split <;> exact .inl rfl
  | strategies | targets | resolve | device | describe => exact .inl rfl

theorem Lowered.step {s : Session} (hs : s.Lowered) (action : Action) :
    (s.step action).session.Lowered := by
  intro u hmem
  rcases s.step_ufuncs action with hkept | ⟨v, built, hbuild, hadded⟩
  · exact hs u (hkept ▸ hmem)
  · rw [hadded] at hmem
    rcases List.mem_append.mp hmem with hold | hnew
    · exact hs u hold
    · obtain rfl := List.mem_singleton.mp hnew
      exact AnyVectorizer.lowered_of_build hbuild

/-! ## Steps -/

/-- A request is reported with its key and what the key resolves to, exactly if it is accepted. -/
def RequestTraced (s : Session) (job : Job) (selector : Selector) (o : Outcome) : Prop :=
  (o.accepted = true ∧ ∃ strategy target kind, selector.resolve = .ok (strategy, target) ∧
    s.registry.resolve job.family (.key strategy target) = .ok kind ∧
    o.events = [job.event strategy target kind]) ∨
  (o.accepted = false ∧ (∃ fault, o.reply = .error fault) ∧ o.events = [])

/-- A build is reported exactly if it gives a function. -/
def BuildTraced (s : Session) (position : Nat) (o : Outcome) : Prop :=
  (∃ made u, s.vectorizers[position]? = some made ∧ made.build.value = .ok u ∧
    o.reply = .ok (.ufunc s.ufuncs.length u) ∧ o.events = [u.built]) ∨
  ((∃ fault, o.reply = .error fault) ∧ o.events = [])

/-- A call of an elementwise function is reported with the number of rows, exactly if there are as
many columns as arguments and their lengths agree. -/
structure CallTraced (s : Session) (position : Nat) (columns : List Column)
    (events : List Event) : Prop where
  fits : ∀ u, s.ufuncs[position]? = some (.elementwise u) → columns.length = u.arity →
    (¬∃ index len expected, LengthConflict columns index len expected) →
    events = [u.called ((firstLength columns).getD 1)]
  refused : ∀ u, s.ufuncs[position]? = some (.elementwise u) →
    (columns.length = u.arity →
      ∃ index len expected, LengthConflict columns index len expected) →
    events = []
  noFunction : (∀ u, s.ufuncs[position]? ≠ some (.elementwise u)) → events = []

/-- A call of a core function is reported with the number of elements of its loop shape, exactly if
its inputs can be bound. -/
structure CoreCallTraced (s : Session) (position : Nat) (inputs : List NdArray)
    (events : List Event) : Prop where
  bound : ∀ u call shape, s.ufuncs[position]? = some (.core u) →
    u.program.bind inputs = .ok (call, shape) →
    events = [u.called call.loopCount] ∧
      call.loopCount = (elementCount (u.signature.loopShape inputs)).getD 0
  refused : ∀ u fault, s.ufuncs[position]? = some (.core u) →
    u.program.bind inputs = .error fault → events = []
  noFunction : (∀ u, s.ufuncs[position]? ≠ some (.core u)) → events = []

/-- The events of an action, told from what the session holds. -/
def Traced (s : Session) (o : Outcome) : Action → Prop
  | .vectorize function selector => s.RequestTraced (.elementwise function) selector o
  | .vectorizeCore function signature selector =>
    s.RequestTraced (.core function signature) selector o
  | .build position => s.BuildTraced position o
  | .call position columns => s.CallTraced position columns o.events
  | .callCore position inputs => s.CoreCallTraced position inputs o.events
  | .strategies _ | .targets _ _ | .resolve _ _ | .device | .describe _ => o.events = []

theorem requestTraced_keepVectorizer (s : Session) {job : Job} {selector : Selector}
    {answer : Requested AnyVectorizer} (h : s.registry.Reports selector job answer.toLogged) :
    s.RequestTraced job selector (s.keepVectorizer answer) := by
  obtain ⟨⟨_, events⟩, invocations⟩ := answer
  rcases h with ⟨made, strategy, target, kind, ⟨⟩, hresolve, hkind, ⟨⟩⟩ | ⟨fault, ⟨⟩, ⟨⟩⟩
  · exact .inl ⟨rfl, strategy, target, kind, hresolve, hkind, rfl⟩
  · exact .inr ⟨rfl, ⟨_, rfl⟩, rfl⟩

theorem buildTraced_step (s : Session) (position : Nat) :
    s.BuildTraced position (s.step (.build position)) := by
  simp only [step]
  cases hmade : s.vectorizers[position]? with
  | none => exact .inr ⟨⟨_, rfl⟩, rfl⟩
  | some made =>
    rcases made.build_cases with ⟨u, hvalue, hevents⟩ | ⟨fault, hvalue, hevents⟩
    · simp only [s.keepUfunc_of_ok hvalue]
      exact .inl ⟨made, u, hmade, hvalue, rfl, hevents⟩
    · simp only [s.keepUfunc_of_error hvalue]
      exact .inr ⟨⟨_, rfl⟩, hevents⟩

theorem callTraced_step (s : Session) (position : Nat) (columns : List Column) :
    s.CallTraced position columns (s.step (.call position columns)).events := by
  have hevents : ∀ u, s.ufuncs[position]? = some (.elementwise u) →
      (s.step (.call position columns)).events = (u.call columns).events := by
    intro u hu
    simp only [step, hu, finish]
  refine ⟨fun u hu harity hagree => ?_, fun u hu hrefused => ?_, fun hnone => ?_⟩
  · rw [hevents u hu, u.call_events harity hagree]
  · rw [hevents u hu, u.call_events_of_refused hrefused]
  · -- with nothing of the right family there, the last case of the step applies
    simp only [step]

theorem coreCallTraced_step {s : Session} (hs : s.Lowered) (position : Nat)
    (inputs : List NdArray) :
    s.CoreCallTraced position inputs (s.step (.callCore position inputs)).events := by
  have hevents : ∀ u, s.ufuncs[position]? = some (.core u) →
      (s.step (.callCore position inputs)).events = (u.call inputs).events := by
    intro u hu
    simp only [step, hu, finish]
  refine ⟨fun u call shape hu hbind => ?_, fun u fault hu hbind => ?_, fun hnone => ?_⟩
  · rw [hevents u hu, u.call_events hbind]
    exact ⟨rfl, (hs u (List.mem_of_getElem? hu)).loopCount_eq hbind⟩
  · rw [hevents u hu, u.call_events_of_refused hbind]
  · -- with nothing of the right family there, the last case of the step applies
    simp only [step]

/-- **The events of one step.** -/
theorem step_traced {s : Session} (hs : s.Lowered) (action : Action) :
    s.Traced (s.step action) action := by
  cases action with
  | vectorize function selector =>
    exact s.requestTraced_keepVectorizer
      ((s.registry.reports_vectorize function selector).mapOk _)
  | vectorizeCore function signature selector =>
    exact s.requestTraced_keepVectorizer
      ((s.registry.reports_vectorizeCore function signature selector).mapOk _)
  | build position => exact s.buildTraced_step position
  | call position columns => exact s.callTraced_step position columns
  | callCore position inputs => exact coreCallTraced_step hs position inputs
  | strategies | targets | resolve | device | describe => exact rfl

/-- No action warns. -/
theorem Traced.level_ne_warn {s : Session} {o : Outcome} {action : Action}
    (h : s.Traced o action) : ∀ event ∈ o.events, event.level ≠ .warn := by
  have hsilent : o.events = [] → ∀ event ∈ o.events, event.level ≠ .warn := by
    intro hnil event hmem
    rw [hnil] at hmem
    cases hmem
  have hsingle : ∀ e : Event, e.level ≠ .warn → o.events = [e] →
      ∀ event ∈ o.events, event.level ≠ .warn := by
    intro e he hevents event hmem
    rw [hevents, List.mem_singleton] at hmem
    rwa [hmem]
  cases action with
  | vectorize function selector =>
    rcases h with ⟨-, _, _, _, -, -, hevents⟩ | ⟨-, -, hevents⟩
    · exact hsingle _ (fun hwarn => by cases hwarn) hevents
    · exact hsilent hevents
  | vectorizeCore function signature selector =>
    rcases h with ⟨-, _, _, _, -, -, hevents⟩ | ⟨-, -, hevents⟩
    · exact hsingle _ (fun hwarn => by cases hwarn) hevents
    · exact hsilent hevents
  | build position =>
    rcases h with ⟨_, u, -, -, -, hevents⟩ | ⟨-, hevents⟩
    · exact hsingle _ (fun hwarn => by cases u <;> cases hwarn) hevents
    · exact hsilent hevents
  | call position columns =>
    by_cases hfunction : ∃ u, s.ufuncs[position]? = some (.elementwise u)
    · obtain ⟨u, hu⟩ := hfunction
      by_cases hrefused : columns.length = u.arity →
          ∃ index len expected, LengthConflict columns index len expected
      · exact hsilent (h.refused u hu hrefused)
      · obtain ⟨harity, hagree⟩ := Classical.not_imp.mp hrefused
        exact hsingle _ (fun hwarn => by cases hwarn) (h.fits u hu harity hagree)
    · exact hsilent (h.noFunction (not_exists.mp hfunction))
  | callCore position inputs =>
    by_cases hfunction : ∃ u, s.ufuncs[position]? = some (.core u)
    · obtain ⟨u, hu⟩ := hfunction
      cases hbind : u.program.bind inputs with
      | error fault => exact hsilent (h.refused u fault hu hbind)
      | ok bound =>
        exact hsingle _ (fun hwarn => by cases hwarn) (h.bound u bound.1 bound.2 hu hbind).1
    · exact hsilent (h.noFunction (not_exists.mp hfunction))
  | strategies | targets | resolve | device | describe => exact hsilent h

/-! ## Runs -/

theorem Lowered.run {s : Session} (hs : s.Lowered) (actions : List Action) :
    (s.run actions).1.Lowered :=
  run_invariant (fun _ action ht => ht.step action) hs actions

theorem run_level_ne_warn {s : Session} (hs : s.Lowered) (actions : List Action) :
    ∀ event ∈ (s.run actions).2.flatMap Outcome.events, event.level ≠ .warn := by
  induction actions generalizing s with
  | nil => exact fun event hmem => absurd hmem List.not_mem_nil
  | cons action actions ih =>
    rw [run_cons, List.flatMap_cons]
    exact List.forall_mem_append.mpr
      ⟨(step_traced hs action).level_ne_warn, ih (hs.step action)⟩

end Session

/-- **The events of a session are determined step by step.** From no entries or from the standard
ones without a device, after any additions and for all actions: opening the session gives the
registry of its history, warns with the reason if the standard entries are without a device, and
counts the keys of both families; the events of every action are told from what the session holds
when it comes to it; and there is no other warning. -/
theorem session_trace (start : Start) (additions : List Addition) (actions : List Action) :
    let opened := start.opened additions
    let outcomes := ((Session.start opened.value).run actions).2
    opened.value = start.registry additions ∧
    opened.events = start.warnings ++ [start.built additions] ∧
    (∀ n action, actions[n]? = some action → ∃ outcome, outcomes[n]? = some outcome ∧
      ((Session.start opened.value).run (actions.take n)).1.Traced outcome action) ∧
    (opened.events ++ outcomes.flatMap Outcome.events).filter (·.level = .warn) =
      start.warnings := by
  intro opened outcomes
  have hevents : opened.events = start.warnings ++ [start.built additions] :=
    start.opened_events additions
  have hlowered := Session.lowered_start opened.value
  refine ⟨start.opened_value additions, hevents, fun n action haction => ?_, ?_⟩
  · refine ⟨_, ?_, Session.step_traced (hlowered.run (actions.take n)) action⟩
    rw [Session.getElem?_run, haction, Option.map_some]
  · have hnone : (outcomes.flatMap Outcome.events).filter (·.level = .warn) = [] := by
      rw [List.filter_eq_nil_iff]
      intro event hmem
      simpa using Session.run_level_ne_warn hlowered actions event hmem
    rw [List.filter_append, hnone, hevents, List.append_nil, List.filter_append]
    cases start <;> rfl

/-- The standard entries without a device and one that replaces the entry of a taken key: still nine
and three keys. Of six actions three emit an event each; a request by a name that no strategy has, a
query and a call without columns emit none. -/
theorem session_trace_without_device :
    let opened := (Start.standard 4 .standard .disabled).opened
      [.elementwise .closure .cpu .serialTreeWalk (.mk ⟨.serialTreeWalk, .treeWalk, .serial⟩)]
    let outcomes := ((Session.start opened.value).run
      [.vectorize ⟨"f", 1, .arg 0, rfl⟩ (.names "ast" "cpu"),
       .vectorize ⟨"f", 1, .arg 0, rfl⟩ (.names "llvm" "cpu"), .build 0,
       .resolve .core (.key .closure .gpu), .call 0 [#[2.0, 3.0]], .call 0 []]).2
    opened.events =
      [⟨.warn, registryOrigin, "GPU support unavailable, gpu target falls back to cpu vectorizers",
        [("reason", GpuError.disabled.message)]⟩,
       ⟨.debug, registryOrigin, "Built vectorizer registry",
        [("vectorizers", "9"), ("gu_vectorizers", "3"), ("gpu", "false")]⟩] ∧
    outcomes.map Outcome.events =
      [[⟨.debug, registryOrigin, "Constructing vectorizer",
          [("strategy", "ast"), ("target", "cpu"), ("kind", "MiniVectorize"), ("name", "f")]⟩],
       [],
       [⟨.debug, callOrigin, "Built ufunc",
          [("kind", "MiniVectorize"), ("name", "f"), ("arity", "1")]⟩],
       [],
       [⟨.trace, callOrigin, "Calling ufunc",
          [("kind", "MiniVectorize"), ("name", "f"), ("len", "2")]⟩],
       []] ∧
    ((opened.events ++ outcomes.flatMap Outcome.events).filter (·.level = .warn)).length = 1 := by
  intro opened outcomes
  obtain ⟨-, hopened, -, hwarnings⟩ := session_trace (.standard 4 .standard .disabled)
    [.elementwise .closure .cpu .serialTreeWalk (.mk ⟨.serialTreeWalk, .treeWalk, .serial⟩)]
    [.vectorize ⟨"f", 1, .arg 0, rfl⟩ (.names "ast" "cpu"),
     .vectorize ⟨"f", 1, .arg 0, rfl⟩ (.names "llvm" "cpu"), .build 0,
     .resolve .core (.key .closure .gpu), .call 0 [#[2.0, 3.0]], .call 0 []]
  refine ⟨hopened.trans ?_, rfl, congrArg List.length hwarnings⟩
  have helementwise : (Addition.keys .elementwise
      (Addition.standard 4 .standard ++ [.elementwise .closure .cpu .serialTreeWalk
        (.mk ⟨.serialTreeWalk, .treeWalk, .serial⟩)])).card = 9 := by decide
  have hcore : (Addition.keys .core
      (Addition.standard 4 .standard ++ [.elementwise .closure .cpu .serialTreeWalk
        (.mk ⟨.serialTreeWalk, .treeWalk, .serial⟩)])).card = 3 := by decide
  simp only [Start.built, Start.additions, helementwise, hcore]
  rfl

end ArrayKernels
