import ArrayKernels.Proofs.RegistryTables
import ArrayKernels.Session
import Mathlib.Data.List.Induction

/-!
# Registries and their history

A registry is the outcome of a sequence of additions, from no entries or from the standard ones. Of
the additions for a family under a key the last one counts. Here the tables of a builder are
compared with its history, one addition after the other, and then everything that can be asked of a
registry is read off the history: which constructor a request runs and what it makes, which label it
resolves to, which keys there are, and with which error a request for another key is refused.

## Layers

- **History**: what an addition is for, and the last one under a key.
- **Builders**: an addition to the builder is one to its history.
- **Requests**: what they run and make, in terms of the two tables.

## Main results

- `Builder.Records.addAll`: the tables of a builder hold the last additions.
- `registry_follows_history`: requests and queries agree with the history.
-/

namespace ArrayKernels

/-! ## History -/

namespace Addition

/-- The family whose entries the addition extends. -/
def family : Addition → Family
  | elementwise _ _ _ _ => .elementwise
  | core _ _ _ _ => .core

def key : Addition → Strategy × Target
  | elementwise strategy target _ _ => (strategy, target)
  | core strategy target _ _ => (strategy, target)

def label : Addition → Kind
  | elementwise _ _ label _ => label
  | core _ _ label _ => label

/-- The entry that an elementwise addition with that number brings. -/
def brings? : Addition → (number : Nat) → Option (Entry Constructor)
  | elementwise _ _ label construct, number => some ⟨label, .numbered number construct⟩
  | core _ _ _ _, _ => none

/-- The entry that a core addition with that number brings. -/
def bringsCore? : Addition → (number : Nat) → Option (Entry CoreConstructor)
  | elementwise _ _ _ _, _ => none
  | core _ _ label construct, number => some ⟨label, .numbered number construct⟩

/-- The addition is for the family, under the key. -/
def Under (family : Family) (strategy : Strategy) (target : Target) (a : Addition) : Prop :=
  a.family = family ∧ a.key = (strategy, target)

instance (family : Family) (strategy : Strategy) (target : Target) :
    DecidablePred (Under family strategy target) := fun a =>
  inferInstanceAs (Decidable (a.family = family ∧ a.key = (strategy, target)))

/-- The addition is for the family, under some key of the strategy. -/
def UnderStrategy (family : Family) (strategy : Strategy) (a : Addition) : Prop :=
  a.family = family ∧ a.key.1 = strategy

instance (family : Family) (strategy : Strategy) : DecidablePred (UnderStrategy family strategy) :=
  fun a => inferInstanceAs (Decidable (a.family = family ∧ a.key.1 = strategy))

theorem underStrategy_iff {family : Family} {strategy : Strategy} {a : Addition} :
    a.UnderStrategy family strategy ↔ ∃ target, a.Under family strategy target := by
  constructor
  · rintro ⟨hfamily, rfl⟩
    exact ⟨a.key.2, hfamily, rfl⟩
  · rintro ⟨target, hfamily, hkey⟩
    exact ⟨hfamily, by rw [hkey]⟩

end Addition

/-- The last of the additions for a family under a key, and how many came before it. -/
def LastAdded (family : Family) (strategy : Strategy) (target : Target) (history : List Addition)
    (a : Addition) (number : Nat) : Prop :=
  ∃ before after, history = before ++ a :: after ∧ number = before.length ∧
    a.Under family strategy target ∧ ∀ later ∈ after, ¬later.Under family strategy target

/-! ## Tables of a history -/

section Tables

variable {κ : Type} {brings? : Addition → Nat → Option (Entry κ)} {history : List Addition}
  {strategy : Strategy} {target : Target} {t : Table (Entry κ)}

/-- The entry that an addition with that number brings under a key, if it brings one. -/
def bringsUnder? (brings? : Addition → Nat → Option (Entry κ)) (strategy : Strategy)
    (target : Target) : Addition × Nat → Option (Entry κ)
  | (a, number) => if a.key = (strategy, target) then brings? a number else none

theorem bringsUnder?_eq_none {a : Addition} {number : Nat}
    (h : a.key = (strategy, target) → brings? a number = none) :
    bringsUnder? brings? strategy target (a, number) = none := by
  by_cases hkey : a.key = (strategy, target)
  · simp [bringsUnder?, h hkey]
  · simp [bringsUnder?, hkey]

/-- The table holds under every key the entry that was brought last. -/
structure Table.Records (brings? : Addition → Nat → Option (Entry κ)) (history : List Addition)
    (t : Table (Entry κ)) : Prop where
  ordered : t.Ordered
  value?_eq : ∀ strategy target, t.value? strategy target =
    history.zipIdx.reverse.findSome? (bringsUnder? brings? strategy target)

theorem Table.records_nil : Table.Records brings? [] [] :=
  ⟨ordered_nil, fun _ _ => rfl⟩

/-- What an addition does to the table of one family. -/
def Table.addEntry (brings? : Addition → Nat → Option (Entry κ)) (t : Table (Entry κ))
    (a : Addition) (number : Nat) : Table (Entry κ) :=
  match brings? a number with
  | some entry => t.insert a.key.1 a.key.2 entry
  | none => t

theorem Table.Records.addEntry (h : t.Records brings? history) (a : Addition) :
    (t.addEntry brings? a history.length).Records brings? (history ++ [a]) := by
  have hlast : (history ++ [a]).zipIdx.reverse = (a, history.length) :: history.zipIdx.reverse := by
    simp [List.zipIdx_append]
  unfold Table.addEntry
  cases hentry : brings? a history.length with
  | none =>
    refine ⟨h.ordered, fun strategy target => ?_⟩
    rw [hlast, List.findSome?_cons, h.value?_eq]
    simp [bringsUnder?, hentry]
  | some entry =>
    refine ⟨h.ordered.insert _ _ _, fun strategy target => ?_⟩
    rw [hlast, List.findSome?_cons, Table.value?_insert, h.value?_eq]
    by_cases hkey : a.key = (strategy, target)
    · simp [bringsUnder?, hentry, hkey]
    · have hkey' : ¬(strategy, target) = (a.key.1, a.key.2) := fun heq => hkey heq.symm
      rw [if_neg hkey']
      simp [bringsUnder?, hkey]

/-- Under the key of the last addition there is its entry. -/
theorem Table.Records.value?_of_last (h : t.Records brings? history) {before after : List Addition}
    {a : Addition} {entry : Entry κ} (hhistory : history = before ++ a :: after)
    (hkey : a.key = (strategy, target)) (hentry : brings? a before.length = some entry)
    (hafter : ∀ later ∈ after, later.key = (strategy, target) →
      ∀ number, brings? later number = none) :
    t.value? strategy target = some entry := by
  rw [h.value?_eq, hhistory, List.zipIdx_append, List.zipIdx_cons, List.reverse_append,
    List.reverse_cons, List.append_assoc, List.findSome?_append]
  have hnone : ((after.zipIdx (0 + before.length + 1)).reverse.findSome?
      (bringsUnder? brings? strategy target)) = none := by
    apply List.findSome?_eq_none_iff.mpr
    intro (later, number) hmem
    have hlater : later ∈ after := List.fst_mem_of_mem_zipIdx (List.mem_reverse.mp hmem)
    exact bringsUnder?_eq_none fun hsame => hafter later hlater hsame number
  rw [hnone]
  simp [bringsUnder?, hkey, hentry]

/-- Where nothing has been added there is no entry. -/
theorem Table.Records.value?_of_none (h : t.Records brings? history)
    (hnone : ∀ a ∈ history, a.key = (strategy, target) → ∀ number, brings? a number = none) :
    t.value? strategy target = none := by
  rw [h.value?_eq]
  apply List.findSome?_eq_none_iff.mpr
  intro (a, number) hmem
  have ha : a ∈ history := List.fst_mem_of_mem_zipIdx (List.mem_reverse.mp hmem)
  exact bringsUnder?_eq_none fun hkey => hnone a ha hkey number

end Tables

/-! ## Builders -/

/-- The tables of the builder hold what the history has brought. -/
structure Builder.Records (b : Builder) (history : List Addition) : Prop where
  added : b.added = history.length
  elementwise : b.elementwise.Records Addition.brings? history
  core : b.core.Records Addition.bringsCore? history

namespace Builder

theorem records_empty : empty.Records [] := ⟨rfl, Table.records_nil, Table.records_nil⟩

/-- **An addition to the builder is one to its history.** -/
theorem Records.add {b : Builder} {history : List Addition} (h : b.Records history) (a : Addition) :
    (b.add a).Records (history ++ [a]) := by
  have helementwise := h.elementwise.addEntry a
  have hcore := h.core.addEntry a
  rw [← h.added] at helementwise hcore
  cases a with
  | elementwise strategy target label construct =>
    refine ⟨?_, helementwise, hcore⟩
    simp [Builder.add, h.added]
  | core strategy target label construct =>
    refine ⟨?_, helementwise, hcore⟩
    simp [Builder.add, h.added]

theorem Records.addAll {b : Builder} {history : List Addition} (h : b.Records history)
    (additions : List Addition) : (b.addAll additions).Records (history ++ additions) := by
  induction additions generalizing b history with
  | nil => rwa [List.append_nil]
  | cons a additions ih =>
    have hrest := ih (h.add a)
    rwa [List.append_assoc, List.singleton_append] at hrest

/-- Additions for the other family leave a table alone. -/
theorem addAll_elementwise {additions : List Addition} (h : ∀ a ∈ additions, a.family = .core)
    (b : Builder) : (b.addAll additions).elementwise = b.elementwise := by
  induction additions generalizing b with
  | nil => rfl
  | cons a additions ih =>
    obtain ⟨ha, hrest⟩ := List.forall_mem_cons.mp h
    refine (ih hrest (b.add a)).trans ?_
    cases a with
    | elementwise => cases ha
    | core => rfl

theorem addAll_core {additions : List Addition} (h : ∀ a ∈ additions, a.family = .elementwise)
    (b : Builder) : (b.addAll additions).core = b.core := by
  induction additions generalizing b with
  | nil => rfl
  | cons a additions ih =>
    obtain ⟨ha, hrest⟩ := List.forall_mem_cons.mp h
    refine (ih hrest (b.add a)).trans ?_
    cases a with
    | elementwise => rfl
    | core => cases ha

end Builder

/-- What a registry is built from before additions are made. -/
inductive Start where
  /-- No entries. -/
  | empty
  /-- The standard entries when there is no device. -/
  | standard (workers : Nat) (settings : Settings) (reason : GpuError)

namespace Start

def builder : Start → Builder
  | empty => .empty
  | standard workers settings reason => (Builder.standard workers settings reason).value

/-- The additions that the start stands for. -/
def additions : Start → List Addition
  | empty => []
  | standard workers settings _ => Addition.standard workers settings

theorem records (start : Start) : start.builder.Records start.additions := by
  cases start with
  | empty => exact Builder.records_empty
  | standard workers settings reason =>
    -- the reason for the fallback is no part of the tables
    have h := Builder.records_empty.addAll (Addition.standard workers settings)
    exact ⟨h.added, h.elementwise, h.core⟩

/-- The registry that a start and more additions lead to. -/
def registry (start : Start) (additions : List Addition) : Registry :=
  (start.builder.addAll additions).build.value

end Start

/-! ## Requests -/

/-- What a request hands in. -/
inductive Job where
  | elementwise (function : ScalarFunction)
  | core (function : CoreFunction) (signature : Signature)

def Job.family : Job → Family
  | elementwise _ => .elementwise
  | core _ _ => .core

/-- What the constructor of an addition makes of a job of its family. -/
def Addition.make : Addition → Job → Option AnyVectorizer
  | elementwise _ _ _ construct, .elementwise function => some (.elementwise (construct function))
  | core _ _ _ construct, .core function signature => some (.core (construct function signature))
  | _, _ => none

/-- The answer to a request and the constructors that have been run for it. -/
def Requested.constructed {α : Type} (r : Requested α) : Constructed (Except RequestError α) :=
  ⟨r.value, r.invocations⟩

/-- What a request for a vectorizer of either family leads to. -/
def Registry.request (r : Registry) (selector : Selector) :
    Job → Constructed (Except RequestError AnyVectorizer)
  | .elementwise function => ((r.vectorize function selector).map .elementwise).constructed
  | .core function signature =>
    ((r.vectorizeCore function signature selector).map .core).constructed

/-- What a request leads to, once the entry has been looked up: a refusal without a run, or what
`run` makes of the constructor of the entry. -/
def Constructed.ofEntry {κ : Type} (run : κ → Constructed AnyVectorizer) :
    Except RequestError (Entry κ) → Constructed (Except RequestError AnyVectorizer)
  | .error fault => ⟨.error fault, []⟩
  | .ok entry => (run entry.construct).map .ok

namespace Registry

theorem request_elementwise (r : Registry) (strategy : Strategy) (target : Target)
    (function : ScalarFunction) :
    r.request (.key strategy target) (.elementwise function) =
      .ofEntry (fun construct => (construct function).map .elementwise)
        (r.elementwise.find strategy target) := by
  simp only [request, vectorize, Selector.resolve]
  cases r.elementwise.find strategy target <;> rfl

theorem request_core (r : Registry) (strategy : Strategy) (target : Target)
    (function : CoreFunction) (signature : Signature) :
    r.request (.key strategy target) (.core function signature) =
      .ofEntry (fun construct => (construct function signature).map .core)
        (r.core.find strategy target) := by
  simp only [request, vectorizeCore, Selector.resolve]
  cases r.core.find strategy target <;> rfl

/-- A request looks at the table of its family only. -/
theorem request_congr {r r' : Registry} {job : Job}
    (h : match job.family with
      | .elementwise => r.elementwise = r'.elementwise
      | .core => r.core = r'.core)
    (selector : Selector) : r.request selector job = r'.request selector job := by
  cases job with
  | elementwise function =>
    have h : r.elementwise = r'.elementwise := h
    simp only [request, vectorize, h]
  | core function signature =>
    have h : r.core = r'.core := h
    simp only [request, vectorizeCore, h]

/-- A request with a name that cannot be read is refused. -/
theorem request_of_unresolved (r : Registry) {selector : Selector} {fault : RequestError}
    (h : selector.resolve = .error fault) (job : Job) :
    r.request selector job = ⟨.error fault, []⟩ := by
  cases job <;> simp only [request, vectorize, vectorizeCore, h] <;> rfl

/-- A request by names that can be read is the request by key. -/
theorem request_of_resolved (r : Registry) {selector : Selector} {strategy : Strategy}
    {target : Target} (h : selector.resolve = .ok (strategy, target)) (job : Job) :
    r.request selector job = r.request (.key strategy target) job := by
  have hkey : (Selector.key strategy target).resolve = .ok (strategy, target) := rfl
  cases job <;> simp only [request, vectorize, vectorizeCore, h, hkey]

/-- A request by names reads the name of the strategy first, and then that of the target. -/
theorem request_names (r : Registry) (backend target : String) (job : Job) :
    r.request (.names backend target) job =
      match Strategy.parse backend with
      | .error fault => ⟨.error fault, []⟩
      | .ok strategy =>
        match Target.parse target with
        | .error fault => ⟨.error fault, []⟩
        | .ok target => r.request (.key strategy target) job := by
  have hresolve : (Selector.names backend target).resolve =
      (Strategy.parse backend).bind fun strategy =>
        (Target.parse target).map fun target => (strategy, target) := rfl
  cases hbackend : Strategy.parse backend with
  | error fault =>
    rw [hbackend] at hresolve
    exact r.request_of_unresolved hresolve job
  | ok strategy =>
    rw [hbackend] at hresolve
    cases htarget : Target.parse target with
    | error fault =>
      rw [htarget] at hresolve
      exact r.request_of_unresolved hresolve job
    | ok target =>
      rw [htarget] at hresolve
      exact r.request_of_resolved hresolve job

end Registry

/-! ## Names of keys -/

theorem Strategy.parse_name (strategy : Strategy) : parse strategy.name = .ok strategy := by
  cases strategy <;> decide

theorem Strategy.parse_of_unknown {text : String} (h : ∀ strategy : Strategy, strategy.name ≠ text) :
    parse text = .error (.unknownBackend text (all.map name)) := by
  have hnone : ofName? text = none := by
    simp only [ofName?, List.find?_eq_none, decide_eq_true_iff]
    intro strategy _
    exact h strategy
  rw [parse, hnone]

theorem Target.parse_name (target : Target) : parse target.name = .ok target := by
  cases target <;> decide

theorem Target.parse_of_unknown {text : String} (h : ∀ target : Target, target.name ≠ text) :
    parse text = .error (.unknownTarget text (all.map name)) := by
  have hnone : ofName? text = none := by
    simp only [ofName?, List.find?_eq_none, decide_eq_true_iff]
    intro target _
    exact h target
  rw [parse, hnone]

/-! ## Last additions -/

section LastAdditions

variable {κ : Type} {brings? : Addition → Nat → Option (Entry κ)} {history : List Addition}
  {family : Family} {strategy : Strategy} {target : Target} {t : Table (Entry κ)}

/-- Where something has been added there is a last addition. -/
theorem exists_lastAdded (h : ∃ a ∈ history, a.Under family strategy target) :
    ∃ a number, LastAdded family strategy target history a number := by
  induction history using List.reverseRecOn with
  | nil =>
    obtain ⟨a, hmem, -⟩ := h
    exact absurd hmem List.not_mem_nil
  | append_singleton history last ih =>
    by_cases hlast : last.Under family strategy target
    · exact ⟨last, history.length, history, [], rfl, rfl, hlast, by simp⟩
    · -- the last of the additions before this one remains the last
      obtain ⟨a, hmem, ha⟩ := h
      have hhistory : a ∈ history := by
        rcases List.mem_append.mp hmem with hmem | hmem
        · exact hmem
        · exact absurd (List.mem_singleton.mp hmem ▸ ha) hlast
      obtain ⟨b, number, before, after, rfl, hnumber, hb, hafter⟩ := ih ⟨a, hhistory, ha⟩
      refine ⟨b, number, before, after ++ [last], by simp, hnumber, hb, ?_⟩
      intro later hlater
      rcases List.mem_append.mp hlater with hlater | hlater
      · exact hafter later hlater
      · rwa [List.mem_singleton.mp hlater]

theorem Table.Records.value?_of_lastAdded (h : t.Records brings? history)
    (hfamily : ∀ a number, (brings? a number).isSome = true ↔ a.family = family) {a : Addition}
    {number : Nat} (hlast : LastAdded family strategy target history a number) :
    ∃ entry, brings? a number = some entry ∧ t.value? strategy target = some entry := by
  obtain ⟨before, after, hhistory, rfl, ⟨ha, hkey⟩, hafter⟩ := hlast
  obtain ⟨entry, hentry⟩ := Option.isSome_iff_exists.mp ((hfamily a before.length).mpr ha)
  refine ⟨entry, hentry, h.value?_of_last hhistory hkey hentry ?_⟩
  intro later hlater hsame number
  rw [← Option.not_isSome_iff_eq_none, hfamily]
  intro hother
  exact hafter later hlater ⟨hother, hsame⟩

/-- There is an entry under the keys of the additions, and under no others. -/
theorem Table.Records.value?_isSome_iff (h : t.Records brings? history)
    (hfamily : ∀ a number, (brings? a number).isSome = true ↔ a.family = family) :
    (t.value? strategy target).isSome = true ↔
      ∃ a ∈ history, a.Under family strategy target := by
  constructor
  · intro hsome
    by_contra hnone
    rw [h.value?_of_none] at hsome
    · cases hsome
    · intro a hmem hkey number
      rw [← Option.not_isSome_iff_eq_none, hfamily]
      intro ha
      exact hnone ⟨a, hmem, ha, hkey⟩
  · intro hadded
    obtain ⟨a, number, hlast⟩ := exists_lastAdded hadded
    obtain ⟨entry, -, hvalue⟩ := h.value?_of_lastAdded hfamily hlast
    rw [hvalue]
    rfl

end LastAdditions

theorem brings?_isSome_iff (a : Addition) (number : Nat) :
    (a.brings? number).isSome = true ↔ a.family = .elementwise := by
  cases a <;> simp [Addition.brings?, Addition.family]

theorem bringsCore?_isSome_iff (a : Addition) (number : Nat) :
    (a.bringsCore? number).isSome = true ↔ a.family = .core := by
  cases a <;> simp [Addition.bringsCore?, Addition.family]

/-! ## What a registry answers -/

/-- The registry answers as the history of a family says. -/
structure Registry.Follows (r : Registry) (family : Family) (history : List Addition) : Prop where
  /-- The last addition under a key is what the key resolves to. A request runs its constructor, once,
  and no other one, and is answered with what it makes. -/
  accepted : ∀ strategy target a number, LastAdded family strategy target history a number →
    r.resolve family (.key strategy target) = .ok a.label ∧
    ∀ job : Job, job.family = family → ∃ made, a.make job = some made ∧
      r.request (.key strategy target) job = ⟨.ok made, [⟨number, made⟩]⟩
  /-- A key without additions is refused, with one error, which names the keys that there are. No
  constructor is run. -/
  refused : ∀ strategy target, (∀ a ∈ history, ¬a.Under family strategy target) →
    ∃ fault, r.resolve family (.key strategy target) = .error fault ∧
      (∀ job : Job, job.family = family →
        r.request (.key strategy target) job = ⟨.error fault, []⟩) ∧
      ((∀ a ∈ history, ¬a.UnderStrategy family strategy) →
        fault = .unsupportedBackend strategy.name ((r.strategies family).map Strategy.name)) ∧
      ((∃ a ∈ history, a.UnderStrategy family strategy) →
        fault = .unsupportedTarget strategy.name target.name
          ((r.targets family strategy).map Target.name))
  /-- The strategies are those of the additions, each of them once and in the order of all. -/
  strategies_eq : r.strategies family = Strategy.all.filter fun strategy =>
    decide (∃ a ∈ history, a.UnderStrategy family strategy)
  /-- So are the targets under a strategy. -/
  targets_eq : ∀ strategy, r.targets family strategy = Target.all.filter fun target =>
    decide (∃ a ∈ history, a.Under family strategy target)
  targets_eq_nil_iff : ∀ strategy,
    r.targets family strategy = [] ↔ strategy ∉ r.strategies family

section Follows

variable {κ : Type} {brings? : Addition → Nat → Option (Entry κ)} {history : List Addition}
  {family : Family} {strategy : Strategy} {t : Table (Entry κ)}

theorem Table.strategies_mapValues {α β : Type} (f : α → β) (t : Table α) :
    (t.mapValues f).strategies = t.strategies := by
  simp [Table.strategies, mapValues]

theorem Table.targets_mapValues {α β : Type} (f : α → β) (t : Table α) (strategy : Strategy) :
    (t.mapValues f).targets strategy = t.targets strategy := by
  unfold Table.targets Table.row mapValues
  rw [lookup_map]
  cases t.lookup strategy with
  | none => rfl
  | some row => simp

theorem Table.find_mapValues {α β : Type} (f : α → β) (t : Table α) (strategy : Strategy)
    (target : Target) :
    (t.mapValues f).find strategy target = (t.find strategy target).map f := by
  unfold find
  rw [strategies_mapValues, targets_mapValues, mapValues, lookup_map]
  cases t.lookup strategy with
  | none => rfl
  | some row =>
    simp only [Option.map_some, lookup_map]
    cases row.lookup target <;> rfl

/-- A strategy has entries exactly if there are additions under it. -/
theorem Table.Records.mem_strategies_iff (h : t.Records brings? history)
    (hfamily : ∀ a number, (brings? a number).isSome = true ↔ a.family = family) :
    strategy ∈ t.strategies ↔ ∃ a ∈ history, a.UnderStrategy family strategy := by
  simp only [h.ordered.mem_strategies_iff, h.value?_isSome_iff hfamily, Addition.underStrategy_iff]
  constructor
  · rintro ⟨target, a, hmem, ha⟩
    exact ⟨a, hmem, target, ha⟩
  · rintro ⟨a, hmem, target, ha⟩
    exact ⟨target, a, hmem, ha⟩

/-- A registry follows the history of a family if the table of the family does, if the constructors
in the table make what the additions say, and if requests run the constructors that are looked
up. -/
theorem Registry.follows_of_records {r : Registry} (h : t.Records brings? history)
    (hfamily : ∀ a number, (brings? a number).isSome = true ↔ a.family = family)
    (hlabel : ∀ a number entry, brings? a number = some entry → entry.label = a.label)
    (hlabels : r.labels family = t.mapValues Entry.label)
    (hrequest : ∀ job : Job, job.family = family → ∃ run : κ → Constructed AnyVectorizer,
      (∀ a number entry, brings? a number = some entry → ∃ made,
        a.make job = some made ∧ run entry.construct = ⟨made, [⟨number, made⟩]⟩) ∧
      ∀ strategy target, r.request (.key strategy target) job =
        .ofEntry run (t.find strategy target)) :
    r.Follows family history := by
  have hresolve : ∀ strategy target, r.resolve family (.key strategy target) =
      (t.find strategy target).map Entry.label := by
    intro strategy target
    rw [← Table.find_mapValues, ← hlabels]
    rfl
  have hstrategies : r.strategies family = t.strategies := by
    rw [Registry.strategies, hlabels, Table.strategies_mapValues]
  have htargets : ∀ strategy, r.targets family strategy = t.targets strategy := by
    intro strategy
    rw [Registry.targets, hlabels, Table.targets_mapValues]
  have hfault : ∀ strategy target fault, t.find strategy target = .error fault →
      r.resolve family (.key strategy target) = .error fault ∧
      ∀ job : Job, job.family = family →
        r.request (.key strategy target) job = ⟨.error fault, []⟩ := by
    intro strategy target fault hfind
    constructor
    · rw [hresolve, hfind]
      rfl
    · intro job hjob
      obtain ⟨run, -, hrequest⟩ := hrequest job hjob
      rw [hrequest, hfind]
      rfl
  constructor
  case accepted =>
    intro strategy target a number hlast
    obtain ⟨entry, hentry, hvalue⟩ := h.value?_of_lastAdded hfamily hlast
    have hfind : t.find strategy target = .ok entry := by
      rw [h.ordered.find_eq, hvalue]
    constructor
    · rw [hresolve, hfind, ← hlabel a number entry hentry]
      rfl
    · -- the constructor that is looked up is the one that the addition has brought
      intro job hjob
      obtain ⟨run, hrun, hrequest⟩ := hrequest job hjob
      obtain ⟨made, hmake, hmade⟩ := hrun a number entry hentry
      refine ⟨made, hmake, ?_⟩
      rw [hrequest, hfind, Constructed.ofEntry, hmade]
      rfl
  case refused =>
    intro strategy target hnone
    have hvalue : t.value? strategy target = none := by
      rw [← Option.not_isSome_iff_eq_none, h.value?_isSome_iff hfamily]
      intro ⟨a, hmem, ha⟩
      exact hnone a hmem ha
    have hfind := h.ordered.find_eq strategy target
    rw [hvalue] at hfind
    rw [hstrategies, htargets]
    -- the error depends on whether the strategy has entries
    by_cases hstrategy : strategy ∈ t.strategies
    · rw [if_pos hstrategy] at hfind
      obtain ⟨hresolved, hrequested⟩ := hfault strategy target _ hfind
      refine ⟨_, hresolved, hrequested, fun hno => ?_, fun _ => rfl⟩
      obtain ⟨a, hmem, ha⟩ := (h.mem_strategies_iff hfamily).mp hstrategy
      exact absurd ha (hno a hmem)
    · rw [if_neg hstrategy] at hfind
      obtain ⟨hresolved, hrequested⟩ := hfault strategy target _ hfind
      refine ⟨_, hresolved, hrequested, fun _ => rfl, fun hsome => ?_⟩
      exact absurd ((h.mem_strategies_iff hfamily).mpr hsome) hstrategy
  case strategies_eq =>
    rw [hstrategies, h.ordered.strategies_eq]
    apply List.filter_congr
    intro strategy _
    rw [Bool.eq_iff_iff, decide_eq_true_iff, ← h.mem_strategies_iff hfamily,
      h.ordered.mem_strategies_iff, List.any_eq_true]
    simp only [Target.mem_all, true_and]
  case targets_eq =>
    intro strategy
    rw [htargets, h.ordered.targets_eq]
    apply List.filter_congr
    intro target _
    rw [Bool.eq_iff_iff, decide_eq_true_iff, h.value?_isSome_iff hfamily]
  case targets_eq_nil_iff =>
    -- a strategy is listed if it has a target, and then the list of its targets is not empty
    intro strategy
    rw [hstrategies, htargets, h.ordered.targets_eq, h.ordered.mem_strategies_iff,
      List.filter_eq_nil_iff]
    simp only [Target.mem_all, true_implies, not_exists]

end Follows

/-- **The registry follows its history.** -/
theorem Start.follows (start : Start) (additions : List Addition) (family : Family) :
    (start.registry additions).Follows family (start.additions ++ additions) := by
  have h := start.records.addAll additions
  cases family with
  | elementwise =>
    apply Registry.follows_of_records h.elementwise brings?_isSome_iff
    · intro a number entry hentry
      cases a with
      | core => cases hentry
      | elementwise =>
        cases hentry
        rfl
    · rfl
    · intro job hjob
      cases job with
      | core => cases hjob
      | elementwise function =>
        refine ⟨fun construct => (construct function).map .elementwise, ?_,
          fun strategy target => Registry.request_elementwise _ strategy target function⟩
        intro a number entry hentry
        cases a with
        | core => cases hentry
        | elementwise _ _ _ construct =>
          cases hentry
          exact ⟨.elementwise (construct function), rfl, rfl⟩
  | core =>
    apply Registry.follows_of_records h.core bringsCore?_isSome_iff
    · intro a number entry hentry
      cases a with
      | elementwise => cases hentry
      | core =>
        cases hentry
        rfl
    · rfl
    · intro job hjob
      cases job with
      | elementwise => cases hjob
      | core function signature =>
        refine ⟨fun construct => (construct function signature).map .core, ?_,
          fun strategy target => Registry.request_core _ strategy target function signature⟩
        intro a number entry hentry
        cases a with
        | elementwise => cases hentry
        | core _ _ _ construct =>
          cases hentry
          exact ⟨.core (construct function signature), rfl, rfl⟩

/-- Additions for the other family change nothing that can be asked about a family. -/
theorem Start.unchanged (start : Start) (additions more : List Addition) {family : Family}
    (hmore : ∀ a ∈ more, a.family ≠ family) :
    (start.registry (additions ++ more)).labels family = (start.registry additions).labels family ∧
      ∀ (job : Job) (selector : Selector), job.family = family →
        (start.registry (additions ++ more)).request selector job =
          (start.registry additions).request selector job := by
  have hsplit : start.builder.addAll (additions ++ more) =
      (start.builder.addAll additions).addAll more := List.foldl_append
  cases family with
  | elementwise =>
    have hcore : ∀ a ∈ more, a.family = .core := by
      intro a ha
      cases a with
      | elementwise => exact absurd rfl (hmore _ ha)
      | core => rfl
    have htable : (start.registry (additions ++ more)).elementwise =
        (start.registry additions).elementwise := by
      show (start.builder.addAll (additions ++ more)).elementwise = _
      rw [hsplit, Builder.addAll_elementwise hcore]
      rfl
    refine ⟨congrArg (Table.mapValues Entry.label) htable, fun job selector hjob => ?_⟩
    exact Registry.request_congr (by rw [hjob]; exact htable) selector
  | core =>
    have helementwise : ∀ a ∈ more, a.family = .elementwise := by
      intro a ha
      cases a with
      | elementwise => rfl
      | core => exact absurd rfl (hmore _ ha)
    have htable : (start.registry (additions ++ more)).core = (start.registry additions).core := by
      show (start.builder.addAll (additions ++ more)).core = _
      rw [hsplit, Builder.addAll_core helementwise]
      rfl
    refine ⟨congrArg (Table.mapValues Entry.label) htable, fun job selector hjob => ?_⟩
    exact Registry.request_congr (by rw [hjob]; exact htable) selector

/-- **Requests and queries agree with the history of a registry.** From no entries or from the
standard ones, after any additions: each family answers as the last additions for it say; additions
for the other family change nothing; and a request by names is the request by key, unless the first
text names no strategy or else the second one no target. -/
theorem registry_follows_history (start : Start) (additions : List Addition) :
    (∀ family, (start.registry additions).Follows family (start.additions ++ additions)) ∧
    (∀ (family : Family) (more : List Addition), (∀ a ∈ more, a.family ≠ family) →
      (start.registry (additions ++ more)).labels family =
        (start.registry additions).labels family ∧
      ∀ (job : Job) (selector : Selector), job.family = family →
        (start.registry (additions ++ more)).request selector job =
          (start.registry additions).request selector job) ∧
    ∀ (job : Job) (backend target : String),
      ((∀ strategy : Strategy, strategy.name ≠ backend) →
        (start.registry additions).request (.names backend target) job =
          ⟨.error (.unknownBackend backend (Strategy.all.map Strategy.name)), []⟩) ∧
      ∀ strategy : Strategy, strategy.name = backend →
        ((∀ t : Target, t.name ≠ target) →
          (start.registry additions).request (.names backend target) job =
            ⟨.error (.unknownTarget target (Target.all.map Target.name)), []⟩) ∧
        ∀ t : Target, t.name = target →
          (start.registry additions).request (.names backend target) job =
            (start.registry additions).request (.key strategy t) job := by
  refine ⟨start.follows additions, fun family more => start.unchanged additions more, ?_⟩
  intro job backend target
  constructor
  · intro hbackend
    rw [Registry.request_names, Strategy.parse_of_unknown hbackend]
  · rintro strategy rfl
    rw [Registry.request_names, Strategy.parse_name]
    constructor
    · intro htarget
      rw [Target.parse_of_unknown htarget]
    · rintro t rfl
      rw [Target.parse_name]

/-- Two additions under a standard key, and one for the other family between them: the second one
counts. Its constructor has number 14, after the twelve standard ones and two others, and only it is
run. -/
theorem registry_follows_history_after_override :
    ((Start.standard 4 .standard .disabled).registry
      [.elementwise .closure .cpu .serialTreeWalk (.mk ⟨.serialTreeWalk, .treeWalk, .serial⟩),
       .core .treeWalk .cpu .coreClosure (.mk ⟨.coreClosure, .closure⟩),
       .elementwise .closure .cpu .serialStackCode
         (.mk ⟨.serialStackCode, .stackCode, .serial⟩)]).request
        (.names "ast" "cpu") (.elementwise ⟨"f", 1, .arg 0, rfl⟩) =
      ⟨.ok (.elementwise ⟨⟨.serialStackCode, .stackCode, .serial⟩, "f", 1, .arg 0, rfl⟩),
        [⟨14, .elementwise ⟨⟨.serialStackCode, .stackCode, .serial⟩, "f", 1, .arg 0, rfl⟩⟩]⟩ := by
  obtain ⟨hfollows, -, hnames⟩ := registry_follows_history (.standard 4 .standard .disabled)
    [.elementwise .closure .cpu .serialTreeWalk (.mk ⟨.serialTreeWalk, .treeWalk, .serial⟩),
     .core .treeWalk .cpu .coreClosure (.mk ⟨.coreClosure, .closure⟩),
     .elementwise .closure .cpu .serialStackCode (.mk ⟨.serialStackCode, .stackCode, .serial⟩)]
  rw [((hnames (.elementwise ⟨"f", 1, .arg 0, rfl⟩) "ast" "cpu").2 .closure rfl).2 .cpu rfl]
  have hlast := (hfollows .elementwise).accepted .closure .cpu
    (.elementwise .closure .cpu .serialStackCode (.mk ⟨.serialStackCode, .stackCode, .serial⟩)) 14
    ⟨Addition.standard 4 .standard ++
      [.elementwise .closure .cpu .serialTreeWalk (.mk ⟨.serialTreeWalk, .treeWalk, .serial⟩),
       .core .treeWalk .cpu .coreClosure (.mk ⟨.coreClosure, .closure⟩)],
      [], rfl, rfl, ⟨rfl, rfl⟩, by simp⟩
  obtain ⟨made, hmade, hrequest⟩ := hlast.2 (.elementwise ⟨"f", 1, .arg 0, rfl⟩) rfl
  cases hmade
  exact hrequest

end ArrayKernels
