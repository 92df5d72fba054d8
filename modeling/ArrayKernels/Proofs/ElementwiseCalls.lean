import ArrayKernels.Expr.Meaning
import ArrayKernels.Proofs.Schedules
import ArrayKernels.Proofs.StandardRegistry
import ArrayKernels.Proofs.StrategyAgreement

/-!
# Calls of elementwise functions

All entries of the standard registry without a device compute the same from a scalar function, in
whatever form they run it and in whatever portions they take the rows: the value of the source body
in every row, with the single number of a column of length one in all of them. They refuse the same
calls with the same errors.

## Layers

- **Lengths**: when the columns of a call have a common length, and which one is the first not to
  fit.
- **Bodies**: lowering a scalar body keeps its value.

## Main results

- `rowCount_spec`: the outcome of counting rows.
- `standard_elementwise_calls_agree`: what all standard entries answer to a call.
-/

namespace ArrayKernels

/-! ## Lengths of columns -/

/-- The length of the first column that does not stand for a single number. -/
def firstLength (columns : List Column) : Option Nat :=
  (columns.map Array.size).find? (· ≠ 1)

/-- The column at the position is the first one that neither stands for a single number nor is as
long as the first column that does not. -/
structure LengthConflict (columns : List Column) (index len expected : Nat) : Prop where
  expected_eq : firstLength columns = some expected
  len_eq : (columns[index]?).map Array.size = some len
  ne_one : len ≠ 1
  ne_expected : len ≠ expected
  agree : ∀ column ∈ columns.take index, Array.size column = 1 ∨ Array.size column = expected

theorem firstLength_cons_of_single {column : Column} (h : column.size = 1) (columns : List Column) :
    firstLength (column :: columns) = firstLength columns := by
  simp [firstLength, h]

theorem firstLength_cons_of_ne {column : Column} (h : column.size ≠ 1) (columns : List Column) :
    firstLength (column :: columns) = some column.size := by
  simp [firstLength, h]

theorem rowCountFrom_of_single {column : Column} (h : column.size = 1) (index : Nat)
    (found : Option Nat) (columns : List Column) :
    rowCountFrom index found (column :: columns) = rowCountFrom (index + 1) found columns := by
  simp [rowCountFrom.eq_def index found (column :: columns), h]

theorem rowCountFrom_of_ne {column : Column} (h : column.size ≠ 1) (index : Nat)
    (found : Option Nat) (columns : List Column) :
    rowCountFrom index found (column :: columns) =
      if found.getD column.size = column.size then
        rowCountFrom (index + 1) (some column.size) columns
      else .error (.lengthMismatch index column.size (found.getD column.size)) := by
  rw [rowCountFrom.eq_def]
  cases found with
  | none => simp [h]
  | some first =>
    by_cases hsame : column.size = first
    · simp [hsame]
    · simp [h, hsame, Ne.symm hsame]

/-- The outcome of counting the rows of the columns from position `index` on, where `first` is the
length that counts: the common length, or the first column that does not fit. -/
private def CountsTo (columns : List Column) (index : Nat) (first : Option Nat)
    (outcome : Except CallError Nat) : Prop :=
  (∃ n, outcome = .ok n ∧ n = first.getD 1 ∧
    ∀ column ∈ columns, Array.size column = 1 ∨ Array.size column = n) ∨
  ∃ k len expected, outcome = .error (.lengthMismatch (index + k) len expected) ∧
    first = some expected ∧ (columns[k]?).map Array.size = some len ∧ len ≠ 1 ∧ len ≠ expected ∧
    ∀ column ∈ columns.take k, Array.size column = 1 ∨ Array.size column = expected

/-- A column that fits does not change the outcome. -/
private theorem CountsTo.cons {column : Column} {columns : List Column} {index : Nat}
    {first : Option Nat} {outcome : Except CallError Nat}
    (h : CountsTo columns (index + 1) first outcome)
    (hfits : column.size = 1 ∨ first = some column.size) :
    CountsTo (column :: columns) index first outcome := by
  rcases h with ⟨n, hrun, hn, hagree⟩ | ⟨k, len, expected, hrun, hfirst, hlen, hone, hne, hagree⟩
  · refine .inl ⟨n, hrun, hn, List.forall_mem_cons.mpr ⟨hfits.imp id fun hfirst => ?_, hagree⟩⟩
    rw [hn, hfirst, Option.getD_some]
  · refine .inr ⟨k + 1, len, expected, ?_, hfirst, hlen, hone, hne, ?_⟩
    · rw [hrun, Nat.add_right_comm, Nat.add_assoc]
    · refine List.forall_mem_cons.mpr ⟨hfits.imp id fun hsize => ?_, hagree⟩
      exact Option.some.inj (hsize.symm.trans hfirst)

private theorem countsTo_rowCountFrom (columns : List Column) (index : Nat) (found : Option Nat) :
    CountsTo columns index (found.or (firstLength columns)) (rowCountFrom index found columns) := by
  induction columns generalizing index found with
  | nil => exact .inl ⟨_, rfl, by simp [firstLength], by simp⟩
  | cons column columns ih =>
    by_cases hsingle : column.size = 1
    · -- the column stands for a single number, so only the rest counts
      rw [rowCountFrom_of_single hsingle, firstLength_cons_of_single hsingle]
      exact (ih (index + 1) found).cons (.inl hsingle)
    · rw [rowCountFrom_of_ne hsingle, firstLength_cons_of_ne hsingle]
      have hfirst : found.or (some column.size) = some (found.getD column.size) := by
        cases found <;> rfl
      by_cases hsame : found.getD column.size = column.size
      · -- from here on, all lengths are compared with this one
        rw [if_pos hsame, hfirst, hsame]
        exact (ih (index + 1) (some column.size)).cons (.inr rfl)
      · rw [if_neg hsame, hfirst]
        exact .inr ⟨0, column.size, _, rfl, rfl, rfl, hsingle, Ne.symm hsame, by simp⟩

/-- **Counting rows** gives the common length of the columns, or else names the first column that
does not fit. -/
theorem rowCount_spec (columns : List Column) :
    (∃ n, rowCount columns = .ok n ∧ n = (firstLength columns).getD 1 ∧
      ∀ column ∈ columns, Array.size column = 1 ∨ Array.size column = n) ∨
    ∃ index len expected, rowCount columns = .error (.lengthMismatch index len expected) ∧
      LengthConflict columns index len expected := by
  rcases countsTo_rowCountFrom columns 0 none with
    ⟨n, hrun, hn, hagree⟩ | ⟨k, len, expected, hrun, hexpected, hlen, hone, hne, hagree⟩
  · exact .inl ⟨n, hrun, hn, hagree⟩
  · refine .inr ⟨k, len, expected, ?_, ⟨hexpected, hlen, hone, hne, hagree⟩⟩
    rw [rowCount, hrun, Nat.zero_add]

namespace LengthConflict

variable {columns : List Column} {index len expected : Nat}

/-- There is a column that does not fit. -/
theorem not_agree (h : LengthConflict columns index len expected) {n : Nat}
    (hn : n = (firstLength columns).getD 1) :
    ¬ ∀ column ∈ columns, Array.size column = 1 ∨ Array.size column = n := by
  intro hagree
  obtain ⟨column, hcolumn, rfl⟩ := Option.map_eq_some_iff.mp h.len_eq
  rw [h.expected_eq, Option.getD_some] at hn
  -- the column of the conflict is not excepted
  rcases hagree column (List.mem_of_getElem? hcolumn) with hone | hsame
  · exact h.ne_one hone
  · exact h.ne_expected (hsame.trans hn)

/-- A column before a conflict is no conflict. -/
private theorem not_lt (h : LengthConflict columns index len expected) {index' len' : Nat}
    (h' : LengthConflict columns index' len' expected) : ¬ index < index' := by
  intro hlt
  obtain ⟨column, hcolumn, rfl⟩ := Option.map_eq_some_iff.mp h.len_eq
  have hmem : column ∈ columns.take index' := by
    refine List.mem_of_getElem? (i := index) ?_
    rw [List.getElem?_take_of_lt hlt, hcolumn]
  rcases h'.agree column hmem with hone | hsame
  · exact h.ne_one hone
  · exact h.ne_expected hsame

/-- There is one first conflict. -/
theorem unique (h : LengthConflict columns index len expected) {index' len' expected' : Nat}
    (h' : LengthConflict columns index' len' expected') :
    index = index' ∧ len = len' ∧ expected = expected' := by
  obtain rfl : expected = expected' :=
    Option.some.inj (h.expected_eq.symm.trans h'.expected_eq)
  have hle := h.not_lt h'
  have hge := h'.not_lt h
  obtain rfl : index = index' := by omega
  exact ⟨rfl, Option.some.inj (h.len_eq.symm.trans h'.len_eq), rfl⟩

end LengthConflict

/-- Where the lengths agree, every row has a number of every column. -/
theorem exists_rowAt? {columns : List Column} {len : Nat}
    (hagree : ∀ column ∈ columns, Array.size column = 1 ∨ Array.size column = len) {i : Nat}
    (hi : i < len) : ∃ row, rowAt? columns i = some row ∧ row.length = columns.length := by
  refine exists_rowAt?_of_columns fun column hcolumn => (hagree column hcolumn).imp id ?_
  rintro rfl
  exact hi

/-! ## Bodies -/

/-- **Lowering keeps the value of a scalar body** without faults. The tree reads no operands. -/
theorem Expr.exists_lowerScalar {arity : Nat} {e : Expr}
    (h : ∀ part ∈ e.nodes, part.scalarFault? arity = none) :
    ∃ n, e.lowerScalar = .ok n ∧ ∀ row : List Float, row.length = arity →
      n.Safe (fun _ => False) (.ofArgs row) [] ∧
      e.valueAt row = some (n.denote (.ofArgs row) []) := by
  -- the parts of a body without faults have none either
  induction e with
  | const v => exact ⟨.const v, rfl, fun _ _ => ⟨trivial, rfl⟩⟩
  | arg i =>
    have hlt : i < arity := by
      have hfault := h (.arg i) (List.mem_singleton.mpr rfl)
      by_contra hge
      simp [scalarFault?, hge] at hfault
    refine ⟨.arg i, rfl, fun row hrow => ?_⟩
    have hi : i < row.length := by omega
    exact ⟨hi, by simp [valueAt, Node.denote, Env.ofArgs, hi]⟩
  | unary op a ih =>
    obtain ⟨a', ha, hvalue⟩ := ih (List.forall_mem_cons.mp h).2
    refine ⟨.unary op a', by simp only [lowerScalar, ha]; rfl, fun row hrow => ?_⟩
    obtain ⟨hsafe, heq⟩ := hvalue row hrow
    exact ⟨hsafe, by simp only [valueAt, heq]; rfl⟩
  | binary op a b iha ihb =>
    obtain ⟨hparts_a, hparts_b⟩ := List.forall_mem_append.mp (List.forall_mem_cons.mp h).2
    obtain ⟨a', ha, hvalue_a⟩ := iha hparts_a
    obtain ⟨b', hb, hvalue_b⟩ := ihb hparts_b
    refine ⟨.binary op a' b', by simp only [lowerScalar, ha, hb]; rfl, fun row hrow => ?_⟩
    obtain ⟨hsafe_a, heq_a⟩ := hvalue_a row hrow
    obtain ⟨hsafe_b, heq_b⟩ := hvalue_b row hrow
    exact ⟨⟨hsafe_a, hsafe_b⟩, by simp only [valueAt, heq_a, heq_b]; rfl⟩
  | select c t o ihc iht iho =>
    obtain ⟨hparts, hparts_o⟩ := List.forall_mem_append.mp (List.forall_mem_cons.mp h).2
    obtain ⟨hparts_c, hparts_t⟩ := List.forall_mem_append.mp hparts
    obtain ⟨c', hc, hvalue_c⟩ := ihc hparts_c
    obtain ⟨t', ht, hvalue_t⟩ := iht hparts_t
    obtain ⟨o', ho, hvalue_o⟩ := iho hparts_o
    refine ⟨.select c' t' o', by simp only [lowerScalar, hc, ht, ho]; rfl, fun row hrow => ?_⟩
    obtain ⟨hsafe_c, heq_c⟩ := hvalue_c row hrow
    obtain ⟨hsafe_t, heq_t⟩ := hvalue_t row hrow
    obtain ⟨hsafe_o, heq_o⟩ := hvalue_o row hrow
    refine ⟨⟨hsafe_c, hsafe_t, hsafe_o⟩, ?_⟩
    simp only [valueAt, heq_c, heq_t, heq_o, Node.denote, Option.bind_eq_bind, Option.bind_some]
    split <;> rfl
  | element k names =>
    have hfault := h (.element k names) (List.mem_singleton.mpr rfl)
    cases hfault
  | sum dim body ih =>
    have hfault := h (.sum dim body) List.mem_cons_self
    cases hfault

/-- A kernel that reads no operands gives its value for a row, under every strategy. -/
theorem Strategy.onRow_of_safe (strategy : Strategy) {p : Program} {row : List Float}
    (h : p.root.Safe (fun _ => False) (.ofArgs row) []) :
    (strategy.compile p).onRow row = some (p.root.denote (.ofArgs row) []) := by
  rw [Kernel.onRow, strategy.compile_of_safe (fun _ hread => hread.elim) h]
  rfl

/-- A scalar function can be lowered, and under every strategy its kernel gives the value of the
body for every row of arguments. -/
theorem ScalarFunction.exists_lower (f : ScalarFunction) :
    ∃ p, f.lower = .ok p ∧ ∀ row : List Float, row.length = f.arity →
      ∃ x, f.body.valueAt row = some x ∧
        ∀ strategy : Strategy, (strategy.compile p).onRow row = some x := by
  obtain ⟨root, hroot, hvalue⟩ :=
    Expr.exists_lowerScalar (List.findSome?_eq_none_iff.mp f.faultless)
  refine ⟨⟨root, f.arity, [], [], [], []⟩, by simp only [lower, hroot]; rfl, fun row hrow => ?_⟩
  obtain ⟨hsafe, heq⟩ := hvalue row hrow
  exact ⟨_, heq, fun strategy => strategy.onRow_of_safe hsafe⟩

/-! ## Calls -/

theorem Vectorizer.build_of_ufunc {v : Vectorizer} {u : Ufunc} (h : v.ufunc = .ok u) :
    v.build.value = .ok u := by
  simp only [build, h]

namespace ScalarFunction

/-- The result has as many numbers as there are rows, and each of them is the value of the body for
the numbers that the columns have in the row. -/
structure Computes (f : ScalarFunction) (columns : List Column) (out : Column) : Prop where
  size_eq : out.size = (firstLength columns).getD 1
  agree : ∀ column ∈ columns, Array.size column = 1 ∨ Array.size column = out.size
  values : ∀ i < out.size, ∃ row : List Float,
    List.Forall₂ (fun (column : Column) x =>
      (if column.size = 1 then column[0]? else column[i]?) = some x) columns row ∧
    f.body.valueAt row = out[i]?

/-- The value of the body in a row of the columns. -/
def valueInRow (f : ScalarFunction) (columns : List Column) (i : Nat) : Float :=
  ((rowAt? columns i).bind f.body.valueAt).getD 0.0

/-- What every standard entry answers to a call. -/
def outcome (f : ScalarFunction) (columns : List Column) : Except Error Column :=
  if columns.length = f.arity then
    match rowCount columns with
    | .error fault => .error (.call fault)
    | .ok len => .ok ((List.range len).map (f.valueInRow columns)).toArray
  else .error (.call (.arityMismatch f.arity columns.length))

/-- Whatever the schedule, the function over columns gives the common outcome. -/
theorem call_eq_outcome {f : ScalarFunction} {u : Ufunc} (harity : u.arity = f.arity)
    (hkernel : ∀ row : List Float, row.length = f.arity →
      ∃ x, f.body.valueAt row = some x ∧ u.kernel.onRow row = some x) (columns : List Column) :
    (u.call columns).value = f.outcome columns := by
  unfold Ufunc.call Ufunc.rows outcome
  rw [harity]
  by_cases hlength : columns.length = f.arity
  · rw [if_pos hlength, if_pos hlength]
    rcases rowCount_spec columns with ⟨len, hcount, -, hagree⟩ | ⟨_, _, _, hcount, -⟩
    · -- there is a row for every number, so no schedule can fail
      have hevaluates : u.kernel.Evaluates columns len (f.valueInRow columns) := by
        intro i hi
        obtain ⟨row, hrow, hwidth⟩ := exists_rowAt? hagree hi
        obtain ⟨x, hx, hvalue⟩ := hkernel row (hwidth.trans hlength)
        refine ⟨row, hrow, ?_⟩
        rw [hvalue, valueInRow, hrow, Option.bind_some, hx, Option.getD_some]
      simp only [hcount, Schedule.run_eq _ hevaluates]
    · simp only [hcount]
      rfl
  · rw [if_neg hlength, if_neg hlength]
    rfl

/-- The common outcome computes the function, if there is no conflict of lengths. -/
theorem computes_of_outcome {f : ScalarFunction} {columns : List Column} {len : Nat}
    (hlength : columns.length = f.arity) (hlen : len = (firstLength columns).getD 1)
    (hagree : ∀ column ∈ columns, Array.size column = 1 ∨ Array.size column = len) :
    f.Computes columns ((List.range len).map (f.valueInRow columns)).toArray := by
  obtain ⟨p, -, hvalue⟩ := f.exists_lower
  have hsize : ((List.range len).map (f.valueInRow columns)).toArray.size = len := by simp
  refine ⟨hsize.trans hlen, by rwa [hsize], fun i hi => ?_⟩
  rw [hsize] at hi
  obtain ⟨row, hrow, hwidth⟩ := exists_rowAt? hagree hi
  obtain ⟨x, hx, -⟩ := hvalue row (hwidth.trans hlength)
  refine ⟨row, mapM_eq_some_iff.mp hrow, ?_⟩
  simp [hi, valueInRow, hrow, hx]

end ScalarFunction

/-- **All standard entries answer alike.** The standard registry without a device has nine
elementwise entries, for any number of workers and any lengths in the settings. A scalar function can
be built under the key of each of them, and what comes out answers to every call in the same way. It
asks for as many columns as the function has arguments; then it names the first column that does
not fit in length; and else it computes the function. -/
theorem standard_elementwise_calls_agree (workers : Nat) (settings : Settings) (reason : GpuError)
    (f : ScalarFunction) :
    (Registry.withoutDevice workers settings reason).elementwise.keys =
      [(.stackCode, .cpu), (.stackCode, .parallel), (.stackCode, .stream), (.closure, .cpu),
        (.closure, .parallel), (.closure, .stream), (.closure, .gpu), (.treeWalk, .cpu),
        (.treeWalk, .parallel)] ∧
    ∃ result : List Column → Except Error Column,
      (∀ strategy target,
        (strategy, target) ∈ (Registry.withoutDevice workers settings reason).elementwise.keys →
        ∃ made u, ((Registry.withoutDevice workers settings reason).vectorize f
            (.key strategy target)).value = .ok made ∧
          made.build.value = .ok u ∧
          ∀ columns, (u.call columns).value = result columns) ∧
      ∀ columns,
        (columns.length ≠ f.arity →
          result columns = .error (.call (.arityMismatch f.arity columns.length))) ∧
        (columns.length = f.arity →
          (∀ index len expected, LengthConflict columns index len expected →
            result columns = .error (.call (.lengthMismatch index len expected))) ∧
          ((¬∃ index len expected, LengthConflict columns index len expected) →
            ∃ out, result columns = .ok out ∧ f.Computes columns out)) := by
  refine ⟨Registry.withoutDevice_keys workers settings reason, f.outcome,
    fun strategy target hkey => ?_, fun columns => ⟨fun hlength => ?_, ?_⟩⟩
  · obtain ⟨recipe, hmade, -⟩ := Registry.withoutDevice_vectorize workers settings reason hkey f
    obtain ⟨p, hp, hvalue⟩ := f.exists_lower
    have hufunc : (Vectorizer.mk recipe f).ufunc =
        .ok ⟨f.name, f.arity, recipe.kind, recipe.strategy.compile p, recipe.schedule⟩ := by
      simp only [Vectorizer.ufunc, hp]
      rfl
    refine ⟨⟨recipe, f⟩, _, hmade, Vectorizer.build_of_ufunc hufunc, ?_⟩
    refine ScalarFunction.call_eq_outcome rfl fun row hrow => ?_
    obtain ⟨x, hx, hkernel⟩ := hvalue row hrow
    exact ⟨x, hx, hkernel recipe.strategy⟩
  · rw [ScalarFunction.outcome, if_neg hlength]
  · intro hlength
    rw [ScalarFunction.outcome, if_pos hlength]
    rcases rowCount_spec columns with
      ⟨n, hcount, hn, hagree⟩ | ⟨index, len, expected, hcount, hconflict⟩
    · refine ⟨fun index len expected hconflict => ?_, fun _ => ?_⟩
      · exact absurd hagree (hconflict.not_agree hn)
      · rw [hcount]
        exact ⟨_, rfl, ScalarFunction.computes_of_outcome hlength hn hagree⟩
    · refine ⟨fun index' len' expected' hother => ?_, fun hnone => ?_⟩
      · obtain ⟨rfl, rfl, rfl⟩ := hconflict.unique hother
        rw [hcount]
      · exact absurd ⟨index, len, expected, hconflict⟩ hnone

/-- Blocks of a single row, with a column of one number: the call is computed. With an empty column
and one of two numbers it is refused, and so it is without columns. -/
theorem standard_elementwise_calls_agree_in_single_rows :
    ∃ made u out, ((Registry.withoutDevice 1 ⟨0, 0, false, 0⟩ .disabled).vectorize
        ⟨"f", 2, .binary .sub (.arg 1) (.arg 0), rfl⟩ (.key .treeWalk .parallel)).value = .ok made ∧
      made.build.value = .ok u ∧
      (u.call [#[2.0], #[5.0, 1.0]]).value = .ok out ∧ out.size = 2 ∧
      ScalarFunction.Computes ⟨"f", 2, .binary .sub (.arg 1) (.arg 0), rfl⟩
        [#[2.0], #[5.0, 1.0]] out ∧
      (u.call [#[], #[5.0, 1.0]]).value = .error (.call (.lengthMismatch 1 2 0)) ∧
      (u.call []).value = .error (.call (.arityMismatch 2 0)) := by
  obtain ⟨hkeys, result, hentries, hcalls⟩ :=
    standard_elementwise_calls_agree 1 ⟨0, 0, false, 0⟩ .disabled
      ⟨"f", 2, .binary .sub (.arg 1) (.arg 0), rfl⟩
  obtain ⟨made, u, hmade, hbuild, hcall⟩ := hentries .treeWalk .parallel (by rw [hkeys]; decide)
  have hagree : ¬∃ index len expected, LengthConflict [#[2.0], #[5.0, 1.0]] index len expected := by
    rintro ⟨index, len, expected, hconflict⟩
    exact hconflict.not_agree (n := 2) rfl (by decide)
  have hconflict : LengthConflict [#[], #[5.0, 1.0]] 1 2 0 :=
    ⟨rfl, rfl, by decide, by decide, by decide⟩
  obtain ⟨out, hout, hcomputes⟩ := ((hcalls [#[2.0], #[5.0, 1.0]]).2 rfl).2 hagree
  refine ⟨made, u, out, hmade, hbuild, (hcall _).trans hout, hcomputes.size_eq, hcomputes, ?_, ?_⟩
  · exact (hcall _).trans (((hcalls [#[], #[5.0, 1.0]]).2 rfl).1 1 2 0 hconflict)
  · exact (hcall _).trans ((hcalls []).1 (by decide))

end ArrayKernels
