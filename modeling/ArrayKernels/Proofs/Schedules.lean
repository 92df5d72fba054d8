import ArrayKernels.Elementwise.Schedule
import ArrayKernels.Proofs.Traversal

/-!
# Schedules

The three schedules take the rows of a call in different portions, and one of them takes them from
scratch columns. In which portion a row is computed does not matter, as long as there is one. A call
whose kernel has no value in some row has no result, under every schedule.

## Layers

- **Spans**: the values of the rows of a span.
- **Blocks**: the blocks reach every row, and they may run in any order.
- **Windows**: a row of the scratch columns is a row of the columns, also where a window of one row
  makes a scratch column look like one that stands for a single number.

## Main results

- `runBlocks_eq_runSerial`: blocks in any order that reach every row.
- `runStream_eq_runSerial`: windows that are computed on scratch columns.
- `Schedule.run_eq`: every schedule gives the values of all rows, in their order.
-/

namespace ArrayKernels

variable {kernel : Kernel} {columns : List Column} {len : Nat} {value : Nat → Float}

/-! ## Spans -/

/-- A column has a number in every row if it stands for one number, and else in as many rows as it is
long. -/
theorem Column.exists_at? {column : Column} {i : Nat} (h : column.size = 1 ∨ i < column.size) :
    ∃ x, column.at? i = some x := by
  by_cases hsingle : column.size = 1
  · refine ⟨column[0], ?_⟩
    rw [at?, if_pos hsingle, Array.getElem?_eq_getElem]
  · have hlt : i < column.size := h.resolve_left hsingle
    refine ⟨column[i], ?_⟩
    rw [at?, if_neg hsingle, Array.getElem?_eq_getElem]

/-- Where all columns have a number, there is a row. -/
theorem exists_rowAt?_of_columns {i : Nat}
    (h : ∀ column ∈ columns, Array.size column = 1 ∨ i < Array.size column) :
    ∃ row, rowAt? columns i = some row ∧ row.length = columns.length := by
  obtain ⟨row, hrow⟩ := exists_forall₂ fun column hcolumn => Column.exists_at? (h column hcolumn)
  exact ⟨row, mapM_eq_some_iff.mpr hrow, hrow.length_eq.symm⟩

/-- The kernel gives that value in every row before `len`. -/
def Kernel.Evaluates (kernel : Kernel) (columns : List Column) (len : Nat) (value : Nat → Float) :
    Prop :=
  ∀ i < len, ∃ row, rowAt? columns i = some row ∧ kernel.onRow row = some (value i)

theorem Span.mem_rows {s : Span} {i : Nat} : i ∈ s.rows ↔ s.first ≤ i ∧ i < s.stop := by
  rw [rows, length, List.mem_range'_1]
  omega

theorem Span.rows_zero (stop : Nat) : (⟨0, stop⟩ : Span).rows = List.range stop := by
  rw [rows, length, Nat.sub_zero, ← List.range_eq_range']

theorem Kernel.Evaluates.onSpan_eq (h : kernel.Evaluates columns len value) {span : Span}
    (hstop : span.stop ≤ len) : kernel.onSpan columns span = some (span.rows.map value) := by
  rw [Kernel.onSpan, mapM_eq_some_iff, List.forall₂_map_right_iff, List.forall₂_same]
  intro i hi
  obtain ⟨row, hrow, hvalue⟩ := h i (by have := Span.mem_rows.mp hi; omega)
  simp only [hrow, Option.bind_eq_bind, Option.bind_some, hvalue]

/-- The value of the kernel in a row, if the row is there and the kernel has a value. -/
def Kernel.inRow (kernel : Kernel) (columns : List Column) (i : Nat) : Option Float := do
  kernel.onRow (← rowAt? columns i)

/-- Either the kernel has a value in every row, or it fails in one of them. -/
theorem Kernel.evaluates_or_fails (kernel : Kernel) (columns : List Column) (len : Nat) :
    (∃ value, kernel.Evaluates columns len value) ∨ ∃ i < len, kernel.inRow columns i = none := by
  by_cases h : ∃ i < len, kernel.inRow columns i = none
  · exact .inr h
  · refine .inl ⟨fun i => (kernel.inRow columns i).getD 0.0, fun i hi => ?_⟩
    have hsome : kernel.inRow columns i ≠ none := fun hfail => h ⟨i, hi, hfail⟩
    obtain ⟨x, hx⟩ := Option.ne_none_iff_exists'.mp hsome
    obtain ⟨row, hrow, hvalue⟩ := Option.bind_eq_some_iff.mp hx
    exact ⟨row, hrow, by simp only [hvalue, hx, Option.getD_some]⟩

/-- A span has no values if the kernel fails in one of its rows. -/
theorem Kernel.onSpan_eq_none {span : Span} {i : Nat} (hi : i ∈ span.rows)
    (hfail : kernel.inRow columns i = none) : kernel.onSpan columns span = none :=
  mapM_eq_none hi hfail

/-- The values of a span are those of its rows. -/
theorem Kernel.getElem?_onSpan {span : Span} {values : List Float}
    (h : kernel.onSpan columns span = some values) {i : Nat} (hi : i < span.length) :
    values[i]? = kernel.inRow columns (span.first + i) := by
  have hrow : span.rows[i]? = some (span.first + i) := by
    rw [Span.rows, List.getElem?_range' hi, Nat.one_mul]
  obtain ⟨x, hx, hvalue⟩ := forall₂_getElem? (mapM_eq_some_iff.mp h) hrow
  exact hx.trans hvalue.symm

theorem Kernel.length_onSpan {span : Span} {values : List Float}
    (h : kernel.onSpan columns span = some values) : values.length = span.length := by
  rw [← (mapM_eq_some_iff.mp h).length_eq, Span.rows, List.length_range']

theorem runSerial_eq (h : kernel.Evaluates columns len value) :
    runSerial kernel columns len = some ((List.range len).map value).toArray := by
  have hspan : kernel.onSpan columns ⟨0, len⟩ = some ((Span.rows ⟨0, len⟩).map value) :=
    h.onSpan_eq (Nat.le_refl len)
  rw [Span.rows_zero] at hspan
  simp only [runSerial, hspan, Option.bind_eq_bind, Option.bind_some]
  rfl

theorem runSerial_eq_none {i : Nat} (hi : i < len) (hfail : kernel.inRow columns i = none) :
    runSerial kernel columns len = none := by
  have hspan : kernel.onSpan columns ⟨0, len⟩ = none :=
    Kernel.onSpan_eq_none (Span.mem_rows.mpr ⟨Nat.zero_le i, hi⟩) hfail
  rw [runSerial, hspan]
  rfl

/-- A kernel with a value for every row of arguments evaluates columns that are long enough. -/
theorem Kernel.evaluates_of_columns
    (hcolumns : ∀ column ∈ columns, Array.size column = 1 ∨ len ≤ Array.size column)
    (hvalue : ∀ i < len, ∀ row, rowAt? columns i = some row → kernel.onRow row = some (value i)) :
    kernel.Evaluates columns len value := by
  intro i hi
  have hreach : ∀ column ∈ columns, Array.size column = 1 ∨ i < Array.size column :=
    fun column hcolumn => (hcolumns column hcolumn).imp id (Nat.lt_of_lt_of_le hi)
  obtain ⟨row, hrow, -⟩ := exists_rowAt?_of_columns hreach
  exact ⟨row, hrow, hvalue i hi row hrow⟩

/-- A result with the value of every row in its place is that of the serial run. -/
theorem runSerial_eq_of_rows {out : Column} (hsize : out.size = len)
    (hrows : ∀ i < len, kernel.inRow columns i = out[i]?) :
    runSerial kernel columns len = some out := by
  have hspan : kernel.onSpan columns ⟨0, len⟩ = some out.toList := by
    rw [Kernel.onSpan, mapM_eq_some_iff, Span.rows_zero, List.forall₂_iff_get]
    refine ⟨by simp [hsize], fun i hi hi' => ?_⟩
    have hrow := hrows i (by simpa using hi)
    rw [Array.getElem?_eq_getElem (by simpa using hi'), Kernel.inRow] at hrow
    simpa using hrow
  rw [runSerial, hspan]
  rfl

/-! ## Blocks -/

theorem size_writeAt (out : Column) (first : Nat) (xs : List Float) :
    (writeAt out first xs).size = out.size := by
  induction xs generalizing out first with
  | nil => rfl
  | cons x xs ih => rw [writeAt, ih, Array.size_setIfInBounds]

/-- Writing leaves everything alone that is not in the span. -/
theorem getElem?_writeAt_of_not_mem (out : Column) {first i : Nat} (xs : List Float)
    (hi : i < first ∨ first + xs.length ≤ i) : (writeAt out first xs)[i]? = out[i]? := by
  induction xs generalizing out first with
  | nil => rfl
  | cons x xs ih =>
    rw [List.length_cons] at hi
    rw [writeAt, ih _ (by omega), Array.getElem?_setIfInBounds_ne (by omega)]

theorem getElem?_writeAt (out : Column) {first i : Nat} {xs : List Float} {x : Float}
    (hx : xs[i]? = some x) (hi : first + i < out.size) :
    (writeAt out first xs)[first + i]? = some x := by
  induction xs generalizing out first i with
  | nil => cases hx
  | cons y xs ih =>
    cases i with
    | zero =>
      cases hx
      -- what is written after it does not reach back to the first place
      rw [writeAt, getElem?_writeAt_of_not_mem _ _ (by omega), Nat.add_zero,
        Array.getElem?_setIfInBounds_self_of_lt (by omega)]
    | succ i =>
      have hnext : first + (i + 1) = first + 1 + i := by omega
      rw [writeAt, hnext]
      exact ih _ hx (by rw [Array.size_setIfInBounds]; omega)

/-- A block writes the values of its rows and leaves the others alone. -/
theorem getElem?_writeAt_rows (out : Column) (block : Span) {i : Nat} (hi : i < out.size) :
    (writeAt out block.first (block.rows.map value))[i]? =
      if i ∈ block.rows then some (value i) else out[i]? := by
  split
  · next hmem =>
    have hbounds := Span.mem_rows.mp hmem
    have hplace : block.first + (i - block.first) = i := by omega
    have hx : (block.rows.map value)[i - block.first]? = some (value i) := by
      rw [List.getElem?_map, Span.rows, List.getElem?_range' (by rw [Span.length]; omega),
        Option.map_some, Nat.one_mul, hplace]
    have hinside : block.first + (i - block.first) < out.size := by omega
    have hwritten := getElem?_writeAt out hx hinside
    rwa [hplace] at hwritten
  · next hmem =>
    refine getElem?_writeAt_of_not_mem _ _ ?_
    rw [Span.mem_rows] at hmem
    rw [List.length_map, Span.rows, List.length_range', Span.length]
    omega

/-- A place of the result is right if it was right before or belongs to one of the blocks. -/
theorem runBlocks_step (h : kernel.Evaluates columns len value) {order : List Span}
    (hstops : ∀ block ∈ order, block.stop ≤ len) {out : Column} (hsize : out.size = len) :
    ∃ out', runBlocks kernel columns order out = some out' ∧ out'.size = len ∧
      ∀ i < len, (out[i]? = some (value i) ∨ ∃ block ∈ order, i ∈ block.rows) →
        out'[i]? = some (value i) := by
  induction order generalizing out with
  | nil => exact ⟨out, rfl, hsize, fun i _ hi => hi.resolve_right (by simp)⟩
  | cons block order ih =>
    obtain ⟨hstop, hstops⟩ := List.forall_mem_cons.mp hstops
    let next := writeAt out block.first (block.rows.map value)
    have hnext : next.size = len := by rw [size_writeAt, hsize]
    obtain ⟨out', hrun, hsize', hvalues⟩ := ih hstops hnext
    refine ⟨out', ?_, hsize', fun i hi hcase => hvalues i hi ?_⟩
    · rw [← hrun]
      simp only [runBlocks, List.foldlM_cons, h.onSpan_eq hstop, Option.bind_eq_bind,
        Option.bind_some]
      rfl
    · -- after this block, the place is right already or belongs to a later one
      rw [getElem?_writeAt_rows out block (by omega)]
      split
      · exact .inl rfl
      · next hmem =>
        refine hcase.imp id fun ⟨other, hother, hrows⟩ => ?_
        rcases List.mem_cons.mp hother with rfl | hrest
        · exact absurd hrows hmem
        · exact ⟨other, hrest, hrows⟩

/-- **Blocks may run in any order**, and even more than once, if they reach every row. -/
theorem runBlocks_eq (h : kernel.Evaluates columns len value) {order : List Span}
    (hstops : ∀ block ∈ order, block.stop ≤ len)
    (hcover : ∀ i < len, ∃ block ∈ order, i ∈ block.rows) :
    runBlocks kernel columns order (Array.replicate len 0.0) =
      some ((List.range len).map value).toArray := by
  obtain ⟨out, hrun, hsize, hvalues⟩ := runBlocks_step h hstops (Array.size_replicate (v := 0.0))
  rw [hrun]
  congr 1
  -- the result has the right length, and every row is reached
  refine Array.ext' (List.ext_getElem? fun i => ?_)
  rw [Array.getElem?_toList]
  by_cases hi : i < len
  · rw [hvalues i hi (.inr (hcover i hi))]
    simp [hi]
  · rw [Array.getElem?_eq_none (by omega), List.getElem?_eq_none (by simp; omega)]

/-- The blocks fail if the kernel fails in a row of one of them. -/
theorem runBlocks_eq_none {order : List Span} {i : Nat} (hi : ∃ block ∈ order, i ∈ block.rows)
    (hfail : kernel.inRow columns i = none) (out : Column) :
    runBlocks kernel columns order out = none := by
  induction order generalizing out with
  | nil => simp at hi
  | cons block order ih =>
    unfold runBlocks
    rw [List.foldlM_cons]
    by_cases hblock : i ∈ block.rows
    · rw [Kernel.onSpan_eq_none hblock hfail]
      rfl
    · -- the blocks before the first one with this row change nothing about its failure
      have hrest : ∃ other ∈ order, i ∈ other.rows := by
        obtain ⟨other, hother, hrows⟩ := hi
        rcases List.mem_cons.mp hother with rfl | hmem
        · exact absurd hrows hblock
        · exact ⟨other, hmem, hrows⟩
      cases kernel.onSpan columns block with
      | none => rfl
      | some values => exact ih hrest _

/-- **Blocks in any order give what the serial run gives**, also where the kernel fails, if they
reach every row. -/
theorem runBlocks_eq_runSerial {order : List Span} (hstops : ∀ block ∈ order, block.stop ≤ len)
    (hcover : ∀ i < len, ∃ block ∈ order, i ∈ block.rows) :
    runBlocks kernel columns order (Array.replicate len 0.0) = runSerial kernel columns len := by
  rcases kernel.evaluates_or_fails columns len with ⟨value, h⟩ | ⟨i, hi, hfail⟩
  · rw [runBlocks_eq h hstops hcover, runSerial_eq h]
  · rw [runBlocks_eq_none (hcover i hi) hfail, runSerial_eq_none hi hfail]

theorem blockLength_pos (workers minBlock len : Nat) : 0 < blockLength workers minBlock len := by
  have hmin : 1 ≤ Nat.max minBlock 1 := Nat.le_max_right _ _
  exact Nat.lt_of_lt_of_le hmin (Nat.le_max_right _ _)

theorem stop_le_of_mem_blocks {length len : Nat} {block : Span} (h : block ∈ blocks length len) :
    block.stop ≤ len := by
  obtain ⟨n, -, rfl⟩ := List.mem_map.mp h
  exact Nat.min_le_right _ _

/-- The blocks reach every row: a row belongs to the block whose number is its quotient by the
length of a block. -/
theorem exists_mem_blocks {length len : Nat} (hlength : 0 < length) {i : Nat} (hi : i < len) :
    ∃ block ∈ blocks length len, i ∈ block.rows := by
  have hquot : i / length < ceilDiv len length := by
    rw [ceilDiv, Nat.div_lt_iff_lt_mul hlength]
    have hround := Nat.div_add_mod (len + length - 1) length
    have hrest := Nat.mod_lt (len + length - 1) hlength
    rw [Nat.mul_comm] at hround
    omega
  refine ⟨_, List.mem_map.mpr ⟨i / length, List.mem_range.mpr hquot, rfl⟩, Span.mem_rows.mpr ?_⟩
  have hsplit := Nat.div_add_mod i length
  have hrest := Nat.mod_lt i hlength
  rw [Nat.mul_comm] at hsplit
  exact ⟨by simp only; omega, Nat.lt_min.mpr ⟨by omega, hi⟩⟩

theorem runParallel_eq (workers minBlock : Nat) (h : kernel.Evaluates columns len value) :
    runParallel workers minBlock kernel columns len =
      some ((List.range len).map value).toArray :=
  runBlocks_eq h (fun _ => stop_le_of_mem_blocks) fun _ =>
    exists_mem_blocks (blockLength_pos workers minBlock len)

/-! ## Windows -/

theorem stop_le_of_mem_windows {size len first : Nat} {window : Span}
    (h : window ∈ windows size len first) : window.stop ≤ len := by
  fun_induction windows size len first with
  | case1 first hlt stop ih =>
    rcases List.mem_cons.mp h with rfl | hrest
    · exact Nat.min_le_right _ _
    · exact ih hrest
  | case2 first hge => cases h

/-- The windows are made of all rows, each once and in their order. -/
theorem flatMap_rows_windows (size len first : Nat) :
    (windows size len first).flatMap Span.rows = List.range' first (len - first) := by
  fun_induction windows size len first with
  | case1 first hlt stop ih =>
    -- every window begins where the one before it stops
    have hstep : 1 ≤ Nat.max size 1 := Nat.le_max_right _ _
    have hfirst : first ≤ stop := Nat.le_min.mpr ⟨by omega, by omega⟩
    have hstop : stop ≤ len := Nat.min_le_right _ _
    rw [List.flatMap_cons, ih, Span.rows, Span.length]
    have happend : List.range' first (stop - first) ++ List.range' (first + 1 * (stop - first))
        (len - stop) = List.range' first (stop - first + (len - stop)) := List.range'_append
    have hnext : first + 1 * (stop - first) = stop := by omega
    have hcount : stop - first + (len - stop) = len - first := by omega
    rwa [hnext, hcount] at happend
  | case2 first hge =>
    rw [show len - first = 0 by omega]
    rfl

/-- A scratch column has the numbers of a column in the rows of a window, and no others. -/
structure Span.Shows (window : Span) (column scratch : Column) : Prop where
  size_eq : scratch.size = window.length
  rows : ∀ i < window.length, scratch[i]? = column.at? (window.first + i)

/-- Within a column, the number of a row is the one at its place. A column of one number has no
other row than the one at place zero. -/
theorem Column.at?_of_lt {column : Column} {i : Nat} (hi : i < column.size) :
    column.at? i = column[i]? := by
  rw [at?]
  split
  · obtain rfl : i = 0 := by omega
    rfl
  · rfl

/-- A scratch column is read like the column, also if it is as long as one that stands for a single
number. -/
theorem Span.Shows.at?_eq {window : Span} {column scratch : Column} (h : window.Shows column scratch)
    {i : Nat} (hi : i < window.length) : scratch.at? i = column.at? (window.first + i) := by
  rw [Column.at?_of_lt (h.size_eq ▸ hi), h.rows i hi]

/-- A column that has a number in every row up to the end of a window can be staged. -/
theorem stage_ok {window : Span} {column : Column}
    (hrows : ∀ i < window.stop, ∃ x, column.at? i = some x) :
    ∃ scratch, stage window column = some scratch ∧ window.Shows column scratch := by
  by_cases hsingle : column.size = 1
  · have hfirst : column[0]? = some column[0] := Array.getElem?_eq_getElem (by omega)
    refine ⟨Array.replicate window.length column[0], ?_, Array.size_replicate, fun i hi => ?_⟩
    · rw [stage, if_pos hsingle, hfirst, Option.map_some]
    · rw [Array.getElem?_replicate, if_pos hi, Column.at?, if_pos hsingle, hfirst]
  · -- a column that reaches the last row of the window can be cut there
    have hlong : window.stop ≤ column.size := by
      by_contra hshort
      obtain ⟨x, hx⟩ := hrows (window.stop - 1) (by omega)
      rw [Column.at?, if_neg hsingle, Array.getElem?_eq_none (by omega)] at hx
      cases hx
    refine ⟨column.extract window.first window.stop, ?_, ?_, fun i hi => ?_⟩
    · rw [stage, if_neg hsingle, if_pos hlong]
    · rw [Array.size_extract, Nat.min_eq_left hlong, Span.length]
    · rw [Array.getElem?_extract, if_pos (by rw [Nat.min_eq_left hlong]; exact hi), Column.at?,
        if_neg hsingle]

/-- The numbers of a row, from any columns that have the same numbers there. -/
theorem rowAt?_congr {columns columns' : List Column} {i j : Nat}
    (h : List.Forall₂ (fun column column' => Column.at? column' j = Column.at? column i) columns
      columns') : rowAt? columns' j = rowAt? columns i := by
  unfold rowAt?
  induction h with
  | nil => rfl
  | cons hcolumn _ ih => rw [List.mapM_cons, List.mapM_cons, hcolumn, ih]

/-- **On scratch columns that show a window, the kernel gives what it gives in the window.** -/
theorem Kernel.onSpan_of_shows {window : Span} {scratch : List Column}
    (h : List.Forall₂ window.Shows columns scratch) :
    kernel.onSpan scratch ⟨0, window.length⟩ = kernel.onSpan columns window := by
  have hrow : ∀ i < window.length, rowAt? scratch i = rowAt? columns (window.first + i) :=
    fun i hi => rowAt?_congr (h.imp fun _ _ hshows => hshows.at?_eq hi)
  have hshift : window.rows = (List.range window.length).map (window.first + ·) := by
    rw [Span.rows, List.range'_eq_map_range]
  rw [Kernel.onSpan, Kernel.onSpan, Span.rows_zero, hshift, List.mapM_map]
  refine mapM_congr fun i hi => ?_
  rw [Function.comp_apply, hrow i (List.mem_range.mp hi)]

theorem Kernel.Evaluates.exists_at? (h : kernel.Evaluates columns len value) {column : Column}
    (hcolumn : column ∈ columns) {i : Nat} (hi : i < len) : ∃ x, column.at? i = some x := by
  obtain ⟨row, hrow, -⟩ := h i hi
  obtain ⟨x, -, hx⟩ := exists_of_mem_left (mapM_eq_some_iff.mp hrow) hcolumn
  exact ⟨x, hx⟩

/-- The rows of a window can be run on scratch columns, if all columns have them. -/
theorem runWindow_eq_onSpan {window : Span}
    (hrows : ∀ column ∈ columns, ∀ i < window.stop, ∃ x, Column.at? column i = some x) :
    runWindow kernel columns window = kernel.onSpan columns window := by
  obtain ⟨scratch, hscratch⟩ := exists_forall₂ fun column hcolumn => stage_ok (hrows column hcolumn)
  have hstaged : columns.mapM (stage window) = some scratch :=
    mapM_eq_some_iff.mpr (hscratch.imp fun _ _ h => h.1)
  simp only [runWindow, hstaged, Option.bind_eq_bind, Option.bind_some]
  exact Kernel.onSpan_of_shows (hscratch.imp fun _ _ h => h.2)

theorem runStream_eq (size : Nat) (h : kernel.Evaluates columns len value) :
    runStream size kernel columns len = some ((List.range len).map value).toArray := by
  have hparts : (windows size len 0).mapM (runWindow kernel columns) =
      some ((windows size len 0).map fun window => window.rows.map value) := by
    rw [mapM_eq_some_iff, List.forall₂_map_right_iff, List.forall₂_same]
    intro window hwindow
    have hstop := stop_le_of_mem_windows hwindow
    rw [runWindow_eq_onSpan fun column hcolumn i hi => h.exists_at? hcolumn (by omega)]
    exact h.onSpan_eq hstop
  have hrows := flatMap_rows_windows size len 0
  rw [Nat.sub_zero, ← List.range_eq_range'] at hrows
  simp only [runStream, hparts, Option.bind_eq_bind, Option.bind_some]
  rw [← hrows, List.map_flatMap]
  rfl

/-- **Windows give what the serial run gives**, also where the kernel fails, if all columns are long
enough. -/
theorem runStream_eq_runSerial (size : Nat)
    (hcolumns : ∀ column ∈ columns, Array.size column = 1 ∨ len ≤ Array.size column) :
    runStream size kernel columns len = runSerial kernel columns len := by
  rcases kernel.evaluates_or_fails columns len with ⟨value, h⟩ | ⟨i, hi, hfail⟩
  · rw [runStream_eq size h, runSerial_eq h]
  · -- one of the windows has the row in which the kernel fails
    have hmem : i ∈ (windows size len 0).flatMap Span.rows := by
      rw [flatMap_rows_windows, Nat.sub_zero, List.mem_range'_1]
      omega
    obtain ⟨window, hwindow, hrow⟩ := List.mem_flatMap.mp hmem
    have hstop := stop_le_of_mem_windows hwindow
    have hrows : ∀ column ∈ columns, ∀ i < window.stop, ∃ x, Column.at? column i = some x :=
      fun column hcolumn i hi =>
        Column.exists_at? ((hcolumns column hcolumn).imp id fun hlong => by omega)
    have hnone : runWindow kernel columns window = none := by
      rw [runWindow_eq_onSpan hrows, Kernel.onSpan_eq_none hrow hfail]
    rw [runSerial_eq_none hi hfail, runStream, mapM_eq_none hwindow hnone]
    rfl

/-! ## All schedules -/

/-- **Every schedule gives the values of all rows**, in their order. -/
theorem Schedule.run_eq (schedule : Schedule) (h : kernel.Evaluates columns len value) :
    schedule.run kernel columns len = some ((List.range len).map value).toArray := by
  cases schedule with
  | serial => exact runSerial_eq h
  | parallel workers minBlock => exact runParallel_eq workers minBlock h
  | stream size => exact runStream_eq size h

end ArrayKernels
