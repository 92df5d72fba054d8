import ArrayKernels.Proofs.Blocks

/-!
# Runs in windows

A run in windows has one scratch column for each column of the call and uses it again in every
window: it is emptied, and then filled with the rows of the next window. Here the run is written out
as the loop that it is, with the state that one turn hands on to the next: the first row that is
left, the scratch columns as they are, and the result so far. What an earlier window has left in
the scratch columns does not matter, and the loop gives what the serial run gives.

## Layers

- **Scratch columns**: filling one, whatever is in it.
- **The loop**: its state, its turns, and the states that it reaches.
- **Turns**: what holds at the beginning of every turn, and that a turn keeps it.

## Main results

- `Column.refill_eq_stage`: a scratch column is filled as if it were new.
- `Staging.OnTrack.turn`: what a turn of the loop keeps.
- `windows_agree`: a run in windows gives what the serial run gives.
-/

namespace ArrayKernels

/-! ## Scratch columns -/

namespace Column

/-- Without its numbers. -/
def clear (column : Column) : Column := column.take 0

/-- With that length: numbers behind it are cut off, and copies of a number fill up what is
missing. -/
def resize (column : Column) (length : Nat) (x : Float) : Column :=
  column.take length ++ Array.replicate (length - column.size) x

/-- The scratch column with the rows of a window in place of what has been in it. -/
def refill (window : Span) (column scratch : Column) : Option Column :=
  if column.size = 1 then (column[0]?).map fun x => scratch.clear.resize window.length x
  else if window.stop ≤ column.size then
    some (scratch.clear ++ column.extract window.first window.stop)
  else none

theorem clear_eq (column : Column) : column.clear = #[] := by
  simp [clear]

/-- **A scratch column is filled as if it were new.** -/
theorem refill_eq_stage (window : Span) (column scratch : Column) :
    refill window column scratch = stage window column := by
  rw [refill, stage, clear_eq, Array.empty_append]
  simp [resize]

end Column

/-! ## The loop -/

/-- Where a run in windows stands. -/
structure Staging where
  /-- The first row that is left. -/
  first : Nat
  /-- The scratch columns, as the window before has left them. -/
  scratch : List Column
  /-- The result so far. -/
  out : Column

namespace Staging

/-- Empty scratch columns, and room for the result. -/
def start (columns : List Column) (len : Nat) : Staging :=
  ⟨0, columns.map fun _ => #[], Array.replicate len 0.0⟩

section Loop

variable (size : Nat) (kernel : Kernel) (columns : List Column) (len : Nat)

/-- The rows that come next. -/
def window (s : Staging) : Span := ⟨s.first, Nat.min (s.first + Nat.max size 1) len⟩

/-- Fills the scratch columns with the rows that come next. -/
def refill (s : Staging) : Option (List Column) :=
  (columns.zip s.scratch).mapM fun (column, scratch) => column.refill (s.window size len) scratch

/-- One turn of the loop. -/
def turn (s : Staging) : Option Staging := do
  let window := s.window size len
  let scratch ← s.refill size columns len
  let values ← kernel.onSpan scratch ⟨0, window.length⟩
  return ⟨window.stop, scratch, writeAt s.out window.first values⟩

theorem turn_eq_some_iff {s next : Staging} :
    s.turn size kernel columns len = some next ↔
      ∃ scratch values, s.refill size columns len = some scratch ∧
        kernel.onSpan scratch ⟨0, (s.window size len).length⟩ = some values ∧
        next = ⟨(s.window size len).stop, scratch, writeAt s.out s.first values⟩ := by
  simp only [turn, Option.bind_eq_bind, Option.bind_eq_some_iff]
  constructor
  · rintro ⟨scratch, hscratch, values, hvalues, hnext⟩
    cases hnext
    exact ⟨scratch, values, hscratch, hvalues, rfl⟩
  · rintro ⟨scratch, values, hscratch, hvalues, rfl⟩
    exact ⟨scratch, hscratch, values, hvalues, rfl⟩

/-- A turn takes at least one row, if there are rows left. -/
theorem lt_stop_window {s : Staging} (hleft : s.first < len) : s.first < (s.window size len).stop := by
  have hsize : 1 ≤ Nat.max size 1 := Nat.le_max_right _ _
  exact Nat.lt_min.mpr ⟨by omega, hleft⟩

/-- The loop: it goes on as long as rows are left. -/
def finish (s : Staging) : Option Staging :=
  if s.first < len then
    match _ : s.turn size kernel columns len with
    | some next => next.finish
    | none => none
  else some s
termination_by len - s.first
decreasing_by
  have hturn := ‹s.turn size kernel columns len = some next›
  obtain ⟨scratch, values, -, -, rfl⟩ := (turn_eq_some_iff size kernel columns len).mp hturn
  have hless := lt_stop_window size len ‹s.first < len›
  simp only
  omega

/-- The states at which the loop arrives, with the number of turns until then. -/
inductive Reached : Nat → Staging → Prop where
  | start : Reached 0 (start columns len)
  | turn {n : Nat} {s next : Staging} : Reached n s → s.first < len →
      s.turn size kernel columns len = some next → Reached (n + 1) next

end Loop

end Staging

/-! ## Turns -/

namespace Staging

section Turns

variable {size : Nat} {kernel : Kernel} {columns : List Column} {len n : Nat} {s next : Staging}

/-- There is a scratch column for each column, and the rows up to the first one that is left have
their values in the result. -/
structure OnTrack (size : Nat) (kernel : Kernel) (columns : List Column) (len n : Nat)
    (s : Staging) : Prop where
  first_eq : s.first = Nat.min (n * Nat.max size 1) len
  length_scratch : s.scratch.length = columns.length
  size_out : s.out.size = len
  rows : ∀ i < s.first, kernel.inRow columns i = s.out[i]?

/-- The numbers that are in the scratch columns do not matter. -/
theorem refill_eq (h : s.scratch.length = columns.length) :
    s.refill size columns len = columns.mapM (stage (s.window size len)) := by
  simp only [refill, Column.refill_eq_stage]
  have hfirst : (columns.zip s.scratch).map Prod.fst = columns := List.map_fst_zip (Nat.le_of_eq h.symm)
  conv_rhs => rw [← hfirst, List.mapM_map]
  rfl

/-- **The scratch columns can be filled**, and then they show the rows that come next. -/
theorem exists_refill
    (hcolumns : ∀ column ∈ columns, Array.size column = 1 ∨ len ≤ Array.size column)
    (h : s.scratch.length = columns.length) :
    ∃ scratch, s.refill size columns len = some scratch ∧
      List.Forall₂ (s.window size len).Shows columns scratch := by
  have hstop : (s.window size len).stop ≤ len := Nat.min_le_right _ _
  have hrows : ∀ column ∈ columns, ∀ i < (s.window size len).stop,
      ∃ x, Column.at? column i = some x := fun column hcolumn i hi =>
    Column.exists_at? ((hcolumns column hcolumn).imp id fun hlong => by omega)
  obtain ⟨scratch, hscratch⟩ := exists_forall₂ fun column hcolumn => stage_ok (hrows column hcolumn)
  refine ⟨scratch, ?_, hscratch.imp fun _ _ h => h.2⟩
  rw [refill_eq h]
  exact mapM_eq_some_iff.mpr (hscratch.imp fun _ _ h => h.1)

theorem onTrack_start : (start columns len).OnTrack size kernel columns len 0 :=
  { first_eq := by simp [start]
    length_scratch := by simp [start]
    size_out := by simp [start]
    rows := fun i hi => absurd hi (Nat.not_lt_zero i) }

/-- As long as rows are left, the next one is the first of a window. -/
theorem OnTrack.left_iff (h : s.OnTrack size kernel columns len n) :
    s.first < len ↔ n * Nat.max size 1 < len := by
  have hfirst : s.first = min (n * Nat.max size 1) len := h.first_eq
  omega

theorem OnTrack.first_of_left (h : s.OnTrack size kernel columns len n) (hleft : s.first < len) :
    s.first = n * Nat.max size 1 := by
  have hfirst : s.first = min (n * Nat.max size 1) len := h.first_eq
  omega

/-- **A turn keeps the loop on track.** -/
theorem OnTrack.turn
    (hcolumns : ∀ column ∈ columns, Array.size column = 1 ∨ len ≤ Array.size column)
    (h : s.OnTrack size kernel columns len n) (hleft : s.first < len)
    (hturn : s.turn size kernel columns len = some next) :
    next.OnTrack size kernel columns len (n + 1) := by
  obtain ⟨scratch, values, hscratch, hvalues, rfl⟩ :=
    (turn_eq_some_iff size kernel columns len).mp hturn
  obtain ⟨scratch', hscratch', hshows⟩ := exists_refill hcolumns h.length_scratch
  obtain rfl : scratch' = scratch := Option.some.inj (hscratch'.symm.trans hscratch)
  rw [Kernel.onSpan_of_shows hshows] at hvalues
  have hstop : (s.window size len).stop ≤ len := Nat.min_le_right _ _
  have hlength := Kernel.length_onSpan hvalues
  refine
    { first_eq := ?_
      length_scratch := hshows.length_eq.symm
      size_out := by rw [size_writeAt, h.size_out]
      rows := fun i hi => ?_ }
  · simp only [window, h.first_of_left hleft, Nat.succ_mul]
  · by_cases hold : i < s.first
    · -- the window lies behind the rows that have been computed before
      rw [h.rows i hold, getElem?_writeAt_of_not_mem _ _ (.inl hold)]
    · have hi : i < (s.window size len).stop := hi
      have hplace : s.first + (i - s.first) = i := by omega
      have hin : i - s.first < (s.window size len).length := by
        change i - s.first < (s.window size len).stop - s.first
        omega
      have hvalue : values[i - s.first]? = kernel.inRow columns i := by
        rw [Kernel.getElem?_onSpan hvalues hin]
        exact congrArg _ hplace
      have hx := List.getElem?_eq_getElem (hlength ▸ hin)
      have hroom : s.first + (i - s.first) < s.out.size := by
        rw [hplace, h.size_out]
        omega
      rw [← hvalue, hx, ← getElem?_writeAt s.out hx hroom, hplace]

/-- **All states at which the loop arrives are on track.** -/
theorem Reached.onTrack
    (hcolumns : ∀ column ∈ columns, Array.size column = 1 ∨ len ≤ Array.size column)
    (h : Reached size kernel columns len n s) : s.OnTrack size kernel columns len n := by
  induction h with
  | start => exact onTrack_start
  | turn _ hleft hturn ih => exact ih.turn hcolumns hleft hturn

/-- If the loop comes to an end, this is one of the states at which it arrives, with no rows left. -/
theorem Reached.finish {last : Staging} (h : Reached size kernel columns len n s)
    (hfinish : s.finish size kernel columns len = some last) :
    ∃ turns, Reached size kernel columns len turns last ∧ ¬last.first < len := by
  fun_induction Staging.finish size kernel columns len s generalizing n with
  | case1 s hleft next hturn ih => exact ih (h.turn hleft hturn) hfinish
  | case2 s hleft hturn => cases hfinish
  | case3 s hdone =>
    cases hfinish
    exact ⟨n, h, hdone⟩

/-- **The loop gives what the serial run gives.** -/
theorem OnTrack.finish_eq
    (hcolumns : ∀ column ∈ columns, Array.size column = 1 ∨ len ≤ Array.size column)
    (h : s.OnTrack size kernel columns len n) :
    (s.finish size kernel columns len).map out = runSerial kernel columns len := by
  fun_induction finish size kernel columns len s generalizing n with
  | case1 s hleft next hturn ih => exact ih (h.turn hcolumns hleft hturn)
  | case2 s hleft hturn =>
    -- the scratch columns are there, so it is the kernel that fails
    obtain ⟨scratch, hscratch, hshows⟩ := exists_refill hcolumns h.length_scratch
    have hfail : kernel.onSpan columns (s.window size len) = none := by
      rw [← Kernel.onSpan_of_shows hshows]
      by_contra hsome
      obtain ⟨values, hvalues⟩ := Option.ne_none_iff_exists'.mp hsome
      have hnext := (turn_eq_some_iff size kernel columns len).mpr
        ⟨scratch, values, hscratch, hvalues, rfl⟩
      cases hturn.symm.trans hnext
    rcases kernel.evaluates_or_fails columns len with ⟨value, hvalue⟩ | ⟨i, hi, hnone⟩
    · cases hfail.symm.trans (hvalue.onSpan_eq (Nat.min_le_right _ _))
    · rw [runSerial_eq_none hi hnone]
      rfl
  | case3 s hdone =>
    rw [runSerial_eq_of_rows h.size_out fun i hi => h.rows i (by omega)]
    rfl

/-- What holds at the beginning of a turn, as long as rows are left. -/
structure Begins (size : Nat) (kernel : Kernel) (columns : List Column) (len n : Nat)
    (s : Staging) : Prop where
  /-- The rows that come next are those of the next window. -/
  window : (windows size len 0)[n]? = some (s.window size len)
  /-- The end of a window of full length is a word. -/
  word : s.first + Nat.max size 1 < wordBound
  /-- The scratch columns are filled with the rows of the window, and nothing else is in them; on
  these columns the kernel gives what it gives in the window. -/
  filled : ∃ scratch, s.refill size columns len = some scratch ∧
    List.Forall₂ (s.window size len).Shows columns scratch ∧
    kernel.onSpan scratch ⟨0, (s.window size len).length⟩ =
      kernel.onSpan columns (s.window size len)

/-- **What holds at the beginning of every turn.** -/
theorem OnTrack.begins (hsize : size < wordBound) (hlen : 8 * len ≤ addressableBytes)
    (hcolumns : ∀ column ∈ columns, Array.size column = 1 ∨ len ≤ Array.size column)
    (h : s.OnTrack size kernel columns len n) (hleft : s.first < len) :
    s.Begins size kernel columns len n := by
  have hwidth : 0 < Nat.max size 1 := Nat.le_max_right _ _
  have hfirst := h.first_of_left hleft
  obtain ⟨scratch, hscratch, hshows⟩ := exists_refill hcolumns h.length_scratch
  refine
    { window := ?_
      word := ?_
      filled := ⟨scratch, hscratch, hshows, Kernel.onSpan_of_shows hshows⟩ }
  · rw [windows_eq_blocks, getElem?_blocks_eq_some_iff hwidth, Staging.window, hfirst]
    exact ⟨hfirst ▸ hleft, rfl⟩
  · have hwidth_word : Nat.max size 1 < wordBound := Nat.max_lt.mpr ⟨hsize, by decide⟩
    have hroom : 2 * addressableBytes < 8 * wordBound := by decide
    cases n with
    | zero => omega
    | succ n =>
      -- the windows before have the full length, so no window is longer than all rows
      rw [Nat.succ_mul] at hfirst
      omega

end Turns

end Staging

/-! ## Runs -/

/-- **A run in windows comes to an end and gives what the serial run gives**, for every length of a
window, also for kernels that fail in some rows. The windows are made of all rows, each once and in
their order. The loop makes one turn for each of them and then ends, unless the kernel fails; at the
beginning of every turn, whatever the turn before has left, the scratch columns are filled with the
rows of the window, and no position on the way is larger than a word. -/
theorem windows_agree {size : Nat} (hsize : size < wordBound) {len : Nat}
    (hlen : 8 * len ≤ addressableBytes) (kernel : Kernel) {columns : List Column}
    (hcolumns : ∀ column ∈ columns, Array.size column = 1 ∨ len ≤ Array.size column) :
    (windows size len 0).flatMap Span.rows = List.range len ∧
    (∀ n s, Staging.Reached size kernel columns len n s →
      n ≤ (windows size len 0).length ∧
        (s.first < len ↔ n < (windows size len 0).length) ∧
        (s.first < len → s.Begins size kernel columns len n)) ∧
    (∀ last, (Staging.start columns len).finish size kernel columns len = some last →
      Staging.Reached size kernel columns len (windows size len 0).length last) ∧
    ((Staging.start columns len).finish size kernel columns len).map Staging.out =
      runSerial kernel columns len ∧
    runStream size kernel columns len = runSerial kernel columns len ∧
    ∀ value : Nat → Float,
      (∀ i < len, ∀ row, rowAt? columns i = some row → kernel.onRow row = some (value i)) →
      runSerial kernel columns len = some ((List.range len).map value).toArray := by
  have hwidth : 0 < Nat.max size 1 := Nat.le_max_right _ _
  have hcount : (windows size len 0).length = ceilDiv len (Nat.max size 1) := by
    rw [windows_eq_blocks, length_blocks]
  have hleft {n : Nat} {s : Staging} (h : Staging.Reached size kernel columns len n s) :
      s.first < len ↔ n < (windows size len 0).length := by
    rw [hcount, lt_ceilDiv_iff hwidth, (h.onTrack hcolumns).left_iff]
  have hturns {n : Nat} {s : Staging} (h : Staging.Reached size kernel columns len n s) :
      n ≤ (windows size len 0).length := by
    -- a turn is made only if there is a window for it
    cases h with
    | start => exact Nat.zero_le _
    | turn hbefore hfirst _ => exact (hleft hbefore).mp hfirst
  refine ⟨?_, fun n s hreached => ⟨hturns hreached, hleft hreached,
    (hreached.onTrack hcolumns).begins hsize hlen hcolumns⟩, fun last hfinish => ?_,
    Staging.onTrack_start.finish_eq hcolumns, runStream_eq_runSerial size hcolumns,
    fun value hvalue => runSerial_eq (Kernel.evaluates_of_columns hcolumns hvalue)⟩
  · rw [flatMap_rows_windows, Nat.sub_zero, ← List.range_eq_range']
  · obtain ⟨turns, hlast, hdone⟩ := Staging.Reached.start.finish hfinish
    obtain rfl : turns = (windows size len 0).length :=
      Nat.le_antisymm (hturns hlast) (Nat.not_lt.mp (mt (hleft hlast).mpr hdone))
    exact hlast

/-- Windows of two rows for three rows, so that the last window has a single row, which makes the
scratch column of a long column look like one that stands for a single number. -/
theorem windows_agree_with_single_row :
    (windows 2 3 0).map Span.length = [2, 1] ∧
      ((Staging.start [#[5.0, 1.0, 4.0, 2.0], #[2.0]] 3).finish 2
        (.apply₂ (· - ·) (.argument 0) (.argument 1)) [#[5.0, 1.0, 4.0, 2.0], #[2.0]] 3).map
          Staging.out = some #[3.0, -1.0, 2.0] := by
  have hsize : 2 < wordBound := by decide
  have hlen : 8 * 3 ≤ addressableBytes := by decide
  have hcolumns : ∀ column ∈ ([#[5.0, 1.0, 4.0, 2.0], #[2.0]] : List Column),
      Array.size column = 1 ∨ 3 ≤ Array.size column := by decide
  obtain ⟨-, -, -, hloop, -, -⟩ := windows_agree hsize hlen
    (.apply₂ (· - ·) (.argument 0) (.argument 1)) hcolumns
  have hlengths : (windows 2 3 0).map Span.length = [2, 1] := by
    rw [windows_eq_blocks]
    decide
  exact ⟨hlengths, hloop⟩

end ArrayKernels
