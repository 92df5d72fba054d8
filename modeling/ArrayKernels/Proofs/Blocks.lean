import ArrayKernels.Kernel.Closure
import ArrayKernels.Proofs.Schedules

/-!
# Runs in blocks

The length of a block is a share of the rows for each worker, rounded up, or the least length that
the settings ask for, if that is more. Whatever the settings and the number of workers are, such
blocks divide the rows, and there are a few of them for each worker. Each block is computed from the
columns of the whole call and writes its own part of the result, so nothing depends on which block
is computed first.

## Main results

- `windows_eq_blocks`: the windows are the blocks of the length of a window.
- `flatMap_rows_blocks`: the blocks of any length are made of all rows, each once and in their order.
- `blockDivision_blockLength`: what the blocks of a run are.
- `blocks_agree_in_any_order`: a run in blocks gives what the serial run gives.
-/

namespace ArrayKernels

/-! ## Rounded quotients -/

theorem lt_ceilDiv_iff {a b n : Nat} (hb : 0 < b) : n < ceilDiv a b ↔ n * b < a := by
  rw [ceilDiv, Nat.lt_iff_add_one_le, Nat.le_div_iff_mul_le hb, Nat.succ_mul]
  omega

theorem le_ceilDiv_mul (a : Nat) {b : Nat} (hb : 0 < b) : a ≤ ceilDiv a b * b :=
  Nat.not_lt.mp (mt (lt_ceilDiv_iff hb).mpr (Nat.lt_irrefl _))

/-! ## Division into blocks -/

section Blocks

variable {length len : Nat}

theorem length_blocks (length len : Nat) : (blocks length len).length = ceilDiv len length := by
  rw [blocks, List.length_map, List.length_range]

/-- The blocks begin at the multiples of their length that are rows. -/
theorem getElem?_blocks_eq_some_iff (hlength : 0 < length) {n : Nat} {block : Span} :
    (blocks length len)[n]? = some block ↔
      n * length < len ∧ block = ⟨n * length, Nat.min (n * length + length) len⟩ := by
  rw [blocks, List.getElem?_map, Option.map_eq_some_iff, ← lt_ceilDiv_iff hlength]
  constructor
  · rintro ⟨m, hm, rfl⟩
    obtain ⟨hn, hm⟩ := List.getElem?_eq_some_iff.mp hm
    rw [List.getElem_range] at hm
    subst hm
    exact ⟨by simpa using hn, rfl⟩
  · rintro ⟨hn, rfl⟩
    exact ⟨n, List.getElem?_range hn, rfl⟩

/-- **The windows are the blocks of the length of a window.** -/
theorem windows_eq_blocks (size len : Nat) :
    windows size len 0 = blocks (Nat.max size 1) len := by
  have hsize : 0 < Nat.max size 1 := Nat.le_max_right _ _
  -- from the beginning of a block on, the windows are the blocks that are left
  have hfrom (first : Nat) : ∀ n, first = Nat.min (n * Nat.max size 1) len →
      windows size len first = (blocks (Nat.max size 1) len).drop n := by
    fun_induction windows size len first with
    | case1 first hlt stop ih =>
      intro n hfirst
      have hn : n * Nat.max size 1 < len := by
        by_contra hbeyond
        have hall : Nat.min (n * Nat.max size 1) len = len := Nat.min_eq_right (by omega)
        omega
      obtain rfl : first = n * Nat.max size 1 := by
        rw [hfirst]
        exact Nat.min_eq_left (Nat.le_of_lt hn)
      have hblock := (getElem?_blocks_eq_some_iff hsize).mpr ⟨hn, rfl⟩
      rw [List.drop_eq_getElem?_toList_append, hblock]
      exact congrArg (_ :: ·) (ih (n + 1) (by rw [Nat.succ_mul]))
    | case2 first hge =>
      intro n hfirst
      have hlen : ceilDiv len (Nat.max size 1) ≤ n := by
        by_contra hless
        have hn := (lt_ceilDiv_iff hsize).mp (Nat.not_le.mp hless)
        have hall : Nat.min (n * Nat.max size 1) len = n * Nat.max size 1 :=
          Nat.min_eq_left (Nat.le_of_lt hn)
        omega
      rw [List.drop_eq_nil_of_le (by rwa [length_blocks])]
  exact hfrom 0 0 (by simp)

/-- **The blocks are made of all rows**, each once and in their order. -/
theorem flatMap_rows_blocks (hlength : 0 < length) :
    (blocks length len).flatMap Span.rows = List.range len := by
  have hwindows := windows_eq_blocks length len
  rw [show Nat.max length 1 = length from Nat.max_eq_left hlength] at hwindows
  rw [← hwindows, flatMap_rows_windows, Nat.sub_zero, ← List.range_eq_range']

/-- Only the last block can be shorter than the others. -/
theorem length_of_mem_dropLast (hlength : 0 < length) {block : Span}
    (h : block ∈ (blocks length len).dropLast) : block.length = length := by
  obtain ⟨n, hn⟩ := List.mem_iff_getElem?.mp h
  obtain ⟨hlt, -⟩ := List.getElem?_eq_some_iff.mp hn
  rw [List.length_dropLast, length_blocks] at hlt
  rw [List.getElem?_dropLast, if_pos (by rw [length_blocks]; omega)] at hn
  obtain ⟨-, rfl⟩ := (getElem?_blocks_eq_some_iff hlength).mp hn
  -- the block behind it begins at a row
  have hnext : (n + 1) * length < len := (lt_ceilDiv_iff hlength).mp (by omega)
  rw [Nat.succ_mul] at hnext
  have hstop : Nat.min (n * length + length) len = n * length + length :=
    Nat.min_eq_left (Nat.le_of_lt hnext)
  simp only [Span.length, hstop, Nat.add_sub_cancel_left]

end Blocks

/-- Blocks of that length divide the rows before `len` among the workers. -/
structure BlockDivision (workers minBlock len length : Nat) : Prop where
  /-- Every row belongs to exactly one block. -/
  rows : (blocks length len).flatMap Span.rows = List.range len
  /-- The blocks begin at multiples of their length. -/
  first : ∀ n block, (blocks length len)[n]? = some block → block.first = n * length
  /-- All of them but the last one have the full length. -/
  full : ∀ block ∈ (blocks length len).dropLast, block.length = length
  /-- It is not less than the settings ask for, and not zero. -/
  least : max minBlock 1 ≤ length
  /-- There are at most four blocks for each worker. -/
  count : (blocks length len).length ≤ 4 * workers
  /-- The beginnings and the ends of blocks are words. -/
  words : ∀ n block, (blocks length len)[n]? = some block →
    n * length < wordBound ∧ n * length + block.length < wordBound

/-- **Blocks of the length of a run divide the rows.** -/
theorem blockDivision_blockLength {workers : Nat} (hworkers : 1 ≤ workers) (minBlock : Nat)
    {len : Nat} (hlen : len < wordBound) :
    BlockDivision workers minBlock len (blockLength workers minBlock len) := by
  have hlength := blockLength_pos workers minBlock len
  refine
    { rows := flatMap_rows_blocks hlength
      first := fun n block hblock => ?_
      full := fun block hblock => length_of_mem_dropLast hlength hblock
      least := Nat.le_max_right _ _
      count := ?_
      words := fun n block hblock => ?_ }
  · obtain ⟨-, rfl⟩ := (getElem?_blocks_eq_some_iff hlength).mp hblock
    rfl
  · -- four shares for each worker are enough for all rows, and a block is not less than a share
    have hshares : 0 < Nat.max workers 1 * 4 := by
      have hpos : 1 ≤ Nat.max workers 1 := Nat.le_max_right _ _
      omega
    have hrows := le_ceilDiv_mul len hshares
    have hshare : ceilDiv len (Nat.max workers 1 * 4) ≤ blockLength workers minBlock len :=
      Nat.le_max_left _ _
    have hall : len ≤ 4 * workers * blockLength workers minBlock len := by
      calc len ≤ ceilDiv len (Nat.max workers 1 * 4) * (Nat.max workers 1 * 4) := hrows
        _ ≤ blockLength workers minBlock len * (Nat.max workers 1 * 4) :=
          Nat.mul_le_mul_right _ hshare
        _ = 4 * workers * blockLength workers minBlock len := by
          rw [show Nat.max workers 1 = workers from Nat.max_eq_left hworkers, Nat.mul_comm,
            Nat.mul_comm workers 4]
    rw [length_blocks]
    exact Nat.not_lt.mp (mt (lt_ceilDiv_iff hlength).mp (Nat.not_lt.mpr hall))
  · have hstop := stop_le_of_mem_blocks (List.mem_of_getElem? hblock)
    obtain ⟨hrow, rfl⟩ := (getElem?_blocks_eq_some_iff hlength).mp hblock
    refine ⟨by omega, ?_⟩
    simp only [Span.length] at hstop ⊢
    omega

/-! ## Runs -/

/-- **A run in blocks gives what the serial run gives**, in whatever order the blocks are computed,
also for kernels that fail in some rows. The blocks divide the rows among the workers, and all
positions on the way are words. If the kernel has a value in every row, the run gives these
values. -/
theorem blocks_agree_in_any_order {workers : Nat} (hworkers : 1 ≤ workers)
    (hmany : workers ≤ Nat.pow 2 32) (minBlock : Nat) {len : Nat} (hlen : 8 * len ≤ addressableBytes)
    (kernel : Kernel) {columns : List Column}
    (hcolumns : ∀ column ∈ columns, Array.size column = 1 ∨ len ≤ Array.size column) :
    workers * 4 < wordBound ∧
    BlockDivision workers minBlock len (blockLength workers minBlock len) ∧
    (∀ order : List Span, order.Perm (blocks (blockLength workers minBlock len) len) →
      runBlocks kernel columns order (Array.replicate len 0.0) = runSerial kernel columns len) ∧
    runParallel workers minBlock kernel columns len = runSerial kernel columns len ∧
    ∀ value : Nat → Float,
      (∀ i < len, ∀ row, rowAt? columns i = some row → kernel.onRow row = some (value i)) →
      runSerial kernel columns len = some ((List.range len).map value).toArray := by
  have hword : len < wordBound := by
    have hbytes : addressableBytes < wordBound := by decide
    omega
  have hinOrder : ∀ order : List Span,
      order.Perm (blocks (blockLength workers minBlock len) len) →
      runBlocks kernel columns order (Array.replicate len 0.0) = runSerial kernel columns len := by
    intro order horder
    refine runBlocks_eq_runSerial (fun block hblock => ?_) fun i hi => ?_
    · exact stop_le_of_mem_blocks (horder.mem_iff.mp hblock)
    · obtain ⟨block, hblock, hrows⟩ :=
        exists_mem_blocks (blockLength_pos workers minBlock len) hi
      exact ⟨block, horder.mem_iff.mpr hblock, hrows⟩
  refine ⟨?_, blockDivision_blockLength hworkers minBlock hword, hinOrder, hinOrder _ (.refl _),
    fun value hvalue => runSerial_eq (Kernel.evaluates_of_columns hcolumns hvalue)⟩
  have hwide : Nat.pow 2 32 * 4 < wordBound := by decide
  omega

/-- Three workers and five rows, with a column of one number and one that is too long: the blocks
have one row each, and they are computed from the last to the first. -/
theorem blocks_agree_in_any_order_backwards :
    ∃ order : List Span, order = (blocks (blockLength 3 0 5) 5).reverse ∧ order.length = 5 ∧
      runBlocks (.apply₂ (· - ·) (.argument 1) (.argument 0))
        [#[2.0], #[5.0, 1.0, 4.0, 2.0, 3.0, 9.0]] order (Array.replicate 5 0.0) =
      some #[3.0, -1.0, 2.0, 0.0, 1.0] := by
  have hworkers : 1 ≤ 3 := by decide
  have hlen : 8 * 5 ≤ addressableBytes := by decide
  have hcolumns : ∀ column ∈ ([#[2.0], #[5.0, 1.0, 4.0, 2.0, 3.0, 9.0]] : List Column),
      Array.size column = 1 ∨ 5 ≤ Array.size column := by decide
  obtain ⟨-, -, hinOrder, -, -⟩ := blocks_agree_in_any_order hworkers (by decide) 0 hlen
    (.apply₂ (· - ·) (.argument 1) (.argument 0)) hcolumns
  exact ⟨_, rfl, rfl, hinOrder _ (List.reverse_perm _)⟩

end ArrayKernels
