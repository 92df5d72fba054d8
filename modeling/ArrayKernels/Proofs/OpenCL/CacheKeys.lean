import ArrayKernels.Proofs.ElementwiseCalls
import ArrayKernels.Proofs.OpenCL.CoreKernels
import ArrayKernels.Proofs.OpenCL.PrintedNumbers

/-!
# Kernel texts as keys

A compiled kernel may be kept under its text: kernels with one text compute the same. The text of an
elementwise kernel tells how many arguments there are, which of them stand for one number, and the
value for every row. The text of a core kernel and the data of the inputs tell the elements of the
output, if their number is known.

The text is read as OpenCL C, under the reading of decimal constants in which every number that is
printed denotes itself. Kernels with one text are read as one program, and what the program computes
is what the kernels were written for. The text does not tell the tree: the negation of an infinity
is printed like the other infinity.

## Main results

- `ElementwiseKernel.eq_of_text_eq`, `CoreKernel.run_eq_of_text_eq`: kernels of one text.
- `kernel_texts_determine_results`: both, and two trees with one text.
-/

namespace ArrayKernels

open OpenCL Device

/-! ## Scalar trees -/

namespace Device

variable {row : List Float} {n : Node}

/-- Nothing has to be computed before a tree without sums. -/
theorem before_write (h : n.Safe (fun _ => False) (.ofArgs row) []) (layout : Layout) (next : Nat) :
    (write layout n next).before = .done := by
  induction n generalizing next with
  | const v | arg i => rfl
  | unary op a ih => exact ih h next
  | binary op a b iha ihb =>
    rw [write, iha h.1, ihb h.2]
    rfl
  | select c t o ihc iht iho =>
    rw [write, ihc h.1, iht h.2.1, iho h.2.2]
    rfl
  | load k slots => exact h.elim
  | sum slot body ih => exact absurd h.1 (Nat.not_lt_zero slot)

/-- The variables of the arguments hold the numbers of a row. -/
def HoldsRow (frames : Frames) (row : List Float) : Prop :=
  ∀ i x, row[i]? = some x →
    ∃ constant, find? frames (Name.scalar i).spell = some ⟨constant, .number x⟩

/-- **What is written for a scalar tree has the value of the tree.** -/
theorem eval?_write {frames : Frames} (h : n.Safe (fun _ => False) (.ofArgs row) [])
    (hrow : HoldsRow frames row) (gid : Nat) (layout : Layout) (next : Nat) :
    eval? reading gid frames (write layout n next).value.term =
      some (.number (n.denote (.ofArgs row) [])) := by
  obtain ⟨hzero, hone, -⟩ := denotes_reading n
  induction n generalizing next with
  | const v =>
    have hliteral := (denotes_reading (.const v)).literal v (List.mem_singleton.mpr rfl)
    exact eval?_literalTerm hliteral
  | arg i =>
    have hi : i < row.length := h
    obtain ⟨_, hfound⟩ := hrow i _ (List.getElem?_eq_getElem hi)
    change eval? reading gid frames (.name (Name.scalar i).spell) = _
    rw [eval?, hfound]
    simp [Node.denote, Env.ofArgs, hi, Content.scalar?]
  | unary op a ih => exact eval?_unaryTerm op (ih h next)
  | binary op a b iha ihb => exact eval?_binaryTerm hone hzero op (iha h.1 next) (ihb h.2 _)
  | select c t o ihc iht iho =>
    exact eval?_selectTerm hzero (ihc h.1 next) (iht h.2.1 _) (iho h.2.2 _)
  | load k slots => exact h.elim
  | sum slot body ih => exact absurd h.1 (Nat.not_lt_zero slot)

/-- The variables that the arguments from position `k` on are read into. -/
def argumentFrame : Nat → List Float → Frame
  | _, [] => []
  | k, x :: row => ((Name.scalar k).spell, ⟨true, .number x⟩) :: argumentFrame (k + 1) row

theorem lookup_argumentFrame (k : Nat) {i : Nat} {x : Float} (h : row[i]? = some x) :
    (argumentFrame k row).lookup (Name.scalar (k + i)).spell = some ⟨true, .number x⟩ := by
  induction row generalizing k i with
  | nil => cases h
  | cons y row ih =>
    rw [argumentFrame, Name.lookup_cons]
    cases i with
    | zero =>
      obtain rfl : y = x := Option.some.inj h
      exact if_pos rfl
    | succ i =>
      rw [if_neg (by simp), ← Nat.succ_add_eq_add_succ]
      exact ih (k + 1) h

theorem holdsRow_argumentFrame (row : List Float) : HoldsRow [argumentFrame 0 row] row := by
  intro i x h
  have hlookup := lookup_argumentFrame 0 h
  rw [Nat.zero_add] at hlookup
  exact ⟨true, by rw [find?_cons, hlookup, Option.some_or]⟩

/-! ## Elementwise kernels -/

variable {p : Program} {next next' : Block} {shared shared' : List Bool}

theorem readArguments_fits (h : next.Fits) (k : Nat) (shared : List Bool) :
    (readArguments next k shared).Fits := by
  induction shared generalizing k with
  | nil => exact h
  | cons one shared ih =>
    refine ⟨?_, ih (k + 1)⟩
    cases one <;> trivial

/-- The kernel of an elementwise program can be read. -/
theorem read?_elementwiseSource (name : String) (p : Program) (shared : List Bool) :
    OpenCL.read? (elementwiseSource (kernelName name) p shared).text =
      some (elementwiseSource (kernelName name) p shared).kernel := by
  refine Source.read?_text _ (isWord_kernelName name) ?_
  have hlayout : (⟨[], []⟩ : Layout).Fits :=
    ⟨fun _ hmem => (List.not_mem_nil hmem).elim, fun _ hmem => (List.not_mem_nil hmem).elim⟩
  have hroot := write_fits hlayout p.root 0
  have hfinish : (finish ⟨[], []⟩ p.root).Fits := hroot.1.append ⟨trivial, hroot.2, trivial⟩
  exact ⟨trivial, readArguments_fits hfinish 0 shared⟩

/-- An argument that stands for one number is read in another place. -/
theorem readArguments_code_inj (hlength : shared.length = shared'.length) (k : Nat)
    (h : (readArguments next k shared).code = (readArguments next' k shared').code) :
    shared = shared' ∧ next.code = next'.code := by
  induction shared generalizing k shared' with
  | nil =>
    obtain rfl : shared' = [] := List.length_eq_zero_iff.mp hlength.symm
    exact ⟨rfl, h⟩
  | cons one shared ih =>
    cases shared' with
    | nil => cases hlength
    | cons one' shared' =>
      -- the position is zero in one case and the work item in the other
      injection h with _ _ _ hvalue hrest
      obtain ⟨rfl, hnext⟩ := ih (Nat.succ.inj hlength) (k + 1) hrest
      injection hvalue with _ hposition
      refine ⟨congrArg (· :: shared) ?_, hnext⟩
      cases one
      all_goals
        cases one'
        all_goals first
          | rfl
          | cases hposition

end Device

/-- What a scalar function is lowered to uses arguments that there are, and reads no operands. -/
theorem ScalarFunction.safe_of_lower {f : ScalarFunction} {p : Program} (h : f.lower = .ok p)
    {row : List Float} (hrow : row.length = p.arity) :
    p.root.Safe (fun _ => False) (.ofArgs row) [] := by
  obtain ⟨root, hroot, hvalue⟩ :=
    Expr.exists_lowerScalar (List.findSome?_eq_none_iff.mp f.faultless)
  have hp : f.lower = .ok ⟨root, f.arity, [], [], [], []⟩ := by
    simp only [lower, hroot]
    rfl
  obtain rfl := Except.ok.inj (hp.symm.trans h)
  exact (hvalue row hrow).1

/-- An elementwise kernel that can be asked for: the program of a scalar function, a name for the
kernel, and which arguments stand for one number. -/
structure ElementwiseKernel where
  function : ScalarFunction
  program : Program
  lowered : function.lower = .ok program
  name : String
  shared : List Bool
  shared_length : shared.length = program.arity

namespace ElementwiseKernel

/-- The text of the kernel. -/
def text (k : ElementwiseKernel) : List Char :=
  (elementwiseSource (kernelName k.name) k.program k.shared).text

/-- **Elementwise kernels with one text compute the same.** -/
theorem eq_of_text_eq {k k' : ElementwiseKernel} (h : k.text = k'.text) :
    k.program.arity = k'.program.arity ∧ k.shared = k'.shared ∧
      ∀ row : List Float, row.length = k.program.arity →
        k.program.root.denote (.ofArgs row) [] = k'.program.root.denote (.ofArgs row) [] := by
  have hread := congrArg OpenCL.read? h
  rw [text, text, read?_elementwiseSource, read?_elementwiseSource] at hread
  injection Option.some.inj hread with _ hparameters hcode
  -- there is one parameter for each argument
  have harity : k.program.arity = k'.program.arity := by
    have hlength := congrArg List.length hparameters
    simpa [Source.parameters, elementwiseSource] using hlength
  -- the work items beyond the result stop first, and then the arguments are read
  injection hcode with _ _ _ _ hcode
  injection hcode with _ hcode
  obtain ⟨hshared, hfinish⟩ := readArguments_code_inj
    ((k.shared_length.trans harity).trans k'.shared_length.symm) 0 hcode
  refine ⟨harity, hshared, fun row hrow => ?_⟩
  have hsafe := ScalarFunction.safe_of_lower k.lowered hrow
  have hsafe' := ScalarFunction.safe_of_lower k'.lowered (hrow.trans harity)
  -- the store of the value is all that is left
  rw [finish, finish, before_write hsafe, before_write hsafe'] at hfinish
  injection hfinish with _ _ hvalue
  have heval := eval?_write hsafe (holdsRow_argumentFrame row) 0 ⟨[], []⟩ 0
  rw [hvalue, eval?_write hsafe' (holdsRow_argumentFrame row)] at heval
  injection Option.some.inj heval with hdenote
  exact hdenote.symm

end ElementwiseKernel

/-! ## Core kernels -/

/-- The arguments after the work item of a number tell what it has stored. -/
theorem Device.eq_of_arguments_eq {inputs : List NdArray} {call : BoundCall} {out : Array Float}
    {gid : Nat} {x x' : Float} (hgid : gid < out.size)
    (h : arguments inputs call (out.setIfInBounds gid x) =
      arguments inputs call (out.setIfInBounds gid x')) : x = x' := by
  injection List.append_cancel_left h with harray
  injection harray with hresult
  have hitem := congrArg (·[gid]?) hresult
  simp only [Array.getElem?_setIfInBounds_self_of_lt hgid] at hitem
  exact Option.some.inj hitem

/-- A core kernel that can be asked for: the program of a core function, a call of it that binding
has made, and a name for the kernel. Extents are machine words. -/
structure CoreKernel where
  function : CoreFunction
  signature : Signature
  parsed : ∃ text, Signature.parse text = .ok signature
  program : Program
  lowered : function.lower signature = .ok program
  inputs : List NdArray
  words : ∀ a ∈ inputs, ∀ extent ∈ a.shape, extent < wordBound
  call : BoundCall
  shape : Shape
  bound : program.bind inputs = .ok (call, shape)
  name : String

namespace CoreKernel

/-- The text of the kernel. -/
def text (k : CoreKernel) : List Char := (coreSource (kernelName k.name) k.program k.call).text

/-- What a run of the call gives. -/
def run (k : CoreKernel) (strategy : Strategy) : Option (Array Float) :=
  k.call.run (strategy.compile k.program) k.program.outputSlots k.inputs

theorem lowers (k : CoreKernel) : k.program.Lowers k.function k.signature :=
  CoreFunction.lowers_of_lower k.lowered

theorem wellFormed (k : CoreKernel) : k.signature.WellFormed :=
  k.parsed.elim fun _ => Signature.wellFormed_of_parse

theorem binds (k : CoreKernel) : k.program.Binds k.inputs k.call k.shape :=
  k.lowers.binds_of_bind k.bound

/-- The text is read as the kernel that was written for the call. -/
theorem read?_text (k : CoreKernel) :
    OpenCL.read? k.text = some (coreSource (kernelName k.name) k.program k.call).kernel :=
  read?_coreSource k.name k.program (k.binds.call_fits k.lowers k.wellFormed k.words)

/-- **The work items of a kernel compute the run of its call.** -/
theorem exists_run (k : CoreKernel) (strategy : Strategy) :
    ∃ data, k.run strategy = some data ∧ data.size = k.call.outputCount ∧
      ∀ gid < k.call.outputCount, ∃ x, data[gid]? = some x ∧
        ∀ out : Array Float, out.size = k.call.outputCount →
          (coreSource (kernelName k.name) k.program k.call).kernel.run reading gid
              (arguments k.inputs k.call out) =
            some (arguments k.inputs k.call (out.setIfInBounds gid x)) := by
  obtain ⟨data, hrun, hsize, hdata⟩ := k.binds.exists_data k.lowers k.wellFormed strategy
  refine ⟨data, hrun, hsize, fun gid hgid => ?_⟩
  -- the element stands at the position of its iteration and in its core block
  have hcore : 0 < k.call.outputCoreSize := Nat.pos_of_mul_pos_left (Nat.zero_lt_of_lt hgid)
  have hiteration : gid / k.call.outputCoreSize < k.call.loopCount :=
    Nat.div_lt_of_lt_mul (Nat.mul_comm _ _ ▸ hgid)
  have helement := hdata _ hiteration _ (Nat.mod_lt gid hcore)
  rw [Nat.div_add_mod'] at helement
  obtain ⟨x, hx⟩ : ∃ x, data[gid]? = some x :=
    ⟨_, Array.getElem?_eq_getElem (hsize ▸ hgid)⟩
  refine ⟨x, hx, fun out hout => ?_⟩
  obtain ⟨x', hx', hkernel⟩ := run_coreSource k.binds k.lowers k.wellFormed k.words
    (denotes_reading k.program.root) (kernelName k.name) hgid hout
  rw [hx, hx'] at helement
  cases helement
  exact hkernel

/-- **Calls whose kernels have one text give the same for the same data**, if their outputs have
equally many elements. -/
theorem run_eq_of_text_eq {k k' : CoreKernel} (h : k.text = k'.text)
    (hdata : ∀ pair ∈ k.inputs.zip k'.inputs, pair.1.data = pair.2.data)
    (hcount : k.call.outputCount = k'.call.outputCount) (strategy strategy' : Strategy) :
    ∃ data, k.run strategy = some data ∧ k'.run strategy' = some data := by
  have hread := congrArg OpenCL.read? h
  rw [read?_text, read?_text] at hread
  have hkernel := Option.some.inj hread
  -- there is one parameter for each input
  have hlength : k.inputs.length = k'.inputs.length := by
    have hparameters := congrArg (fun kernel => kernel.parameters.length) hkernel
    rw [← k.binds.fits.length_eq, ← k'.binds.fits.length_eq]
    simpa [Source.kernel, Source.parameters, coreSource] using hparameters
  have hinputs : k.inputs.map NdArray.data = k'.inputs.map NdArray.data := by
    have hpairs : List.Forall₂ (· = ·)
        (k.inputs.map NdArray.data) (k'.inputs.map NdArray.data) := by
      rw [List.forall₂_map_left_iff, List.forall₂_map_right_iff, List.forall₂_iff_zip]
      exact ⟨hlength, fun hmem => hdata _ hmem⟩
    rwa [List.forall₂_eq_eq_eq] at hpairs
  have harguments : ∀ out, arguments k.inputs k.call out = arguments k'.inputs k'.call out := by
    intro out
    rw [arguments, arguments, hinputs, hcount]
  obtain ⟨data, hrun, hsize, hitems⟩ := k.exists_run strategy
  obtain ⟨data', hrun', hsize', hitems'⟩ := k'.exists_run strategy'
  have hsame : data = data' := by
    refine Array.ext_getElem? fun gid => ?_
    rcases Nat.lt_or_ge gid k.call.outputCount with hgid | hgid
    · -- the work items of that number do the same in both kernels
      obtain ⟨x, hx, hitem⟩ := hitems gid hgid
      obtain ⟨x', hx', hitem'⟩ := hitems' gid (hcount ▸ hgid)
      have hstored := hitem data hsize
      rw [hkernel, harguments, harguments, hitem' data (hsize.trans hcount)] at hstored
      rw [hx, hx', eq_of_arguments_eq (hsize ▸ hgid) (Option.some.inj hstored)]
    · rw [Array.getElem?_eq_none (hsize ▸ hgid), Array.getElem?_eq_none (hsize' ▸ hcount ▸ hgid)]
  exact ⟨data, hrun, hsame ▸ hrun'⟩

end CoreKernel

/-! ## Trees with one text -/

/-- The negation of an infinity is printed like the other infinity. -/
theorem Device.text_negated_infinity (name : List Char) :
    (elementwiseSource name ⟨.unary .neg (.const (1.0 / 0.0)), 0, [], [], [], []⟩ []).text =
      (elementwiseSource name ⟨.const (-1.0 / 0.0), 0, [], [], [], []⟩ []).text := by
  have hspell : (Value.unary .neg (.literal (1.0 / 0.0))).spell =
      (Value.literal (-1.0 / 0.0)).spell := by
    decide
  simp only [Source.text, Source.lines, elementwiseSource, start, readArguments, finish, write,
    Block.append, Block.lines, hspell]

/-- **The text of a kernel is a sound key.** Elementwise kernels with one text have equally many
arguments, the same of which stand for one number, and one value for every row, whichever strategies
run their programs. Calls whose core kernels have one text give the same elements for the same data,
if they give equally many. Trees are not told apart: the negation of an infinity and the other
infinity have one text.

The kernels may have different names, functions and calls. That different numbers are printed
differently is not assumed; there is one value that is not a number. -/
theorem kernel_texts_determine_results :
    (∀ k k' : ElementwiseKernel, k.text = k'.text →
      k.program.arity = k'.program.arity ∧ k.shared = k'.shared ∧
        ∀ (strategy strategy' : Strategy) (row : List Float), row.length = k.program.arity →
          ∃ x, (strategy.compile k.program).onRow row = some x ∧
            (strategy'.compile k'.program).onRow row = some x) ∧
    (∀ k k' : CoreKernel, k.text = k'.text →
      (∀ pair ∈ k.inputs.zip k'.inputs, pair.1.data = pair.2.data) →
      k.call.outputCount = k'.call.outputCount →
        ∀ strategy strategy' : Strategy,
          ∃ data, k.run strategy = some data ∧ k'.run strategy' = some data) ∧
    ∃ k k' : ElementwiseKernel, k.text = k'.text ∧
      k.program.root = .unary .neg (.const (1.0 / 0.0)) ∧
      k'.program.root = .const (-1.0 / 0.0) := by
  refine ⟨fun k k' htext => ?_, fun k k' htext hdata hcount strategy strategy' => ?_, ?_⟩
  · -- both programs have the value of their trees
    obtain ⟨harity, hshared, hvalue⟩ := ElementwiseKernel.eq_of_text_eq htext
    refine ⟨harity, hshared, fun strategy strategy' row hrow => ?_⟩
    have hsafe := ScalarFunction.safe_of_lower k.lowered hrow
    have hsafe' := ScalarFunction.safe_of_lower k'.lowered (hrow.trans harity)
    refine ⟨_, strategy.onRow_of_safe hsafe, ?_⟩
    rw [strategy'.onRow_of_safe hsafe', hvalue row hrow]
  · exact CoreKernel.run_eq_of_text_eq htext hdata hcount strategy strategy'
  · exact ⟨⟨⟨"f", 0, .unary .neg (.const (1.0 / 0.0)), rfl⟩, _, rfl, "f", [], rfl⟩,
      ⟨⟨"f", 0, .const (-1.0 / 0.0), rfl⟩, _, rfl, "f", [], rfl⟩, text_negated_infinity _, rfl, rfl⟩

/-- The kernel that adds one to every element has one text for four elements in a row and for four
in a square, and both calls give the same elements. So do the two trees that have one text. -/
theorem kernel_texts_determine_results_across_shapes :
    (∃ k k' : CoreKernel, k.shape = [4] ∧ k'.shape = [2, 2] ∧ k.text = k'.text ∧
      ∀ strategy : Strategy, k'.run strategy = some #[2.0, 3.0, 4.0, 5.0]) ∧
    ∃ k k' : ElementwiseKernel, k.program.root ≠ k'.program.root ∧ k.text = k'.text ∧
      ∀ strategy : Strategy, (strategy.compile k.program).onRow [] = some (-1.0 / 0.0) := by
  have hs : Signature.parse "()->()" = .ok ⟨[[]], []⟩ := by cbv
  have hp : CoreFunction.lower ⟨"f", .binary .add (.element 0 []) (.const 1.0)⟩ ⟨[[]], []⟩ =
      .ok ⟨.binary .add (.load 0 []) (.const 1.0), 0, [], [[]], [], [⟨0, []⟩]⟩ := rfl
  let row : CoreKernel :=
    ⟨_, _, ⟨_, hs⟩, _, hp, [⟨[4], #[1.0, 2.0, 3.0, 4.0], by decide⟩], by decide,
      ⟨[], 4, 1, [⟨1, false, []⟩]⟩, [4], rfl, "f"⟩
  let square : CoreKernel :=
    ⟨_, _, ⟨_, hs⟩, _, hp, [⟨[2, 2], #[1.0, 2.0, 3.0, 4.0], by decide⟩], by decide,
      ⟨[], 4, 1, [⟨1, false, []⟩]⟩, [2, 2], rfl, "f"⟩
  let negated : ElementwiseKernel :=
    ⟨⟨"f", 0, .unary .neg (.const (1.0 / 0.0)), rfl⟩, _, rfl, "f", [], rfl⟩
  let infinite : ElementwiseKernel := ⟨⟨"f", 0, .const (-1.0 / 0.0), rfl⟩, _, rfl, "f", [], rfl⟩
  have hinfinite : negated.text = infinite.text := text_negated_infinity _
  obtain ⟨hscalar, hcore, -⟩ := kernel_texts_determine_results
  constructor
  · have hdata : ∀ pair ∈ row.inputs.zip square.inputs, pair.1.data = pair.2.data := by
      intro pair hpair
      obtain rfl := List.mem_singleton.mp hpair
      rfl
    refine ⟨row, square, rfl, rfl, rfl, fun strategy => ?_⟩
    obtain ⟨data, hrun, hrun'⟩ := hcore row square rfl hdata rfl .treeWalk strategy
    obtain rfl : #[2.0, 3.0, 4.0, 5.0] = data := Option.some.inj hrun
    exact hrun'
  · obtain ⟨-, -, hvalue⟩ := hscalar negated infinite hinfinite
    have hroots : negated.program.root ≠ infinite.program.root := fun h => Node.noConfusion h
    refine ⟨negated, infinite, hroots, hinfinite, fun strategy => ?_⟩
    obtain ⟨x, hx, hx'⟩ := hvalue strategy .treeWalk [] rfl
    obtain rfl : -1.0 / 0.0 = x := Option.some.inj hx'
    exact hx

end ArrayKernels
