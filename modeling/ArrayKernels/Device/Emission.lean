import ArrayKernels.Device.Syntax
import ArrayKernels.Core.Binding

/-!
# Writing kernels for a device

A device kernel computes one element of the result per work item. It is written for one call: which
arguments stand for one number, the extents and the strides stand in it as constants.

A sum becomes a running total and a loop in front of the expression in which it occurs; the totals
are numbered in the order in which the sums occur. What a sum's body needs stands inside its loop,
so an index variable of an inner loop hides one of the same name outside.
-/

namespace ArrayKernels.Device

/-! ## Names -/

/-- The identifier of a kernel for a function of that name: letters and digits of the ASCII range
are kept, every other character becomes an underscore. -/
def kernelName (name : String) : List Char :=
  "vec_".toList ++ name.toList.map fun c => if c.isAlphanum then c else '_'

/-! ## Expressions -/

/-- What has been written for an expression. -/
structure Written where
  /-- The value. -/
  value : Value
  /-- The statements that have to come first. -/
  before : Block
  /-- The number of the next running total. -/
  next : Nat

/-- The extents and strides of a call. A slot or an operand that the call does not have counts as
empty. -/
structure Layout where
  extents : List Nat
  strides : List (List Nat)

/-- Writes an expression whose first running total has the number `next`. -/
def write (layout : Layout) : Node → (next : Nat) → Written
  | .const v, next => ⟨.literal v, .done, next⟩
  | .arg i, next => ⟨.var (.scalar i), .done, next⟩
  | .unary op a, next =>
    let a := write layout a next
    ⟨.unary op a.value, a.before, a.next⟩
  | .binary op a b, next =>
    let a := write layout a next
    let b := write layout b a.next
    ⟨.binary op a.value b.value, a.before.append b.before, b.next⟩
  | .select c t o, next =>
    let c := write layout c next
    let t := write layout t c.next
    let o := write layout o t.next
    ⟨.select c.value t.value o.value, (c.before.append t.before).append o.before, o.next⟩
  | .load k slots, next =>
    let terms := (slots.map Name.index).zip (layout.strides.getD k [])
    ⟨.element (.input k) (.offset (.base k) terms), .done, next⟩
  | .sum slot body, next =>
    let body := write layout body (next + 1)
    let total := Name.total next
    ⟨.var total,
      .declareTotal total
        (.loop (.index slot) (layout.extents.getD slot 0)
          (body.before.append (.addTo total body.value .done)) .done),
      body.next⟩

/-- What every kernel starts with: work items beyond the result stop. -/
def start (next : Block) : Block :=
  .declareWord true .gid .globalId (.stopUnlessBelow .gid .count next)

/-- Writes an expression and the store of its value. -/
def finish (layout : Layout) (root : Node) : Block :=
  let root := write layout root 0
  root.before.append (.store .out (.var .gid) root.value .done)

/-! ## Elementwise kernels -/

/-- Reads the arguments from position `k` on. An argument that stands for one number is read at the
start of its column. -/
def readArguments (next : Block) : (k : Nat) → (shared : List Bool) → Block
  | _, [] => next
  | k, one :: shared =>
    .declareValue (.scalar k) (.element (.column k) (if one then .zero else .var .gid))
      (readArguments next (k + 1) shared)

/-- The kernel of an elementwise program. `shared` marks the arguments that stand for one number. -/
def elementwiseSource (name : List Char) (p : Program) (shared : List Bool) : Source where
  name := name
  arrays := (List.range p.arity).map Name.column
  body := start (readArguments (finish ⟨[], []⟩ p.root) 0 shared)

/-! ## Core kernels -/

/-- Splits the position in the output's core block into the indices of the slots, the last slot
first. -/
def splitPosition (extents : List Nat) (next : Block) : (reversedSlots : List Nat) → Block
  | [] => next
  | slot :: slots =>
    let extent := extents.getD slot 0
    .declareWord true (.index slot) (.remainder .rest extent)
      (.divide .rest extent (splitPosition extents next slots))

/-- Finds the start of the core block of every input from position `k` on. -/
def findBlocks (next : Block) : (k : Nat) → List CoreLayout → Block
  | _, [] => next
  | k, layout :: layouts =>
    .declareWord true (.base k) (if layout.shared then .zero else .times .iteration layout.size)
      (findBlocks next (k + 1) layouts)

/-- The kernel of a core program for a bound call. -/
def coreSource (name : List Char) (p : Program) (call : BoundCall) : Source where
  name := name
  arrays := (List.range p.inputSlots.length).map Name.input
  body :=
    let core := Nat.max call.outputCoreSize 1
    start <|
      .declareWord true .iteration (.quotient .gid core) <|
      .declareWord false .rest (.remainder .gid core) <|
      splitPosition call.extents
        (findBlocks (finish ⟨call.extents, call.layouts.map (·.strides)⟩ p.root) 0
          (call.layouts.take p.inputSlots.length))
        p.outputSlots.reverse

end ArrayKernels.Device
