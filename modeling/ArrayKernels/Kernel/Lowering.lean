import ArrayKernels.Function
import ArrayKernels.Signature
import ArrayKernels.Kernel.Program

/-!
# Lowering

From functions to lowered kernels. A scalar function keeps its tree. In a core function the
dimension names become slots, numbered in the order in which the signature first names them.

A name may be used where it has a value: everywhere if it is a dimension of the output, and else
inside a sum over it. The first fault from left to right is reported, a node before its parts.
-/

namespace ArrayKernels

/-! ## Scalar functions -/

/-- The tree of a scalar expression, or the first construct of core functions in it. -/
def Expr.lowerScalar : Expr → Except KernelError Node
  | const v => .ok (.const v)
  | arg i => .ok (.arg i)
  | unary op a => do return .unary op (← a.lowerScalar)
  | binary op a b => do
    let a ← a.lowerScalar
    let b ← b.lowerScalar
    return .binary op a b
  | select c t o => do
    let c ← c.lowerScalar
    let t ← t.lowerScalar
    let o ← o.lowerScalar
    return .select c t o
  | element _ _ => .error (.coreOnlyNode .element)
  | sum _ _ => .error (.coreOnlyNode .sum)

/-- The kernel of a scalar function. -/
def ScalarFunction.lower (f : ScalarFunction) : Except KernelError Program := do
  let root ← f.body.lowerScalar
  return ⟨root, f.arity, [], [], [], []⟩

/-! ## Core functions -/

/-- The slot of a dimension name. -/
def slotOf (dims : List String) (name : String) : Except KernelError Nat :=
  match dims.idxOf? name with
  | some slot => .ok slot
  | none => .error (.unknownDimension name)

/-- The slots of the names of an index. Every one has to be declared and to be among the bound
slots. -/
def resolveIndex (dims : List String) (bound : List Nat) :
    List String → Except KernelError (List Nat)
  | [] => .ok []
  | name :: names => do
    let slot ← slotOf dims name
    if slot ∈ bound then
      let slots ← resolveIndex dims bound names
      return slot :: slots
    else .error (.unboundDimension name)

/-- The tree of a core expression and the places where it reads, from left to right. `bound` holds
the slots that have a value here. -/
def Expr.lowerCore (dims : List String) (inputSlots : List (List Nat)) (bound : List Nat) :
    Expr → Except KernelError (Node × List Access)
  | const v => .ok (.const v, [])
  | arg _ => .error .scalarArgument
  | unary op a => do
    let (a, as) ← a.lowerCore dims inputSlots bound
    return (.unary op a, as)
  | binary op a b => do
    let (a, as) ← a.lowerCore dims inputSlots bound
    let (b, bs) ← b.lowerCore dims inputSlots bound
    return (.binary op a b, as ++ bs)
  | select c t o => do
    let (c, cs) ← c.lowerCore dims inputSlots bound
    let (t, ts) ← t.lowerCore dims inputSlots bound
    let (o, os) ← o.lowerCore dims inputSlots bound
    return (.select c t o, cs ++ ts ++ os)
  | element k names =>
    match inputSlots[k]? with
    | none => .error (.operandOutOfRange k inputSlots.length)
    | some declared =>
      if declared.length = names.length then do
        let slots ← resolveIndex dims bound names
        return (.load k slots, [⟨k, slots⟩])
      else .error (.indexRankMismatch k declared.length names.length)
  | sum dim body => do
    let slot ← slotOf dims dim
    let (body, reads) ← body.lowerCore dims inputSlots (slot :: bound)
    return (.sum slot body, reads)

/-- The kernel of a core function of that signature. -/
def CoreFunction.lower (f : CoreFunction) (signature : Signature) : Except KernelError Program := do
  let dims := signature.dimensions
  let inputSlots ← signature.inputs.mapM (·.mapM (slotOf dims))
  let outputSlots ← signature.output.mapM (slotOf dims)
  let (root, accesses) ← f.body.lowerCore dims inputSlots outputSlots
  return ⟨root, 0, dims, inputSlots, outputSlots, accesses⟩

end ArrayKernels
