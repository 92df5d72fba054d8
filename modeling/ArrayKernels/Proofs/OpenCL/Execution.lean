import ArrayKernels.Operator
import ArrayKernels.Proofs.OpenCL.Reader

/-!
# Running OpenCL C

What one work item does. Blocks are frames of variables, the innermost first: a name means the
variable of the innermost frame that has it, and a block ends with its frame. Positions are words
of 64 bits and wrap around; numbers are of double precision and are computed in the order in which
they are written. The functions and operators on numbers are those of the kernels.

A program has no result if it uses a name without a variable, declares a name twice in a block,
assigns to a constant, divides a position by zero, leaves an array, or mixes the types of operands.
What a decimal constant denotes is a parameter.

## Main results

- `find?_cons`, `assign?_head`, `assign?_tail`: variables, frame by frame.
- `iterate_eq`: the turns of a loop, from the first to the last.
- `exec_countedLoop`: a loop over the numbers below a bound.
-/

namespace ArrayKernels.OpenCL

/-! ## Values -/

/-- The values of expressions. -/
inductive Scalar where
  | int (value : Nat)
  | word (value : Nat)
  | number (value : Float)

/-- The values of variables. -/
inductive Content where
  | word (value : Nat)
  | number (value : Float)
  | array (data : Array Float)

/-- The value of a variable in an expression. -/
def Content.scalar? : Content → Option Scalar
  | word n => some (.word n)
  | number x => some (.number x)
  | array _ => none

def Content.array? : Content → Option (Array Float)
  | array data => some data
  | _ => none

/-- A value as the value of a variable of a type. -/
def Kind.convert? : Kind → Scalar → Option Content
  | ulong, .int n => some (.word n)
  | ulong, .word n => some (.word n)
  | double, .number x => some (.number x)
  | _, _ => none

/-- Whether a condition holds. -/
def Scalar.holds? : Scalar → Option Bool
  | int n => some (n ≠ 0)
  | _ => none

/-- A position in an array. -/
def Scalar.position? : Scalar → Option Nat
  | int n => some n
  | word n => some n
  | number _ => none

def Scalar.negated? : Scalar → Option Scalar
  | number x => some (.number (-x))
  | _ => none

/-- The value of a comparison. -/
def comparison (holds : Bool) : Scalar := .int (if holds then 1 else 0)

/-- The value of an operator on two operands of one type. -/
def combine? : Operator → Scalar → Scalar → Option Scalar
  | .times, .word a, .word b => some (.word (a * b % wordBound))
  | .dividedBy, .word a, .word b => if b = 0 then none else some (.word (a / b))
  | .modulo, .word a, .word b => if b = 0 then none else some (.word (a % b))
  | .plus, .word a, .word b => some (.word ((a + b) % wordBound))
  | .minus, .word a, .word b => some (.word ((a + (wordBound - b)) % wordBound))
  | .below, .word a, .word b => some (comparison (a < b))
  | .above, .word a, .word b => some (comparison (b < a))
  | .atMost, .word a, .word b => some (comparison (a ≤ b))
  | .atLeast, .word a, .word b => some (comparison (b ≤ a))
  | .equal, .word a, .word b => some (comparison (a = b))
  | .unequal, .word a, .word b => some (comparison (a ≠ b))
  | .times, .number x, .number y => some (.number (x * y))
  | .dividedBy, .number x, .number y => some (.number (x / y))
  | .plus, .number x, .number y => some (.number (x + y))
  | .minus, .number x, .number y => some (.number (x - y))
  | .below, .number x, .number y => some (comparison (x < y))
  | .above, .number x, .number y => some (comparison (y < x))
  | .atMost, .number x, .number y => some (comparison (x ≤ y))
  | .atLeast, .number x, .number y => some (comparison (y ≤ x))
  | .equal, .number x, .number y => some (comparison (x == y))
  | .unequal, .number x, .number y => some (comparison (x != y))
  | _, _, _ => none

/-- The functions of one number. -/
def functions : List (List Char × UnaryOp) :=
  [("fabs".toList, .abs), ("sqrt".toList, .sqrt), ("exp".toList, .exp), ("log".toList, .ln),
   ("sin".toList, .sin), ("cos".toList, .cos), ("tanh".toList, .tanh), ("floor".toList, .floor)]

/-- The functions of two numbers. -/
def functionsOfTwo : List (List Char × BinaryOp) :=
  [("pow".toList, .pow), ("fmin".toList, .min), ("fmax".toList, .max)]

/-- The value of a call, for the work item of that number. -/
def call? (gid : Nat) (function : List Char) : Scalar → Option Scalar
  | .number x => (functions.lookup function).map fun op => .number (op.apply x)
  | .int n => if function = "get_global_id".toList ∧ n = 0 then some (.word gid) else none
  | .word _ => none

def callTwo? (function : List Char) : Scalar → Scalar → Option Scalar
  | .number x, .number y => (functionsOfTwo.lookup function).map fun op => .number (op.apply x y)
  | _, _ => none

/-! ## Variables -/

structure Variable where
  constant : Bool
  content : Content

/-- The variables of a block, the last one declared first. -/
abbrev Frame := List (List Char × Variable)

/-- The variables of a block and of those around it, the innermost first. -/
abbrev Frames := List Frame

/-- The variable that a name means. -/
def find? (frames : Frames) (name : List Char) : Option Variable :=
  frames.findSome? (·.lookup name)

/-- A new variable in the innermost block, which has none of that name. -/
def declare? (name : List Char) (new : Variable) : Frames → Option Frames
  | [] => none
  | frame :: outer =>
    if frame.lookup name = none then some (((name, new) :: frame) :: outer) else none

/-- Gives the variable of that name another content. -/
def Frame.set (name : List Char) (content : Content) : Frame → Frame
  | [] => []
  | (other, v) :: frame =>
    if other = name then (other, { v with content }) :: frame
    else (other, v) :: Frame.set name content frame

/-- Gives the variable that a name means another content, unless it is constant. -/
def assign? (name : List Char) (content : Content) : Frames → Option Frames
  | [] => none
  | frame :: outer =>
    match frame.lookup name with
    | some v => if v.constant then none else some (frame.set name content :: outer)
    | none => (assign? name content outer).map (frame :: ·)

/-! ## Expressions -/

/-- The value of an expression. -/
def eval? (number : List Char → Option Float) (gid : Nat) (frames : Frames) : Term → Option Scalar
  | .int n => some (.int n)
  | .word n => some (.word n)
  | .decimal text => (number text).map .number
  | .nan => some (.number (0.0 / 0.0))
  | .infinity => some (.number (1.0 / 0.0))
  | .name name => do (← find? frames name).content.scalar?
  | .item array position => do
    let data ← (← find? frames array).content.array?
    let i ← (← eval? number gid frames position).position?
    return .number (← data[i]?)
  | .call function operand => do call? gid function (← eval? number gid frames operand)
  | .callTwo function lhs rhs => do
    callTwo? function (← eval? number gid frames lhs) (← eval? number gid frames rhs)
  | .negated operand => do (← eval? number gid frames operand).negated?
  | .binary op lhs rhs => do
    combine? op (← eval? number gid frames lhs) (← eval? number gid frames rhs)
  | .choice cond chosen otherwise => do
    if ← (← eval? number gid frames cond).holds? then eval? number gid frames chosen
    else eval? number gid frames otherwise

/-! ## Statements -/

/-- Repeats a loop's body in a block of its own, at most `turns` times: the variables that it leaves,
and whether it leaves the kernel. A loop that does not come to its end has no result. -/
def iterate (cond : Frames → Option Bool) (body : Frames → Option (Frames × Bool))
    (step : Frames → Option Frames) : (turns : Nat) → Frames → Option (Frames × Bool)
  | 0, _ => none
  | turns + 1, frames => do
    if ← cond frames then
      let (frames, left) ← body ([] :: frames)
      if left then return (frames.tail, true)
      else iterate cond body step turns (← step frames.tail)
    else return (frames, false)

/-- Adds one to a position. -/
def increment? (name : List Char) (frames : Frames) : Option Frames := do
  let next ← combine? .plus (← (← find? frames name).content.scalar?) (.word 1)
  assign? name (← Kind.ulong.convert? next) frames

/-- The type of a variable. -/
def Content.kind? : Content → Option Kind
  | word _ => some .ulong
  | number _ => some .double
  | array _ => none

/-- The variables that statements leave, and whether they leave the kernel. A loop has no more turns
than there are words. -/
def exec (number : List Char → Option Float) (gid : Nat) : Code → Frames → Option (Frames × Bool)
  | .done, frames => some (frames, false)
  | .declare constant kind name value next, frames => do
    let content ← kind.convert? (← eval? number gid frames value)
    exec number gid next (← declare? name ⟨constant, content⟩ frames)
  | .returnIf cond next, frames => do
    if ← (← eval? number gid frames cond).holds? then return (frames, true)
    else exec number gid next frames
  | .update name op value next, frames => do
    let content := (← find? frames name).content
    let result ← combine? op (← content.scalar?) (← eval? number gid frames value)
    exec number gid next (← assign? name (← (← content.kind?).convert? result) frames)
  | .store array position value next, frames => do
    let data ← (← find? frames array).content.array?
    let i ← (← eval? number gid frames position).position?
    let .number x ← Kind.double.convert? (← eval? number gid frames value) | none
    if i < data.size then exec number gid next (← assign? array (.array (data.setIfInBounds i x)) frames)
    else none
  | .loop counter first cond body next, frames => do
    let content ← Kind.ulong.convert? (← eval? number gid frames first)
    let (frames, left) ← iterate (fun frames => do (← eval? number gid frames cond).holds?)
      (exec number gid body) (increment? counter) wordBound ([(counter, ⟨false, content⟩)] :: frames)
    if left then return (frames.tail, true) else exec number gid next frames.tail

/-! ## Kernels -/

/-- The variable that a parameter is for an argument. -/
def Parameter.variable? (p : Parameter) : Content → Option Variable
  | .array data =>
    match p.kind with
    | .source => some ⟨true, .array data⟩
    | .target => some ⟨false, .array data⟩
    | .word => none
  | .word n => if p.kind = .word then some ⟨true, .word n⟩ else none
  | .number _ => none

/-- The variables of the parameters, the last one first, in front of those that are there. -/
def bindArguments : List Parameter → List Content → Frames → Option Frames
  | [], [], frames => some frames
  | p :: parameters, argument :: arguments, frames => do
    bindArguments parameters arguments (← declare? p.name (← p.variable? argument) frames)
  | _, _, _ => none

/-- What the work item of that number makes of the arguments. The statements stand in one block with
the parameters. -/
def Kernel.run (k : Kernel) (number : List Char → Option Float) (gid : Nat)
    (arguments : List Content) : Option (List Content) := do
  let (frames, _) ← exec number gid k.body (← bindArguments k.parameters arguments [[]])
  k.parameters.mapM fun p => (find? frames p.name).map Variable.content

/-! ## Frames -/

section Frames

variable {frame : Frame} {outer : Frames} {name other : List Char}

theorem find?_cons (frame : Frame) (outer : Frames) (name : List Char) :
    find? (frame :: outer) name = (frame.lookup name).or (find? outer name) := by
  rw [find?, List.findSome?_cons]
  cases frame.lookup name <;> rfl

theorem declare?_eq (h : frame.lookup name = none) (new : Variable) :
    declare? name new (frame :: outer) = some (((name, new) :: frame) :: outer) :=
  if_pos h

theorem Frame.lookup_cons (name other : List Char) (v : Variable) (frame : Frame) :
    List.lookup other ((name, v) :: frame) = if other = name then some v else frame.lookup other := by
  rw [List.lookup_cons]
  by_cases h : other = name
  · rw [if_pos h, beq_iff_eq.mpr h]
  · rw [if_neg h, beq_eq_false_iff_ne.mpr h]

theorem Frame.lookup_set_self {v : Variable} (h : frame.lookup name = some v) (content : Content) :
    (frame.set name content).lookup name = some { v with content } := by
  induction frame with
  | nil => cases h
  | cons entry frame ih =>
    obtain ⟨other, w⟩ := entry
    rw [lookup_cons] at h
    rw [set]
    by_cases hname : other = name
    · rw [if_pos hname.symm, Option.some.injEq] at h
      rw [if_pos hname, lookup_cons, if_pos hname.symm, h]
    · rw [if_neg (Ne.symm hname)] at h
      rw [if_neg hname, lookup_cons, if_neg (Ne.symm hname), ih h]

theorem Frame.lookup_set_ne (h : other ≠ name) (content : Content) :
    (frame.set name content).lookup other = frame.lookup other := by
  induction frame with
  | nil => rfl
  | cons entry frame ih =>
    obtain ⟨key, w⟩ := entry
    rw [set]
    split
    · next hkey =>
      subst hkey
      rw [lookup_cons, lookup_cons, if_neg h, if_neg h]
    · rw [lookup_cons, lookup_cons, ih]

/-- An assignment to a variable of the innermost frame. -/
theorem assign?_head {old : Content} (h : frame.lookup name = some ⟨false, old⟩) (content : Content) :
    assign? name content (frame :: outer) = some (frame.set name content :: outer) := by
  rw [assign?, h]
  rfl

/-- An assignment to a variable that the innermost frame does not have. -/
theorem assign?_tail (h : frame.lookup name = none) (content : Content) :
    assign? name content (frame :: outer) = (assign? name content outer).map (frame :: ·) := by
  rw [assign?, h]

end Frames

/-! ## Loops -/

/-- **A loop goes through its states.** In each of them but the last the condition holds, and the
body and the step lead to the next one. -/
theorem iterate_eq {cond : Frames → Option Bool} {body : Frames → Option (Frames × Bool)}
    {step : Frames → Option Frames} {state : Nat → Frames} {count : Nat}
    (hcond : ∀ j < count, cond (state j) = some true)
    (hturn : ∀ j < count, ∃ frame frames, body ([] :: state j) = some (frame :: frames, false) ∧
      step frames = some (state (j + 1)))
    (hstop : cond (state count) = some false) {turns first : Nat} (hfirst : first ≤ count)
    (hturns : count < first + turns) :
    iterate cond body step turns (state first) = some (state count, false) := by
  -- the bound on the turns is larger than what is left of them
  induction turns generalizing first with
  | zero => omega
  | succ turns ih =>
    rw [iterate]
    by_cases hlast : first = count
    · subst hlast
      rw [hstop]
      rfl
    · obtain ⟨frame, frames, hbody, hstep⟩ := hturn first (by omega)
      rw [hcond first (by omega), Option.bind_eq_bind, Option.bind_some, if_pos rfl, hbody]
      have hrest : iterate cond body step turns (state (first + 1)) = some (state count, false) :=
        ih (by omega) (by omega)
      simp only [Option.bind_eq_bind, Option.bind_some, List.tail_cons, hstep, hrest]
      rfl

/-- **A loop over the numbers below a bound.** The body runs with each of them in turn, in frames
that depend on the number. -/
theorem exec_countedLoop {number : List Char → Option Float} {gid : Nat} {counter : List Char}
    {bound : Nat} (hbound : bound < wordBound) {body next : Code} {frames : Nat → Frames}
    (hbody : ∀ j < bound, ∃ frame,
      exec number gid body ([] :: [(counter, ⟨false, .word j⟩)] :: frames j) =
        some (frame :: [(counter, ⟨false, .word j⟩)] :: frames (j + 1), false)) :
    exec number gid
        (.loop counter (.int 0) (.binary .below (.name counter) (.word bound)) body next) (frames 0) =
      exec number gid next (frames bound) := by
  let state : Nat → Frames := fun j => [(counter, ⟨false, .word j⟩)] :: frames j
  have hfind : ∀ j frames, find? ([(counter, ⟨false, .word j⟩)] :: frames) counter =
      some ⟨false, .word j⟩ := by
    intro j frames
    rw [find?_cons, Frame.lookup_cons, if_pos rfl, Option.some_or]
  let cond : Frames → Option Bool := fun frames => do
    (← eval? number gid frames (.binary .below (.name counter) (.word bound))).holds?
  have hcond : ∀ j, cond (state j) = some (decide (j < bound)) := by
    intro j
    simp only [cond, state, eval?, hfind, Content.scalar?, combine?, Option.bind_eq_bind,
      Option.bind_some]
    cases decide (j < bound) <;> rfl
  have hstep : ∀ j < bound, increment? counter ([(counter, ⟨false, .word j⟩)] :: frames (j + 1)) =
      some (state (j + 1)) := by
    intro j hj
    have hword : (j + 1) % wordBound = j + 1 := Nat.mod_eq_of_lt (by omega)
    have hlookup : List.lookup counter [(counter, ⟨false, Content.word j⟩)] =
        some (⟨false, .word j⟩ : Variable) := by
      rw [Frame.lookup_cons, if_pos rfl]
    simp only [increment?, hfind, Content.scalar?, combine?, hword, Kind.convert?,
      assign?_head hlookup, Option.bind_eq_bind, Option.bind_some, Frame.set, if_true, state]
  -- the bound is a word, so the counter gets there before it wraps around
  have hloop : iterate cond (exec number gid body) (increment? counter) wordBound (state 0) =
      some (state bound, false) := by
    refine iterate_eq (fun j hj => ?_) (fun j hj => ?_) ?_ (Nat.zero_le _) (by omega)
    · rw [hcond, decide_eq_true hj]
    · obtain ⟨frame, hframe⟩ := hbody j hj
      exact ⟨frame, _, hframe, hstep j hj⟩
    · rw [hcond, decide_eq_false (Nat.lt_irrefl bound)]
  rw [exec]
  simp only [eval?, Kind.convert?, Option.bind_eq_bind, Option.bind_some]
  refine (congrArg (Option.bind · _) hloop).trans ?_
  rfl

end ArrayKernels.OpenCL
