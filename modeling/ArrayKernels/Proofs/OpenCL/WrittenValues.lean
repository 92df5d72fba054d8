import ArrayKernels.Proofs.CoreMeaning
import ArrayKernels.Proofs.OpenCL.TermMeaning
import ArrayKernels.Proofs.OpenCL.Written

/-!
# Running what is written for an expression

The statements that are written for an expression leave its sums in running totals, and then the
value that is written for it evaluates to the value of the expression. Totals are declared in the
innermost frame. They have numbers of their own, so no statement that is written later gets in the
way of one, and a loop's body declares its totals in a frame that ends with each turn.

All sums are computed, also those in the arm of a choice that is not chosen. So every read that the
expression may make has to be possible.

## Layers

- **Totals**: frames that have nothing but running totals of certain numbers.
- **Views**: what the statements have to find in the frames around them.
- **Expressions**: the statements and the value.

## Main results

- `exec_write`: the statements that are written for an expression, and its value.
-/

namespace ArrayKernels

open OpenCL

/-- The numbers that are written in a tree. -/
def Node.literals : Node → List Float
  | .const v => [v]
  | .arg _ | .load _ _ => []
  | .unary _ a => a.literals
  | .binary _ a b => a.literals ++ b.literals
  | .select c t o => c.literals ++ t.literals ++ o.literals
  | .sum _ body => body.literals

namespace Device

/-- The numerals that can stand in what is written for a tree denote the numbers that they were
printed from. -/
structure Denotes (number : List Char → Option Float) (n : Node) : Prop where
  zero : number "0.0".toList = some 0.0
  one : number "1.0".toList = some 1.0
  literal : ∀ x ∈ n.literals, x.isFinite = true → signed number (Decimal.spellFloat x) = some x

/-! ## Totals -/

theorem Name.lookup_cons (a b : Name) (v : Variable) (frame : Frame) :
    List.lookup b.spell ((a.spell, v) :: frame) =
      if b = a then some v else frame.lookup b.spell := by
  rw [Frame.lookup_cons]
  by_cases h : b = a
  · rw [if_pos h, if_pos (congrArg spell h)]
  · rw [if_neg h, if_neg fun heq => h (spell_injective heq)]

/-- The frame has running totals only, with numbers from `first` on and below `last`. -/
def Totals (first last : Nat) (frame : Frame) : Prop :=
  ∀ entry ∈ frame, ∃ k, first ≤ k ∧ k < last ∧ entry.1 = (Name.total k).spell

namespace Totals

variable {first last : Nat} {frame : Frame}

theorem nil : Totals first last [] := by
  intro entry hentry
  cases hentry

theorem append {middle : Nat} {other : Frame} (hfirst : first ≤ middle) (hlast : middle ≤ last)
    (h : Totals middle last frame) (hother : Totals first middle other) :
    Totals first last (frame ++ other) := by
  intro entry hentry
  rcases List.mem_append.mp hentry with hentry | hentry
  · obtain ⟨k, hk, hk', hname⟩ := h entry hentry
    exact ⟨k, by omega, hk', hname⟩
  · obtain ⟨k, hk, hk', hname⟩ := hother entry hentry
    exact ⟨k, hk, by omega, hname⟩

theorem singleton (h : first < last) (v : Variable) :
    Totals first last [((Name.total first).spell, v)] := by
  intro entry hentry
  rw [List.mem_singleton.mp hentry]
  exact ⟨first, Nat.le_refl first, h, rfl⟩

/-- Other names have no variable in the frame. -/
theorem lookup_eq_none (h : Totals first last frame) {name : Name}
    (hname : ∀ k, first ≤ k → k < last → name ≠ .total k) : frame.lookup name.spell = none := by
  rw [List.lookup_eq_none_iff]
  intro entry hentry
  obtain ⟨k, hk, hk', heq⟩ := h entry hentry
  rw [heq, bne_iff_ne]
  exact fun hspell => hname k hk hk' (Name.spell_injective hspell)

theorem find?_append (h : Totals first last frame) {name : Name}
    (hname : ∀ k, first ≤ k → k < last → name ≠ .total k) (head : Frame) (outer : Frames) :
    find? ((frame ++ head) :: outer) name.spell = find? (head :: outer) name.spell := by
  rw [find?_cons, find?_cons, List.lookup_append, h.lookup_eq_none hname, Option.none_or]

/-- Later totals are still to be declared. -/
theorem fresh_append (h : Totals first last frame) {head : Frame} (hle : first ≤ last)
    (hfresh : ∀ k, first ≤ k → head.lookup (Name.total k).spell = none) :
    ∀ k, last ≤ k → (frame ++ head).lookup (Name.total k).spell = none := by
  intro k hk
  have hnone : frame.lookup (Name.total k).spell = none := by
    refine h.lookup_eq_none fun j _ hj heq => ?_
    cases heq
    omega
  rw [List.lookup_append, hnone, Option.none_or]
  exact hfresh k (hle.trans hk)

end Totals

/-! ## Views -/

/-- What an expression may use: the data of the inputs, the starts of their core blocks, and the
indices of the slots that have one. -/
structure View (arrays : List (Array Float)) (starts : List Nat) (bound : List Nat)
    (index : IndexTable) (frames : Frames) : Prop where
  array : ∀ k data, arrays[k]? = some data →
    ∃ constant, find? frames (Name.input k).spell = some ⟨constant, .array data⟩
  start : ∀ k start, starts[k]? = some start →
    ∃ constant, find? frames (Name.base k).spell = some ⟨constant, .word start⟩
  index : ∀ slot ∈ bound, HoldsIndex frames index slot

namespace View

variable {arrays : List (Array Float)} {starts bound : List Nat} {index : IndexTable}
  {head : Frame} {outer frames frames' : Frames}

/-- Only variables of other kinds than running totals are looked at. -/
theorem of_find?_eq (h : View arrays starts bound index frames)
    (hfind : ∀ name : Name, (∀ k, name ≠ .total k) →
      find? frames' name.spell = find? frames name.spell) :
    View arrays starts bound index frames' where
  array k data hdata := by
    rw [hfind _ (by intro j hj; cases hj)]
    exact h.array k data hdata
  start k start hstart := by
    rw [hfind _ (by intro j hj; cases hj)]
    exact h.start k start hstart
  index slot hslot := by
    obtain ⟨constant, i, hi, hfound⟩ := h.index slot hslot
    exact ⟨constant, i, hi, by rw [hfind _ (by intro j hj; cases hj), hfound]⟩

theorem totals {first last : Nat} {totals : Frame}
    (h : View arrays starts bound index (head :: outer)) (htotals : Totals first last totals) :
    View arrays starts bound index ((totals ++ head) :: outer) :=
  h.of_find?_eq fun _ hname => htotals.find?_append (fun k _ _ => hname k) head outer

/-- In the body of a sum its slot has the index of the turn. -/
theorem enter {slot i number : Nat} (total : Variable)
    (h : View arrays starts bound index (head :: outer)) (hslot : slot < index.length) :
    View arrays starts (slot :: bound) (index.set slot i)
      ([] :: [((Name.index slot).spell, ⟨false, .word i⟩)] ::
        (((Name.total number).spell, total) :: head) :: outer) := by
  have hfind : ∀ name : Name, (∀ k, name ≠ .total k) → name ≠ .index slot →
      find? ([] :: [((Name.index slot).spell, ⟨false, .word i⟩)] ::
        (((Name.total number).spell, total) :: head) :: outer) name.spell =
          find? (head :: outer) name.spell := by
    intro name htotal hindex
    rw [find?_cons, List.lookup_nil, Option.none_or, find?_cons, Name.lookup_cons, if_neg hindex,
      List.lookup_nil, Option.none_or, find?_cons, Name.lookup_cons, if_neg (htotal number),
      find?_cons]
  refine ⟨fun k data hdata => ?_, fun k start hstart => ?_, fun other hother => ?_⟩
  · rw [hfind _ (by intro j hj; cases hj) (by intro hj; cases hj)]
    exact h.array k data hdata
  · rw [hfind _ (by intro j hj; cases hj) (by intro hj; cases hj)]
    exact h.start k start hstart
  · by_cases hsame : other = slot
    · subst hsame
      refine ⟨false, i, List.getElem?_set_self hslot, ?_⟩
      rw [find?_cons, List.lookup_nil, Option.none_or, find?_cons, Name.lookup_cons, if_pos rfl,
        Option.some_or]
    · -- the other slots are those from outside
      have hother : other ∈ bound := (List.mem_cons.mp hother).resolve_left hsame
      obtain ⟨constant, j, hj, hfound⟩ := h.index other hother
      refine ⟨constant, j, by rw [List.getElem?_set_ne (Ne.symm hsame), hj], ?_⟩
      rw [hfind _ (by intro k hk; cases hk) (by intro heq; cases heq; exact hsame rfl), hfound]

end View

/-- A read that the device can make, and that finds what the kernel finds: the position is a word,
and the element stands in the input behind the start of the core block. -/
def Supplied (arrays : List (Array Float)) (starts : List Nat) (strides : List (List Nat))
    (env : Env) (read : Read) : Prop :=
  ∃ data start offset x, arrays[read.operand]? = some data ∧ starts[read.operand]? = some start ∧
    flatOffset read.index read.slots (strides.getD read.operand []) = some offset ∧
      start + offset < wordBound ∧ data[start + offset]? = some x ∧
        env.load read.index read.operand read.slots = some x

/-! ## Expressions -/

section Write

variable {number : List Char → Option Float} {gid : Nat} {env : Env} {strides : List (List Nat)}
  {arrays : List (Array Float)} {starts : List Nat}

/-- A read has the value that it has for the kernel. -/
theorem eval?_load {bound : List Nat} {index : IndexTable} {frames : Frames} {k : Nat}
    {slots : List Nat} (hview : View arrays starts bound index frames)
    (hslots : ∀ slot ∈ slots, slot ∈ bound)
    (h : Supplied arrays starts strides env ⟨k, slots, index⟩) :
    eval? number gid frames
        (Value.element (.input k)
          (.offset (.base k) ((slots.map Name.index).zip (strides.getD k [])))).term =
      some (.number ((Node.load k slots).denote env index)) := by
  obtain ⟨data, start, offset, x, hdata, hstart, hoffset, hword, hx, hload⟩ := h
  obtain ⟨_, harray⟩ := hview.array k data hdata
  obtain ⟨_, hbase⟩ := hview.start k start hstart
  have hterm : eval? number gid frames (.name (Name.base k).spell) = some (.word start) := by
    rw [eval?, hbase]
    rfl
  have hposition := eval?_addTerms (fun slot hslot => hview.index slot (hslots slot hslot)) hoffset
    hword hterm
  simp only [Value.term, Word.term, eval?, harray, Content.array?, hposition, Scalar.position?, hx,
    Node.denote, hload, Option.getD_some, Option.bind_eq_bind, Option.bind_some]
  rfl

/-- The statements declare running totals in the innermost frame, and do nothing else that lasts. -/
structure Runs (number : List Char → Option Float) (gid : Nat) (before : Block) (first last : Nat)
    (head : Frame) (outer : Frames) (totals : Frame) : Prop where
  declares : Totals first last totals
  exec_eq : ∀ c : Block, exec number gid (before.append c).code (head :: outer) =
    exec number gid c.code ((totals ++ head) :: outer)

/-- However many totals are declared later, the value evaluates to the number. -/
def Evaluates (number : List Char → Option Float) (gid : Nat) (value : Value) (first : Nat)
    (frame : Frame) (outer : Frames) (x : Float) : Prop :=
  ∀ last, first ≤ last → ∀ more, Totals first last more →
    eval? number gid ((more ++ frame) :: outer) value.term = some (.number x)

variable {a b : Block} {first middle last : Nat} {head frame totals more : Frame} {outer : Frames}

theorem Runs.done : Runs number gid .done first last head outer [] := ⟨.nil, fun _ => rfl⟩

theorem Runs.append (ha : Runs number gid a first middle head outer totals)
    (hb : Runs number gid b middle last (totals ++ head) outer more) (hfirst : first ≤ middle)
    (hlast : middle ≤ last) :
    Runs number gid (a.append b) first last head outer (more ++ totals) where
  declares := hb.declares.append hfirst hlast ha.declares
  exec_eq c := by rw [Block.append_assoc, ha.exec_eq, hb.exec_eq, List.append_assoc]

/-- A value is not disturbed by totals that are declared later. -/
theorem Evaluates.later {value : Value} {x : Float}
    (h : Evaluates number gid value first frame outer x) (hmore : Totals first middle more)
    (hle : first ≤ middle) : Evaluates number gid value middle (more ++ frame) outer x := by
  intro last hlast others hothers
  rw [← List.append_assoc]
  exact h last (hle.trans hlast) _ (hothers.append hle hlast hmore)

/-- One turn of the loop of a sum: the totals of the body are declared in a frame of its own, and the
value is added to the running total. -/
theorem exec_turn {value : Value} {x acc : Float} {j next : Nat} {index : Name}
    (hindex : ∀ k, index ≠ .total k)
    (hbody : Runs number gid a (next + 1) last []
      ([(index.spell, ⟨false, .word j⟩)] ::
        (((Name.total next).spell, ⟨false, .number acc⟩) :: head) :: outer) totals)
    (hvalue : Evaluates number gid value last (totals ++ [])
      ([(index.spell, ⟨false, .word j⟩)] ::
        (((Name.total next).spell, ⟨false, .number acc⟩) :: head) :: outer) x) :
    exec number gid (a.append (.addTo (.total next) value .done)).code
        ([] :: [(index.spell, ⟨false, .word j⟩)] ::
          (((Name.total next).spell, ⟨false, .number acc⟩) :: head) :: outer) =
      some ((totals ++ []) :: [(index.spell, ⟨false, .word j⟩)] ::
        (((Name.total next).spell, ⟨false, .number (acc + x)⟩) :: head) :: outer, false) := by
  -- the value is evaluated behind the totals of the body, before anything else is declared
  have hx := hvalue last (Nat.le_refl last) [] .nil
  rw [List.nil_append] at hx
  -- neither the totals of the body nor the counter have the name of the running total
  have hinner : List.lookup (Name.total next).spell (totals ++ []) = none := by
    rw [List.append_nil]
    refine hbody.declares.lookup_eq_none fun k hk _ heq => ?_
    cases heq
    omega
  have hcounter : List.lookup (Name.total next).spell [(index.spell, ⟨false, Content.word j⟩)] =
      (none : Option Variable) := by
    rw [Name.lookup_cons, if_neg (hindex next).symm, List.lookup_nil]
  have htotal : List.lookup (Name.total next).spell
      (((Name.total next).spell, ⟨false, Content.number acc⟩) :: head) =
        some (⟨false, .number acc⟩ : Variable) := by
    rw [Name.lookup_cons, if_pos rfl]
  rw [hbody.exec_eq, Block.code, exec]
  simp only [find?_cons, hinner, hcounter, htotal, Option.none_or, Option.some_or, hx,
    Content.scalar?, combine?, Content.kind?, Kind.convert?, assign?_tail hinner,
    assign?_tail hcounter, assign?_head htotal, Option.map_some, Option.bind_eq_bind,
    Option.bind_some, Frame.set, if_true]
  rfl

/-- **The loop of a sum leaves the sum in its total.** Each turn adds the value that the body has at
the index of the turn. -/
theorem Runs.loop (hzero : number "0.0".toList = some 0.0) {slot extent next : Nat} {value : Value}
    {f : Nat → Float} (hbound : extent < wordBound) (hlast : next < last)
    (hnew : head.lookup (Name.total next).spell = none)
    (hbody : ∀ j < extent, ∃ totals,
      Runs number gid a (next + 1) last [] ([((Name.index slot).spell, ⟨false, .word j⟩)] ::
        (((Name.total next).spell, ⟨false, .number (addUp f j)⟩) :: head) :: outer) totals ∧
      Evaluates number gid value last (totals ++ []) ([((Name.index slot).spell, ⟨false, .word j⟩)] ::
        (((Name.total next).spell, ⟨false, .number (addUp f j)⟩) :: head) :: outer) (f j)) :
    Runs number gid
      (.declareTotal (.total next)
        (.loop (.index slot) extent (a.append (.addTo (.total next) value .done)) .done))
      next last head outer [((Name.total next).spell, ⟨false, .number (addUp f extent)⟩)] := by
  let frames : Nat → Frames := fun j =>
    (((Name.total next).spell, ⟨false, .number (addUp f j)⟩) :: head) :: outer
  have hturn : ∀ j < extent, ∃ frame,
      exec number gid (a.append (.addTo (.total next) value .done)).code
          ([] :: [((Name.index slot).spell, ⟨false, .word j⟩)] :: frames j) =
        some (frame :: [((Name.index slot).spell, ⟨false, .word j⟩)] :: frames (j + 1), false) := by
    intro j hj
    obtain ⟨totals, hruns, heval⟩ := hbody j hj
    have hrun := exec_turn (by intro k hk; cases hk) hruns heval
    rw [← addUp_succ f j] at hrun
    exact ⟨_, hrun⟩
  refine ⟨.singleton hlast _, fun c => ?_⟩
  have hloop : exec number gid (.loop _ _ _ _ c.code) (frames 0) =
      exec number gid c.code (frames extent) := exec_countedLoop hbound hturn
  change exec number gid (.declare false .double (Name.total next).spell
    (.decimal "0.0".toList) (.loop _ _ _ _ _)) (head :: outer) = _
  rw [exec]
  simp only [eval?, hzero, Kind.convert?, declare?_eq hnew, Option.map_some, Option.bind_eq_bind,
    Option.bind_some]
  exact hloop

/-- The total of a sum, whatever totals are declared after it. -/
theorem Evaluates.total {next : Nat} {x : Float} (hlast : next < last) :
    Evaluates number gid (.var (.total next)) last
      ([((Name.total next).spell, ⟨false, .number x⟩)] ++ head) outer x := by
  intro later hlater more hmore
  have hlookup : List.lookup (Name.total next).spell more = none := by
    refine hmore.lookup_eq_none fun k hk _ heq => ?_
    cases heq
    omega
  change eval? number gid _ (.name (Name.total next).spell) = _
  rw [eval?, find?_cons, List.lookup_append, hlookup, Option.none_or, List.singleton_append,
    Name.lookup_cons, if_pos rfl, Option.some_or]
  rfl

variable (gid) in
/-- **What is written for an expression computes it.** The statements declare running totals with
numbers from `next` on. However many totals are declared after them, the value evaluates to the value
of the expression. -/
theorem exec_write (hzero : number "0.0".toList = some 0.0) (hone : number "1.0".toList = some 1.0)
    (hextents : ∀ extent ∈ env.extents, extent < wordBound) {n : Node}
    (hliterals : ∀ x ∈ n.literals, x.isFinite = true → signed number (Decimal.spellFloat x) = some x)
    {bound : List Nat} (hscoped : n.Scoped env.extents.length bound) {index : IndexTable}
    (hsafe : n.Safe (Supplied arrays starts strides env) env index) {next : Nat} {head : Frame}
    {outer : Frames} (hview : View arrays starts bound index (head :: outer))
    (hfresh : ∀ k, next ≤ k → head.lookup (Name.total k).spell = none) :
    let written := write ⟨env.extents, strides⟩ n next
    ∃ totals, Runs number gid written.before next written.next head outer totals ∧
      Evaluates number gid written.value written.next (totals ++ head) outer
        (n.denote env index) := by
  induction n generalizing bound index next head outer with
  | const v =>
    refine ⟨[], .done, fun _ _ _ _ => ?_⟩
    exact eval?_literalTerm (hliterals v (List.mem_singleton.mpr rfl))
  | arg i => exact hscoped.elim
  | load k slots =>
    refine ⟨[], .done, fun _ _ _ hmore => ?_⟩
    exact eval?_load (hview.totals hmore) hscoped hsafe
  | unary op a ih =>
    obtain ⟨totals, hruns, heval⟩ := ih hliterals hscoped hsafe hview hfresh
    refine ⟨totals, hruns, fun last hlast more hmore => ?_⟩
    exact eval?_unaryTerm op (heval last hlast more hmore)
  | binary op a b iha ihb =>
    obtain ⟨hlita, hlitb⟩ := List.forall_mem_append.mp hliterals
    have hlea := next_le_write ⟨env.extents, strides⟩ a next
    obtain ⟨ta, hrunsa, hevala⟩ := iha hlita hscoped.1 hsafe.1 hview hfresh
    have hleb := next_le_write ⟨env.extents, strides⟩ b (write ⟨env.extents, strides⟩ a next).next
    obtain ⟨tb, hrunsb, hevalb⟩ := ihb hlitb hscoped.2 hsafe.2 (hview.totals hrunsa.declares)
      (hrunsa.declares.fresh_append hlea hfresh)
    have hevala := hevala.later hrunsb.declares hleb
    refine ⟨tb ++ ta, hrunsa.append hrunsb hlea hleb, fun last hlast more hmore => ?_⟩
    rw [List.append_assoc]
    exact eval?_binaryTerm hone hzero op (hevala last hlast more hmore) (hevalb last hlast more hmore)
  | select c t o ihc iht iho =>
    obtain ⟨hlitct, hlito⟩ := List.forall_mem_append.mp hliterals
    obtain ⟨hlitc, hlitt⟩ := List.forall_mem_append.mp hlitct
    have hlec := next_le_write ⟨env.extents, strides⟩ c next
    obtain ⟨tc, hrunsc, hevalc⟩ := ihc hlitc hscoped.1 hsafe.1 hview hfresh
    have hviewt := hview.totals hrunsc.declares
    have hfresht := hrunsc.declares.fresh_append hlec hfresh
    have hlet := next_le_write ⟨env.extents, strides⟩ t (write ⟨env.extents, strides⟩ c next).next
    obtain ⟨tt, hrunst, hevalt⟩ := iht hlitt hscoped.2.1 hsafe.2.1 hviewt hfresht
    have hleo := next_le_write ⟨env.extents, strides⟩ o
      (write ⟨env.extents, strides⟩ t (write ⟨env.extents, strides⟩ c next).next).next
    obtain ⟨us, hrunso, hevalo⟩ := iho hlito hscoped.2.2 hsafe.2.2 (hviewt.totals hrunst.declares)
      (hrunst.declares.fresh_append hlet hfresht)
    -- the sums of both arms are computed, whichever is chosen
    have hevalc := (hevalc.later hrunst.declares hlet).later hrunso.declares hleo
    have hevalt := hevalt.later hrunso.declares hleo
    refine ⟨us ++ (tt ++ tc), (hrunsc.append hrunst hlec hlet).append ?_ (hlec.trans hlet) hleo,
      fun last hlast more hmore => ?_⟩
    · rw [List.append_assoc]
      exact hrunso
    · rw [List.append_assoc, List.append_assoc]
      exact eval?_selectTerm hzero (hevalc last hlast more hmore) (hevalt last hlast more hmore)
        (hevalo last hlast more hmore)
  | sum slot body ih =>
    obtain ⟨hslot, hbodyScoped⟩ := hscoped
    obtain ⟨hindex, extent, hextent, hbody⟩ := hsafe
    have hbound : extent < wordBound := hextents extent (List.mem_of_getElem? hextent)
    have hlast := next_le_write ⟨env.extents, strides⟩ body (next + 1)
    let value := fun i => body.denote env (index.set slot i)
    -- in each turn the body finds its slot at the index of the turn
    have hruns := Runs.loop hzero hbound hlast (hfresh next (Nat.le_refl next)) fun j hj =>
      ih hliterals hbodyScoped (hbody j hj) (hview.enter ⟨false, .number (addUp value j)⟩ hindex)
        fun _ _ => rfl
    have hvalue : (Node.sum slot body).denote env index = addUp value extent := by
      rw [Node.denote, hextent]
      rfl
    have hgetD : env.extents.getD slot 0 = extent := by
      rw [List.getD_eq_getElem?_getD, hextent, Option.getD_some]
    rw [hvalue]
    refine ⟨_, ?_, .total hlast⟩
    rw [← hgetD] at hruns ⊢
    exact hruns

end Write

end Device

end ArrayKernels
