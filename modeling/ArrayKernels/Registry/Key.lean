import ArrayKernels.Error

/-!
# Strategies, targets and kinds

A strategy says in which form a kernel is run, a target says where. Together they are the key under
which the registry keeps a vectorizer. Both are written in lower case, and only so are they read. A
kind tells one vectorizer from another.
-/

namespace ArrayKernels

/-! ## Strategies -/

/-- The form in which a kernel is run. -/
inductive Strategy where
  /-- As a program for a stack machine. -/
  | stackCode
  /-- As a function built once from the tree. -/
  | closure
  /-- By walking the tree. -/
  | treeWalk
deriving DecidableEq, Inhabited

namespace Strategy

/-- All strategies, in their order. -/
def all : List Strategy := [stackCode, closure, treeWalk]

/-- The name under which the strategy is asked for. -/
def name : Strategy → String
  | stackCode => "bytecode"
  | closure => "ast"
  | treeWalk => "mini"

/-- The place of the strategy in the order. -/
def rank : Strategy → Nat
  | stackCode => 0
  | closure => 1
  | treeWalk => 2

/-- The strategy for a request that names none. -/
def standard : Strategy := closure

/-- The strategy of that name. -/
def ofName? (text : String) : Option Strategy := all.find? (·.name = text)

/-- The strategy of that name, or an error that lists the names there are. -/
def parse (text : String) : Except RequestError Strategy :=
  match ofName? text with
  | some strategy => .ok strategy
  | none => .error (.unknownBackend text (all.map name))

end Strategy

/-! ## Targets -/

/-- Where a vectorized function runs. -/
inductive Target where
  /-- In one loop. -/
  | cpu
  /-- In several loops at once. -/
  | parallel
  /-- In one loop over windows that are copied to scratch buffers. -/
  | stream
  /-- On a device. -/
  | gpu
deriving DecidableEq, Inhabited

namespace Target

/-- All targets, in their order. -/
def all : List Target := [cpu, parallel, stream, gpu]

/-- The name under which the target is asked for. -/
def name : Target → String
  | cpu => "cpu"
  | parallel => "parallel"
  | stream => "stream"
  | gpu => "gpu"

/-- The name of the target in descriptions. -/
def label : Target → String
  | cpu => "Cpu"
  | parallel => "Parallel"
  | stream => "Stream"
  | gpu => "Gpu"

/-- The place of the target in the order. -/
def rank : Target → Nat
  | cpu => 0
  | parallel => 1
  | stream => 2
  | gpu => 3

/-- The target for a request that names none. -/
def standard : Target := cpu

/-- The target of that name. -/
def ofName? (text : String) : Option Target := all.find? (·.name = text)

/-- The target of that name, or an error that lists the names there are. -/
def parse (text : String) : Except RequestError Target :=
  match ofName? text with
  | some target => .ok target
  | none => .error (.unknownTarget text (all.map name))

end Target

/-! ## Kinds -/

/-- The kinds of vectorizers. A vectorizer reports its kind; an entry is labelled with one. -/
inductive Kind where
  | serialStackCode | serialClosure
  | parallelStackCode | parallelClosure
  | streamStackCode | streamClosure
  | gpuClosure
  | serialTreeWalk | parallelTreeWalk
  | coreStackCode | coreClosure
  | gpuCoreClosure
deriving DecidableEq

namespace Kind

/-- All kinds. -/
def all : List Kind :=
  [serialStackCode, serialClosure, parallelStackCode, parallelClosure, streamStackCode,
   streamClosure, gpuClosure, serialTreeWalk, parallelTreeWalk, coreStackCode, coreClosure,
   gpuCoreClosure]

/-- The name that a vectorizer of the kind reports. -/
def name : Kind → String
  | serialStackCode => "BasicVectorize"
  | serialClosure => "BasicAstVectorize"
  | parallelStackCode => "ParallelVectorize"
  | parallelClosure => "ParallelAstVectorize"
  | streamStackCode => "StreamVectorize"
  | streamClosure => "StreamAstVectorize"
  | gpuClosure => "GpuAstVectorize"
  | serialTreeWalk => "MiniVectorize"
  | parallelTreeWalk => "ParallelMiniVectorize"
  | coreStackCode => "GuFuncVectorize"
  | coreClosure => "GuFuncAstVectorize"
  | gpuCoreClosure => "GpuGuFuncAstVectorize"

/-- The kind of that name. -/
def ofName? (text : String) : Option Kind := all.find? (·.name = text)

end Kind

end ArrayKernels
