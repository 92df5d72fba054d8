/-!
# Errors

What can be wrong with a signature, a kernel, a request, a device or a call. Each constructor is a
cause; the wording of all of them stands here, in one `message` per type.
-/

namespace ArrayKernels

/-! ## Text of lists -/

/-- The items, separated by a comma and a blank. -/
def commaSeparated (items : List String) : String := ", ".intercalate items

/-- Extents between square brackets. -/
def bracketed (extents : List Nat) : String := "[" ++ commaSeparated (extents.map toString) ++ "]"

/-! ## Causes -/

/-- What is wrong with the text of a signature. -/
inductive SignatureError where
  /-- The text does not have the form of a signature. -/
  | malformed (signature reason : String)
  /-- No input is declared. -/
  | noInputs
  /-- Not exactly one output is declared. -/
  | multipleOutputs (count : Nat)
  /-- An output dimension occurs in no input. -/
  | outputOnlyDimension (name : String)
  /-- An output dimension occurs twice in the output. -/
  | repeatedOutputDimension (name : String)
deriving DecidableEq

/-- The constructs that only core kernels have. -/
inductive CoreNode where
  | element | sum
deriving DecidableEq

/-- What is wrong with a kernel expression. -/
inductive KernelError where
  /-- An argument position is not below the arity. -/
  | argumentOutOfRange (index arity : Nat)
  /-- A construct of core kernels occurs in an elementwise one. -/
  | coreOnlyNode (node : CoreNode)
  /-- A scalar argument occurs in a core kernel. -/
  | scalarArgument
  /-- An operand is not among the inputs. -/
  | operandOutOfRange (operand inputs : Nat)
  /-- An operand is indexed with another number of dimensions than it has. -/
  | indexRankMismatch (operand expected got : Nat)
  /-- A dimension name is not declared. -/
  | unknownDimension (name : String)
  /-- A dimension name has no value where it is used. -/
  | unboundDimension (name : String)
deriving DecidableEq

/-- What is wrong with a request to the registry or with a setting. -/
inductive RequestError where
  /-- The text names no strategy. -/
  | unknownBackend (value : String) (valid : List String)
  /-- The text names no target. -/
  | unknownTarget (value : String) (valid : List String)
  /-- The strategy has no entry. -/
  | unsupportedBackend (backend : String) (valid : List String)
  /-- The strategy has entries, but none for the target. -/
  | unsupportedTarget (backend target : String) (valid : List String)
  /-- A setting has a value that cannot be used. -/
  | invalidValue (key reason : String)
deriving DecidableEq

/-- Why no device is available. -/
inductive GpuError where
  | disabled
  | notCompiled
  | noPlatform (text : String)
  | noDevice (text : String)
  | noDoublePrecision (text : String)
  | initialization (text : String)
deriving DecidableEq

/-- What is wrong with the arguments of a call or the parts of an array. -/
inductive CallError where
  | arityMismatch (expected got : Nat)
  | lengthMismatch (index len expected : Nat)
  | shapeMismatch (shape : List Nat) (len : Nat)
  | missingCoreDimensions (index ndim core : Nat)
  | dimensionMismatch (dim : String) (first second : Nat)
  | loopShapeMismatch (index : Nat) (expected got : List Nat)
  | accessOutOfBounds (operand axis : Nat) (dim : String) (extent bound : Nat)
  | outputTooLarge (shape : List Nat)
  /-- The device refused to run a kernel. -/
  | launch (text : String)
  /-- An index lies outside its data. The checks that come first exclude it. -/
  | indexFault
  /-- An output of that many elements takes more bytes than can be addressed. -/
  | allocationFault (count : Nat)
deriving DecidableEq

/-- Anything that can go wrong. -/
inductive Error where
  | signature (cause : SignatureError)
  | kernel (cause : KernelError)
  | request (cause : RequestError)
  | gpu (cause : GpuError)
  | call (cause : CallError)
deriving DecidableEq

/-! ## Wording -/

/-- The wording of a signature error. -/
def SignatureError.message : SignatureError → String
  | malformed signature reason => s!"malformed signature '{signature}': {reason}"
  | noInputs => "signature must declare at least one input"
  | multipleOutputs count => s!"only a single output is supported, found {count}"
  | outputOnlyDimension name => s!"output dimension '{name}' does not appear in any input"
  | repeatedOutputDimension name => s!"output dimension '{name}' appears more than once"

/-- The name of a construct of core kernels. -/
def CoreNode.name : CoreNode → String
  | element => "element"
  | sum => "sum"

/-- The wording of a kernel error. -/
def KernelError.message : KernelError → String
  | argumentOutOfRange index arity =>
    s!"argument {index} out of range for function of arity {arity}"
  | coreOnlyNode node => node.name ++ " is only valid inside a generalized ufunc kernel"
  | scalarArgument => "scalar arguments are not valid inside a generalized ufunc kernel"
  | operandOutOfRange operand inputs =>
    s!"operand {operand} out of range for signature with {inputs} inputs"
  | indexRankMismatch operand expected got =>
    s!"operand {operand} indexed with {got} dimensions, core rank is {expected}"
  | unknownDimension name => s!"dimension '{name}' is not declared by the signature"
  | unboundDimension name =>
    s!"dimension '{name}' is used outside of an output index or enclosing sum"

/-- The wording of a request error. -/
def RequestError.message : RequestError → String
  | unknownBackend value valid =>
    s!"unknown backend '{value}' (valid: " ++ commaSeparated valid ++ ")"
  | unknownTarget value valid =>
    s!"unknown target '{value}' (valid: " ++ commaSeparated valid ++ ")"
  | unsupportedBackend backend valid =>
    s!"backend '{backend}' is not registered (valid: " ++ commaSeparated valid ++ ")"
  | unsupportedTarget backend target valid =>
    s!"target '{target}' is not available for backend '{backend}' (valid: "
      ++ commaSeparated valid ++ ")"
  | invalidValue key reason => s!"invalid value for {key}: {reason}"

/-- The wording of a device error. -/
def GpuError.message : GpuError → String
  | disabled => "GPU support disabled by configuration"
  | notCompiled => "built without GPU support (enable the `opencl` feature)"
  | noPlatform text => s!"no OpenCL platform available: {text}"
  | noDevice text => s!"no OpenCL device available: {text}"
  | noDoublePrecision text => s!"device lacks double precision support: {text}"
  | initialization text => s!"GPU initialization failed: {text}"

/-- The wording of a call error. -/
def CallError.message : CallError → String
  | arityMismatch expected got => s!"expected {expected} arguments, got {got}"
  | lengthMismatch index len expected =>
    s!"argument {index} has length {len}, expected {expected} or 1"
  | shapeMismatch shape len =>
    "array shape " ++ bracketed shape ++ s!" does not hold {len} elements"
  | missingCoreDimensions index ndim core =>
    s!"input {index} has {ndim} dimensions, core signature needs at least {core}"
  | dimensionMismatch dim first second => s!"dimension '{dim}' bound to both {first} and {second}"
  | loopShapeMismatch index expected got =>
    s!"input {index} has loop shape " ++ bracketed got ++ ", expected " ++ bracketed expected
  | accessOutOfBounds operand axis dim extent bound =>
    s!"operand {operand} axis {axis}: '{dim}' extent {extent} exceeds axis extent {bound}"
  | outputTooLarge shape =>
    "output shape " ++ bracketed shape ++ " overflows the addressable element count"
  | launch text => s!"GPU launch failed: {text}"
  | indexFault => "index outside of the data"
  | allocationFault count => s!"{count} elements take more bytes than can be addressed"

/-- The wording of an error. -/
def Error.message : Error → String
  | signature cause => cause.message
  | kernel cause => cause.message
  | request cause => cause.message
  | gpu cause => cause.message
  | call cause => cause.message

end ArrayKernels
