import ArrayKernels.Settings
import ArrayKernels.Text.Split

/-!
# Settings from the environment

Settings that variables give. A variable that cannot be read as text counts as not set. A number is
written in decimal digits, with or without a plus sign in front; one that cannot be used leaves the
default in place.
-/

namespace ArrayKernels

/-- The variables that are set to a text. -/
abbrev Environment := String → Option String

/-- The word that a text stands for: digits, with or without a plus sign, and below the bound. -/
def wordOfText? (text : String) : Option Nat := Text.naturalBelow? wordBound text.toList

/-- Whether a text says yes: the word "true" in any case, or the digit one. -/
def saysYes (text : String) : Bool :=
  text.toList.map Char.toLower = "true".toList || text = "1"

/-- A word that is not zero. -/
def positive? (n : Nat) : Option Nat := if n = 0 then none else some n

/-- The settings that the environment gives. -/
def Settings.ofEnvironment (env : Environment) : Settings where
  streamChunkSize :=
    (((env "VECTORIZE_STREAM_CHUNK").bind wordOfText?).bind positive?).getD
      Settings.standard.streamChunkSize
  parallelMinChunk :=
    (((env "VECTORIZE_PARALLEL_MIN_CHUNK").bind wordOfText?).bind positive?).getD
      Settings.standard.parallelMinChunk
  gpuDisabled := ((env "VECTORIZE_DISABLE_GPU").map saysYes).getD Settings.standard.gpuDisabled
  gpuPlatform :=
    ((env "VECTORIZE_GPU_PLATFORM").bind wordOfText?).getD Settings.standard.gpuPlatform

end ArrayKernels
