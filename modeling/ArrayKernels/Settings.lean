import ArrayKernels.Error
import ArrayKernels.Shape
import ArrayKernels.Json.Writer

/-!
# Settings

The numbers by which a registry is tuned and whether it looks for a device, with their defaults, the
check that they can be used, and their compact JSON text.
-/

namespace ArrayKernels

/-- The settings of a registry. -/
structure Settings where
  /-- The length of a window for the stream target. -/
  streamChunkSize : Nat := 4096
  /-- The least length of a block for the parallel target. -/
  parallelMinChunk : Nat := 1024
  /-- No device is looked for. -/
  gpuDisabled : Bool := false
  /-- The number of the platform on which a device is looked for. -/
  gpuPlatform : Nat := 0
deriving DecidableEq

namespace Settings

/-- The defaults. -/
def standard : Settings := {}

/-- Fails if a length is zero. -/
def validate (s : Settings) : Except RequestError Unit :=
  if s.streamChunkSize = 0 then
    .error (.invalidValue "stream_chunk_size" "must be greater than 0")
  else if s.parallelMinChunk = 0 then
    .error (.invalidValue "parallel_min_chunk" "must be greater than 0")
  else .ok ()

/-- The settings as JSON text. -/
def spell (s : Settings) : List Char :=
  Json.writeRecord
    [("stream_chunk_size", .number s.streamChunkSize),
     ("parallel_min_chunk", .number s.parallelMinChunk),
     ("gpu_disabled", .truth s.gpuDisabled),
     ("gpu_platform", .number s.gpuPlatform)]

/-- The settings as a JSON string. -/
def render (s : Settings) : String := String.ofList s.spell

end Settings

end ArrayKernels
