import ArrayKernels.Json.Writer

/-!
# Devices

What is known of a device, and its compact JSON text.
-/

namespace ArrayKernels.Device

/-- What is known of a device. -/
structure Info where
  name : String
  computeUnits : Nat
  memoryBytes : Nat
  /-- The device computes with double precision. -/
  supportsDouble : Bool
deriving DecidableEq

/-- The device as a JSON string. -/
def Info.render (info : Info) : String :=
  String.ofList <| Json.writeRecord
    [("name", .text info.name), ("compute_units", .number info.computeUnits),
     ("memory_bytes", .number info.memoryBytes), ("supports_f64", .truth info.supportsDouble)]

end ArrayKernels.Device
