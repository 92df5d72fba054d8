import ArrayKernels.Settings
import ArrayKernels.Json.Skip
import ArrayKernels.Text.Split

/-!
# Reading settings

A document with settings is an object, or an array that gives the settings in their order and may
end early. What is not given keeps its default. Keys that name no setting are passed over with their
values; a setting may be given only once.
-/

namespace ArrayKernels

/-! ## Single settings -/

/-- The settings by name. -/
inductive Setting where
  | streamChunkSize | parallelMinChunk | gpuDisabled | gpuPlatform
deriving DecidableEq

namespace Setting

/-- All settings, in their order. -/
def all : List Setting := [streamChunkSize, parallelMinChunk, gpuDisabled, gpuPlatform]

/-- The key of the setting in an object. -/
def key : Setting → String
  | streamChunkSize => "stream_chunk_size"
  | parallelMinChunk => "parallel_min_chunk"
  | gpuDisabled => "gpu_disabled"
  | gpuPlatform => "gpu_platform"

/-- The setting with that key. -/
def ofKey? (text : String) : Option Setting := all.find? (·.key = text)

end Setting

/-- The settings that a document has given so far. -/
structure GivenSettings where
  streamChunkSize : Option Nat := none
  parallelMinChunk : Option Nat := none
  gpuDisabled : Option Bool := none
  gpuPlatform : Option Nat := none
deriving DecidableEq

namespace GivenSettings

/-- The settings, with defaults for those that are not given. -/
def complete (g : GivenSettings) : Settings where
  streamChunkSize := g.streamChunkSize.getD Settings.standard.streamChunkSize
  parallelMinChunk := g.parallelMinChunk.getD Settings.standard.parallelMinChunk
  gpuDisabled := g.gpuDisabled.getD Settings.standard.gpuDisabled
  gpuPlatform := g.gpuPlatform.getD Settings.standard.gpuPlatform

/-- Whether the setting has been given. -/
def has (g : GivenSettings) : Setting → Bool
  | .streamChunkSize => g.streamChunkSize.isSome
  | .parallelMinChunk => g.parallelMinChunk.isSome
  | .gpuDisabled => g.gpuDisabled.isSome
  | .gpuPlatform => g.gpuPlatform.isSome

end GivenSettings

/-- The word that a number stands for: digits only, without a sign, and below the bound. -/
def wordOfLiteral? (literal : List Char) : Option Nat := Text.numberBelow? wordBound literal

/-- Takes the value of a setting from a token, if it has the right type. -/
def GivenSettings.give? (g : GivenSettings) : Setting → Json.Token → Option GivenSettings
  | .streamChunkSize, .number literal => do
    return { g with streamChunkSize := some (← wordOfLiteral? literal) }
  | .parallelMinChunk, .number literal => do
    return { g with parallelMinChunk := some (← wordOfLiteral? literal) }
  | .gpuDisabled, .truth value => some { g with gpuDisabled := some value }
  | .gpuPlatform, .number literal => do
    return { g with gpuPlatform := some (← wordOfLiteral? literal) }
  | _, _ => none

/-! ## Documents -/

/-- Reads the value of a member of an object. -/
def readMember (key : String) (tokens : List Json.Token) (g : GivenSettings) :
    Option (GivenSettings × List Json.Token) :=
  match Setting.ofKey? key with
  | none => (Json.skipValue tokens).map (g, ·)
  | some setting =>
    if g.has setting then none
    else
      match tokens with
      | [] => none
      | token :: rest => (g.give? setting token).map (·, rest)

/-- What follows a member is a part of what its value is read from. -/
theorem length_le_of_readMember {key : String} {tokens rest : List Json.Token}
    {g given : GivenSettings} (h : readMember key tokens g = some (given, rest)) :
    rest.length ≤ tokens.length := by
  unfold readMember at h
  split at h
  · obtain ⟨rest', hr, h⟩ := Option.map_eq_some_iff.1 h
    obtain ⟨-, rfl⟩ := Prod.mk.inj h
    exact Json.length_le_of_skipValue hr
  · split at h
    · simp at h
    · split at h
      · simp at h
      · obtain ⟨given', -, h⟩ := Option.map_eq_some_iff.1 h
        obtain ⟨-, rfl⟩ := Prod.mk.inj h
        exact Nat.le_succ _

/-- Reads the members of an object, of which there is at least one more, and its end. -/
def readMembers (tokens : List Json.Token) (g : GivenSettings) :
    Option (GivenSettings × List Json.Token) :=
  match tokens with
  | .text pieces :: .colon :: value =>
    match Json.decodePieces pieces with
    | none => none
    | some key =>
      match _h : readMember (String.ofList key) value g with
      | some (given, .closeObject :: rest) => some (given, rest)
      | some (given, .comma :: rest) => readMembers rest given
      | _ => none
  | _ => none
termination_by tokens.length
decreasing_by
  have := length_le_of_readMember _h
  simp only [List.length_cons] at this ⊢
  omega

/-- Reads the items of an array, of which there is at least one more, and its end. -/
def readItems : List Setting → List Json.Token → GivenSettings →
    Option (GivenSettings × List Json.Token)
  | setting :: settings, token :: rest, g => do
    let g ← g.give? setting token
    match rest with
    | .closeArray :: after => return (g, after)
    | .comma :: more => readItems settings more g
    | _ => none
  | _, _, _ => none

/-- Reads the object or array of a document. -/
def readGiven : List Json.Token → Option (GivenSettings × List Json.Token)
  | .openObject :: .closeObject :: rest => some ({}, rest)
  | .openObject :: members => readMembers members {}
  | .openArray :: .closeArray :: rest => some ({}, rest)
  | .openArray :: items => readItems Setting.all items {}
  | _ => none

/-- The settings that a document gives, before they are checked. -/
def Settings.ofChars? (cs : List Char) : Option Settings := do
  let tokens ← Json.tokens cs
  let (g, rest) ← readGiven tokens
  if rest.isEmpty then return g.complete else none

/-- The settings that a JSON text gives. -/
def Settings.ofJson (text : String) : Except RequestError Settings :=
  match Settings.ofChars? text.toList with
  | none => .error (.invalidValue "json" "not a document with settings")
  | some s => s.validate.map fun _ => s

end ArrayKernels
