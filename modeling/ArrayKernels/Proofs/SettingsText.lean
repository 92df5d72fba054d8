import ArrayKernels.Settings.Reader
import ArrayKernels.Proofs.Json.Reading

/-!
# Settings as texts

A document with settings is an object. Some of its members give settings, in any order, and the
others are unknown: their keys name no setting, and their values can be any values. White space may
stand between all tokens. What a document amounts to depends on the settings that it gives alone:
they replace the defaults, and the result is checked. The text that is written for settings is one
of these documents.

## Layers

- **Assignments**: a setting and its value, and what becomes of settings by it.
- **Documents**: the texts of members, objects and documents, as a grammar over characters.
- **Reading**: one member, and then the members of an object by induction on its grammar.
- **Writing**: the written text is a document.

## Main results

- `settings_survive_json`: settings are read back from their text, and documents are read as the
  defaults with what they give; nothing that fails the check is ever read.
-/

namespace ArrayKernels

open Json.Grammar

/-! ## Assignments -/

/-- A setting and its value. -/
inductive Assignment where
  | streamChunkSize (size : Nat)
  | parallelMinChunk (size : Nat)
  | gpuDisabled (disabled : Bool)
  | gpuPlatform (number : Nat)
deriving DecidableEq

namespace Assignment

/-- The setting of an assignment. -/
def setting : Assignment → Setting
  | streamChunkSize _ => .streamChunkSize
  | parallelMinChunk _ => .parallelMinChunk
  | gpuDisabled _ => .gpuDisabled
  | gpuPlatform _ => .gpuPlatform

/-- The value of an assignment. -/
def field : Assignment → Json.Field
  | streamChunkSize size => .number size
  | parallelMinChunk size => .number size
  | gpuDisabled disabled => .truth disabled
  | gpuPlatform number => .number number

/-- A number is a word. -/
def Fits : Assignment → Prop
  | streamChunkSize size => size < wordBound
  | parallelMinChunk size => size < wordBound
  | gpuDisabled _ => True
  | gpuPlatform number => number < wordBound

instance : DecidablePred Fits
  | streamChunkSize size => inferInstanceAs (Decidable (size < wordBound))
  | parallelMinChunk size => inferInstanceAs (Decidable (size < wordBound))
  | gpuDisabled _ => inferInstanceAs (Decidable True)
  | gpuPlatform number => inferInstanceAs (Decidable (number < wordBound))

end Assignment

namespace Settings

/-- The settings with one of them replaced. -/
def set (s : Settings) : Assignment → Settings
  | .streamChunkSize size => { s with streamChunkSize := size }
  | .parallelMinChunk size => { s with parallelMinChunk := size }
  | .gpuDisabled disabled => { s with gpuDisabled := disabled }
  | .gpuPlatform number => { s with gpuPlatform := number }

/-- The defaults, with the assigned settings replaced. -/
def assigned (assignments : List Assignment) : Settings := assignments.foldl set standard

/-- All settings with their values. -/
def assignments (s : Settings) : List Assignment :=
  [.streamChunkSize s.streamChunkSize, .parallelMinChunk s.parallelMinChunk,
    .gpuDisabled s.gpuDisabled, .gpuPlatform s.gpuPlatform]

theorem assigned_assignments (s : Settings) : assigned s.assignments = s := rfl

end Settings

/-! ## Documents -/

/-- The text of a member, and the assignments that it makes: one, or none if it is unknown. -/
inductive MemberText : List Assignment → List Char → Prop where
  | known {a : Assignment} {key left right : List Char} :
    Quoted key a.setting.key → Blank left → Blank right →
    MemberText [a] (key ++ left ++ ':' :: (right ++ a.field.write))
  | unknown {name : String} {key left right value : List Char} :
    (∀ setting : Setting, name ≠ setting.key) → Quoted key name → Blank left → Blank right →
    Written .value value → MemberText [] (key ++ left ++ ':' :: (right ++ value))

/-- Members with commas between them, and the assignments that they make. -/
inductive MembersText : List Assignment → List Char → Prop where
  | last {assignments : List Assignment} {before member after : List Char} :
    Blank before → MemberText assignments member → Blank after →
    MembersText assignments (before ++ member ++ after)
  | more {assignments later : List Assignment} {before member after others : List Char} :
    Blank before → MemberText assignments member → Blank after → MembersText later others →
    MembersText (assignments ++ later) (before ++ member ++ after ++ ',' :: others)

/-- What stands between the braces of an object. -/
inductive InsideText : List Assignment → List Char → Prop where
  | empty {blank : List Char} : Blank blank → InsideText [] blank
  | members {assignments : List Assignment} {cs : List Char} :
    MembersText assignments cs → InsideText assignments cs

/-- An object with white space around it, and the assignments that it makes. -/
inductive DocumentText : List Assignment → List Char → Prop where
  | mk {assignments : List Assignment} {before inside after : List Char} :
    Blank before → InsideText assignments inside → Blank after →
    DocumentText assignments (before ++ ('\x7b' :: inside ++ ['\x7d']) ++ after)

/-! ## Reading -/

namespace Assignment

/-- The value as a token. -/
def token : Assignment → Json.Token
  | streamChunkSize size => .number (Nat.toDigits 10 size)
  | parallelMinChunk size => .number (Nat.toDigits 10 size)
  | gpuDisabled disabled => .truth disabled
  | gpuPlatform number => .number (Nat.toDigits 10 number)

theorem spells_write (a : Assignment) : Json.Spells a.field.write [a.token] := by
  cases a with
  | streamChunkSize size => exact .number (number_toDigits size)
  | parallelMinChunk size => exact .number (number_toDigits size)
  | gpuDisabled disabled => cases disabled <;> exact .word rfl fun _ => rfl
  | gpuPlatform number => exact .number (number_toDigits number)

end Assignment

namespace GivenSettings

/-- What is given once an assignment has been read. -/
def put (g : GivenSettings) : Assignment → GivenSettings
  | .streamChunkSize size => { g with streamChunkSize := some size }
  | .parallelMinChunk size => { g with parallelMinChunk := some size }
  | .gpuDisabled disabled => { g with gpuDisabled := some disabled }
  | .gpuPlatform number => { g with gpuPlatform := some number }

theorem complete_put (g : GivenSettings) (a : Assignment) :
    (g.put a).complete = g.complete.set a := by
  cases a <;> rfl

theorem has_put (g : GivenSettings) (a : Assignment) (setting : Setting) :
    (g.put a).has setting = (decide (setting = a.setting) || g.has setting) := by
  cases a <;> cases setting <;> rfl

theorem complete_foldl_put (g : GivenSettings) (assignments : List Assignment) :
    (assignments.foldl put g).complete = assignments.foldl Settings.set g.complete := by
  induction assignments generalizing g with
  | nil => rfl
  | cons a assignments ih => rw [List.foldl_cons, ih, complete_put, List.foldl_cons]

theorem give?_token {a : Assignment} (h : a.Fits) (g : GivenSettings) :
    g.give? a.setting a.token = some (g.put a) := by
  have hword : ∀ {n}, n < wordBound → wordOfLiteral? (Nat.toDigits 10 n) = some n :=
    Text.numberBelow?_toDigits
  cases a with
  | gpuDisabled disabled => rfl
  | streamChunkSize size | parallelMinChunk size | gpuPlatform number =>
    simp only [Assignment.setting, Assignment.token, give?, hword h]
    rfl

/-- The assignments can follow what is given already: numbers are words, and no setting is given
twice. -/
structure Admits (g : GivenSettings) (assignments : List Assignment) : Prop where
  fits : ∀ a ∈ assignments, a.Fits
  nodup : (assignments.map Assignment.setting).Nodup
  fresh : ∀ a ∈ assignments, g.has a.setting = false

theorem Admits.tail {g : GivenSettings} {a : Assignment} {assignments : List Assignment}
    (h : g.Admits (a :: assignments)) : (g.put a).Admits assignments where
  fits := fun b hb => h.fits b (List.mem_cons_of_mem a hb)
  nodup := (List.nodup_cons.mp h.nodup).2
  fresh := by
    intro b hb
    have hne : b.setting ≠ a.setting := fun heq =>
      (List.nodup_cons.mp h.nodup).1 (heq ▸ List.mem_map_of_mem hb)
    rw [has_put, decide_eq_false hne, Bool.false_or]
    exact h.fresh b (List.mem_cons_of_mem a hb)

theorem Admits.of_append {g : GivenSettings} {assignments later : List Assignment}
    (h : g.Admits (assignments ++ later)) :
    g.Admits assignments ∧ (assignments.foldl put g).Admits later := by
  refine ⟨⟨fun a ha => h.fits a (List.mem_append_left later ha), ?_,
    fun a ha => h.fresh a (List.mem_append_left later ha)⟩, ?_⟩
  · have hnodup := h.nodup
    rw [List.map_append] at hnodup
    exact (List.nodup_append.mp hnodup).1
  · induction assignments generalizing g with
    | nil => exact h
    | cons a assignments ih => exact ih h.tail

end GivenSettings

theorem Setting.ofKey?_key (setting : Setting) : Setting.ofKey? setting.key = some setting := by
  cases setting <;> decide

theorem readMember_known {g : GivenSettings} {a : Assignment} (hfits : a.Fits)
    (hfresh : g.has a.setting = false) (rest : List Json.Token) :
    readMember a.setting.key (a.token :: rest) g = some (g.put a, rest) := by
  simp only [readMember, Setting.ofKey?_key, hfresh, Bool.false_eq_true, if_false,
    GivenSettings.give?_token hfits, Option.map_some]

theorem readMember_unknown {name : String} {tokens rest : List Json.Token} (g : GivenSettings)
    (hname : ∀ setting : Setting, name ≠ setting.key) (hskip : Json.skipValue tokens = some rest) :
    readMember name tokens g = some (g, rest) := by
  have hnone : Setting.ofKey? name = none := by
    rw [Setting.ofKey?, List.find?_eq_none]
    intro setting _ hkey
    exact hname setting (of_decide_eq_true hkey).symm
  simp only [readMember, hnone, hskip, Option.map_some]

/-- A member has a key and a value, and what it gives is added. -/
theorem MemberText.exists_tokens {assignments : List Assignment} {cs : List Char}
    (h : MemberText assignments cs) :
    ∃ pieces name ts, Json.Spells cs (.text pieces :: .colon :: ts) ∧
      Json.decodePieces pieces = some name.toList ∧
      ∀ g rest, GivenSettings.Admits g assignments →
        readMember name (ts ++ rest) g = some (assignments.foldl GivenSettings.put g, rest) := by
  cases h with
  | @known a _ _ _ hkey hleft hright =>
    obtain ⟨hcontents, hpieces⟩ := hkey
    refine ⟨_, _, [a.token], ((Json.Spells.text hcontents).append_blank hleft).append_cons
      (a.spells_write.blank_append hright) .colon, Json.decodePieces_of_standsFor hpieces,
      fun g rest hadmits => ?_⟩
    exact readMember_known (hadmits.fits a List.mem_cons_self)
      (hadmits.fresh a List.mem_cons_self) rest
  | unknown hname hkey hleft hright hvalue =>
    obtain ⟨hcontents, hpieces⟩ := hkey
    obtain ⟨ts, hts, hskip⟩ := Json.exists_tokens_of_value hvalue
    exact ⟨_, _, ts, ((Json.Spells.text hcontents).append_blank hleft).append_cons
      (hts.blank_append hright) .colon, Json.decodePieces_of_standsFor hpieces,
      fun g rest _ => readMember_unknown g hname (hskip rest)⟩

section Members

variable {g given : GivenSettings} {name : String} {pieces : List Json.Piece}
  {value rest : List Json.Token}

theorem readMembers_last (hname : Json.decodePieces pieces = some name.toList)
    (hmember : readMember name value g = some (given, .closeObject :: rest)) :
    readMembers (.text pieces :: .colon :: value) g = some (given, rest) := by
  rw [readMembers]
  simp only [hname]
  split <;> simp_all

theorem readMembers_more (hname : Json.decodePieces pieces = some name.toList)
    (hmember : readMember name value g = some (given, .comma :: rest)) :
    readMembers (.text pieces :: .colon :: value) g = readMembers rest given := by
  rw [readMembers]
  simp only [hname]
  split <;> simp_all

end Members

/-- The members of an object are read, and what they give is added. -/
theorem MembersText.exists_tokens {assignments : List Assignment} {cs : List Char}
    (h : MembersText assignments cs) :
    ∃ ts, Json.Spells cs ts ∧ ∀ g rest, GivenSettings.Admits g assignments →
      readMembers (ts ++ .closeObject :: rest) g =
        some (assignments.foldl GivenSettings.put g, rest) := by
  -- by induction on the grammar, for anything that the members before have given
  induction h with
  | last hbefore hmember hafter =>
    obtain ⟨pieces, name, ts, hts, hname, hread⟩ := hmember.exists_tokens
    exact ⟨_, hts.padded hbefore hafter, fun g rest hadmits =>
      readMembers_last hname (hread g (.closeObject :: rest) hadmits)⟩
  | more hbefore hmember hafter _ ih =>
    obtain ⟨pieces, name, ts, hts, hname, hread⟩ := hmember.exists_tokens
    obtain ⟨us, hus, hothers⟩ := ih
    refine ⟨_, (hts.padded hbefore hafter).append_cons hus .comma, fun g rest hadmits => ?_⟩
    obtain ⟨hfirst, hlater⟩ := hadmits.of_append
    rw [List.append_assoc, List.foldl_append]
    exact (readMembers_more hname (hread g _ hfirst)).trans (hothers _ rest hlater)

theorem readGiven_members {members rest : List Json.Token} {given : GivenSettings}
    (h : readMembers members {} = some (given, rest)) :
    readGiven (.openObject :: members) = some (given, rest) := by
  have hstart : ∀ others, members ≠ .closeObject :: others := by
    rintro others rfl
    rw [readMembers] at h
    · cases h
    · rintro _ _ ⟨⟩
  rw [readGiven, h]
  exact hstart

/-- An object is read, and what it gives is all that is given. -/
theorem InsideText.exists_tokens {assignments : List Assignment} {cs : List Char}
    (h : InsideText assignments cs) :
    ∃ ts, Json.Spells cs ts ∧ (GivenSettings.Admits {} assignments →
      readGiven (.openObject :: ts ++ [.closeObject]) =
        some (assignments.foldl GivenSettings.put {}, [])) := by
  cases h with
  | empty hblank => exact ⟨[], .blank hblank, fun _ => rfl⟩
  | members hmembers =>
    obtain ⟨ts, hts, hread⟩ := hmembers.exists_tokens
    exact ⟨ts, hts, fun hadmits => readGiven_members (hread {} [] hadmits)⟩

theorem ofChars?_of_documentText {assignments : List Assignment} {cs : List Char}
    (h : DocumentText assignments cs) (hadmits : GivenSettings.Admits {} assignments) :
    Settings.ofChars? cs = some (.assigned assignments) := by
  obtain ⟨hbefore, hinside, hafter⟩ := h
  obtain ⟨ts, hts, hread⟩ := hinside.exists_tokens
  have htokens := ((hts.enclosed .openObject .closeObject).padded hbefore hafter) []
    ⟨nofun, nofun, nofun⟩
  rw [List.append_nil, Json.tokens, Option.map_some, List.append_nil] at htokens
  rw [Settings.ofChars?, htokens, Option.bind_eq_bind, Option.bind_some, hread hadmits]
  exact congrArg some (GivenSettings.complete_foldl_put {} assignments)

/-! ## Writing -/

theorem memberText_write (a : Assignment) {left right : List Char} (hleft : Blank left)
    (hright : Blank right) : MemberText [a]
      (Json.writeString a.setting.key ++ left ++ ':' :: (right ++ a.field.write)) :=
  .known (quoted_writeString a.setting.key) hleft hright

/-- The members that are written are members of a document. -/
theorem membersText_writeMembers (a : Assignment) (assignments : List Assignment) :
    MembersText (a :: assignments)
      (Json.writeMembers ((a :: assignments).map fun a => (a.setting.key, a.field))) := by
  have hmember : ∀ b : Assignment,
      MemberText [b] (Json.writeString b.setting.key ++ ':' :: b.field.write) := by
    intro b
    simpa using memberText_write b blank_nil blank_nil
  induction assignments generalizing a with
  | nil => simpa [Json.writeMembers] using MembersText.last blank_nil (hmember a) blank_nil
  | cons b assignments ih =>
    simpa [Json.writeMembers] using MembersText.more blank_nil (hmember a) blank_nil (ih b)

theorem documentText_spell (s : Settings) : DocumentText s.assignments s.spell := by
  have hmembers :=
    membersText_writeMembers (.streamChunkSize s.streamChunkSize) s.assignments.tail
  have hdocument := DocumentText.mk blank_nil (.members hmembers) blank_nil
  rwa [List.nil_append, List.append_nil] at hdocument

/-! ## Settings and their texts -/

theorem ofJson_of_documentText {assignments : List Assignment} {text : String}
    (h : DocumentText assignments text.toList) (hadmits : GivenSettings.Admits {} assignments) :
    Settings.ofJson text =
      (Settings.assigned assignments).validate.map fun _ => Settings.assigned assignments := by
  rw [Settings.ofJson, ofChars?_of_documentText h hadmits]

theorem validate_of_ofJson {text : String} {s : Settings} (h : Settings.ofJson text = .ok s) :
    s.validate = .ok () := by
  unfold Settings.ofJson at h
  split at h
  · cases h
  · next t _ =>
    cases hvalid : t.validate with
    | error fault =>
      rw [hvalid] at h
      cases h
    | ok _ =>
      rw [hvalid] at h
      cases h
      exact hvalid

theorem admits_assignments {s : Settings} (hstream : s.streamChunkSize < wordBound)
    (hparallel : s.parallelMinChunk < wordBound) (hplatform : s.gpuPlatform < wordBound) :
    GivenSettings.Admits {} s.assignments where
  fits := by
    intro a ha
    simp only [Settings.assignments, List.mem_cons, List.not_mem_nil, or_false] at ha
    rcases ha with rfl | rfl | rfl | rfl
    · exact hstream
    · exact hparallel
    · exact trivial
    · exact hplatform
  nodup := by
    show [Setting.streamChunkSize, .parallelMinChunk, .gpuDisabled, .gpuPlatform].Nodup
    decide
  fresh := by
    intro a _
    cases a <;> rfl

/-- **Settings survive their JSON text**: they are read back from it if their lengths are positive,
and the first length that is not is reported otherwise. A document that gives some of the settings,
in any order and between unknown members, is read as the defaults with these settings replaced, if
that passes the check. Nothing that fails the check is read from any text. -/
theorem settings_survive_json :
    (∀ s : Settings, s.streamChunkSize < wordBound → s.parallelMinChunk < wordBound →
      s.gpuPlatform < wordBound →
      Settings.ofJson s.render =
        if s.streamChunkSize = 0 then
          .error (.invalidValue "stream_chunk_size" "must be greater than 0")
        else if s.parallelMinChunk = 0 then
          .error (.invalidValue "parallel_min_chunk" "must be greater than 0")
        else .ok s) ∧
    (∀ (assignments : List Assignment) (text : String), DocumentText assignments text.toList →
      (∀ a ∈ assignments, a.Fits) → (assignments.map Assignment.setting).Nodup →
      Settings.ofJson text =
        (Settings.assigned assignments).validate.map fun _ => Settings.assigned assignments) ∧
    ∀ (text : String) (s : Settings), Settings.ofJson text = .ok s → s.validate = .ok () := by
  refine ⟨fun s hstream hparallel hplatform => ?_, fun assignments text htext hfits hnodup => ?_,
    fun text s => validate_of_ofJson⟩
  · have htext : DocumentText s.assignments s.render.toList := by
      rw [Settings.render, String.toList_ofList]
      exact documentText_spell s
    rw [ofJson_of_documentText htext (admits_assignments hstream hparallel hplatform),
      Settings.assigned_assignments, Settings.validate]
    split
    · rfl
    · split <;> rfl
  · have hfresh : ∀ a ∈ assignments, GivenSettings.has {} a.setting = false := by
      intro a _
      cases a <;> rfl
    exact ofJson_of_documentText htext ⟨hfits, hnodup, hfresh⟩

/-- The greatest word, a member that is passed over, and a setting out of its order. -/
theorem settings_survive_json_around_unknown_member :
    ∃ text, text = " \x7b\"gpu_platform\" : 18446744073709551615 ," ++
        "\"\\uD83D\\ude00\":[\x7b\"a\":[ ]\x7d,-1.5e+3],\n\"stream_chunk_size\":64\x7d" ∧
      DocumentText [.gpuPlatform (wordBound - 1), .streamChunkSize 64] text.toList ∧
      Settings.ofJson text = .ok ⟨64, 1024, false, wordBound - 1⟩ ∧
      Settings.ofJson (Settings.render ⟨1, 0, true, wordBound - 1⟩) =
        .error (.invalidValue "parallel_min_chunk" "must be greater than 0") := by
  have hspace : Blank [' '] := by simp [Blank]
  have hnewline : Blank ['\n'] := by simp [Blank]
  have hletter : Contents ['a'] [.char 'a'] := .plain (by decide) (by decide) (by decide) .nil
  have hobject : Written .value "\x7b\"a\":[ ]\x7d".toList := by
    simpa using Written.object
      (.lastMember blank_nil (.member hletter blank_nil blank_nil (.emptyArray hspace)) blank_nil)
  have hdigit : ∀ c : Char, c.isDigit = true → Digits [c] :=
    fun c hc => ⟨nofun, by simpa using hc⟩
  have hnumber : Number "-1.5e+3".toList :=
    Number.mk (List.mem_cons_of_mem _ List.mem_cons_self) (.digits (by decide) (hdigit '1' rfl))
      (.digits (hdigit '5' rfl))
      (.digits (.inl rfl) (List.mem_cons_of_mem _ List.mem_cons_self) (hdigit '3' rfl))
  have hvalue : Written .value "[\x7b\"a\":[ ]\x7d,-1.5e+3]".toList := by
    simpa using Written.array (.moreItems blank_nil hobject blank_nil
      (.lastItem blank_nil (.number hnumber) blank_nil))
  -- the key is written with the two units of a surrogate pair
  have hkey : Quoted "\"\\uD83D\\ude00\"".toList "😀" := by
    have hlower : ∀ n, n < 16 → HexDigit (Nat.digitChar n) n := fun n => .lower
    have hunits : Contents "\\uD83D\\ude00".toList [.unit 0xD83D, .unit 0xDE00] :=
      .code (.upper (n := 13) (by decide)) (hlower 8 (by decide)) (hlower 3 (by decide))
        (.upper (n := 13) (by decide))
        (.code (hlower 13 (by decide)) (hlower 14 (by decide)) (hlower 0 (by decide))
          (hlower 0 (by decide)) .nil)
    exact .mk hunits (.pair (by decide) (by decide) (by decide) (by decide) .nil)
  have hname : ∀ setting : Setting, "😀" ≠ setting.key := by
    intro setting
    cases setting <;> decide
  have hunknown : MemberText [] "\"\\uD83D\\ude00\":[\x7b\"a\":[ ]\x7d,-1.5e+3]".toList := by
    simpa using MemberText.unknown hname hkey blank_nil blank_nil hvalue
  have hplatform : MemberText [.gpuPlatform (wordBound - 1)]
      "\"gpu_platform\" : 18446744073709551615".toList :=
    memberText_write (.gpuPlatform _) hspace hspace
  have hsize : MemberText [.streamChunkSize 64] "\"stream_chunk_size\":64".toList :=
    memberText_write (.streamChunkSize 64) blank_nil blank_nil
  have hdocument : DocumentText [.gpuPlatform (wordBound - 1), .streamChunkSize 64]
      (" \x7b\"gpu_platform\" : 18446744073709551615 ," ++
        "\"\\uD83D\\ude00\":[\x7b\"a\":[ ]\x7d,-1.5e+3],\n\"stream_chunk_size\":64\x7d").toList := by
    simpa using DocumentText.mk hspace (.members (.more blank_nil hplatform hspace
      (.more blank_nil hunknown blank_nil (.last hnewline hsize blank_nil)))) blank_nil
  refine ⟨_, rfl, hdocument, ?_, ?_⟩
  · exact settings_survive_json.2.1 _ _ hdocument (by decide) (by decide)
  · exact settings_survive_json.1 ⟨1, 0, true, wordBound - 1⟩ (by decide) (by decide) (by decide)

end ArrayKernels
