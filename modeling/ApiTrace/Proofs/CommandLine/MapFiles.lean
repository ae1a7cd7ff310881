import ApiTrace.CommandLine.Run
import ApiTrace.Proofs.Json.LongIntegers
import ApiTrace.Proofs.Text.Utf8

/-!
# Map files that cannot be used

A file that is no trace map is refused with a fault, and the command reports the fault and ends. It
does so for files that are missing, that hold no JSON and that hold another document, but there are
two faults that it does not know: a file that is not UTF-8, and an integer with too many digits,
wherever in the document it stands (`CommandLine.map_faults_are_reported`). All this is so for every
validator.
-/

namespace ApiTrace

/-- Whether a fault of a map file is one that the command reports. -/
def MapFileFault.isReported : MapFileFault → Bool
  | .unreadable _ | .notJson | .invalid _ => true
  | .notUtf8 _ | .numeral _ => false

/-- Whether loading comes to a map or to a fault that is reported. -/
def IsAnswered (outcome : Except MapFileFault (TraceMap (List Text))) : Prop :=
  (∃ m, outcome = .ok m) ∨ ∃ fault, outcome = .error fault ∧ fault.isReported = true

theorem not_isAnswered {fault : MapFileFault} (h : fault.isReported = false) :
    ¬ IsAnswered (.error fault) := by
  rintro (⟨m, hm⟩ | ⟨fault', hfault', hreported⟩)
  · cases hm
  · cases hfault'
    rw [h] at hreported
    cases hreported

/-! ## Loading -/

section Loading

variable [Validator] {bytes : List UInt8} {t : Text}

theorem loadMap_of_not_utf8 (h : ∀ t, Utf8.encode? t ≠ some bytes) :
    ∃ f, loadMap (.ok bytes) = .error (.notUtf8 f) := by
  cases hdecode : Utf8.decode bytes with
  | ok t => exact absurd (Utf8.decode_eq_ok_iff.1 hdecode) (h t)
  | error f =>
    refine ⟨f, ?_⟩
    show ((do return Text.unixNewlines (← Utf8.decode bytes)).mapError MapFileFault.notUtf8 >>= _) =
      _
    rw [hdecode]
    rfl

/-- A file that is UTF-8 is read as a document. -/
theorem loadMap_of_utf8 (h : Utf8.encode? t = some bytes) :
    loadMap (.ok bytes) = ((Json.read (Text.unixNewlines t)).mapError fun
      | .malformed => .notJson
      | .numeral fault => .numeral fault) >>= fun document => (Document.toMap document).mapError
          .invalid := by
  show ((do return Text.unixNewlines (← Utf8.decode bytes)).mapError MapFileFault.notUtf8 >>= _) = _
  rw [Utf8.decode_eq_ok_iff.2 h]
  rfl

theorem loadMap_of_meetsLongInteger (h : Utf8.encode? t = some bytes)
    (hlong : Json.MeetsLongInteger (Text.unixNewlines t)) :
    ∃ f, loadMap (.ok bytes) = .error (.numeral f) := by
  obtain ⟨f, hf⟩ := Json.read_eq_numeral_iff.2 hlong
  refine ⟨f, ?_⟩
  rw [loadMap_of_utf8 h, hf]
  rfl

theorem loadMap_of_not_meetsLongInteger (h : Utf8.encode? t = some bytes)
    (hlong : ¬ Json.MeetsLongInteger (Text.unixNewlines t)) : IsAnswered (loadMap (.ok bytes)) := by
  rw [loadMap_of_utf8 h]
  cases hread : Json.read (Text.unixNewlines t) with
  | error e =>
    cases e with
    | malformed => exact .inr ⟨.notJson, rfl, rfl⟩
    | numeral f => exact absurd (Json.read_eq_numeral_iff.1 ⟨f, hread⟩) hlong
  | ok document =>
    cases hmap : Document.toMap document with
    | ok m => exact .inl ⟨m, mapError_eq_ok.2 hmap⟩
    | error violations =>
      exact .inr ⟨.invalid violations, mapError_eq_error.2 ⟨violations, hmap, rfl⟩, rfl⟩

theorem loadMap_eq_notUtf8_iff :
    (∃ f, loadMap (.ok bytes) = .error (.notUtf8 f)) ↔ ¬ ∃ t, Utf8.encode? t = some bytes := by
  constructor
  · rintro ⟨f, hf⟩ ⟨t, ht⟩
    by_cases hlong : Json.MeetsLongInteger (Text.unixNewlines t)
    · obtain ⟨f', hf'⟩ := loadMap_of_meetsLongInteger ht hlong
      cases hf.symm.trans hf'
    · exact not_isAnswered rfl (hf ▸ loadMap_of_not_meetsLongInteger ht hlong)
  · intro h
    exact loadMap_of_not_utf8 (not_exists.1 h)

theorem loadMap_eq_numeral_iff : (∃ f, loadMap (.ok bytes) = .error (.numeral f)) ↔
    ∃ t, Utf8.encode? t = some bytes ∧ Json.MeetsLongInteger (Text.unixNewlines t) := by
  constructor
  · rintro ⟨f, hf⟩
    by_cases hutf8 : ∃ t, Utf8.encode? t = some bytes
    · obtain ⟨t, ht⟩ := hutf8
      refine ⟨t, ht, ?_⟩
      by_contra hlong
      exact not_isAnswered rfl (hf ▸ loadMap_of_not_meetsLongInteger ht hlong)
    · obtain ⟨f', hf'⟩ := loadMap_eq_notUtf8_iff.2 hutf8
      cases hf.symm.trans hf'
  · rintro ⟨t, ht, hlong⟩
    exact loadMap_of_meetsLongInteger ht hlong

theorem isAnswered_loadMap_iff : IsAnswered (loadMap (.ok bytes)) ↔
    ∃ t, Utf8.encode? t = some bytes ∧ ¬ Json.MeetsLongInteger (Text.unixNewlines t) := by
  constructor
  · intro h
    by_cases hutf8 : ∃ t, Utf8.encode? t = some bytes
    · obtain ⟨t, ht⟩ := hutf8
      refine ⟨t, ht, fun hlong => ?_⟩
      obtain ⟨f, hf⟩ := loadMap_of_meetsLongInteger ht hlong
      exact not_isAnswered rfl (hf ▸ h)
    · obtain ⟨f, hf⟩ := loadMap_eq_notUtf8_iff.2 hutf8
      exact absurd (hf ▸ h) (not_isAnswered rfl)
  · rintro ⟨t, ht, hlong⟩
    exact loadMap_of_not_meetsLongInteger ht hlong

end Loading

/-! ## The command -/

namespace CommandLine

variable {a : Arguments} {view : FileView} {path : Text}

/-- What the command makes of a map file that is refused. -/
theorem runArguments_of_loadMap_eq_error [Validator] (environment : Environment)
    (hversion : a.version = false) (hmap : a.map = some path) (hfiles : a.files ≠ [])
    {fault : MapFileFault} (hfault : loadMap ((view.read path).map (·.bytes)) = .error fault) :
    runArguments a view environment =
      if fault.isReported then .finished
        { exit := 1, printed := [(.err, errorItem (fault.message path))] }
      else .crashed (.mapFile fault) := by
  have hfiles' : a.files.isEmpty = false := by simpa using hfiles
  rw [runArguments, hversion, hmap]
  simp only [hfiles', hfault]
  cases fault <;> rfl

/-- **Faulty map files are reported, with two exceptions.** For all contents of a map file that can
be read:

* loading ends in a fault of the encoding exactly if the contents are not the encoding of any text,
* it ends in a fault of a number exactly if reading the text comes to an integer with too many
  digits,
* in all other cases there is a map or a fault that is reported,
* a run of the command with that file ends in status 1 with the message of the fault if the fault is
  reported, and is broken off by the fault if not. -/
theorem map_faults_are_reported [Validator] (bytes : List UInt8) :
    ((∃ f, loadMap (.ok bytes) = .error (.notUtf8 f)) ↔ ¬ ∃ t, Utf8.encode? t = some bytes) ∧
    ((∃ f, loadMap (.ok bytes) = .error (.numeral f)) ↔
      ∃ t, Utf8.encode? t = some bytes ∧ Json.MeetsLongInteger (Text.unixNewlines t)) ∧
    (IsAnswered (loadMap (.ok bytes)) ↔
      ∃ t, Utf8.encode? t = some bytes ∧ ¬ Json.MeetsLongInteger (Text.unixNewlines t)) ∧
    ∀ (a : Arguments) (view : FileView) (environment : Environment) (path : Text)
      (file : StoredFile)
      (fault : MapFileFault), a.version = false → a.map = some path → a.files ≠ [] →
      view.read path = .ok file → file.bytes = bytes → loadMap (.ok bytes) = .error fault →
      runArguments a view environment =
        if fault.isReported then .finished
          { exit := 1, printed := [(.err, errorItem (fault.message path))] }
        else .crashed (.mapFile fault) := by
  refine ⟨loadMap_eq_notUtf8_iff, loadMap_eq_numeral_iff, isAnswered_loadMap_iff, ?_⟩
  intro a view environment path file fault hversion hmap hfiles hread hbytes hfault
  refine runArguments_of_loadMap_eq_error environment hversion hmap hfiles ?_
  rw [hread]
  show loadMap (.ok file.bytes) = _
  rw [hbytes, hfault]

/-- Arguments with one source file and a map file. -/
def plainArguments : Arguments where
  files := ["a.js"]
  map := some (Text.ofString "map.json")
  mode := none
  strategies := []
  globalObjects := []
  json := false
  verbose := false
  version := false

/-- A view in which all files have the same contents. -/
def uniformView (bytes : List UInt8) : FileView where
  isDirectory _ := false
  read _ := .ok ⟨bytes, .mk ⟨"program", true, ⟨0, 0, 1, 0⟩, none⟩ [], false⟩

theorem map_faults_are_reported_plain :
    runArguments plainArguments (uniformView [0xFF]) {} =
      .crashed (.mapFile (.notUtf8 ⟨0, [0xFF], .start⟩)) ∧
    runArguments plainArguments (uniformView [0x5B]) {} = .finished
      { exit := 1, printed := [(.err, errorItem (MapFileFault.notJson.message "map.json"))] } := by
  have hbytes : loadMap (.ok [0xFF]) = .error (.notUtf8 ⟨0, [0xFF], .start⟩) := rfl
  have hbracket : loadMap (.ok [0x5B]) = .error .notJson := rfl
  constructor
  · exact (map_faults_are_reported [0xFF]).2.2.2 plainArguments (uniformView [0xFF]) {}
      "map.json" _ _ rfl rfl
      (by decide) rfl rfl hbytes
  · exact (map_faults_are_reported [0x5B]).2.2.2 plainArguments (uniformView [0x5B]) {}
      "map.json" _ _ rfl rfl
      (by decide) rfl rfl hbracket

end CommandLine

end ApiTrace
