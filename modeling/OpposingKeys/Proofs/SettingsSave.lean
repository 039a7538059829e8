import OpposingKeys.Proofs.FileWrites
import OpposingKeys.Proofs.Utf8RoundTrip
import OpposingKeys.SettingsStore

/-!
# Saving the settings file

The save either puts the flags where the next load finds them or leaves every file as it was. The
directories above the file are the only thing that it adds besides, and those that were made before
it failed stay.
-/

namespace OpposingKeys

set_option autoImplicit false

/-- What is written on two lines is read as the two flags. -/
theorem Flags.ofJsonText?_settingsText (flags : Flags) :
    Flags.ofJsonText? flags.settingsText = some flags := by
  obtain ⟨_ | _, _ | _⟩ := flags <;> rfl

namespace SettingsFile

theorem flagsOfBytes_encode (flags : Flags) :
    flagsOfBytes (Encoding.Utf8.encode flags.settingsText) = .ok flags := by
  simp only [flagsOfBytes, Encoding.Utf8.decode_encode, Encoding.strict?_map_some,
    Flags.ofJsonText?_settingsText]

theorem load_of_find {path : Path} {files : FileSystem} {bytes : List UInt8}
    (h : files.find path = .ok (.file bytes)) :
    load ⟨path, files⟩ = { flags := flagsOfBytes bytes, store := ⟨path, files⟩ } := by
  have hpresent : files.isPresent path = true := by rw [FileSystem.isPresent, h]; rfl
  have hread : files.read path = .ok bytes := by rw [FileSystem.read, h]
  rw [load, if_pos hpresent, hread]

end SettingsFile

/-- After a save that succeeds the load gives the flags, with no notice, and elsewhere nothing changed
but for new directories on the way. After one that fails nothing changed anywhere but for such
directories. -/
theorem save_all_or_nothing (s : SettingsFile) (flags : Flags) :
    let saved := SettingsStore.save s flags
    let way := s.path.start.OnWay s.path.parentParts
    saved.2.path = s.path ∧
    (saved.1.isOk = true →
      SettingsStore.load saved.2 = { flags := .ok flags, store := saved.2 } ∧
      ∀ location, location ≠ s.path.target → s.files.Kept way saved.2.files location) ∧
    (saved.1.isOk = false → s.files.AddsDirectories way saved.2.files) := by
  intro saved way
  have hsaved : saved = s.save flags := rfl
  have hwritten := s.files.written_writeBelow s.path (Encoding.Utf8.encode flags.settingsText)
  rw [SettingsFile.save] at hsaved
  generalize s.files.writeBelow s.path _ = outcome at hsaved hwritten
  clear_value saved
  subst hsaved
  cases hwritten with
  | failed fault files hadds =>
    refine ⟨rfl, ?_, ?_⟩
    · intro hok
      cases hok
    · intro _
      exact hadds
  | done made files hadds hwrite =>
    refine ⟨rfl, ?_, ?_⟩
    · intro _
      have hload := SettingsFile.load_of_find (FileSystem.find_of_write hwrite)
      rw [SettingsFile.flagsOfBytes_encode] at hload
      refine ⟨hload, ?_⟩
      intro location hother
      have hsame := (FileSystem.at?_of_write hwrite location).trans (if_neg hother)
      rw [FileSystem.Kept, hsame]
      exact hadds location
    · intro hfault
      cases hfault

/-- The first save makes `new` on its way and replaces what was no settings at all. The second one
makes it too and then meets a file where a directory has to be. -/
theorem save_all_or_nothing_with_new_directory :
    let flags : Flags := ⟨true, false⟩
    let notes : Location := ⟨.above 0, ["notes"]⟩
    let conf : Location := ⟨.above 0, ["conf"]⟩
    let files : FileSystem :=
      ⟨[(notes, .file [0x68, 0x69]), (conf, .directory), (conf.child "keys", .file [0xFF])]⟩
    let good : SettingsFile := ⟨⟨"new/../conf/keys"⟩, files⟩
    let bad : SettingsFile := ⟨⟨"new/../notes/keys"⟩, files⟩
    (SettingsStore.save good flags).1.isOk = true ∧
    (SettingsStore.load (SettingsStore.save good flags).2).flags = .ok flags ∧
    (SettingsStore.save good flags).2.files.at? notes = some (.file [0x68, 0x69]) ∧
    (SettingsStore.save bad flags).1.isOk = false ∧
    (SettingsStore.save bad flags).2.files.at? ⟨.above 0, ["new"]⟩ = some .directory ∧
    (SettingsStore.save bad flags).2.files.at? notes = some (.file [0x68, 0x69]) := by
  intro flags notes conf files good bad
  have hok : (SettingsStore.save good flags).1.isOk = true := by decide
  have hfailed : (SettingsStore.save bad flags).1.isOk = false := by decide
  have hnotes : files.at? notes = some (.file [0x68, 0x69]) := by decide
  obtain ⟨_, hgood, _⟩ := save_all_or_nothing good flags
  obtain ⟨_, _, hbad⟩ := save_all_or_nothing bad flags
  obtain ⟨hload, hkept⟩ := hgood hok
  refine ⟨hok, by rw [hload], ?_, hfailed, by decide, ?_⟩
  · exact (hkept notes (by decide)).file hnotes
  · exact (hbad hfailed notes).file hnotes

end OpposingKeys
