import OpposingKeys.Encoding
import OpposingKeys.FileSystem
import OpposingKeys.FlagsJson
import OpposingKeys.Notice

/-!
# Stores for the mode flags

A store keeps the flags when the keyboard is off. Loading and saving may fail, and either may leave
the store changed. Three stores are here: a byte of memory that counts its writes, the same memory
behind a line that can be cut, and a settings file. A missing settings file means the defaults.
-/

namespace OpposingKeys

set_option autoImplicit false

structure Loaded (σ : Type) where
  flags : Except SettingsFault Flags
  store : σ
  notices : List Notice := []

class SettingsStore (σ : Type) where
  load : σ → Loaded σ
  save : σ → Flags → Except SettingsFault Unit × σ

/-- One byte and the number of times it was written. -/
structure ByteStore where
  byte : UInt8 := 0
  saves : Nat := 0
deriving DecidableEq, Inhabited

namespace ByteStore

def ofFlags (flags : Flags) : ByteStore := ⟨flags.toByte, 0⟩

def flags (m : ByteStore) : Flags := .ofByte m.byte

def write (m : ByteStore) (flags : Flags) : ByteStore := ⟨flags.toByte, m.saves + 1⟩

instance : SettingsStore ByteStore where
  load m := { flags := .ok m.flags, store := m }
  save m flags := (.ok (), m.write flags)

end ByteStore

/-- A memory that does not answer while its line is cut. -/
structure CuttableStore where
  memory : ByteStore := {}
  loadCut : Bool := false
  saveCut : Bool := false
deriving DecidableEq, Inhabited

namespace CuttableStore

instance : SettingsStore CuttableStore where
  load c :=
    { flags := if c.loadCut then .error (.storage .offline) else .ok c.memory.flags, store := c }
  save c flags :=
    if c.saveCut then (.error (.storage .offline), c)
    else (.ok (), { c with memory := c.memory.write flags })

end CuttableStore

/-- A settings file, and the files among which it lies. -/
structure SettingsFile where
  path : Path
  files : FileSystem

namespace SettingsFile

/-- The flags that the bytes of a settings file describe. -/
def flagsOfBytes (bytes : List UInt8) : Except SettingsFault Flags :=
  match Encoding.strict? (Encoding.Utf8.decode bytes) with
  | none => .error (.storage .notUtf8)
  | some text =>
    match Flags.ofJsonText? text with
    | none => .error .malformed
    | some flags => .ok flags

def load (s : SettingsFile) : Loaded SettingsFile :=
  if s.files.isPresent s.path then
    { store := s
      flags :=
        match s.files.read s.path with
        | .error fault => .error (.storage fault)
        | .ok bytes => flagsOfBytes bytes }
  else { store := s, flags := .ok {}, notices := [.noSettings s.path.text] }

def save (s : SettingsFile) (flags : Flags) : Except SettingsFault Unit × SettingsFile :=
  match s.files.writeBelow s.path (Encoding.Utf8.encode flags.settingsText) with
  | (.error fault, files) => (.error (.storage fault), { s with files })
  | (.ok (), files) => (.ok (), { s with files })

instance : SettingsStore SettingsFile := ⟨load, save⟩

end SettingsFile

end OpposingKeys
