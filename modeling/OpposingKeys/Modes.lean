import OpposingKeys.SettingsStore

/-!
# Mode flags in force

The flags in force are loaded once and from then on live here. Every change is written through to
the store and told to the listener, if there is one. A write that fails changes neither.
-/

namespace OpposingKeys

set_option autoImplicit false

abbrev Listener := Nat

/-- A listener and the flags it was told. -/
abbrev Call := Listener × Flags

structure Modes (σ : Type) where
  flags : Flags
  store : σ
  listener : Option Listener := none

namespace Modes

variable {σ : Type} [SettingsStore σ]

/-- Starts with the stored flags, or with the defaults if they cannot be loaded. -/
def start (store : σ) : Modes σ :=
  let loaded := SettingsStore.load store
  { flags := loaded.flags.toOption.getD {}, store := loaded.store }

def startNotices (store : σ) : List Notice :=
  let loaded := SettingsStore.load store
  loaded.notices ++
    (match loaded.flags with
      | .error fault => [.loadFailed fault]
      | .ok _ => []) ++
    [.flags (loaded.flags.toOption.getD {})]

/-- Puts new flags in force and writes them through. -/
def commit (modes : Modes σ) (flags : Flags) : Modes σ :=
  { modes with flags, store := (SettingsStore.save modes.store flags).2 }

def commitNotices (modes : Modes σ) (flags : Flags) : List Notice :=
  .flags flags ::
    match (SettingsStore.save modes.store flags).1 with
    | .error fault => [.persistFailed fault]
    | .ok () => []

def apply (modes : Modes σ) (control : Control) : Modes σ :=
  modes.commit (modes.flags.apply control)

def applyNotices (modes : Modes σ) (control : Control) : List Notice :=
  modes.commitNotices (modes.flags.apply control)

/-- The calls that a change brings about. -/
def applyCalls (modes : Modes σ) (control : Control) : List Call :=
  modes.listener.toList.map fun listener => (listener, modes.flags.apply control)

end Modes

end OpposingKeys
