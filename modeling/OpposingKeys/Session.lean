import OpposingKeys.Engine
import OpposingKeys.Host

/-!
# Sessions

A session is an engine and the host behind it. Its inputs are key events, changes of the modes, of
the filter and of the listener, restarts, and whatever may happen to the store from outside. For a
key event the corrections reach the host first, and then the event itself if it may pass. A restart
makes a new engine over the same table and store; the host keeps its view.
-/

namespace OpposingKeys

set_option autoImplicit false

inductive Input (σ : Type) where
  | key (k : Key) (event : Transition)
  | control (control : Control)
  | filter (filter : Filter)
  | listen (listener : Listener)
  | restart
  | adjust (change : σ → σ)

/-- What one input showed. The action is there for a key event only. -/
structure Response where
  action : Option Action := none
  corrections : List Correction := []
  notices : List Notice := []
  calls : List Call := []
deriving DecidableEq

structure Session (τ σ : Type) where
  engine : Engine τ σ
  host : Host := .empty

namespace Session

variable {τ σ : Type} [Table τ] [SettingsStore σ]

def start (table : τ) (store : σ) : Session τ σ := { engine := .start table store }

def key (s : Session τ σ) (k : Key) (event : Transition) : Session τ σ × Response :=
  let outcome := s.engine.process k event
  ({ engine := outcome.engine
     host := (s.host.apply outcome.corrections).deliver k event.edge outcome.action },
   { action := some outcome.action
     corrections := outcome.corrections
     notices := outcome.notices
     calls := outcome.calls })

def step (s : Session τ σ) : Input σ → Session τ σ × Response
  | .key k event => s.key k event
  | .control control =>
    let switched := s.engine.turn control
    ({ s with engine := switched.engine }, { notices := switched.notices, calls := switched.calls })
  | .filter filter => ({ s with engine := { s.engine with filter := some filter } }, {})
  | .listen listener =>
    let modes := { s.engine.modes with listener := some listener }
    ({ s with engine := { s.engine with modes } }, {})
  | .restart =>
    let store := s.engine.modes.store
    ({ s with engine := .start s.engine.table store }, { notices := Modes.startNotices store })
  | .adjust change =>
    let modes := { s.engine.modes with store := change s.engine.modes.store }
    ({ s with engine := { s.engine with modes } }, {})

def run (s : Session τ σ) (inputs : List (Input σ)) : Session τ σ :=
  inputs.foldl (fun s input => (s.step input).1) s

@[simp] theorem run_nil (s : Session τ σ) : s.run [] = s := rfl

@[simp] theorem run_cons (s : Session τ σ) (input : Input σ) (inputs : List (Input σ)) :
    s.run (input :: inputs) = (s.step input).1.run inputs := rfl

theorem run_append (s : Session τ σ) (xs ys : List (Input σ)) :
    s.run (xs ++ ys) = (s.run xs).run ys := List.foldl_append

end Session

end OpposingKeys
