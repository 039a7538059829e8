import OpposingKeys.Event
import OpposingKeys.Modes
import OpposingKeys.Snapshot
import OpposingKeys.Table

/-!
# The engine

The engine sees every key event before the host does. It answers whether the event may pass, and
which corrections the host's view needs first. A key that goes down takes away the keys that it
cancels. With recovery, the keys that are down are also kept in a hold buffer; when one of them goes
up, `settle` goes through the others from the last pressed to the first, lets each one that is still
in force empty the places before it of the keys that it cancels, and so decides which keys are
reported again.
-/

namespace OpposingKeys

set_option autoImplicit false

/-- How many held keys are kept for recovery. -/
def holdCapacity : Nat := 10

/-- Says whether an event is to be handled; an event that is not passes untouched. -/
abbrev Filter := Key → Transition → Bool

section Settling

variable {τ : Type} [Table τ] {capacity : Nat}

/-- Empties, before position `j`, the places of the keys that `k` cancels. -/
def clearCancelled (t : τ) (held : HoldBuffer capacity) (k : Key) (j : Nat)
    (s : Snapshot capacity) : Snapshot capacity :=
  (Table.pressing t k).foldl
    (fun s p => if held.contains p.unpress then s.vacateBefore p.unpress j else s) s

/-- Goes through the positions below the given one, downwards. -/
def settleFrom (t : τ) (held : HoldBuffer capacity) :
    Nat → Snapshot capacity → Snapshot capacity
  | 0, s => s
  | j + 1, s =>
    match s.get? j with
    | none => settleFrom t held j s
    | some k => settleFrom t held j (clearCancelled t held k j s)

/-- The held keys by position, without those that a later one in force cancels. -/
def settle (t : τ) (held : HoldBuffer capacity) : Snapshot capacity :=
  settleFrom t held held.size held.snapshot

/-- A key whose place was emptied is released, and one that kept its place is registered. -/
def correctionAt (s : Snapshot capacity) (position : Key × Nat) : Option Correction :=
  match s.get? position.2 with
  | none => some (.release position.1)
  | some k => if k = position.1 then some (.register k) else none

/-- The corrections after a key went up, one for each held key in order. -/
def recover (t : τ) (held : HoldBuffer capacity) : List Correction :=
  held.toList.zipIdx.filterMap (correctionAt (settle t held))

def correctionNotice : Correction → Notice
  | .release k => .keptReleased k
  | .register k => .recovered k

def recoverNotices (t : τ) (held : HoldBuffer capacity) : List Notice :=
  .held held.toList :: .snapshot (settle t held).toList ::
    (recover t held).map correctionNotice

end Settling

structure Engine (τ σ : Type) where
  table : τ
  modes : Modes σ
  held : HoldBuffer holdCapacity := .empty
  filter : Option Filter := none

/-- The engine after a switch was turned, and what that gave rise to. -/
structure Switched (τ σ : Type) where
  engine : Engine τ σ
  notices : List Notice := []
  calls : List Call := []

/-- The engine after a key event, the answer to the event, and what else it gave rise to. -/
structure Outcome (τ σ : Type) where
  engine : Engine τ σ
  action : Action
  corrections : List Correction := []
  notices : List Notice := []
  calls : List Call := []

/-- A key that turned a switch is blocked. -/
def Switched.blocked {τ σ : Type} (switched : Switched τ σ) : Outcome τ σ :=
  { engine := switched.engine
    action := .block
    notices := switched.notices
    calls := switched.calls }

namespace Engine

variable {τ σ : Type} [Table τ] [SettingsStore σ]

def start (table : τ) (store : σ) : Engine τ σ := { table, modes := .start store }

def flags (e : Engine τ σ) : Flags := e.modes.flags

/-- Turns a switch. The hold buffer missed what went up while recovery was off, so when recovery
comes into force the buffer is emptied. -/
def turn (e : Engine τ σ) (control : Control) : Switched τ σ :=
  let modes := e.modes.apply control
  let stale := !e.flags.recoveryActive && modes.flags.recoveryActive && !e.held.isEmpty
  { engine := { e with modes, held := if stale then e.held.clear else e.held }
    notices := e.modes.applyNotices control ++
      if stale then [.staleDropped e.held.toList] else []
    calls := e.modes.applyCalls control }

/-- Why an event is handled or passes untouched. -/
inductive Admission where
  | disabled
  | notBasic
  | vetoed
  | admitted
deriving DecidableEq

def admission (e : Engine τ σ) (k : Key) (event : Transition) : Admission :=
  if !e.flags.cancellation then .disabled
  else if !k.isBasic then .notBasic
  else if e.filter.any fun filter => !filter k event then .vetoed
  else .admitted

/-- The hold buffer after `k` went down. -/
def hold (e : Engine τ σ) (k : Key) : HoldBuffer holdCapacity :=
  if Table.cancels e.table k then e.held.insert k else e.held

def holdNotices (e : Engine τ σ) (k : Key) : List Notice :=
  if Table.cancels e.table k && !e.held.contains k && e.held.isFull then [.bufferFull k] else []

/-- One release for each pair that `k` presses. -/
def cancellations (e : Engine τ σ) (k : Key) : List Correction :=
  (Table.pressing e.table k).map fun p => .release p.unpress

def cancellationNotices (e : Engine τ σ) (k : Key) : List Notice :=
  (Table.pressing e.table k).map fun p => .cancels k p.unpress

/-- An admitted key goes down. Nothing can be opposed while nothing is held. -/
def press (e : Engine τ σ) (k : Key) : Outcome τ σ :=
  if e.flags.recoveryActive then
    let held := e.hold k
    if held.isEmpty then
      { engine := { e with held }
        action := .pass
        notices := e.holdNotices k }
    else
      { engine := { e with held }
        action := .pass
        corrections := e.cancellations k
        notices := e.holdNotices k ++ e.cancellationNotices k }
  else
    { engine := e
      action := .pass
      corrections := e.cancellations k
      notices := e.cancellationNotices k }

def lift (e : Engine τ σ) (k : Key) : Outcome τ σ :=
  if e.flags.recoveryActive then
    let held := if Table.cancels e.table k then e.held.erase k else e.held
    if held.isEmpty then { engine := { e with held }, action := .pass }
    else
      { engine := { e with held }
        action := .pass
        corrections := recover e.table held
        notices := recoverNotices e.table held }
  else { engine := e, action := .pass }

def process (e : Engine τ σ) (k : Key) (event : Transition) : Outcome τ σ :=
  match Control.ofKey? k with
  | some control =>
    match event.edge with
    | .down => (e.turn control).blocked
    | .up => { engine := e, action := .block }
  | none =>
    match e.admission k event with
    | .disabled => { engine := e, action := .pass }
    | .notBasic => { engine := e, action := .pass, notices := [.notBasic k] }
    | .vetoed => { engine := e, action := .pass, notices := [.vetoed k] }
    | .admitted =>
      match event.edge with
      | .down => e.press k
      | .up => e.lift k

end Engine

end OpposingKeys
