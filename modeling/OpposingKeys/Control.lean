import OpposingKeys.KeyNames

/-!
# Mode flags and control keys

Two switches decide what happens to key events: whether keys cancel each other at all, and whether
a cancelled key comes back. Six keys with codes of their own turn these switches; none of them is a
basic key. The two flags fit into the low bits of a byte.
-/

namespace OpposingKeys

set_option autoImplicit false

structure Flags where
  cancellation : Bool := false
  /-- Without `cancellation` this flag has no force. -/
  recovery : Bool := false
deriving DecidableEq, Inhabited

namespace Flags

def recoveryActive (flags : Flags) : Bool := flags.cancellation && flags.recovery

def toByte (flags : Flags) : UInt8 :=
  (if flags.cancellation then 1 else 0) ||| (if flags.recovery then 2 else 0)

/-- The other bits do not count. -/
def ofByte (byte : UInt8) : Flags := ⟨byte &&& 1 != 0, byte &&& 2 != 0⟩

@[simp] theorem ofByte_toByte (flags : Flags) : ofByte flags.toByte = flags := by
  obtain ⟨c, r⟩ := flags
  cases c <;> cases r <;> decide

end Flags

inductive Switch where
  | cancellation
  | recovery
deriving DecidableEq

inductive Turn where
  | on
  | off
  | toggle
deriving DecidableEq

def Turn.apply : Turn → Bool → Bool
  | on, _ => true
  | off, _ => false
  | toggle, b => !b

structure Control where
  switch : Switch
  turn : Turn
deriving DecidableEq

def Flags.apply (flags : Flags) (control : Control) : Flags :=
  match control.switch with
  | .cancellation => { flags with cancellation := control.turn.apply flags.cancellation }
  | .recovery => { flags with recovery := control.turn.apply flags.recovery }

namespace Control

/-- All controls in the order of their codes. -/
def all : List Control :=
  [⟨.cancellation, .on⟩, ⟨.cancellation, .off⟩, ⟨.cancellation, .toggle⟩,
   ⟨.recovery, .on⟩, ⟨.recovery, .off⟩, ⟨.recovery, .toggle⟩]

/-- The first of the codes set aside for controls. -/
def base : UInt16 := 0x7E40

def key : Control → Key
  | ⟨.cancellation, .on⟩ => ⟨base⟩
  | ⟨.cancellation, .off⟩ => ⟨base + 1⟩
  | ⟨.cancellation, .toggle⟩ => ⟨base + 2⟩
  | ⟨.recovery, .on⟩ => ⟨base + 3⟩
  | ⟨.recovery, .off⟩ => ⟨base + 4⟩
  | ⟨.recovery, .toggle⟩ => ⟨base + 5⟩

def ofKey? (k : Key) : Option Control := all.find? fun control => control.key = k

def name : Control → String
  | ⟨.cancellation, .on⟩ => "KC_CANCEL_ON"
  | ⟨.cancellation, .off⟩ => "KC_CANCEL_OFF"
  | ⟨.cancellation, .toggle⟩ => "KC_CANCEL_TOGG"
  | ⟨.recovery, .on⟩ => "KC_CANCEL_RECOVERY_ON"
  | ⟨.recovery, .off⟩ => "KC_CANCEL_RECOVERY_OFF"
  | ⟨.recovery, .toggle⟩ => "KC_CANCEL_RECOVERY_TOGG"

/-- Names are found in either letter case, but only whole. -/
def named? (cs : List Char) : Option Control :=
  all.find? fun control => control.name.toList = cs.map Char.toUpper

theorem mem_all (control : Control) : control ∈ all := by
  obtain ⟨switch, turn⟩ := control
  cases switch <;> cases turn <;> decide

@[simp] theorem ofKey?_key (control : Control) : ofKey? control.key = some control := by
  obtain ⟨switch, turn⟩ := control
  cases switch <;> cases turn <;> decide

theorem ofKey?_eq_some_iff {k : Key} {control : Control} :
    ofKey? k = some control ↔ k = control.key := by
  constructor
  · intro h
    have := List.find?_some h
    simpa using (of_decide_eq_true this).symm
  · rintro rfl
    exact ofKey?_key control

theorem isBasic_key (control : Control) : control.key.isBasic = false := by
  obtain ⟨switch, turn⟩ := control
  cases switch <;> cases turn <;> decide

theorem isBasic_of_ofKey? {k : Key} {control : Control} (h : ofKey? k = some control) :
    k.isBasic = false := by
  rw [ofKey?_eq_some_iff.mp h, isBasic_key]

theorem ofKey?_eq_none_of_isBasic {k : Key} (h : k.isBasic = true) : ofKey? k = none := by
  cases hc : ofKey? k with
  | none => rfl
  | some control => exact absurd h (Bool.eq_false_iff.mp (isBasic_of_ofKey? hc))

end Control

end OpposingKeys
