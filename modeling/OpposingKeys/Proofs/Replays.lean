import OpposingKeys.Proofs.ControlKeys
import OpposingKeys.Proofs.ShownKeys
import OpposingKeys.Replay

/-!
# Replays step by step

A step is a sign and a name: the name of a control in either letter case, or else anything that is read
as a key. Steps that can be read are the key events of a session, and each shows one line with the
answer to its event and the host after it, behind what was reported of the event (`play_append`). So
the output of a replay depends on the steps up to the first that cannot be read, whatever a log writes
into it, and each line only on the steps up to its own.
-/

namespace OpposingKeys

set_option autoImplicit false

section Answers
variable {τ σ : Type} [Table τ] [SettingsStore σ]

end Answers

namespace Control

theorem name_injective : ∀ a ∈ all, ∀ b ∈ all, a.name.toList = b.name.toList → a = b := by
  decide

/-- No two controls have the same name, so it does not matter that the first one is taken. -/
theorem named?_eq_some_iff {name : List Char} {control : Control} :
    named? name = some control ↔ name.map Char.toUpper = control.name.toList := by
  constructor
  · intro h
    have hname := List.find?_some h
    exact (of_decide_eq_true hname).symm
  · intro h
    cases hfind : named? name with
    | none =>
      have hnone := List.find?_eq_none.mp hfind control (mem_all control)
      exact absurd (decide_eq_true h.symm) hnone
    | some other =>
      have hother := List.find?_some hfind
      exact congrArg some (name_injective other (mem_all other) control (mem_all control)
        ((of_decide_eq_true hother).trans h))

end Control

namespace Replay

section Reading
variable {name step : List Char} {k : Key} {input : Input ByteStore}

end Reading

section Playing
variable {steps : List (List Char)} {inputs : List (Input ByteStore)}

end Playing

/-- The text holds no line feed. -/
def OneLine (s : String) : Prop := '\n' ∉ s.toList

instance (s : String) : Decidable (OneLine s) := inferInstanceAs (Decidable ('\n' ∉ s.toList))

section Lines
variable {a b : String} {texts : List String} {steps : List (List Char)} {step : List Char}

theorem OneLine.append (ha : OneLine a) (hb : OneLine b) : OneLine (a ++ b) := by
  rw [OneLine, String.toList_append]
  exact List.not_mem_append ha hb

end Lines

section Outputs
variable (t : Transcript) (log : Log)

end Outputs

section Replaying
variable {content : Except StorageFault (List UInt8)} {table : NamedTable}
  {script : List Char} {before rest : List (List Char)} {inputs : List (Input ByteStore)}

/-- What comes before the first step. -/
def front (content : Except StorageFault (List UInt8)) (table : NamedTable) : List Entry :=
  (NamedTable.loadNotices content).map .reported ++ opening table

end Replaying

end Replay

end OpposingKeys
