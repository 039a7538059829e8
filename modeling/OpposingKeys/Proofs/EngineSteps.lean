import OpposingKeys.Proofs.Settling

/-!
# The steps of an engine

One set of lemmas for each step: what switching a mode, a press and a release do to the hold buffer,
and what the host makes of their corrections. A release is described for engines that are `Tidy`:
their hold buffer has no duplicates and holds only basic keys that cancel some key.
-/

namespace OpposingKeys.Engine

set_option autoImplicit false

variable {τ σ : Type}

section Switching
variable [SettingsStore σ]

/-- Switching a mode keeps the keys in use, unless recovery comes into force. -/
theorem toList_held_turn (e : Engine τ σ) (control : Control) :
    (e.turn control).engine.held.toList =
      if !e.flags.recoveryActive && (e.flags.apply control).recoveryActive then []
      else e.held.toList := by
  have hflags : (e.modes.apply control).flags = e.flags.apply control := rfl
  simp only [turn, hflags]
  by_cases hin : (!e.flags.recoveryActive && (e.flags.apply control).recoveryActive) = true
  · by_cases hempty : e.held.isEmpty = true
    · simp [hin, hempty, HoldBuffer.isEmpty_iff.mp hempty]
    · simp [hin, hempty]
  · simp [hin]

theorem held_turn_sublist (e : Engine τ σ) (control : Control) :
    (e.turn control).engine.held.toList.Sublist e.held.toList := by
  rw [toList_held_turn]
  split
  · exact List.nil_sublist _
  · exact List.Sublist.refl _

/-- Where recovery is in force after a switch, it was in force before, or nothing is held. -/
theorem held_turn_of_active {e : Engine τ σ} {control : Control}
    (hactive : (e.turn control).engine.flags.recoveryActive = true) :
    (e.turn control).engine.held.toList = [] ∨
      (e.flags.recoveryActive = true ∧
        (e.turn control).engine.held.toList = e.held.toList) := by
  replace hactive : (e.flags.apply control).recoveryActive = true := hactive
  rw [toList_held_turn, hactive]
  cases e.flags.recoveryActive with
  | false => exact Or.inl rfl
  | true => exact Or.inr ⟨rfl, rfl⟩

/-- While recovery is in force, no switch takes a key out. -/
theorem held_turn_of_was_active {e : Engine τ σ} {control : Control}
    (hactive : e.flags.recoveryActive = true) :
    (e.turn control).engine.held.toList = e.held.toList := by
  rw [toList_held_turn, hactive]
  rfl

/-- As recovery comes into force, nothing is held. -/
theorem held_turn_of_was_inactive {e : Engine τ σ} {control : Control}
    (hbefore : e.flags.recoveryActive = false)
    (hafter : (e.turn control).engine.flags.recoveryActive = true) :
    (e.turn control).engine.held.toList = [] :=
  (held_turn_of_active hafter).resolve_right fun h =>
    Bool.false_ne_true (hbefore.symm.trans h.1)

/-- While recovery is not in force, no switch touches the hold buffer. -/
theorem held_turn_of_inactive {e : Engine τ σ} {control : Control}
    (hafter : (e.turn control).engine.flags.recoveryActive = false) :
    (e.turn control).engine.held = e.held := by
  replace hafter : (e.modes.apply control).flags.recoveryActive = false := hafter
  simp [turn, hafter]

end Switching

theorem admission_eq_admitted_iff {e : Engine τ σ} {k : Key} {event : Transition} :
    e.admission k event = .admitted ↔
      e.flags.cancellation = true ∧ k.isBasic = true ∧ ∀ f ∈ e.filter, f k event = true := by
  unfold admission
  cases e.flags.cancellation <;> cases k.isBasic <;> cases hfilter : e.filter with
  | none => simp
  | some f => cases hf : f k event <;> simp [hf]

theorem admitted_iff_of_no_filter {e : Engine τ σ} {k : Key} {event : Transition}
    (hfilter : e.filter = none) :
    e.admission k event = .admitted ↔ e.flags.cancellation = true ∧ k.isBasic = true := by
  rw [admission_eq_admitted_iff, hfilter]
  simp

/-- Without a filter, while recovery is in force, only keys that are not basic pass unhandled. -/
theorem isBasic_of_passed {e : Engine τ σ} {k : Key} {event : Transition}
    (hfilter : e.filter = none) (hactive : e.flags.recoveryActive = true)
    (hpass : e.admission k event ≠ .admitted ∨
      (event.edge = .up ∧ e.flags.recoveryActive = false)) : k.isBasic = false := by
  rcases hpass with hpass | ⟨_, hinactive⟩
  · have hon := (Bool.and_eq_true_iff.mp hactive).1
    exact Bool.eq_false_iff.mpr fun hbasic =>
      hpass ((admitted_iff_of_no_filter hfilter).mpr ⟨hon, hbasic⟩)
  · exact absurd (hinactive.symm.trans hactive) Bool.false_ne_true

/-- Which events are handled does not depend on the table. -/
theorem admission_congr {τ' : Type} {e : Engine τ σ} {e' : Engine τ' σ}
    (hflags : e'.flags = e.flags) (hfilter : e'.filter = e.filter) (k : Key) (event : Transition) :
    e'.admission k event = e.admission k event := by
  unfold admission
  rw [hflags, hfilter]

variable [Table τ] {e : Engine τ σ} {k a : Key} {host : Host}

/-- The hold buffer has no duplicates and only basic keys that cancel some key. -/
structure Tidy (e : Engine τ σ) : Prop where
  nodup : e.held.toList.Nodup
  basic : ∀ k ∈ e.held.toList, k.isBasic = true
  cancels : ∀ k ∈ e.held.toList, Table.cancels e.table k = true

theorem tidy_of_nil (h : e.held.toList = []) : e.Tidy where
  nodup := h ▸ .nil
  basic _ hk := absurd (h ▸ hk) List.not_mem_nil
  cancels _ hk := absurd (h ▸ hk) List.not_mem_nil

theorem Tidy.of_sublist {e' : Engine τ σ} (h : e.Tidy) (htable : e'.table = e.table)
    (hheld : e'.held.toList.Sublist e.held.toList) : e'.Tidy where
  nodup := h.nodup.sublist hheld
  basic k hk := h.basic k (hheld.subset hk)
  cancels k hk := htable ▸ h.cancels k (hheld.subset hk)

theorem tidy_turn [SettingsStore σ] (h : e.Tidy) (control : Control) :
    (e.turn control).engine.Tidy :=
  h.of_sublist rfl (e.held_turn_sublist control)

section Pressing

theorem toList_hold (e : Engine τ σ) (k : Key) :
    (e.hold k).toList =
      if Table.cancels e.table k && e.held.accepts k then e.held.toList ++ [k]
      else e.held.toList := by
  unfold hold
  cases Table.cancels e.table k with
  | false => rfl
  | true => exact HoldBuffer.toList_insert e.held k

/-- A press puts its key at the end of the hold buffer or leaves the buffer as it is. -/
theorem toList_hold_cases (e : Engine τ σ) (k : Key) :
    (Table.cancels e.table k = true ∧ k ∉ e.held.toList ∧
      (e.hold k).toList = e.held.toList ++ [k]) ∨ (e.hold k).toList = e.held.toList := by
  rw [toList_hold]
  split
  · next hin =>
    obtain ⟨hcancels, haccepts⟩ := Bool.and_eq_true_iff.mp hin
    exact Or.inl ⟨hcancels, (HoldBuffer.accepts_iff.mp haccepts).1, rfl⟩
  · exact Or.inr rfl

theorem tidy_hold (h : e.Tidy) (hbasic : k.isBasic = true) :
    ({ e with held := e.hold k } : Engine τ σ).Tidy := by
  rcases toList_hold_cases e k with ⟨hcancels, hout, hheld⟩ | hheld
  · constructor
    · change (e.hold k).toList.Nodup
      rw [hheld]
      exact h.nodup.append (List.nodup_singleton k) fun a ha hak =>
        hout (List.mem_singleton.mp hak ▸ ha)
    · change ∀ a ∈ (e.hold k).toList, a.isBasic = true
      rw [hheld]
      exact List.forall_mem_append.mpr ⟨h.basic, List.forall_mem_singleton.mpr hbasic⟩
    · change ∀ a ∈ (e.hold k).toList, Table.cancels e.table a = true
      rw [hheld]
      exact List.forall_mem_append.mpr ⟨h.cancels, List.forall_mem_singleton.mpr hcancels⟩
  · exact h.of_sublist rfl (hheld ▸ List.Sublist.refl _)

/-- A key that cancels another leaves the hold buffer not empty, also where it finds it full. -/
theorem cancellations_eq_nil (h : (e.hold k).isEmpty = true) : e.cancellations k = [] := by
  have hnil : (e.hold k).toList = [] := HoldBuffer.isEmpty_iff.mp h
  rw [toList_hold] at hnil
  by_cases hcancels : Table.cancels e.table k = true
  · split at hnil
    · exact absurd hnil (by simp)
    · next hin =>
      have haccepts : e.held.accepts k = true := by
        rw [HoldBuffer.accepts_iff, hnil]
        exact ⟨List.not_mem_nil, by decide⟩
      exact absurd (by rw [hcancels, haccepts, Bool.and_self]) hin
  · have hnone : Table.pressing e.table k = [] := by
      apply List.eq_nil_iff_forall_not_mem.mpr
      intro p hp
      exact hcancels (Table.cancels_iff.mpr ⟨p, Table.mem_pressing.mp hp⟩)
    rw [cancellations, hnone, List.map_nil]

/-- The hold buffer after `k` went down. -/
def heldOnPress (e : Engine τ σ) (k : Key) : HoldBuffer holdCapacity :=
  if e.flags.recoveryActive then e.hold k else e.held

theorem toList_heldOnPress (e : Engine τ σ) (k : Key) :
    (e.heldOnPress k).toList = e.held.toList ++ [k] ∨
      (e.heldOnPress k).toList = e.held.toList := by
  unfold heldOnPress
  split
  · exact (toList_hold_cases e k).imp_left fun h => h.2.2
  · exact Or.inr rfl

/-- A press that finds the hold buffer full leaves it alone. -/
theorem toList_heldOnPress_of_full (hfull : e.held.isFull = true) :
    (e.heldOnPress k).toList = e.held.toList := by
  unfold heldOnPress
  split
  · have haccepts : e.held.accepts k = false := by rw [HoldBuffer.accepts, hfull, Bool.not_true,
      Bool.and_false]
    rw [toList_hold, haccepts, Bool.and_false]
    rfl
  · rfl

/-- A press disturbs no order among the held keys. -/
theorem before_heldOnPress {b : Key} (h : Before e.held.toList a b) :
    Before (e.heldOnPress k).toList a b := by
  rcases toList_heldOnPress e k with hheld | hheld
  · rw [hheld]
    exact before_append_singleton_iff.mpr (Or.inl h)
  · rw [hheld]
    exact h

theorem mem_heldOnPress (h : a ∈ (e.heldOnPress k).toList) : a ∈ e.held.toList ∨ a = k := by
  unfold heldOnPress at h
  split at h
  · rcases toList_hold_cases e k with ⟨_, _, hheld⟩ | hheld
    · rw [hheld] at h
      exact (List.mem_append.mp h).imp_right List.mem_singleton.mp
    · exact Or.inl (hheld ▸ h)
  · exact Or.inl h

theorem tidy_heldOnPress (h : e.Tidy) (hbasic : k.isBasic = true) :
    ({ e with held := e.heldOnPress k } : Engine τ σ).Tidy := by
  unfold heldOnPress
  split
  · exact tidy_hold h hbasic
  · exact h

/-- The early return on an empty hold buffer skips no correction. -/
theorem press_eq (e : Engine τ σ) (k : Key) : e.press k =
    { engine := { e with held := e.heldOnPress k }
      action := .pass
      corrections := e.cancellations k
      notices := (e.press k).notices } := by
  unfold press heldOnPress
  split
  · by_cases hempty : (e.hold k).isEmpty = true
    · rw [cancellations_eq_nil hempty]
      simp [hempty]
    · simp [hempty]
  · rfl

theorem engine_press (e : Engine τ σ) (k : Key) :
    (e.press k).engine = { e with held := e.heldOnPress k } :=
  congrArg Outcome.engine (e.press_eq k)

theorem action_press (e : Engine τ σ) (k : Key) : (e.press k).action = .pass :=
  congrArg Outcome.action (e.press_eq k)

theorem corrections_press (e : Engine τ σ) (k : Key) :
    (e.press k).corrections = e.cancellations k :=
  congrArg Outcome.corrections (e.press_eq k)

theorem calls_press (e : Engine τ σ) (k : Key) : (e.press k).calls = [] :=
  congrArg Outcome.calls (e.press_eq k)

theorem mem_apply_press :
    a ∈ host.apply (e.press k).corrections ↔ a ∈ host ∧ ¬ Opposes e.table k a := by
  rw [corrections_press, cancellations, mem_apply_releases, opposes_iff_pressing]
  simp

end Pressing

section Lifting

/-- The hold buffer after `k` went up. -/
def heldOnLift (e : Engine τ σ) (k : Key) : HoldBuffer holdCapacity :=
  if Table.cancels e.table k then e.held.erase k else e.held

theorem toList_heldOnLift (h : e.Tidy) (k : Key) :
    (e.heldOnLift k).toList = e.held.toList.erase k := by
  unfold heldOnLift
  split
  · exact HoldBuffer.toList_erase e.held k
  · next hcancels =>
    exact (List.erase_of_not_mem fun hk => hcancels (h.cancels k hk)).symm

theorem mem_heldOnLift (h : e.Tidy) :
    a ∈ (e.heldOnLift k).toList ↔ a ≠ k ∧ a ∈ e.held.toList := by
  rw [toList_heldOnLift h]
  exact h.nodup.mem_erase_iff

theorem nodup_heldOnLift (h : e.Tidy) (k : Key) : (e.heldOnLift k).toList.Nodup := by
  rw [toList_heldOnLift h]
  exact h.nodup.erase k

theorem not_mem_heldOnLift (h : e.Tidy) (k : Key) : k ∉ (e.heldOnLift k).toList :=
  fun hk => absurd rfl ((mem_heldOnLift h).mp hk).1

theorem tidy_heldOnLift (h : e.Tidy) (k : Key) :
    ({ e with held := e.heldOnLift k } : Engine τ σ).Tidy := by
  refine h.of_sublist rfl ?_
  rw [toList_heldOnLift h]
  exact List.erase_sublist

theorem lift_of_inactive (hinactive : e.flags.recoveryActive = false) (k : Key) :
    e.lift k = { engine := e, action := .pass } := by
  rw [lift, if_neg (Bool.eq_false_iff.mp hinactive)]

theorem lift_eq (hactive : e.flags.recoveryActive = true) (k : Key) :
    e.lift k =
      if (e.heldOnLift k).isEmpty then
        { engine := { e with held := e.heldOnLift k }, action := .pass }
      else
        { engine := { e with held := e.heldOnLift k }
          action := .pass
          corrections := recover e.table (e.heldOnLift k)
          notices := recoverNotices e.table (e.heldOnLift k) } := by
  unfold lift
  rw [if_pos hactive]
  rfl

theorem recover_of_nil (t : τ) {capacity : Nat} {held : HoldBuffer capacity}
    (h : held.toList = []) : recover t held = [] := by
  rw [recover, h]
  rfl

/-- The early return on an empty hold buffer gives what the pass would give. -/
theorem lift_of_active (hactive : e.flags.recoveryActive = true) (k : Key) : e.lift k =
    { engine := { e with held := e.heldOnLift k }
      action := .pass
      corrections := recover e.table (e.heldOnLift k)
      notices := (e.lift k).notices } := by
  rw [lift_eq hactive]
  split
  · next hempty => rw [recover_of_nil e.table (HoldBuffer.isEmpty_iff.mp hempty)]
  · rfl

theorem engine_lift (hactive : e.flags.recoveryActive = true) (k : Key) :
    (e.lift k).engine = { e with held := e.heldOnLift k } :=
  congrArg Outcome.engine (lift_of_active hactive k)

theorem corrections_lift (hactive : e.flags.recoveryActive = true) (k : Key) :
    (e.lift k).corrections = recover e.table (e.heldOnLift k) :=
  congrArg Outcome.corrections (lift_of_active hactive k)

theorem action_lift (e : Engine τ σ) (k : Key) : (e.lift k).action = .pass := by
  cases hactive : e.flags.recoveryActive with
  | false => rw [lift_of_inactive hactive]
  | true => rw [lift_of_active hactive]

theorem mem_apply_lift (h : e.Tidy) (hactive : e.flags.recoveryActive = true) :
    a ∈ host.apply (e.lift k).corrections ↔
      (a ∈ host ∧ a ∉ (e.heldOnLift k).toList) ∨
        a ∈ survivors e.table (e.heldOnLift k).toList := by
  rw [corrections_lift hactive, mem_apply_recover e.table (nodup_heldOnLift h k)]

end Lifting

section Handling
variable [SettingsStore σ]

/-- The ways in which an engine handles an event of `k`. -/
inductive Handling (e : Engine τ σ) (k : Key) (event : Transition) : Outcome τ σ → Prop where
  | turned (control : Control) (hcontrol : Control.ofKey? k = some control)
      (hdown : event.edge = .down) : Handling e k event (e.turn control).blocked
  | swallowed (control : Control) (hcontrol : Control.ofKey? k = some control)
      (hup : event.edge = .up) : Handling e k event { engine := e, action := .block }
  | passed (hplain : Control.ofKey? k = none) (hrejected : e.admission k event ≠ .admitted)
      (notices : List Notice) : Handling e k event { engine := e, action := .pass, notices }
  | pressed (hplain : Control.ofKey? k = none) (hadmitted : e.admission k event = .admitted)
      (hdown : event.edge = .down) : Handling e k event (e.press k)
  | lifted (hplain : Control.ofKey? k = none) (hadmitted : e.admission k event = .admitted)
      (hup : event.edge = .up) : Handling e k event (e.lift k)

theorem handling (e : Engine τ σ) (k : Key) (event : Transition) :
    Handling e k event (e.process k event) := by
  unfold process
  cases hcontrol : Control.ofKey? k with
  | some control =>
    cases hedge : event.edge with
    | down => exact .turned control hcontrol hedge
    | up => exact .swallowed control hcontrol hedge
  | none =>
    cases hadmission : e.admission k event with
    | disabled => exact .passed hcontrol (by simp [hadmission]) []
    | notBasic => exact .passed hcontrol (by simp [hadmission]) _
    | vetoed => exact .passed hcontrol (by simp [hadmission]) _
    | admitted =>
      cases hedge : event.edge with
      | down => exact .pressed hcontrol hadmission hedge
      | up => exact .lifted hcontrol hadmission hedge

/-- Control keys are blocked, and all others pass. -/
theorem Handling.action_eq {e : Engine τ σ} {k : Key} {event : Transition} {outcome : Outcome τ σ}
    (h : Handling e k event outcome) :
    outcome.action = if (Control.ofKey? k).isSome then .block else .pass := by
  cases h with
  | turned control hcontrol => simp [hcontrol, Switched.blocked]
  | swallowed control hcontrol => simp [hcontrol]
  | passed hplain => simp [hplain]
  | pressed hplain => simp [hplain, action_press]
  | lifted hplain => simp [hplain, action_lift]

end Handling

end OpposingKeys.Engine
