import OpposingKeys.Proofs.Release

/-!
# Control keys stand apart

The pairs of a table may name control keys, so a correction may well release one. Yet no control key
is ever held or registered: only admitted keys come into the hold buffer, they are basic, and the host
never sees the event of a control key. A control key that goes down does what its control does, and
one that goes up does nothing, so releases of control keys can be left out of a run.
-/

namespace OpposingKeys

set_option autoImplicit false

variable {τ σ : Type}

namespace Control
variable {k : Key}

/-- Six codes in a row are set aside for controls. -/
theorem exists_key_iff : (∃ control : Control, control.key = k) ↔
    0x7E40 ≤ k.code ∧ k.code ≤ 0x7E45 := by
  constructor
  · rintro ⟨⟨switch, turn⟩, rfl⟩
    cases switch <;> cases turn <;> decide
  · rintro ⟨hlow, hhigh⟩
    obtain ⟨code⟩ := k
    have hl : 0x7E40 ≤ code.toNat := UInt16.le_iff_toNat_le.mp hlow
    have hh : code.toNat ≤ 0x7E45 := UInt16.le_iff_toNat_le.mp hhigh
    have hkey : ∀ n, n < 6 → ∃ control ∈ all, control.key = ⟨(0x7E40 + n).toUInt16⟩ := by decide
    obtain ⟨control, _, hcontrol⟩ := hkey (code.toNat - 0x7E40) (by omega)
    refine ⟨control, hcontrol.trans ?_⟩
    rw [Nat.add_sub_cancel' hl]
    exact congrArg Key.mk UInt16.ofNat_toNat

theorem isSome_ofKey?_iff : (ofKey? k).isSome = true ↔ 0x7E40 ≤ k.code ∧ k.code ≤ 0x7E45 := by
  rw [← exists_key_iff, Option.isSome_iff_exists]
  exact exists_congr fun control => ofKey?_eq_some_iff.trans eq_comm

end Control

theorem Engine.action_eq [Table τ] [SettingsStore σ] (e : Engine τ σ) (k : Key) (event : Transition) :
    (e.process k event).action = if 0x7E40 ≤ k.code ∧ k.code ≤ 0x7E45 then .block else .pass := by
  rw [(e.handling k event).action_eq]
  exact if_congr Control.isSome_ofKey?_iff rfl rfl

section Isolation
variable [Table τ] {s s' : Session τ σ} {k a : Key} {event : Transition}

/-- No control key is held, neither here nor by the host. -/
structure ControlFree (s : Session τ σ) : Prop where
  tidy : s.engine.Tidy
  host : ∀ k ∈ s.host, Control.ofKey? k = none

theorem ControlFree.held (h : ControlFree s) (hk : k ∈ s.engine.held.toList) :
    Control.ofKey? k = none :=
  Control.ofKey?_eq_none_of_isBasic (h.tidy.basic k hk)

variable [SettingsStore σ]

theorem KeyMove.controlFree (hmove : KeyMove s k event s') (h : ControlFree s) : ControlFree s' := by
  refine ⟨hmove.tidy h.tidy, ?_⟩
  intro a ha
  cases hmove with
  | turned => exact h.host a ha
  | swallowed => exact h.host a ha
  | passed hplain =>
    by_cases hak : a = k
    · exact hak ▸ hplain
    · exact h.host a ((Host.mem_deliver_of_ne event.edge .pass hak).mp ha)
  | pressed hadmitted _ host hhost =>
    rcases (hhost a).mp ha with rfl | ⟨ha, _⟩
    · exact Control.ofKey?_eq_none_of_isBasic (Engine.admission_eq_admitted_iff.mp hadmitted).2.1
    · exact h.host a ha
  | lifted _ _ _ host hhost =>
    obtain ⟨⟨ha, _⟩ | ha, _⟩ := (hhost a).mp ha
    · exact h.host a ha
    · exact h.held ((Engine.mem_heldOnLift h.tidy).mp (mem_of_mem_survivors ha)).2

theorem controlFree_start (table : τ) (store : σ) : ControlFree (Session.start table store) where
  tidy := Session.tidy_start table store
  host k hk := absurd hk (Host.not_mem_empty k)

theorem ControlFree.step (h : ControlFree s) (input : Input σ) : ControlFree (s.step input).1 := by
  cases input with
  | key k event => exact (Session.keyMove h.tidy k event).controlFree h
  | _ => exact ⟨Session.tidy_step h.tidy _, h.host⟩

theorem ControlFree.run (h : ControlFree s) (inputs : List (Input σ)) : ControlFree (s.run inputs) := by
  induction inputs generalizing s with
  | nil => exact h
  | cons input inputs ih => exact ih (h.step input)

/-- Presses only release, and a release registers only what is still held. -/
theorem Engine.Handling.mem_held_of_register {e : Engine τ σ} {outcome : Outcome τ σ}
    (h : Engine.Handling e k event outcome) (htidy : e.Tidy)
    (ha : .register a ∈ outcome.corrections) : a ∈ e.held.toList := by
  cases h with
  | pressed =>
    rw [Engine.corrections_press, Engine.cancellations, List.mem_map] at ha
    obtain ⟨p, _, hp⟩ := ha
    cases hp
  | lifted =>
    cases hactive : e.flags.recoveryActive with
    | false =>
      rw [Engine.lift_of_inactive hactive] at ha
      exact absurd ha List.not_mem_nil
    | true =>
      rw [Engine.corrections_lift hactive,
        register_mem_recover_iff _ (Engine.nodup_heldOnLift htidy k)] at ha
      exact ((Engine.mem_heldOnLift htidy).mp (mem_of_mem_survivors ha)).2
  | _ => exact absurd ha List.not_mem_nil

theorem ControlFree.registered (h : ControlFree s) {input : Input σ}
    (ha : .register a ∈ (s.step input).2.corrections) : Control.ofKey? a = none := by
  cases input with
  | key k event => exact h.held ((s.engine.handling k event).mem_held_of_register h.tidy ha)
  | _ => exact absurd ha List.not_mem_nil

end Isolation

/-- The items but for those whose places are left out. -/
def without {α : Type} (leftOut : Nat → Bool) (xs : List α) : List α :=
  (xs.zipIdx.filter fun place => !leftOut place.2).map Prod.fst

theorem without_cons {α : Type} (leftOut : Nat → Bool) (x : α) (xs : List α) :
    without leftOut (x :: xs) =
      if leftOut 0 then without (fun i => leftOut (i + 1)) xs
      else x :: without (fun i => leftOut (i + 1)) xs := by
  rw [without, List.zipIdx_cons', List.filter_cons, List.filter_map]
  cases leftOut 0 <;> simp [without, Function.comp_def]

variable [Table τ] [SettingsStore σ]

/-- A control key goes up. -/
def Input.ControlRelease (input : Input σ) : Prop :=
  ∃ (control : Control) (place : Option Place), input = .key control.key ⟨.up, place⟩

namespace Session
variable {s : Session τ σ} {input : Input σ} {inputs : List (Input σ)}

/-- The answer to each input of a run, and the session after it. -/
def answers (s : Session τ σ) : List (Input σ) → List (Response × Session τ σ)
  | [] => []
  | input :: inputs => ((s.step input).2, (s.step input).1) :: (s.step input).1.answers inputs

theorem key_press_control (s : Session τ σ) (control : Control) (place : Option Place) :
    s.key control.key ⟨.down, place⟩ =
      ((s.step (.control control)).1,
        { (s.step (.control control)).2 with action := some .block }) := by
  simp only [key, Engine.process, Control.ofKey?_key]
  rfl

theorem key_release_control (s : Session τ σ) (control : Control) (place : Option Place) :
    s.key control.key ⟨.up, place⟩ = (s, { action := some .block }) := by
  simp only [key, Engine.process, Control.ofKey?_key]
  rfl

theorem step_of_controlRelease (s : Session τ σ) (h : input.ControlRelease) :
    (s.step input).1 = s := by
  obtain ⟨control, place, rfl⟩ := h
  exact congrArg Prod.fst (s.key_release_control control place)

theorem run_without (s : Session τ σ) (leftOut : Nat → Bool)
    (h : ∀ i input, leftOut i = true → inputs[i]? = some input → input.ControlRelease) :
    s.answers (without leftOut inputs) = without leftOut (s.answers inputs) ∧
      s.run (without leftOut inputs) = s.run inputs := by
  induction inputs generalizing s leftOut with
  | nil => exact ⟨rfl, rfl⟩
  | cons input inputs ih =>
    have hmore := fun i next => h (i + 1) next
    rw [answers, run_cons, without_cons, without_cons]
    cases hleft : leftOut 0 with
    | true =>
      rw [step_of_controlRelease s (h 0 input hleft rfl)]
      exact ih s _ hmore
    | false => exact (ih (s.step input).1 _ hmore).imp_left (congrArg (_ :: ·))

end Session

/-- Control keys are never held or registered, they alone are blocked, their events bring no corrections,
their presses do what their controls do, and their releases do nothing. -/
theorem control_keys_stand_apart (table : τ) (store : σ) (inputs : List (Input σ)) :
    (∀ control : Control,
      control.key ∉ ((Session.start table store).run inputs).engine.held.toList ∧
      control.key ∉ ((Session.start table store).run inputs).host ∧
      ∀ input, .register control.key ∉
        (((Session.start table store).run inputs).step input).2.corrections) ∧
    (∀ (s : Session τ σ) (k : Key) (event : Transition), (s.key k event).2.action =
      some (if 0x7E40 ≤ k.code ∧ k.code ≤ 0x7E45 then .block else .pass)) ∧
    (∀ (s : Session τ σ) (control : Control) (event : Transition),
      (s.key control.key event).2.corrections = []) ∧
    (∀ (s : Session τ σ) (control : Control) (place : Option Place),
      s.key control.key ⟨.down, place⟩ =
        ((s.step (.control control)).1,
          { (s.step (.control control)).2 with action := some .block })) ∧
    (∀ (s : Session τ σ) (leftOut : Nat → Bool),
      (∀ i input, leftOut i = true → inputs[i]? = some input → input.ControlRelease) →
        s.answers (without leftOut inputs) = without leftOut (s.answers inputs) ∧
        s.run (without leftOut inputs) = s.run inputs) := by
  have hfree := (controlFree_start table store).run inputs
  refine ⟨?_, ?_, ?_, Session.key_press_control, ?_⟩
  · intro control
    have hcontrol : Control.ofKey? control.key ≠ none := by simp
    exact ⟨fun h => hcontrol (hfree.held h), fun h => hcontrol (hfree.host _ h),
      fun input h => hcontrol (hfree.registered h)⟩
  · intro s k event
    exact congrArg some (s.engine.action_eq k event)
  · rintro s control ⟨edge, place⟩
    cases edge with
    | down => rw [Session.key_press_control]; rfl
    | up => rw [Session.key_release_control]
  · exact fun s leftOut h => s.run_without leftOut h

/-- A table that names a control key, a filter that would veto it, and both its releases left out. -/
theorem control_keys_stand_apart_in_table :
    let a : Key := ⟨0x04⟩
    let d : Key := ⟨0x07⟩
    let toggle : Control := ⟨.recovery, .toggle⟩
    let table : List Pair := [⟨a, toggle.key⟩, ⟨toggle.key, a⟩, ⟨a, d⟩, ⟨d, a⟩]
    let store := ByteStore.ofFlags ⟨true, true⟩
    let inputs : List (Input ByteStore) := [.filter fun k _ => k ≠ toggle.key,
      .key a ⟨.down, none⟩, .key toggle.key ⟨.down, none⟩, .key toggle.key ⟨.up, none⟩,
      .key d ⟨.down, none⟩, .key toggle.key ⟨.down, none⟩, .key toggle.key ⟨.up, none⟩,
      .key a ⟨.down, none⟩, .key a ⟨.up, none⟩]
    let leftOut (i : Nat) : Bool := i == 3 || i == 6
    let s := Session.start table store
    (∀ i input, leftOut i = true → inputs[i]? = some input → input.ControlRelease) ∧
    s.answers (without leftOut inputs) = without leftOut (s.answers inputs) ∧
    s.run (without leftOut inputs) = s.run inputs ∧
    (s.answers inputs).map (fun answer => answer.1.corrections) = [[],
      [.release toggle.key, .release d], [], [], [.release a], [], [],
      [.release toggle.key, .release d], []] ∧
    toggle.key ∉ (s.run inputs).host := by
  intro a d toggle table store inputs leftOut s
  have hleft : ∀ i input, leftOut i = true → inputs[i]? = some input → input.ControlRelease := by
    intro i input hi hinput
    obtain rfl | rfl : i = 3 ∨ i = 6 := by simpa [leftOut] using hi
    · exact ⟨toggle, none, (Option.some.inj hinput).symm⟩
    · exact ⟨toggle, none, (Option.some.inj hinput).symm⟩
  obtain ⟨hfree, _, _, _, hrun⟩ := control_keys_stand_apart table store inputs
  obtain ⟨hanswers, hlast⟩ := hrun s leftOut hleft
  exact ⟨hleft, hanswers, hlast, by decide, (hfree toggle).2.1⟩

end OpposingKeys
