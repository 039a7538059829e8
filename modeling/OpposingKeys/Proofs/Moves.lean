import OpposingKeys.Proofs.EngineSteps
import OpposingKeys.Session

/-!
# What a session makes of its inputs

`KeyMove` lists the ways in which a session takes a key event, each with all that it does to the
modes, the hold buffer and the host, so that proofs about runs split on these cases and open no step
of the engine. The case of a release needs a tidy engine, and every run keeps its engine tidy
(`tidy_run`): the hold buffer has no duplicates and holds only basic keys that cancel some key.
-/

namespace OpposingKeys

set_option autoImplicit false

variable {τ σ : Type} [Table τ] [SettingsStore σ]

/-- The ways in which a session takes an event of `k`. -/
inductive KeyMove (s : Session τ σ) (k : Key) (event : Transition) : Session τ σ → Prop where
  /-- A control key goes down. -/
  | turned (control : Control) (hcontrol : Control.ofKey? k = some control)
      (hdown : event.edge = .down) :
      KeyMove s k event { s with engine := (s.engine.turn control).engine }
  /-- A control key goes up. -/
  | swallowed (control : Control) (hcontrol : Control.ofKey? k = some control)
      (hup : event.edge = .up) : KeyMove s k event s
  /-- The engine does nothing, and the host takes the event as it is. -/
  | passed (hplain : Control.ofKey? k = none)
      (hpass : s.engine.admission k event ≠ .admitted ∨
        (event.edge = .up ∧ s.engine.flags.recoveryActive = false)) :
      KeyMove s k event { s with host := s.host.deliver k event.edge .pass }
  /-- A key goes down and takes away what it opposes. -/
  | pressed (hadmitted : s.engine.admission k event = .admitted) (hdown : event.edge = .down)
      (host : Host)
      (hhost : ∀ a, a ∈ host ↔ a = k ∨ (a ∈ s.host ∧ ¬ Opposes s.engine.table k a)) :
      KeyMove s k event
        { engine := { s.engine with held := s.engine.heldOnPress k }, host }
  /-- A key goes up and the other held keys are settled. -/
  | lifted (hadmitted : s.engine.admission k event = .admitted) (hup : event.edge = .up)
      (hactive : s.engine.flags.recoveryActive = true) (host : Host)
      (hhost : ∀ a, a ∈ host ↔ ((a ∈ s.host ∧ a ∉ (s.engine.heldOnLift k).toList) ∨
        a ∈ survivors s.engine.table (s.engine.heldOnLift k).toList) ∧ a ≠ k) :
      KeyMove s k event { engine := { s.engine with held := s.engine.heldOnLift k }, host }

namespace Session

theorem key_of_control {s : Session τ σ} {k : Key} {control : Control} (event : Transition)
    (hcontrol : Control.ofKey? k = some control) :
    (s.key k event).1 =
      match event.edge with
      | .down => { s with engine := (s.engine.turn control).engine }
      | .up => s := by
  simp only [key, Engine.process, hcontrol]
  cases event.edge with
  | down => rfl
  | up => rfl

theorem key_of_not_admitted {s : Session τ σ} {k : Key} {event : Transition}
    (hplain : Control.ofKey? k = none) (h : s.engine.admission k event ≠ .admitted) :
    (s.key k event).1 = { s with host := s.host.deliver k event.edge .pass } := by
  simp only [key, Engine.process, hplain]
  cases hadmission : s.engine.admission k event with
  | admitted => exact absurd hadmission h
  | disabled => rfl
  | notBasic => rfl
  | vetoed => rfl

theorem key_of_admitted {s : Session τ σ} {k : Key} {event : Transition}
    (hplain : Control.ofKey? k = none) (h : s.engine.admission k event = .admitted) :
    (s.key k event).1 =
      match event.edge with
      | .down =>
        { engine := (s.engine.press k).engine
          host := (s.host.apply (s.engine.press k).corrections).register k }
      | .up =>
        { engine := (s.engine.lift k).engine
          host := (s.host.apply (s.engine.lift k).corrections).release k } := by
  simp only [key, Engine.process, hplain, h]
  cases event.edge with
  | down =>
    dsimp only
    rw [Engine.action_press]
    rfl
  | up =>
    dsimp only
    rw [Engine.action_lift]
    rfl

theorem key_of_passed {s : Session τ σ} {k : Key} {event : Transition}
    (hplain : Control.ofKey? k = none)
    (hpass : s.engine.admission k event ≠ .admitted ∨
      (event.edge = .up ∧ s.engine.flags.recoveryActive = false)) :
    (s.key k event).1 = { s with host := s.host.deliver k event.edge .pass } := by
  by_cases hadmitted : s.engine.admission k event = .admitted
  · obtain ⟨hup, hinactive⟩ := hpass.resolve_left fun h => h hadmitted
    rw [key_of_admitted hplain hadmitted, hup, Engine.lift_of_inactive hinactive]
    rfl
  · exact key_of_not_admitted hplain hadmitted

theorem key_of_pressed {s : Session τ σ} {k : Key} {event : Transition}
    (hadmitted : s.engine.admission k event = .admitted) (hdown : event.edge = .down) :
    ∃ host : Host, (∀ a, a ∈ host ↔ a = k ∨ (a ∈ s.host ∧ ¬ Opposes s.engine.table k a)) ∧
      (s.key k event).1 = { engine := { s.engine with held := s.engine.heldOnPress k }, host } := by
  have hbasic := (Engine.admission_eq_admitted_iff.mp hadmitted).2.1
  rw [key_of_admitted (Control.ofKey?_eq_none_of_isBasic hbasic) hadmitted, hdown,
    Engine.engine_press]
  exact ⟨_, fun a => Host.mem_register.trans (or_congr_right Engine.mem_apply_press), rfl⟩

theorem key_of_lifted {s : Session τ σ} {k : Key} {event : Transition} (htidy : s.engine.Tidy)
    (hadmitted : s.engine.admission k event = .admitted) (hup : event.edge = .up)
    (hactive : s.engine.flags.recoveryActive = true) :
    ∃ host : Host, (∀ a, a ∈ host ↔ ((a ∈ s.host ∧ a ∉ (s.engine.heldOnLift k).toList) ∨
        a ∈ survivors s.engine.table (s.engine.heldOnLift k).toList) ∧ a ≠ k) ∧
      (s.key k event).1 = { engine := { s.engine with held := s.engine.heldOnLift k }, host } := by
  have hbasic := (Engine.admission_eq_admitted_iff.mp hadmitted).2.1
  rw [key_of_admitted (Control.ofKey?_eq_none_of_isBasic hbasic) hadmitted, hup,
    Engine.engine_lift hactive]
  exact ⟨_, fun a => Host.mem_release.trans
    (and_congr_left fun _ => Engine.mem_apply_lift htidy hactive), rfl⟩

theorem keyMove {s : Session τ σ} (htidy : s.engine.Tidy) (k : Key) (event : Transition) :
    KeyMove s k event (s.key k event).1 := by
  cases hcontrol : Control.ofKey? k with
  | some control =>
    rw [key_of_control event hcontrol]
    cases hedge : event.edge with
    | down => exact .turned control hcontrol hedge
    | up => exact .swallowed control hcontrol hedge
  | none =>
    by_cases hadmitted : s.engine.admission k event = .admitted
    · cases hedge : event.edge with
      | down =>
        obtain ⟨host, hhost, hkey⟩ := key_of_pressed hadmitted hedge
        rw [hkey]
        exact .pressed hadmitted hedge host hhost
      | up =>
        cases hactive : s.engine.flags.recoveryActive with
        | false =>
          rw [key_of_passed hcontrol (Or.inr ⟨hedge, hactive⟩)]
          exact .passed hcontrol (Or.inr ⟨hedge, hactive⟩)
        | true =>
          obtain ⟨host, hhost, hkey⟩ := key_of_lifted htidy hadmitted hedge hactive
          rw [hkey]
          exact .lifted hadmitted hedge hactive host hhost
    · rw [key_of_passed hcontrol (Or.inl hadmitted)]
      exact .passed hcontrol (Or.inl hadmitted)

end Session

namespace KeyMove
variable {s s' : Session τ σ} {k : Key} {event : Transition}

theorem table_eq (hmove : KeyMove s k event s') : s'.engine.table = s.engine.table := by
  cases hmove <;> rfl

theorem filter_eq (hmove : KeyMove s k event s') : s'.engine.filter = s.engine.filter := by
  cases hmove <;> rfl

/-- Only control keys turn the switches. -/
theorem flags_eq (hmove : KeyMove s k event s') (hplain : Control.ofKey? k = none) :
    s'.engine.flags = s.engine.flags := by
  cases hmove with
  | turned control hcontrol =>
    exact absurd (hcontrol.symm.trans hplain) (Option.some_ne_none control)
  | _ => rfl

theorem tidy (hmove : KeyMove s k event s') (htidy : s.engine.Tidy) : s'.engine.Tidy := by
  cases hmove with
  | turned control => exact Engine.tidy_turn htidy control
  | swallowed => exact htidy
  | passed => exact htidy
  | pressed hadmitted =>
    exact Engine.tidy_heldOnPress htidy (Engine.admission_eq_admitted_iff.mp hadmitted).2.1
  | lifted => exact Engine.tidy_heldOnLift htidy k

/-- A press may put its key at the end of the hold buffer; all else only takes keys out. -/
theorem held_cases (hmove : KeyMove s k event s') (htidy : s.engine.Tidy) :
    s'.engine.held.toList.Sublist s.engine.held.toList ∨
      (event.edge = .down ∧ s'.engine.held.toList = s.engine.held.toList ++ [k]) := by
  cases hmove with
  | turned control => exact Or.inl (s.engine.held_turn_sublist control)
  | swallowed => exact Or.inl (List.Sublist.refl _)
  | passed => exact Or.inl (List.Sublist.refl _)
  | pressed _ hdown =>
    rcases Engine.toList_heldOnPress s.engine k with hnew | hsame
    · exact Or.inr ⟨hdown, hnew⟩
    · exact Or.inl (hsame ▸ List.Sublist.refl _)
  | lifted =>
    refine Or.inl ?_
    rw [Engine.toList_heldOnLift htidy]
    exact List.erase_sublist

end KeyMove

namespace Session

theorem tidy_step {s : Session τ σ} (htidy : s.engine.Tidy) (input : Input σ) :
    (s.step input).1.engine.Tidy := by
  cases input with
  | key k event => exact (keyMove htidy k event).tidy htidy
  | control control => exact Engine.tidy_turn htidy control
  | restart => exact Engine.tidy_of_nil rfl
  | filter _ => exact htidy.of_sublist rfl (List.Sublist.refl _)
  | listen _ => exact htidy.of_sublist rfl (List.Sublist.refl _)
  | adjust _ => exact htidy.of_sublist rfl (List.Sublist.refl _)

theorem tidy_run {s : Session τ σ} (htidy : s.engine.Tidy) (inputs : List (Input σ)) :
    (s.run inputs).engine.Tidy := by
  induction inputs generalizing s with
  | nil => exact htidy
  | cons input inputs ih => exact ih (tidy_step htidy input)

theorem table_step {s : Session τ σ} (htidy : s.engine.Tidy) (input : Input σ) :
    (s.step input).1.engine.table = s.engine.table := by
  cases input with
  | key k event => exact (keyMove htidy k event).table_eq
  | _ => rfl

theorem table_run {s : Session τ σ} (htidy : s.engine.Tidy) (inputs : List (Input σ)) :
    (s.run inputs).engine.table = s.engine.table := by
  induction inputs generalizing s with
  | nil => rfl
  | cons input inputs ih => exact (ih (tidy_step htidy input)).trans (table_step htidy input)

theorem tidy_start (table : τ) (store : σ) : (start table store).engine.Tidy :=
  Engine.tidy_of_nil rfl

end Session

end OpposingKeys
