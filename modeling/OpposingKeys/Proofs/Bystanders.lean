import OpposingKeys.Proofs.Independence
import OpposingKeys.Proofs.RecoveryGain
import OpposingKeys.Proofs.Tracking

/-!
# Keys that the table does not mention

Corrections name keys of the table only: a press releases keys that stand second in its pairs, and a
release settles held keys, which all stand first in some pair. So the host sees a key outside the table
as the keyboard does, whatever happens in between, and while cancellation is off this is so for every
key.
-/

namespace OpposingKeys

set_option autoImplicit false

variable {τ σ : Type} [Table τ]

namespace Engine
variable {e : Engine τ σ} {k : Key} {event : Transition} {c : Correction}

theorem mentions_of_mem_press (hc : c ∈ (e.press k).corrections) : Mentions e.table c.key := by
  rw [corrections_press, cancellations, List.mem_map] at hc
  obtain ⟨p, hp, rfl⟩ := hc
  exact ⟨p, (Table.mem_pressing.mp hp).1, Or.inr rfl⟩

theorem mentions_of_mem_lift (htidy : e.Tidy) (hc : c ∈ (e.lift k).corrections) :
    Mentions e.table c.key := by
  cases hactive : e.flags.recoveryActive with
  | false =>
    rw [lift_of_inactive hactive] at hc
    exact absurd hc List.not_mem_nil
  | true =>
    rw [corrections_lift hactive, recover_eq _ (nodup_heldOnLift htidy k), List.mem_map] at hc
    obtain ⟨a, ha, rfl⟩ := hc
    rw [key_verdict]
    exact mentions_of_cancels (htidy.cancels a ((mem_heldOnLift htidy).mp ha).2)

variable [SettingsStore σ]

theorem Handling.mentions_of_mem {outcome : Outcome τ σ} (h : Handling e k event outcome)
    (htidy : e.Tidy) (hc : c ∈ outcome.corrections) : Mentions e.table c.key := by
  cases h with
  | pressed => exact mentions_of_mem_press hc
  | lifted => exact mentions_of_mem_lift htidy hc
  | _ => exact absurd hc List.not_mem_nil

theorem process_of_disabled (hplain : Control.ofKey? k = none)
    (hoff : e.flags.cancellation = false) :
    e.process k event = { engine := e, action := .pass } := by
  have hdisabled : e.admission k event = .disabled := by rw [admission, hoff]; rfl
  simp only [process, hplain, hdisabled]

end Engine

variable [SettingsStore σ]

section Steps
variable {s s' : Session τ σ} {k a : Key} {event : Transition} {past : List (Input σ)}
  {input : Input σ}

/-- No input corrects a key outside the table. -/
theorem Session.mentions_of_mem_corrections {c : Correction} (htidy : s.engine.Tidy)
    (hc : c ∈ (s.step input).2.corrections) : Mentions s.engine.table c.key := by
  cases input with
  | key k event => exact (s.engine.handling k event).mentions_of_mem htidy hc
  | _ => exact absurd hc List.not_mem_nil

/-- An event reaches the host at its own key, whatever comes of it elsewhere. -/
theorem KeyMove.mem_host_self (hmove : KeyMove s k event s') (hplain : Control.ofKey? k = none) :
    k ∈ s'.host ↔ event.edge = .down := by
  cases hmove with
  | turned control hcontrol =>
    exact absurd (hcontrol.symm.trans hplain) (Option.some_ne_none control)
  | swallowed control hcontrol =>
    exact absurd (hcontrol.symm.trans hplain) (Option.some_ne_none control)
  | passed => exact Host.mem_deliver_self
  | pressed _ hdown host hhost => exact iff_of_true ((hhost k).mpr (Or.inl rfl)) hdown
  | lifted _ hup _ host hhost =>
    refine iff_of_false (fun hk => ((hhost k).mp hk).2 rfl) ?_
    rw [hup]
    exact Edge.noConfusion

theorem KeyMove.mem_host_of_not_mentions (hmove : KeyMove s k event s') (htidy : s.engine.Tidy)
    (hout : ¬ Mentions s.engine.table a) (hak : a ≠ k) : a ∈ s'.host ↔ a ∈ s.host := by
  cases hmove with
  | turned => exact Iff.rfl
  | swallowed => exact Iff.rfl
  | passed => exact Host.mem_deliver_of_ne event.edge .pass hak
  | pressed _ _ host hhost =>
    have hfree : ¬ Opposes s.engine.table k a := fun hopposes => hout ⟨_, hopposes, Or.inr rfl⟩
    rw [hhost a, or_iff_right hak, and_iff_left hfree]
  | lifted _ _ _ host hhost =>
    have hheld : a ∉ (s.engine.heldOnLift k).toList := fun ha =>
      hout (mentions_of_cancels (htidy.cancels a ((Engine.mem_heldOnLift htidy).mp ha).2))
    rw [hhost a, and_iff_left hak, and_iff_left hheld]
    exact or_iff_left fun ha => hheld (mem_of_mem_survivors ha)

theorem Session.mem_host_step_of_not_mentions (htidy : s.engine.Tidy)
    (hout : ¬ Mentions s.engine.table a) (hplain : Control.ofKey? a = none)
    (h : a ∈ s.host ↔ IsDown past a) :
    a ∈ (s.step input).1.host ↔ IsDown (past ++ [input]) a := by
  by_cases hkey : input.isKey = false
  · rw [host_step s hkey, isDown_append_of_none (Input.edgeOf?_eq_none hkey a), h]
  · cases input with
    | key k event =>
      have hmove := keyMove htidy k event
      by_cases hak : a = k
      · subst hak
        exact (hmove.mem_host_self hplain).trans isDown_key_self.symm
      · exact (hmove.mem_host_of_not_mentions htidy hout hak).trans
          (h.trans (isDown_key_of_ne hak).symm)
    | _ => exact absurd rfl hkey

/-- The host holds a key outside the table while it is down. -/
theorem Session.mem_host_run_of_not_mentions (t : τ) (store : σ) (inputs : List (Input σ))
    (hout : ¬ Mentions t k) (hplain : Control.ofKey? k = none) :
    k ∈ ((start t store).run inputs).host ↔ IsDown inputs k := by
  induction inputs using List.reverseRecOn with
  | nil => exact iff_of_false (Host.not_mem_empty k) not_isDown_nil
  | append_singleton past input ih =>
    have htidy := tidy_start t store
    rw [run_append]
    refine mem_host_step_of_not_mentions (tidy_run htidy past) ?_ hplain ih
    rwa [table_run htidy past]

end Steps

/-- The input is no event of an ordinary key, or it passes without a correction and leaves the hold
buffer alone. -/
def PassesOnly (s : Session τ σ) (input : Input σ) : Prop :=
  input.isOrdinary = true → (s.step input).2.action = some .pass ∧
    (s.step input).2.corrections = [] ∧ (s.step input).1.engine.held = s.engine.held

theorem passesOnly_of_disabled {s : Session τ σ} (input : Input σ)
    (hoff : s.engine.flags.cancellation = false) : PassesOnly s input := by
  intro hordinary
  cases input with
  | key k event =>
    have hplain : Control.ofKey? k = none := Option.isNone_iff_eq_none.mp hordinary
    simp only [Session.step, Session.key, Engine.process_of_disabled hplain hoff, and_self]
  | _ => exact Bool.noConfusion hordinary

/-- The host holds a key outside the table, unless it is a control key, if and only if its latest event
was a press, and no correction names it. While cancellation stays off, every event of an ordinary key
passes without a correction, and the hold buffer stays as it is. -/
theorem transparent_outside_table (t : τ) (store : σ) (inputs since : List (Input σ)) :
    let s := (Session.start t store).run inputs
    (∀ k, (∀ p ∈ Table.pairs t, p.press ≠ k ∧ p.unpress ≠ k) → Control.ofKey? k = none →
      (k ∈ s.host ↔ latestEdge? inputs k = some .down) ∧
      ∀ input, ∀ c ∈ (s.step input).2.corrections, c.key ≠ k) ∧
    (s.Always (fun s => s.engine.flags.cancellation = false) since →
      Throughout (fun past input => PassesOnly (s.run past) input) since ∧
      ((∀ input ∈ since, input.isRestart = false) →
        (s.run since).engine.held = s.engine.held)) := by
  intro s
  have hstart : (Session.start t store).engine.Tidy := Session.tidy_start t store
  have htidy : s.engine.Tidy := Session.tidy_run hstart inputs
  have htable : s.engine.table = t := Session.table_run hstart inputs
  refine ⟨fun k hpairs hplain => ?_, fun hoff => ⟨?_, fun hsince => ?_⟩⟩
  · have hout : ¬ Mentions t k := by
      rintro ⟨p, hp, hk | hk⟩
      · exact (hpairs p hp).1 hk
      · exact (hpairs p hp).2 hk
    refine ⟨Session.mem_host_run_of_not_mentions t store inputs hout hplain, ?_⟩
    rintro input c hc rfl
    exact hout (htable ▸ Session.mentions_of_mem_corrections htidy hc)
  · intro n hn
    exact passesOnly_of_disabled since[n] (hoff n (Nat.le_of_lt hn))
  · refine Session.held_run_of_inactive htidy hsince fun n hn => ?_
    exact Bool.and_eq_false_imp.mpr fun hon => absurd ((hoff n hn).symm.trans hon) Bool.false_ne_true

/-- A filter that judges by the edge comes and goes, the store fails, the engine starts anew, and eleven
presses fill the hold buffer. Then cancellation goes off. -/
theorem transparent_outside_table_when_full :
    let keys : List Key := [⟨0x04⟩, ⟨0x05⟩, ⟨0x06⟩, ⟨0x07⟩, ⟨0x08⟩, ⟨0x09⟩, ⟨0x0A⟩, ⟨0x0B⟩, ⟨0x0C⟩,
      ⟨0x0D⟩, ⟨0x0E⟩]
    let space : Key := ⟨0x2C⟩
    let table : List Pair := keys.map fun k => ⟨k, ⟨0x04⟩⟩
    let store : CuttableStore := { memory := .ofFlags ⟨true, true⟩ }
    let press (k : Key) : Input CuttableStore := .key k ⟨.down, none⟩
    let inputs : List (Input CuttableStore) := [.filter fun _ event => event.edge = .down, press space,
      .key space ⟨.up, none⟩, .filter fun _ _ => true, .adjust fun c => { c with saveCut := true },
      .restart, press space] ++ keys.map press ++ [.control ⟨.cancellation, .off⟩]
    let since : List (Input CuttableStore) := [.key ⟨0x05⟩ ⟨.up, none⟩, press space,
      press (Control.key ⟨.recovery, .toggle⟩)]
    let s := (Session.start table store).run inputs
    (∀ p ∈ Table.pairs table, p.press ≠ space ∧ p.unpress ≠ space) ∧
    Control.ofKey? space = none ∧ s.Always (fun s => s.engine.flags.cancellation = false) since ∧
    s.engine.held.isFull = true ∧ space ∈ s.host ∧ latestEdge? inputs space = some .down ∧
    (s.run since).engine.held = s.engine.held := by
  intro keys space table store press inputs since s
  have hpairs : ∀ p ∈ Table.pairs table, p.press ≠ space ∧ p.unpress ≠ space := by decide
  have hplain : Control.ofKey? space = none := by decide
  have hoff : s.Always (fun s => s.engine.flags.cancellation = false) since := by decide
  have hfull : s.engine.held.isFull = true := by decide
  obtain ⟨houtside, hdisabled⟩ := transparent_outside_table table store inputs since
  have hdown : latestEdge? inputs space = some .down := by decide
  exact ⟨hpairs, hplain, hoff, hfull, (houtside space hpairs hplain).1.mpr hdown, hdown,
    (hdisabled hoff).2 (by decide)⟩

end OpposingKeys
