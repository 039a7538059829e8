import OpposingKeys.Proofs.History
import OpposingKeys.Proofs.Moves

/-!
# A table acts as a set of pairs

Two tables with the same pairs, in any order and number and in any representation, lead through the
same states: the one run is the other one with the table exchanged (`Session.run_withTable`). Each
pair of a pressed key reports one release, so a press may list its releases in another order and
number. A release reports what becomes of the held keys, in their own order, and tells no two such
tables apart.
-/

namespace OpposingKeys

set_option autoImplicit false

variable {τ τ' σ : Type} [Table τ] [Table τ']

/-- The two tables have the same pairs, in any order and number. -/
def SamePairs (t : τ) (t' : τ') : Prop := ∀ p, p ∈ Table.pairs t ↔ p ∈ Table.pairs t'

instance (t : τ) (t' : τ') : Decidable (SamePairs t t') :=
  decidable_of_iff
    ((∀ p ∈ Table.pairs t, p ∈ Table.pairs t') ∧ ∀ p ∈ Table.pairs t', p ∈ Table.pairs t)
    ⟨fun h p => ⟨h.1 p, h.2 p⟩, fun h => ⟨fun p => (h p).mp, fun p => (h p).mpr⟩⟩

namespace SamePairs
variable {t : τ} {t' : τ'}

theorem opposes_iff (h : SamePairs t t') {p u : Key} : Opposes t' p u ↔ Opposes t p u :=
  (h ⟨p, u⟩).symm

theorem cancels_eq (h : SamePairs t t') (k : Key) : Table.cancels t' k = Table.cancels t k := by
  rw [Bool.eq_iff_iff, Table.cancels_iff, Table.cancels_iff]
  exact exists_congr fun p => and_congr_left fun _ => (h p).symm

theorem survivors_eq (h : SamePairs t t') (keys : List Key) :
    survivors t' keys = survivors t keys := by
  induction keys with
  | nil => rfl
  | cons k later ih =>
    rcases survivors_cons t k later with ⟨b, hb, hopposes, hs⟩ | ⟨hfree, hs⟩
    · rw [hs, survivors_cons_of_opposed (ih ▸ hb) (h.opposes_iff.mpr hopposes), ih]
    · have hfree : ∀ b ∈ survivors t' later, ¬ Opposes t' b k :=
        fun b hb hopposes => hfree b (ih ▸ hb) (h.opposes_iff.mp hopposes)
      rw [hs, survivors_cons_of_unopposed hfree, ih]

theorem recover_eq (h : SamePairs t t') {capacity : Nat} {held : HoldBuffer capacity}
    (hnodup : held.toList.Nodup) : recover t' held = recover t held := by
  rw [OpposingKeys.recover_eq t' hnodup, OpposingKeys.recover_eq t hnodup, h.survivors_eq]

theorem recoverNotices_eq (h : SamePairs t t') {capacity : Nat} {held : HoldBuffer capacity}
    (hnodup : held.toList.Nodup) : recoverNotices t' held = recoverNotices t held := by
  rw [recoverNotices, recoverNotices, h.recover_eq hnodup, toList_settle t' hnodup,
    toList_settle t hnodup, h.survivors_eq]

end SamePairs

/-- In a plain list neighbouring pairs of different keys may change places. -/
theorem pressing_swap {p q : Pair} (hne : p.press ≠ q.press) (front back : List Pair) (k : Key) :
    Table.pressing (front ++ p :: q :: back) k = Table.pressing (front ++ q :: p :: back) k := by
  rw [Table.pressing_eq, Table.pressing_eq, Table.pairs_list, Table.pairs_list,
    List.filter_append, List.filter_append]
  by_cases hp : p.press = k
  · have hq : ¬ q.press = k := fun hq => hne (hp.trans hq.symm)
    simp [hp, hq]
  · simp [List.filter_cons, hp]

namespace Engine

/-- The same engine over another table. -/
def withTable (e : Engine τ σ) (t' : τ') : Engine τ' σ :=
  { table := t', modes := e.modes, held := e.held, filter := e.filter }

end Engine

/-- The same outcome for an engine over another table. -/
def Outcome.withTable (outcome : Outcome τ σ) (t' : τ') : Outcome τ' σ :=
  { engine := outcome.engine.withTable t'
    action := outcome.action
    corrections := outcome.corrections
    notices := outcome.notices
    calls := outcome.calls }

namespace Engine
variable {e : Engine τ σ} {t' : τ'}

theorem hold_withTable (h : SamePairs e.table t') (k : Key) :
    (e.withTable t').hold k = e.hold k := by
  simp only [hold, withTable, h.cancels_eq k]

theorem engine_press_withTable (h : SamePairs e.table t') (k : Key) :
    ((e.withTable t').press k).engine = (e.press k).engine.withTable t' := by
  have hheld : (e.withTable t').heldOnPress k = e.heldOnPress k := by
    rw [heldOnPress, heldOnPress, hold_withTable h]
    rfl
  rw [engine_press, engine_press, hheld]
  rfl

/-- A press releases the same keys, perhaps in another order or more than once. -/
theorem mem_corrections_press_withTable (h : SamePairs e.table t') (k : Key) (c : Correction) :
    c ∈ ((e.withTable t').press k).corrections ↔ c ∈ (e.press k).corrections := by
  rw [corrections_press, corrections_press, cancellations, cancellations, List.mem_map,
    List.mem_map]
  refine exists_congr fun p => and_congr_left fun _ => ?_
  rw [Table.mem_pressing, Table.mem_pressing]
  exact and_congr_left fun _ => (h p).symm

theorem apply_press_withTable (h : SamePairs e.table t') (k : Key) (host : Host) :
    host.apply ((e.withTable t').press k).corrections = host.apply (e.press k).corrections := by
  apply Host.ext_mem
  intro a
  rw [mem_apply_press, mem_apply_press]
  exact and_congr_right fun _ => not_congr h.opposes_iff

theorem press_withTable (h : SamePairs e.table t')
    (hpressing : ∀ k, Table.pressing t' k = Table.pressing e.table k) (k : Key) :
    (e.withTable t').press k = (e.press k).withTable t' := by
  have hcancellations : (e.withTable t').cancellations k = e.cancellations k :=
    congrArg (List.map _) (hpressing k)
  have hnotices : (e.withTable t').cancellationNotices k = e.cancellationNotices k :=
    congrArg (List.map _) (hpressing k)
  have hfull : (e.withTable t').holdNotices k = e.holdNotices k := by
    simp only [holdNotices, withTable, h.cancels_eq k]
  have hflags : (e.withTable t').flags = e.flags := rfl
  unfold press
  rw [hflags, hold_withTable h, hcancellations, hnotices, hfull]
  split
  · dsimp only
    split <;> rfl
  · rfl

theorem lift_withTable (h : SamePairs e.table t') (htidy : e.Tidy) (k : Key) :
    (e.withTable t').lift k = (e.lift k).withTable t' := by
  have hheld : (e.withTable t').heldOnLift k = e.heldOnLift k := by
    simp only [heldOnLift, withTable, h.cancels_eq k]
  have htable : (e.withTable t').table = t' := rfl
  have hrecover := h.recover_eq (nodup_heldOnLift htidy k)
  have hnotices := h.recoverNotices_eq (nodup_heldOnLift htidy k)
  cases hactive : e.flags.recoveryActive with
  | false =>
    have hoff : ¬ e.flags.recoveryActive = true := Bool.eq_false_iff.mp hactive
    rw [lift, lift, if_neg hoff]
    exact if_neg hoff
  | true =>
    have hactive' : (e.withTable t').flags.recoveryActive = true := hactive
    rw [lift_eq hactive, lift_eq hactive', hheld, htable, hrecover, hnotices]
    split <;> rfl

variable [SettingsStore σ]

/-- An event has the same outcome over both tables, unless it is a press that is handled. -/
theorem process_withTable (h : SamePairs e.table t') (htidy : e.Tidy) (k : Key)
    (event : Transition) :
    (e.withTable t').process k event = (e.process k event).withTable t' ∨
      (event.edge = .down ∧ e.process k event = e.press k ∧
        (e.withTable t').process k event = (e.withTable t').press k) := by
  have hadmission : (e.withTable t').admission k event = e.admission k event := rfl
  unfold process
  rw [hadmission]
  cases Control.ofKey? k with
  | some control =>
    cases event.edge with
    | down => exact Or.inl rfl
    | up => exact Or.inl rfl
  | none =>
    cases e.admission k event with
    | disabled => exact Or.inl rfl
    | notBasic => exact Or.inl rfl
    | vetoed => exact Or.inl rfl
    | admitted =>
      cases event.edge with
      | down => exact Or.inr ⟨rfl, rfl, rfl⟩
      | up => exact Or.inl (lift_withTable h htidy k)

theorem process_withTable_of_pressing (h : SamePairs e.table t') (htidy : e.Tidy)
    (hpressing : ∀ k, Table.pressing t' k = Table.pressing e.table k) (k : Key)
    (event : Transition) : (e.withTable t').process k event = (e.process k event).withTable t' := by
  rcases process_withTable h htidy k event with hsame | ⟨_, hpress, hpress'⟩
  · exact hsame
  · rw [hpress, hpress', press_withTable h hpressing]

end Engine

namespace Session
variable [SettingsStore σ] {s : Session τ σ} {t' : τ'}

/-- The same session with its engine over another table. -/
def withTable (s : Session τ σ) (t' : τ') : Session τ' σ :=
  { engine := s.engine.withTable t', host := s.host }

/-- Where the outcomes agree, so do the state and the response. -/
theorem key_withTable_of_process {k : Key} {event : Transition}
    (h : (s.engine.withTable t').process k event = (s.engine.process k event).withTable t') :
    (s.withTable t').key k event = ((s.key k event).1.withTable t', (s.key k event).2) := by
  have hengine : (s.withTable t').engine = s.engine.withTable t' := rfl
  simp only [key, hengine, h]
  rfl

theorem key_withTable (h : SamePairs s.engine.table t') (htidy : s.engine.Tidy) (k : Key)
    (event : Transition) : ((s.withTable t').key k event).1 = (s.key k event).1.withTable t' := by
  rcases Engine.process_withTable h htidy k event with hsame | ⟨_, hpress, hpress'⟩
  · rw [key_withTable_of_process hsame]
  · have hengine : (s.withTable t').engine = s.engine.withTable t' := rfl
    have hhost : (s.withTable t').host = s.host := rfl
    simp only [key, hengine, hhost, hpress, hpress', Engine.engine_press_withTable h,
      Engine.apply_press_withTable h, Engine.action_press]
    rfl

theorem step_withTable (h : SamePairs s.engine.table t') (htidy : s.engine.Tidy) (input : Input σ) :
    ((s.withTable t').step input).1 = (s.step input).1.withTable t' := by
  cases input with
  | key k event => exact key_withTable h htidy k event
  | _ => rfl

/-- The one run is the other one with the table exchanged. -/
theorem run_withTable (h : SamePairs s.engine.table t') (htidy : s.engine.Tidy)
    (inputs : List (Input σ)) : (s.withTable t').run inputs = (s.run inputs).withTable t' := by
  induction inputs generalizing s with
  | nil => rfl
  | cons input inputs ih =>
    have hnext : SamePairs (s.step input).1.engine.table t' := table_step htidy input ▸ h
    rw [run_cons, run_cons, step_withTable h htidy input, ih hnext (tidy_step htidy input)]

theorem response_withTable_of_not_press (h : SamePairs s.engine.table t') (htidy : s.engine.Tidy)
    {input : Input σ} (hinput : input.pressed? = none) :
    ((s.withTable t').step input).2 = (s.step input).2 := by
  cases input with
  | key k event =>
    rcases Engine.process_withTable h htidy k event with hsame | ⟨hdown, _, _⟩
    · exact congrArg Prod.snd (key_withTable_of_process hsame)
    · rw [Input.pressed?_key hdown] at hinput
      cases hinput
  | _ => rfl

theorem response_withTable_of_pressing (h : SamePairs s.engine.table t') (htidy : s.engine.Tidy)
    (hpressing : ∀ k, Table.pressing t' k = Table.pressing s.engine.table k) (input : Input σ) :
    ((s.withTable t').step input).2 = (s.step input).2 := by
  cases input with
  | key k event =>
    exact congrArg Prod.snd
      (key_withTable_of_process (Engine.process_withTable_of_pressing h htidy hpressing k event))
  | _ => rfl

theorem action_withTable (t' : τ') (input : Input σ) :
    ((s.withTable t').step input).2.action = (s.step input).2.action := by
  cases input with
  | key k event =>
    have haction := (s.engine.handling k event).action_eq
    have haction' := ((s.engine.withTable t').handling k event).action_eq
    exact congrArg some (haction'.trans haction.symm)
  | _ => rfl

theorem calls_withTable (h : SamePairs s.engine.table t') (htidy : s.engine.Tidy)
    (input : Input σ) :
    ((s.withTable t').step input).2.calls = (s.step input).2.calls := by
  cases input with
  | key k event =>
    change ((s.engine.withTable t').process k event).calls = (s.engine.process k event).calls
    rcases Engine.process_withTable h htidy k event with hsame | ⟨_, hpress, hpress'⟩
    · rw [hsame]
      rfl
    · rw [hpress, hpress', Engine.calls_press, Engine.calls_press]
  | _ => rfl

theorem mem_corrections_withTable (h : SamePairs s.engine.table t') (htidy : s.engine.Tidy)
    (input : Input σ) (c : Correction) :
    c ∈ ((s.withTable t').step input).2.corrections ↔ c ∈ (s.step input).2.corrections := by
  cases input with
  | key k event =>
    change c ∈ ((s.engine.withTable t').process k event).corrections ↔
      c ∈ (s.engine.process k event).corrections
    rcases Engine.process_withTable h htidy k event with hsame | ⟨_, hpress, hpress'⟩
    · rw [hsame]
      rfl
    · rw [hpress, hpress', Engine.mem_corrections_press_withTable h]
  | _ => exact Iff.rfl

end Session

variable [SettingsStore σ]

/-- Two tables with the same pairs lead any run through the same modes, held keys and host. A next
input is answered alike, except that a press may list its releases in another order and number.
Where each key has its own pairs in the same order and number, a press is answered alike too. -/
theorem table_acts_as_set (t : τ) (t' : τ') (store : σ) (inputs : List (Input σ))
    (input : Input σ) (hpairs : SamePairs t t') :
    let next := ((Session.start t store).run inputs).step input
    let next' := ((Session.start t' store).run inputs).step input
    next'.1.engine.modes = next.1.engine.modes ∧
      next'.1.engine.held.toList = next.1.engine.held.toList ∧ next'.1.host = next.1.host ∧
      next'.2.action = next.2.action ∧ next'.2.calls = next.2.calls ∧
      (∀ c, c ∈ next'.2.corrections ↔ c ∈ next.2.corrections) ∧
      (input.pressed? = none → next'.2 = next.2) ∧
      ((∀ k, Table.pressing t' k = Table.pressing t k) → next'.2 = next.2) := by
  have hstart := Session.tidy_start t store
  have hrun : (Session.start t' store).run inputs =
      ((Session.start t store).run inputs).withTable t' :=
    Session.run_withTable hpairs hstart inputs
  have htable := Session.table_run hstart inputs
  have htidy := Session.tidy_run hstart inputs
  rw [hrun]
  generalize (Session.start t store).run inputs = s at htable htidy ⊢
  obtain rfl : s.engine.table = t := htable
  intro next next'
  have hstate : next'.1 = next.1.withTable t' := Session.step_withTable hpairs htidy input
  rw [hstate]
  refine ⟨rfl, rfl, rfl, Session.action_withTable t' input, ?_, ?_, ?_, ?_⟩
  · exact Session.calls_withTable hpairs htidy input
  · exact Session.mem_corrections_withTable hpairs htidy input
  · exact Session.response_withTable_of_not_press hpairs htidy
  · exact fun hpressing => Session.response_withTable_of_pressing hpairs htidy hpressing input

/-- A table with holes and a repeated pair releases W twice where a plain one releases it once, and
then both give D back. A plain one in which A has its pairs in the same order answers alike. -/
theorem table_acts_as_set_across_kinds :
    let a : Key := ⟨0x04⟩
    let d : Key := ⟨0x07⟩
    let w : Key := ⟨0x1A⟩
    let plain : List Pair := [⟨a, d⟩, ⟨a, w⟩, ⟨d, a⟩]
    let holed : List (Option Pair) :=
      [none, some ⟨d, a⟩, some ⟨a, w⟩, none, some ⟨a, d⟩, some ⟨a, w⟩]
    let mixed : List Pair := [⟨a, d⟩, ⟨d, a⟩, ⟨a, w⟩]
    let store := ByteStore.ofFlags ⟨true, true⟩
    let inputs : List (Input ByteStore) := [.filter fun k _ => k ≠ w, .key d ⟨.down, none⟩,
      .key w ⟨.down, none⟩]
    let press : Input ByteStore := .key a ⟨.down, none⟩
    let lift : Input ByteStore := .key a ⟨.up, none⟩
    let pressed := ((Session.start plain store).run inputs).step press
    let pressed' := ((Session.start holed store).run inputs).step press
    let lifted := ((Session.start plain store).run (inputs ++ [press])).step lift
    let lifted' := ((Session.start holed store).run (inputs ++ [press])).step lift
    SamePairs plain holed ∧
    pressed.2.corrections = [.release d, .release w] ∧
    pressed'.2.corrections = [.release w, .release d, .release w] ∧
    pressed'.1.host = pressed.1.host ∧
    (∀ c, c ∈ pressed'.2.corrections ↔ c ∈ pressed.2.corrections) ∧
    lifted.2.corrections = [.register d] ∧ lifted'.2 = lifted.2 ∧
    SamePairs plain mixed ∧
    (((Session.start mixed store).run inputs).step press).2 = pressed.2 := by
  intro a d w plain holed mixed store inputs press lift pressed pressed' lifted lifted'
  have hholed : SamePairs plain holed := by decide
  have hmixed : SamePairs plain mixed := by decide
  have hpressing : ∀ k, Table.pressing mixed k = Table.pressing plain k :=
    pressing_swap (by decide) [⟨a, d⟩] []
  obtain ⟨_, _, hhost, _, _, hcorrections, _⟩ :=
    table_acts_as_set plain holed store inputs press hholed
  obtain ⟨_, _, _, _, _, _, hlifted, _⟩ :=
    table_acts_as_set plain holed store (inputs ++ [press]) lift hholed
  obtain ⟨_, _, _, _, _, _, _, halike⟩ :=
    table_acts_as_set plain mixed store inputs press hmixed
  exact ⟨hholed, by decide, by decide, hhost, hcorrections, by decide, hlifted rfl, hmixed,
    halike hpressing⟩

end OpposingKeys
