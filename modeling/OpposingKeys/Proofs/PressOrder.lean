import OpposingKeys.Proofs.GhostKeys

/-!
# The hold buffer keeps the order of presses

In an orderly run one engine without a filter sees keys pressed only while they are up, and no press
finds the hold buffer full. Then, while recovery is in force, the held keys stand in the order of
their presses, and a key that could be held and was pressed after a held one is held as well. Nothing
is said about what was pressed before recovery came into force.
-/

namespace OpposingKeys

set_option autoImplicit false

/-- One engine serves on, without a filter. -/
def Input.isPlain {σ : Type} : Input σ → Bool
  | .filter _ | .restart => false
  | _ => true

theorem FilterFits.of_plain {σ : Type} {past : List (Input σ)} {input : Input σ}
    (h : input.isPlain = true) : FilterFits past input := by
  cases input with
  | filter f => exact Bool.noConfusion h
  | _ => trivial

variable {τ σ : Type}

/-- The engine holds on to what it held, unless recovery came into force. -/
structure Quiet (s s' : Session τ σ) : Prop where
  table_eq : s'.engine.table = s.engine.table
  filter_eq : s'.engine.filter = s.engine.filter
  held_eq : s'.engine.flags.recoveryActive = true → s'.engine.held.toList = [] ∨
    (s.engine.flags.recoveryActive = true ∧ s'.engine.held.toList = s.engine.held.toList)

namespace Quiet
variable {s s' : Session τ σ}

theorem of_eq (htable : s'.engine.table = s.engine.table)
    (hfilter : s'.engine.filter = s.engine.filter) (hflags : s'.engine.flags = s.engine.flags)
    (hheld : s'.engine.held = s.engine.held) : Quiet s s' where
  table_eq := htable
  filter_eq := hfilter
  held_eq hactive := Or.inr ⟨hflags ▸ hactive, congrArg HoldBuffer.toList hheld⟩

theorem host (s : Session τ σ) (host : Host) : Quiet s { s with host } := .of_eq rfl rfl rfl rfl

variable [SettingsStore σ]

theorem turn (s : Session τ σ) (control : Control) :
    Quiet s { s with engine := (s.engine.turn control).engine } where
  table_eq := rfl
  filter_eq := rfl
  held_eq := Engine.held_turn_of_active

theorem step [Table τ] (s : Session τ σ) {input : Input σ} (hkey : input.isKey = false)
    (hplain : input.isPlain = true) : Quiet s (s.step input).1 := by
  cases input with
  | key k event => exact Bool.noConfusion hkey
  | control control => exact turn s control
  | listen listener => exact .of_eq rfl rfl rfl rfl
  | adjust change => exact .of_eq rfl rfl rfl rfl
  | filter _ => exact Bool.noConfusion hplain
  | restart => exact Bool.noConfusion hplain

end Quiet

theorem Session.host_step [Table τ] [SettingsStore σ] (s : Session τ σ) {input : Input σ}
    (hkey : input.isKey = false) : (s.step input).1.host = s.host := by
  cases input with
  | key k event => exact Bool.noConfusion hkey
  | _ => rfl

variable [Table τ]

/-- A press of `k` would have to be held and finds the hold buffer full. -/
def Engine.overflows (e : Engine τ σ) (k : Key) : Bool :=
  e.flags.recoveryActive && k.isBasic && Table.cancels e.table k && !e.held.contains k &&
    e.held.isFull

theorem Engine.overflows_iff {e : Engine τ σ} {k : Key} :
    e.overflows k = true ↔ e.flags.recoveryActive = true ∧ k.isBasic = true ∧
      Table.cancels e.table k = true ∧ k ∉ e.held.toList ∧ e.held.isFull = true := by
  simp [overflows, HoldBuffer.contains, and_assoc]

section Runs
variable [SettingsStore σ] {table : τ} {store : σ} {past : List (Input σ)} {input : Input σ}

/-- One engine without a filter sees keys pressed only while they are up, and finds room for those
that it holds. -/
structure OrderlyRun (table : τ) (store : σ) (inputs : List (Input σ)) : Prop where
  plain : ∀ input ∈ inputs, input.isPlain = true
  pressed_up : Throughout (fun past input => ∀ k ∈ input.pressed?, ¬ IsDown past k) inputs
  room : Throughout (fun past input => ∀ k ∈ input.pressed?,
    ((Session.start table store).run past).engine.overflows k = false) inputs

theorem OrderlyRun.init (h : OrderlyRun table store (past ++ [input])) :
    OrderlyRun table store past where
  plain := fun a ha => h.plain a (List.mem_append_left _ ha)
  pressed_up := (throughout_append_singleton.mp h.pressed_up).1
  room := (throughout_append_singleton.mp h.room).1

theorem OrderlyRun.last_plain (h : OrderlyRun table store (past ++ [input])) :
    input.isPlain = true :=
  h.plain input (List.mem_append_right _ (List.mem_singleton.mpr rfl))

theorem OrderlyRun.last_up (h : OrderlyRun table store (past ++ [input])) {k : Key}
    (hk : k ∈ input.pressed?) : ¬ IsDown past k :=
  (throughout_append_singleton.mp h.pressed_up).2 k hk

theorem OrderlyRun.last_room (h : OrderlyRun table store (past ++ [input])) {k : Key}
    (hk : k ∈ input.pressed?) :
    ((Session.start table store).run past).engine.overflows k = false :=
  (throughout_append_singleton.mp h.room).2 k hk

end Runs

/-- A press that finds room puts its key at the end, if the key cancels another and is not held. -/
theorem Engine.toList_heldOnPress_of_room {e : Engine τ σ} {k : Key}
    (hactive : e.flags.recoveryActive = true) (hbasic : k.isBasic = true)
    (hroom : e.overflows k = false) :
    (e.heldOnPress k).toList =
      if Table.cancels e.table k = true ∧ k ∉ e.held.toList then e.held.toList ++ [k]
      else e.held.toList := by
  rw [heldOnPress, if_pos hactive, toList_hold]
  by_cases hin : Table.cancels e.table k = true ∧ k ∉ e.held.toList
  · obtain ⟨hcancels, hout⟩ := hin
    have hspace : e.held.isFull = false := by
      rw [Bool.eq_false_iff] at hroom ⊢
      exact fun hfull => hroom (overflows_iff.mpr ⟨hactive, hbasic, hcancels, hout, hfull⟩)
    have haccepts : e.held.accepts k = true := by
      rw [HoldBuffer.accepts, hspace, HoldBuffer.contains_eq_false_iff.mpr hout]
      rfl
    have hboth : (Table.cancels e.table k && e.held.accepts k) = true :=
      Bool.and_eq_true_iff.mpr ⟨hcancels, haccepts⟩
    rw [if_pos hboth, if_pos ⟨hcancels, hout⟩]
  · have hneither : ¬ (Table.cancels e.table k && e.held.accepts k) = true := by
      intro h
      obtain ⟨hcancels, haccepts⟩ := Bool.and_eq_true_iff.mp h
      exact hin ⟨hcancels, (HoldBuffer.accepts_iff.mp haccepts).1⟩
    rw [if_neg hneither, if_neg hin]

theorem Engine.mem_heldOnPress_self {e : Engine τ σ} {k : Key}
    (hactive : e.flags.recoveryActive = true) (hbasic : k.isBasic = true)
    (hcancels : Table.cancels e.table k = true) (hroom : e.overflows k = false) :
    k ∈ (e.heldOnPress k).toList := by
  rw [toList_heldOnPress_of_room hactive hbasic hroom]
  by_cases hheld : k ∈ e.held.toList
  · rw [if_neg fun h => h.2 hheld]
    exact hheld
  · rw [if_pos ⟨hcancels, hheld⟩]
    exact List.mem_append_right _ (List.mem_singleton.mpr rfl)

theorem Engine.held_subset_heldOnPress (e : Engine τ σ) (k : Key) :
    ∀ a ∈ e.held.toList, a ∈ (e.heldOnPress k).toList := by
  intro a ha
  unfold heldOnPress
  split
  · rw [toList_hold]
    split
    · exact List.mem_append_left _ ha
    · exact ha
  · exact ha

/-- While recovery is in force, the hold buffer is sorted by presses and misses no later key. -/
structure InOrder (past : List (Input σ)) (s : Session τ σ) : Prop extends Live past s where
  filter_eq : s.engine.filter = none
  sorted : s.engine.flags.recoveryActive = true →
    s.engine.held.toList.Pairwise (PressedBefore past)
  complete : s.engine.flags.recoveryActive = true → ∀ u ∈ s.engine.held.toList, ∀ p,
    IsDown past p → PressedBefore past u p → p.isBasic = true →
      Table.cancels s.engine.table p = true → p ∈ s.engine.held.toList

namespace InOrder
variable {past : List (Input σ)} {s s' : Session τ σ} {input : Input σ} {k : Key}
  {event : Transition}

theorem admitted_iff (h : InOrder past s) :
    s.engine.admission k event = .admitted ↔
      s.engine.flags.cancellation = true ∧ k.isBasic = true :=
  Engine.admitted_iff_of_no_filter h.filter_eq

/-- An input that is an event of no basic key does not touch the order. -/
theorem of_not_basic (h : InOrder past s) (hlive : Live (past ++ [input]) s') (hquiet : Quiet s s')
    (hinput : ∀ a, a.isBasic = true → input.edgeOf? a = none) :
    InOrder (past ++ [input]) s' := by
  have hsame : ∀ a b, a.isBasic = true → b.isBasic = true →
      (PressedBefore (past ++ [input]) a b ↔ PressedBefore past a b) := by
    intro a b ha hb
    exact pressedBefore_append_of_none (hinput a ha) (hinput b hb)
  refine ⟨hlive, hquiet.filter_eq.trans h.filter_eq, ?_, ?_⟩
  · intro hactive
    rcases hquiet.held_eq hactive with hnil | ⟨hbefore, heq⟩
    · rw [hnil]
      exact .nil
    · rw [heq]
      apply (h.sorted hbefore).imp_of_mem
      intro a b ha hb hab
      exact (hsame a b (h.tidy.basic a ha) (h.tidy.basic b hb)).mpr hab
  · intro hactive u hu p hdown hlater hbasic hcancels
    rcases hquiet.held_eq hactive with hnil | ⟨hbefore, heq⟩
    · exact absurd (hnil ▸ hu) List.not_mem_nil
    · rw [heq] at hu ⊢
      exact h.complete hbefore u hu p ((isDown_append_of_none (hinput p hbasic)).mp hdown)
        ((hsame u p (h.tidy.basic u hu) hbasic).mp hlater) hbasic
        (hquiet.table_eq ▸ hcancels)

theorem of_key_not_basic (h : InOrder past s) (hlive : Live (past ++ [.key k event]) s')
    (hquiet : Quiet s s') (hk : k.isBasic = false) : InOrder (past ++ [.key k event]) s' :=
  h.of_not_basic hlive hquiet fun _ ha => Input.edgeOf?_key_of_ne event (Key.ne_of_isBasic ha hk)

/-- A key that goes down comes last, and there is room for it. -/
theorem press (h : InOrder past s) {host : Host}
    (hlive : Live (past ++ [.key k event])
      { engine := { s.engine with held := s.engine.heldOnPress k }, host })
    (hup : ¬ IsDown past k) (hroom : s.engine.overflows k = false) (hdown : event.edge = .down) :
    InOrder (past ++ [.key k event])
      { engine := { s.engine with held := s.engine.heldOnPress k }, host } := by
  have hedge : (Input.key k event : Input σ).edgeOf? k = some .down := by
    rw [Input.edgeOf?_key_self, hdown]
  refine ⟨hlive, h.filter_eq, ?_, ?_⟩
  · intro hactive
    replace hactive : s.engine.flags.recoveryActive = true := hactive
    have hout : ∀ a ∈ s.engine.held.toList, a ≠ k := by
      rintro a ha rfl
      exact hup (h.held_down hactive a ha)
    have hheld : s.engine.held.toList.Pairwise (PressedBefore (past ++ [.key k event])) := by
      apply (h.sorted hactive).imp_of_mem
      intro a b ha hb hab
      exact (pressedBefore_key_of_ne (hout a ha) (hout b hb)).mpr hab
    change (s.engine.heldOnPress k).toList.Pairwise _
    rw [Engine.heldOnPress, if_pos hactive]
    rcases Engine.toList_hold_cases s.engine k with ⟨_, _, hnew⟩ | hnew
    · rw [hnew, List.pairwise_append]
      refine ⟨hheld, List.pairwise_singleton _ _, ?_⟩
      intro a ha b hb
      obtain rfl := List.mem_singleton.mp hb
      refine pressedBefore_of_pressed (h.held_down hactive a ha) ?_ hedge
      simp [Input.edgeOf?_key_of_ne event (hout a ha)]
    · rw [hnew]
      exact hheld
  · intro hactive u hu p hpdown hlater hbasic hcancels
    by_cases hpk : p = k
    · subst hpk
      exact Engine.mem_heldOnPress_self hactive hbasic hcancels hroom
    · rcases Engine.mem_heldOnPress hu with hu | rfl
      · have huk : u ≠ k := fun e => hup (e ▸ h.held_down hactive u hu)
        exact Engine.held_subset_heldOnPress s.engine k p
          (h.complete hactive u hu p ((isDown_key_of_ne hpk).mp hpdown)
            ((pressedBefore_key_of_ne huk hpk).mp hlater) hbasic hcancels)
      · exact absurd hlater (not_pressedBefore_of_pressed hedge)

theorem lift (h : InOrder past s) {host : Host}
    (hlive : Live (past ++ [.key k event])
      { engine := { s.engine with held := s.engine.heldOnLift k }, host })
    (hup : event.edge = .up) (hactive : s.engine.flags.recoveryActive = true) :
    InOrder (past ++ [.key k event])
      { engine := { s.engine with held := s.engine.heldOnLift k }, host } := by
  refine ⟨hlive, h.filter_eq, ?_, ?_⟩
  · intro _
    change (s.engine.heldOnLift k).toList.Pairwise _
    rw [Engine.toList_heldOnLift h.tidy]
    apply ((h.sorted hactive).sublist List.erase_sublist).imp
    intro a b hab
    exact (pressedBefore_key_of_up hup).mpr hab
  · intro _ u hu p hpdown hlater hbasic hcancels
    have huheld := ((Engine.mem_heldOnLift h.tidy).mp hu).2
    have hpk : p ≠ k := by
      rintro rfl
      exact absurd (hup.symm.trans (isDown_key_self.mp hpdown)) (by decide)
    exact (Engine.mem_heldOnLift h.tidy).mpr ⟨hpk, h.complete hactive u huheld p
      ((isDown_key_of_ne hpk).mp hpdown) ((pressedBefore_key_of_up hup).mp hlater) hbasic hcancels⟩

variable [SettingsStore σ]

theorem start (table : τ) (store : σ) : InOrder [] (Session.start table store) where
  toLive := Live.start table store
  filter_eq := rfl
  sorted _ := .nil
  complete _ _ hu := absurd hu List.not_mem_nil

theorem key (h : InOrder past s) (hmove : KeyMove s k event s')
    (hup : event.edge = .down → ¬ IsDown past k)
    (hroom : event.edge = .down → s.engine.overflows k = false) :
    InOrder (past ++ [.key k event]) s' := by
  have hlive := h.toLive.key hmove
  cases hmove with
  | turned control hcontrol hdown =>
    exact h.of_key_not_basic hlive (.turn s control) (Control.isBasic_of_ofKey? hcontrol)
  | swallowed control hcontrol hup =>
    exact h.of_key_not_basic hlive (.host s s.host) (Control.isBasic_of_ofKey? hcontrol)
  | passed _ hpass =>
    cases hactive : s.engine.flags.recoveryActive with
    | true =>
      have hk := Engine.isBasic_of_passed h.filter_eq hactive hpass
      exact h.of_key_not_basic hlive (.host s _) hk
    | false =>
      have hinactive : ¬ s.engine.flags.recoveryActive = true := Bool.eq_false_iff.mp hactive
      exact ⟨hlive, h.filter_eq, fun hon => absurd hon hinactive, fun hon => absurd hon hinactive⟩
  | pressed hadmitted hdown host _ => exact h.press hlive (hup hdown) (hroom hdown) hdown
  | lifted hadmitted hup hactive host _ => exact h.lift hlive hup hactive

theorem step (h : InOrder past s) (hplain : input.isPlain = true)
    (hup : ∀ a ∈ input.pressed?, ¬ IsDown past a)
    (hroom : ∀ a ∈ input.pressed?, s.engine.overflows a = false) :
    InOrder (past ++ [input]) (s.step input).1 := by
  have hlive := h.toLive.step (FilterFits.of_plain hplain)
  cases input with
  | key k event =>
    exact h.key (Session.keyMove h.tidy k event) (fun hdown => hup k (Input.pressed?_key hdown))
      fun hdown => hroom k (Input.pressed?_key hdown)
  | _ => exact h.of_not_basic hlive (.step s rfl hplain) fun _ _ => rfl

end InOrder

/-- Every orderly run keeps the order. -/
theorem OrderlyRun.inOrder [SettingsStore σ] {table : τ} {store : σ} {inputs : List (Input σ)}
    (h : OrderlyRun table store inputs) :
    InOrder inputs ((Session.start table store).run inputs) := by
  induction inputs using List.reverseRecOn with
  | nil => exact InOrder.start table store
  | append_singleton past input ih =>
    rw [Session.run_append]
    exact (ih h.init).step h.last_plain (fun _ => h.last_up) fun _ => h.last_room

end OpposingKeys
