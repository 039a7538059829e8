import Mathlib.Data.List.Find
import OpposingKeys.Proofs.PressOrder

/-!
# What the hold buffer tracks

The hold buffer never has duplicates, nor more keys than it has room for, nor keys that cancel no
other. While recovery is in force, without a filter and as long as no press found it full, it is a
function of what happened since recovery came into force: the keys that went down since then and are
still down, where a key that is pressed again while it is down keeps its place (`Tracked`). While
recovery is not in force the hold buffer does not change. Both are said in `hold_buffer_tracks`.
-/

namespace OpposingKeys

set_option autoImplicit false

variable {τ σ : Type}

/-- Input `n` is a press of `k`, and no release of `k` follows. -/
def OpenPress (inputs : List (Input σ)) (k : Key) (n : Nat) : Prop :=
  inputs[n]?.bind (Input.edgeOf? k) = some .down ∧
    ∀ later ∈ inputs.drop (n + 1), later.edgeOf? k ≠ some .up

instance (inputs : List (Input σ)) (k : Key) (n : Nat) : Decidable (OpenPress inputs k n) :=
  inferInstanceAs (Decidable (_ ∧ _))

/-- How many inputs came before the earliest press of `k` that no release of `k` follows. -/
def heldSince? (inputs : List (Input σ)) (k : Key) : Option Nat :=
  (List.range inputs.length).find? fun n => OpenPress inputs k n

/-- `a` has been down for longer than `b`. -/
def HeldBefore (inputs : List (Input σ)) (a b : Key) : Prop :=
  ∃ m n, heldSince? inputs a = some m ∧ heldSince? inputs b = some n ∧ m < n

section Since
variable {past past' : List (Input σ)} {input : Input σ} {k a b : Key} {n : Nat}

theorem openPress_append_of_lt (h : n < past.length) :
    OpenPress (past ++ [input]) k n ↔ OpenPress past k n ∧ input.edgeOf? k ≠ some .up := by
  rw [OpenPress, OpenPress, List.getElem?_append_left h, List.drop_append_of_le_length h,
    List.forall_mem_append, List.forall_mem_singleton, and_assoc]

theorem openPress_length : OpenPress (past ++ [input]) k past.length ↔
    input.edgeOf? k = some .down := by
  have hlast : (past ++ [input]).drop (past.length + 1) = [] := List.drop_of_length_le (by simp)
  rw [OpenPress, List.getElem?_concat_length, hlast]
  simp

theorem heldSince?_lt (h : heldSince? past k = some n) : n < past.length :=
  List.mem_range.mp (List.mem_of_find?_eq_some h)

theorem heldSince?_of_up (hup : input.edgeOf? k = some .up) :
    heldSince? (past ++ [input]) k = none := by
  apply List.find?_eq_none.mpr
  intro n hn
  rw [List.mem_range, List.length_append, List.length_singleton] at hn
  rw [decide_eq_true_eq]
  by_cases hlt : n < past.length
  · rw [openPress_append_of_lt hlt]
    exact fun h => h.2 hup
  · obtain rfl : n = past.length := by omega
    rw [openPress_length, hup]
    decide

theorem heldSince?_append (hup : input.edgeOf? k ≠ some .up) :
    heldSince? (past ++ [input]) k = (heldSince? past k).or
      (if input.edgeOf? k = some .down then some past.length else none) := by
  -- the presses before the last input stay open, and the last input may be one more
  have hpast : (List.range past.length).find? (fun n => OpenPress (past ++ [input]) k n) =
      heldSince? past k := by
    apply List.find?_congr
    intro n hn
    rw [decide_eq_decide, openPress_append_of_lt (List.mem_range.mp hn)]
    exact and_iff_left hup
  have hlast : [past.length].find? (fun n => OpenPress (past ++ [input]) k n) =
      if input.edgeOf? k = some .down then some past.length else none := by
    by_cases hdown : input.edgeOf? k = some .down
    · simp [openPress_length, hdown]
    · simp [openPress_length, hdown]
  rw [heldSince?, List.length_append, List.length_singleton, List.range_succ, List.find?_append,
    hpast, hlast]

theorem isDown_iff_heldSince? : IsDown past k ↔ ∃ n, heldSince? past k = some n := by
  induction past using List.reverseRecOn with
  | nil => simp [heldSince?]
  | append_singleton past input ih =>
    cases hedge : input.edgeOf? k with
    | none => rw [isDown_append_of_none hedge, ih, heldSince?_append (by simp [hedge])]; simp [hedge]
    | some edge =>
      rw [isDown_append_of_some hedge]
      cases edge with
      | down =>
        rw [heldSince?_append (by simp [hedge])]
        cases heldSince? past k <;> simp [hedge]
      | up => simp [heldSince?_of_up hedge]

/-- A key that is down keeps its place until it goes up. -/
theorem heldSince?_of_isDown (hdown : IsDown past k) (hup : input.edgeOf? k ≠ some .up) :
    heldSince? (past ++ [input]) k = heldSince? past k := by
  obtain ⟨n, hn⟩ := isDown_iff_heldSince?.mp hdown
  rw [heldSince?_append hup, hn, Option.some_or]

theorem heldSince?_of_pressed (hout : ¬ IsDown past k) (hdown : input.edgeOf? k = some .down) :
    heldSince? (past ++ [input]) k = some past.length := by
  have hnone : heldSince? past k = none := by
    cases hn : heldSince? past k with
    | none => rfl
    | some n => exact absurd (isDown_iff_heldSince?.mpr ⟨n, hn⟩) hout
  rw [heldSince?_append (by simp [hdown]), hnone, Option.none_or, if_pos hdown]

theorem HeldBefore.append (h : HeldBefore past a b) (ha : input.edgeOf? a ≠ some .up)
    (hb : input.edgeOf? b ≠ some .up) : HeldBefore (past ++ [input]) a b := by
  obtain ⟨m, n, hm, hn, hlt⟩ := h
  refine ⟨m, n, ?_, ?_, hlt⟩
  · rw [heldSince?_of_isDown (isDown_iff_heldSince?.mpr ⟨m, hm⟩) ha, hm]
  · rw [heldSince?_of_isDown (isDown_iff_heldSince?.mpr ⟨n, hn⟩) hb, hn]

theorem heldBefore_of_pressed (ha : IsDown past a) (haup : input.edgeOf? a ≠ some .up)
    (hout : ¬ IsDown past b) (hdown : input.edgeOf? b = some .down) :
    HeldBefore (past ++ [input]) a b := by
  obtain ⟨m, hm⟩ := isDown_iff_heldSince?.mp ha
  exact ⟨m, past.length, (heldSince?_of_isDown ha haup).trans hm,
    heldSince?_of_pressed hout hdown, heldSince?_lt hm⟩

theorem HeldBefore.asymm (h : HeldBefore past a b) : ¬ HeldBefore past b a :=
  earlier_asymm h

end Since

variable [Table τ]

/-- The basic keys that cancel some key and are down, longest down first. -/
structure Tracked (t : τ) (inputs : List (Input σ)) (keys : List Key) : Prop where
  mem_iff : ∀ k, k ∈ keys ↔
    k.isBasic = true ∧ Table.cancels t k = true ∧ IsDown inputs k
  sorted : keys.Pairwise (HeldBefore inputs)

namespace Tracked
variable {t : τ} {past : List (Input σ)} {input : Input σ} {keys keys' : List Key} {k : Key}
  {event : Transition}

theorem nil (t : τ) : Tracked t ([] : List (Input σ)) [] where
  mem_iff k := by simp
  sorted := .nil

theorem nodup (h : Tracked t past keys) : keys.Nodup :=
  h.sorted.imp fun hab e => (e ▸ hab).asymm (e ▸ hab)

theorem unique (h : Tracked t past keys) (h' : Tracked t past keys') : keys = keys' := by
  have hperm : keys.Perm keys' := (List.perm_ext_iff_of_nodup h.nodup h'.nodup).mpr
    fun k => (h.mem_iff k).trans (h'.mem_iff k).symm
  exact hperm.eq_of_pairwise (fun a b _ _ hab hba => absurd hba hab.asymm) h.sorted h'.sorted

theorem isDown (h : Tracked t past keys) (hk : k ∈ keys) : IsDown past k :=
  ((h.mem_iff k).mp hk).2.2

theorem of_none (h : Tracked t past keys)
    (hinput : ∀ k, k.isBasic = true → input.edgeOf? k = none) :
    Tracked t (past ++ [input]) keys where
  mem_iff k := by
    rw [h.mem_iff k]
    refine and_congr_right fun hbasic => and_congr_right fun _ => ?_
    exact (isDown_append_of_none (hinput k hbasic)).symm
  sorted := by
    have hup : ∀ k ∈ keys, input.edgeOf? k ≠ some .up := by
      intro k hk
      simp [hinput k ((h.mem_iff k).mp hk).1]
    exact h.sorted.imp_of_mem fun ha hb hab => hab.append (hup _ ha) (hup _ hb)

theorem press (h : Tracked t past keys) (hbasic : k.isBasic = true) (hdown : event.edge = .down) :
    Tracked t (past ++ [.key k event])
      (if Table.cancels t k = true ∧ k ∉ keys then keys ++ [k] else keys) := by
  have hedge : (Input.key k event : Input σ).edgeOf? k = some .down := by
    rw [Input.edgeOf?_key_self, hdown]
  have hup : ∀ a, (Input.key k event : Input σ).edgeOf? a ≠ some .up := by
    intro a
    simp [Input.edgeOf?, hdown]
  have hsorted : keys.Pairwise (HeldBefore (past ++ [.key k event])) :=
    h.sorted.imp fun hab => hab.append (hup _) (hup _)
  constructor
  · intro a
    by_cases hak : a = k
    · subst hak
      rw [isDown_key_self, and_iff_left hdown, and_iff_right hbasic]
      split
      · next hnew => exact iff_of_true (List.mem_append_right _ (List.mem_singleton.mpr rfl)) hnew.1
      · next hold =>
        constructor
        · exact fun ha => ((h.mem_iff a).mp ha).2.1
        · exact fun hcancels => by_contra fun ha => hold ⟨hcancels, ha⟩
    · rw [isDown_key_of_ne hak, ← h.mem_iff a]
      split
      · rw [List.mem_append, List.mem_singleton]
        exact or_iff_left hak
      · exact Iff.rfl
  -- a new key has been down for the shortest time; one that is held keeps its place
  · split
    · next hnew =>
      rw [List.pairwise_append]
      refine ⟨hsorted, List.pairwise_singleton _ _, ?_⟩
      intro a ha b hb
      obtain rfl := List.mem_singleton.mp hb
      have hout : ¬ IsDown past b := fun hb => hnew.2 ((h.mem_iff b).mpr ⟨hbasic, hnew.1, hb⟩)
      exact heldBefore_of_pressed (h.isDown ha) (hup a) hout hedge
    · exact hsorted

theorem lift (h : Tracked t past keys) (hup : event.edge = .up) :
    Tracked t (past ++ [.key k event]) (keys.erase k) := by
  constructor
  · intro a
    rw [h.nodup.mem_erase_iff]
    by_cases hak : a = k
    · subst hak
      simp [isDown_key_self, hup]
    · rw [isDown_key_of_ne hak, ← h.mem_iff a]
      exact and_iff_right hak
  · have hne : ∀ a ∈ keys.erase k, (Input.key k event : Input σ).edgeOf? a ≠ some .up := by
      intro a ha
      simp [Input.edgeOf?_key_of_ne event (h.nodup.mem_erase_iff.mp ha).1]
    exact (h.sorted.sublist List.erase_sublist).imp_of_mem
      fun ha hb hab => hab.append (hne _ ha) (hne _ hb)

end Tracked

/-- What is held is what one engine without a filter has tracked. -/
structure Tracks (past : List (Input σ)) (s : Session τ σ) : Prop where
  tidy : s.engine.Tidy
  filter_eq : s.engine.filter = none
  tracked : Tracked s.engine.table past s.engine.held.toList

theorem Tracks.of_nil {s : Session τ σ} (htidy : s.engine.Tidy) (hfilter : s.engine.filter = none)
    (hnil : s.engine.held.toList = []) : Tracks [] s where
  tidy := htidy
  filter_eq := hfilter
  tracked := hnil ▸ .nil s.engine.table

section Active
variable [SettingsStore σ] {past since : List (Input σ)} {s s' : Session τ σ} {input : Input σ}
  {k : Key} {event : Transition}

theorem Tracks.key (h : Tracks past s) (hactive : s.engine.flags.recoveryActive = true)
    (hmove : KeyMove s k event s') (hroom : event.edge = .down → s.engine.overflows k = false) :
    Tracks (past ++ [.key k event]) s' := by
  refine ⟨hmove.tidy h.tidy, hmove.filter_eq.trans h.filter_eq, ?_⟩
  have hother (hk : k.isBasic = false) :
      Tracked s.engine.table (past ++ [.key k event]) s.engine.held.toList :=
    h.tracked.of_none fun _ ha => Input.edgeOf?_key_of_ne event (Key.ne_of_isBasic ha hk)
  cases hmove with
  | turned control hcontrol =>
    rw [Engine.held_turn_of_was_active hactive]
    exact hother (Control.isBasic_of_ofKey? hcontrol)
  | swallowed control hcontrol => exact hother (Control.isBasic_of_ofKey? hcontrol)
  | passed _ hpass => exact hother (Engine.isBasic_of_passed h.filter_eq hactive hpass)
  | pressed hadmitted hdown =>
    have hbasic := (Engine.admission_eq_admitted_iff.mp hadmitted).2.1
    rw [Engine.toList_heldOnPress_of_room hactive hbasic (hroom hdown)]
    exact h.tracked.press hbasic hdown
  | lifted _ hup =>
    rw [Engine.toList_heldOnLift h.tidy]
    exact h.tracked.lift hup

theorem Tracks.step (h : Tracks past s) (hactive : s.engine.flags.recoveryActive = true)
    (hplain : input.isPlain = true) (hroom : ∀ k ∈ input.pressed?, s.engine.overflows k = false) :
    Tracks (past ++ [input]) (s.step input).1 := by
  have htidy := Session.tidy_step h.tidy input
  cases input with
  | key k event =>
    exact h.key hactive (Session.keyMove h.tidy k event) fun hdown =>
      hroom k (Input.pressed?_key hdown)
  | control control =>
    refine ⟨htidy, h.filter_eq, ?_⟩
    change Tracked _ _ (s.engine.turn control).engine.held.toList
    rw [Engine.held_turn_of_was_active hactive]
    exact h.tracked.of_none fun _ _ => rfl
  | listen _ => exact ⟨htidy, h.filter_eq, h.tracked.of_none fun _ _ => rfl⟩
  | adjust _ => exact ⟨htidy, h.filter_eq, h.tracked.of_none fun _ _ => rfl⟩
  | filter _ => exact Bool.noConfusion hplain
  | restart => exact Bool.noConfusion hplain

theorem Tracks.run (h : Tracks [] s) (hplain : ∀ input ∈ since, input.isPlain = true)
    (hactive : s.Always (fun s => s.engine.flags.recoveryActive = true) since)
    (hroom : Throughout (fun past input => ∀ k ∈ input.pressed?,
      (s.run past).engine.overflows k = false) since) : Tracks since (s.run since) := by
  induction since using List.reverseRecOn with
  | nil => exact h
  | append_singleton past input ih =>
    obtain ⟨hactive, _⟩ := Session.always_append_singleton.mp hactive
    obtain ⟨hroom, hlast⟩ := throughout_append_singleton.mp hroom
    obtain ⟨hplain, hinput⟩ := List.forall_mem_append.mp hplain
    rw [Session.run_append]
    -- whether recovery is still in force after the last input does not matter
    exact (ih hplain hactive hroom).step hactive.last (hinput input (List.mem_singleton_self input))
      hlast

end Active

section Inactive
variable [SettingsStore σ] {s s' : Session τ σ} {input : Input σ} {k : Key} {event : Transition}

theorem KeyMove.held_eq_nil (hmove : KeyMove s k event s')
    (hbefore : s.engine.flags.recoveryActive = false)
    (hafter : s'.engine.flags.recoveryActive = true) : s'.engine.held.toList = [] := by
  have hsame (hflags : s'.engine.flags = s.engine.flags) : s'.engine.held.toList = [] :=
    absurd (hbefore.symm.trans (hflags ▸ hafter)) Bool.false_ne_true
  cases hmove with
  | turned => exact Engine.held_turn_of_was_inactive hbefore hafter
  | _ => exact hsame rfl

/-- As recovery comes into force the hold buffer is empty. -/
theorem Session.held_eq_nil_of_step (htidy : s.engine.Tidy)
    (hbefore : s.engine.flags.recoveryActive = false)
    (hafter : (s.step input).1.engine.flags.recoveryActive = true) :
    (s.step input).1.engine.held.toList = [] := by
  cases input with
  | key k event => exact (keyMove htidy k event).held_eq_nil hbefore hafter
  | control control => exact Engine.held_turn_of_was_inactive hbefore hafter
  | restart => rfl
  | _ => exact absurd (hbefore.symm.trans hafter) Bool.false_ne_true

theorem KeyMove.held_eq (hmove : KeyMove s k event s')
    (hbefore : s.engine.flags.recoveryActive = false)
    (hafter : s'.engine.flags.recoveryActive = false) : s'.engine.held = s.engine.held := by
  cases hmove with
  | turned => exact Engine.held_turn_of_inactive hafter
  | swallowed => rfl
  | passed => rfl
  | pressed => exact if_neg (Bool.eq_false_iff.mp hbefore)
  | lifted _ _ hactive => exact absurd (hbefore.symm.trans hactive) Bool.false_ne_true

theorem Session.held_step_of_inactive (htidy : s.engine.Tidy) (hinput : input.isRestart = false)
    (hbefore : s.engine.flags.recoveryActive = false)
    (hafter : (s.step input).1.engine.flags.recoveryActive = false) :
    (s.step input).1.engine.held = s.engine.held := by
  cases input with
  | key k event => exact (keyMove htidy k event).held_eq hbefore hafter
  | control control => exact Engine.held_turn_of_inactive hafter
  | restart => exact Bool.noConfusion hinput
  | _ => rfl

theorem Session.held_run_of_inactive {since : List (Input σ)} (htidy : s.engine.Tidy)
    (hsince : ∀ input ∈ since, input.isRestart = false)
    (hinactive : s.Always (fun s => s.engine.flags.recoveryActive = false) since) :
    (s.run since).engine.held = s.engine.held := by
  induction since using List.reverseRecOn with
  | nil => rfl
  | append_singleton past input ih =>
    obtain ⟨hpast, hinput⟩ := List.forall_mem_append.mp hsince
    obtain ⟨hbefore, hafter⟩ := Session.always_append_singleton.mp hinactive
    rw [run_append] at hafter ⊢
    exact (held_step_of_inactive (tidy_run htidy past)
      (hinput input (List.mem_singleton_self input)) hbefore.last hafter).trans (ih hpast hbefore)

end Inactive

section Filters
variable [SettingsStore σ] {s : Session τ σ}

theorem Session.filter_step {input : Input σ} (htidy : s.engine.Tidy)
    (hplain : input.isPlain = true) : (s.step input).1.engine.filter = s.engine.filter := by
  cases input with
  | key k event => exact (keyMove htidy k event).filter_eq
  | filter _ => exact Bool.noConfusion hplain
  | restart => exact Bool.noConfusion hplain
  | _ => rfl

theorem Session.filter_run {inputs : List (Input σ)} (htidy : s.engine.Tidy)
    (hplain : ∀ input ∈ inputs, input.isPlain = true) :
    (s.run inputs).engine.filter = s.engine.filter := by
  induction inputs generalizing s with
  | nil => rfl
  | cons input inputs ih =>
    obtain ⟨hinput, hinputs⟩ := List.forall_mem_cons.mp hplain
    exact (ih (tidy_step htidy input) hinputs).trans (filter_step htidy hinput)

end Filters

variable [SettingsStore σ]

/-- A new engine holds nothing, nor does one in which recovery has just come into force. -/
theorem held_eq_nil_of_just_active (t : τ) (store : σ) (before : List (Input σ))
    (hjust : before = [] ∨
      ((Session.start t store).run before.dropLast).engine.flags.recoveryActive = false)
    (hactive : ((Session.start t store).run before).engine.flags.recoveryActive = true) :
    ((Session.start t store).run before).engine.held.toList = [] := by
  rcases List.eq_nil_or_concat' before with rfl | ⟨past, input, rfl⟩
  · rfl
  · replace hjust := hjust.resolve_left (by simp)
    rw [List.dropLast_concat] at hjust
    rw [Session.run_append] at hactive ⊢
    exact Session.held_eq_nil_of_step (Session.tidy_run (Session.tidy_start t store) past) hjust
      hactive

/-- The hold buffer is always tidy and within its bound. While recovery is in force, without a filter
and without overflow, it is what was tracked since recovery came into force or since the start. While
recovery is not in force, the hold buffer stays as it is. -/
theorem hold_buffer_tracks (t : τ) (store : σ) (before since : List (Input σ)) :
    let s := (Session.start t store).run before
    let s' := s.run since
    (s'.engine.held.toList.Nodup ∧ s'.engine.held.toList.length ≤ 10 ∧
      ∀ k ∈ s'.engine.held.toList, k.isBasic = true ∧ Table.cancels t k = true) ∧
    ((∀ input ∈ before ++ since, input.isPlain = true) →
      (before = [] ∨
        ((Session.start t store).run before.dropLast).engine.flags.recoveryActive = false) →
      s.Always (fun s => s.engine.flags.recoveryActive = true) since →
      Throughout (fun past input => ∀ k ∈ input.pressed?,
        (s.run past).engine.overflows k = false) since →
      ∀ keys, Tracked t since keys ↔ keys = s'.engine.held.toList) ∧
    ((∀ input ∈ since, input.isRestart = false) →
      s.Always (fun s => s.engine.flags.recoveryActive = false) since →
      s'.engine.held = s.engine.held) := by
  intro s s'
  have hstart : (Session.start t store).engine.Tidy := Session.tidy_start t store
  have htidy : s.engine.Tidy := Session.tidy_run hstart before
  have htidy' : s'.engine.Tidy := Session.tidy_run htidy since
  have htable : s.engine.table = t := Session.table_run hstart before
  have htable' : s'.engine.table = t := (Session.table_run htidy since).trans htable
  refine ⟨⟨htidy'.nodup, ?_, ?_⟩, ?_, Session.held_run_of_inactive htidy⟩
  · rw [HoldBuffer.length_toList]
    exact s'.engine.held.size_le
  · exact fun k hk => ⟨htidy'.basic k hk, htable' ▸ htidy'.cancels k hk⟩
  · intro hplain hjust hactive hroom keys
    obtain ⟨hplain, hsince⟩ := List.forall_mem_append.mp hplain
    have hnil : s.engine.held.toList = [] :=
      held_eq_nil_of_just_active t store before hjust (hactive 0 (Nat.zero_le _))
    have hfilter : s.engine.filter = none := Session.filter_run hstart hplain
    have htracks := ((Tracks.of_nil htidy hfilter hnil).run hsince hactive hroom).tracked
    change Tracked s'.engine.table since s'.engine.held.toList at htracks
    rw [htable'] at htracks
    exact ⟨fun h => h.unique htracks, fun h => h ▸ htracks⟩

/-- `a` goes up and comes back after `d`, and is pressed twice. Then recovery goes off, and neither the
release of `a` nor the press of `w` is seen. -/
theorem hold_buffer_tracks_since_switch :
    let a : Key := ⟨0x04⟩
    let d : Key := ⟨0x07⟩
    let w : Key := ⟨0x1A⟩
    let toggle : Input ByteStore := .key (Control.key ⟨.recovery, .toggle⟩) ⟨.down, none⟩
    let store := ByteStore.ofFlags ⟨true, false⟩
    let before : List (Input ByteStore) := [.key w ⟨.down, none⟩, toggle]
    let since : List (Input ByteStore) := [.key a ⟨.down, none⟩, .key d ⟨.down, none⟩,
      .key a ⟨.up, none⟩, .key a ⟨.down, none⟩, .key d ⟨.down, none⟩, .key w ⟨.up, none⟩]
    let frozen : List (Input ByteStore) := [.key a ⟨.up, none⟩, .key w ⟨.down, none⟩]
    let s := (Session.start wasd store).run before
    let off := (Session.start wasd store).run (before ++ since ++ [toggle])
    (s.run since).engine.held.toList = [d, a] ∧ Tracked wasd since [d, a] ∧
    (off.run frozen).engine.held = off.engine.held ∧ off.engine.held.toList = [d, a] ∧
    (off.run frozen).engine.held.toList.Nodup := by
  intro a d w toggle store before since frozen s off
  have hheld : (s.run since).engine.held.toList = [d, a] := by decide
  have htracks := (hold_buffer_tracks wasd store before since).2.1 (by decide) (Or.inr (by decide))
    (by decide) (by decide) [d, a]
  obtain ⟨hbounds, _, hfrozen⟩ :=
    hold_buffer_tracks wasd store (before ++ since ++ [toggle]) frozen
  exact ⟨hheld, htracks.mpr hheld.symm, hfrozen (by decide) (by decide), by decide, hbounds.1⟩

end OpposingKeys
