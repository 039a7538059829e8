import OpposingKeys.Proofs.History
import OpposingKeys.Proofs.Moves

/-!
# No ghost keys

A key whose latest event was a release is not on the host, and while recovery is in force it is not
in the hold buffer either, so nothing can bring it back. This holds for every run, over every store,
across switches and restarts, as long as a filter judges keys and not events and is there before its
engine sees a key. `Live` is the invariant; a full hold buffer does not disturb it.
-/

namespace OpposingKeys

set_option autoImplicit false

/-- The verdict of a filter depends on the key alone. -/
def KeyOnly (f : Filter) : Prop := ∀ k event event', f k event = f k event'

section Filters
variable {σ : Type} {past : List (Input σ)} {input : Input σ}

def Input.isKey : Input σ → Bool
  | .key _ _ => true
  | _ => false

theorem Input.edgeOf?_eq_none (hkey : input.isKey = false) (k : Key) : input.edgeOf? k = none := by
  cases input with
  | key k event => exact Bool.noConfusion hkey
  | _ => rfl

def Input.isRestart : Input σ → Bool
  | .restart => true
  | _ => false

/-- The engine in service has had no key event yet. -/
def Untouched (past : List (Input σ)) : Prop :=
  ∀ input ∈ past.reverse.takeWhile (fun input => !input.isRestart), input.isKey = false

theorem Untouched.of_append (hrestart : input.isRestart = false)
    (h : Untouched (past ++ [input])) : input.isKey = false ∧ Untouched past := by
  rw [Untouched, List.reverse_append, List.reverse_singleton, List.singleton_append,
    List.takeWhile_cons_of_pos (by rw [hrestart]; rfl)] at h
  exact List.forall_mem_cons.mp h

theorem not_untouched_key (k : Key) (event : Transition) :
    ¬ Untouched (past ++ [.key k event]) :=
  fun h => Bool.noConfusion (h.of_append rfl).1

/-- A filter that comes now comes before the first key event of its engine. -/
def FilterFits (past : List (Input σ)) : Input σ → Prop
  | .filter f => KeyOnly f ∧ Untouched past
  | _ => True

end Filters

variable {τ σ : Type} [Table τ]

/-- What is on the host, and in the hold buffer while recovery is in force, is physically down. -/
structure Live (past : List (Input σ)) (s : Session τ σ) : Prop where
  tidy : s.engine.Tidy
  host_down : ∀ k ∈ s.host, IsDown past k
  host_plain : ∀ k ∈ s.host, Control.ofKey? k = none
  held_down : s.engine.flags.recoveryActive = true → ∀ k ∈ s.engine.held.toList, IsDown past k
  filter_keyOnly : ∀ f ∈ s.engine.filter, KeyOnly f
  /-- The release of a held key will not be vetoed. -/
  filter_admits : ∀ f ∈ s.engine.filter, ∀ k ∈ s.engine.held.toList, ∀ event, f k event = true
  held_untouched : Untouched past → s.engine.held.toList = []

namespace Live
variable {past past' : List (Input σ)} {s s' : Session τ σ} {k : Key} {event : Transition}

theorem start [SettingsStore σ] (table : τ) (store : σ) : Live [] (Session.start table store) where
  tidy := Session.tidy_start table store
  host_down _ hk := absurd hk (Host.not_mem_empty _)
  host_plain _ hk := absurd hk (Host.not_mem_empty _)
  held_down _ _ hk := absurd hk List.not_mem_nil
  filter_keyOnly _ hf := absurd hf (Option.not_mem_none _)
  filter_admits _ hf := absurd hf (Option.not_mem_none _)
  held_untouched _ := rfl

/-- Where nothing new is held, only what is down has to be seen to. -/
theorem of_sublist (h : Live past s) (htable : s'.engine.table = s.engine.table)
    (hfilter : s'.engine.filter = s.engine.filter)
    (hheld : s'.engine.held.toList.Sublist s.engine.held.toList)
    (huntouched : Untouched past' → Untouched past)
    (hhost : ∀ k ∈ s'.host, IsDown past' k ∧ Control.ofKey? k = none)
    (hactive : s'.engine.flags.recoveryActive = true →
      ∀ k ∈ s'.engine.held.toList, IsDown past' k) : Live past' s' where
  tidy := h.tidy.of_sublist htable hheld
  host_down k hk := (hhost k hk).1
  host_plain k hk := (hhost k hk).2
  held_down := hactive
  filter_keyOnly := hfilter ▸ h.filter_keyOnly
  filter_admits f hf k hk := h.filter_admits f (hfilter ▸ hf) k (hheld.subset hk)
  held_untouched hpast' :=
    List.eq_nil_of_subset_nil (h.held_untouched (huntouched hpast') ▸ hheld.subset)

theorem held_plain (h : Live past s) {k : Key} (hk : k ∈ s.engine.held.toList) :
    Control.ofKey? k = none :=
  Control.ofKey?_eq_none_of_isBasic (h.tidy.basic k hk)

/-- A release of a held key is handled while recovery is in force. -/
theorem admitted_of_held (h : Live past s) (hactive : s.engine.flags.recoveryActive = true)
    (hk : k ∈ s.engine.held.toList) (event : Transition) :
    s.engine.admission k event = .admitted :=
  Engine.admission_eq_admitted_iff.mpr ⟨(Bool.and_eq_true_iff.mp hactive).1, h.tidy.basic k hk,
    fun f hf => h.filter_admits f hf k hk event⟩

/-- An event that the engine does nothing about is no release of a held key. -/
theorem pass (h : Live past s) (hplain : Control.ofKey? k = none)
    (hpass : s.engine.admission k event ≠ .admitted ∨
      (event.edge = .up ∧ s.engine.flags.recoveryActive = false)) :
    Live (past ++ [.key k event]) { s with host := s.host.deliver k event.edge .pass } := by
  refine h.of_sublist rfl rfl (List.Sublist.refl _) (fun hpast => absurd hpast
    (not_untouched_key k event)) ?_ ?_
  · intro a ha
    by_cases hak : a = k
    · subst hak
      exact ⟨isDown_key_self.mpr (Host.mem_deliver_self.mp ha), hplain⟩
    · replace ha := (Host.mem_deliver_of_ne event.edge .pass hak).mp ha
      exact ⟨(isDown_key_of_ne hak).mpr (h.host_down a ha), h.host_plain a ha⟩
  · intro hactive a ha
    refine (isDown_key_of_ne ?_).mpr (h.held_down hactive a ha)
    rintro rfl
    rcases hpass with hpass | ⟨_, hinactive⟩
    · exact hpass (h.admitted_of_held hactive ha event)
    · exact absurd (hinactive.symm.trans hactive) Bool.false_ne_true

theorem press (h : Live past s) (hadmitted : s.engine.admission k event = .admitted)
    (hdown : event.edge = .down) {host : Host} (hhost : ∀ a ∈ host, a = k ∨ a ∈ s.host) :
    Live (past ++ [.key k event])
      { engine := { s.engine with held := s.engine.heldOnPress k }, host } := by
  obtain ⟨_, hbasic, hadmits⟩ := Engine.admission_eq_admitted_iff.mp hadmitted
  have hk : IsDown (past ++ [.key k event]) k := isDown_key_self.mpr hdown
  constructor
  · exact Engine.tidy_heldOnPress h.tidy hbasic
  · intro a ha
    rcases hhost a ha with rfl | ha
    · exact hk
    · exact isDown_key_of_down hdown (h.host_down a ha)
  · intro a ha
    rcases hhost a ha with rfl | ha
    · exact Control.ofKey?_eq_none_of_isBasic hbasic
    · exact h.host_plain a ha
  · intro hactive a ha
    rcases Engine.mem_heldOnPress ha with ha | rfl
    · exact isDown_key_of_down hdown (h.held_down hactive a ha)
    · exact hk
  · exact h.filter_keyOnly
  · intro f hf a ha event'
    rcases Engine.mem_heldOnPress ha with ha | rfl
    · exact h.filter_admits f hf a ha event'
    · exact (h.filter_keyOnly f hf a event' event).trans (hadmits f hf)
  · exact fun hpast => absurd hpast (not_untouched_key k event)

/-- A release brings back held keys only, and these are down. -/
theorem lift (h : Live past s) (hactive : s.engine.flags.recoveryActive = true) {host : Host}
    (hhost : ∀ a ∈ host, (a ∈ s.host ∨ a ∈ (s.engine.heldOnLift k).toList) ∧ a ≠ k) :
    Live (past ++ [.key k event])
      { engine := { s.engine with held := s.engine.heldOnLift k }, host } := by
  have hheld : ∀ a ∈ (s.engine.heldOnLift k).toList, IsDown (past ++ [.key k event]) a := by
    intro a ha
    obtain ⟨hak, ha⟩ := (Engine.mem_heldOnLift h.tidy).mp ha
    exact (isDown_key_of_ne hak).mpr (h.held_down hactive a ha)
  have hsublist : (s.engine.heldOnLift k).toList.Sublist s.engine.held.toList := by
    rw [Engine.toList_heldOnLift h.tidy]
    exact List.erase_sublist
  refine h.of_sublist rfl rfl hsublist (fun hpast => absurd hpast (not_untouched_key k event)) ?_
    fun _ => hheld
  intro a ha
  obtain ⟨ha | ha, hak⟩ := hhost a ha
  · exact ⟨(isDown_key_of_ne hak).mpr (h.host_down a ha), h.host_plain a ha⟩
  · exact ⟨hheld a ha, h.held_plain (hsublist.subset ha)⟩

variable [SettingsStore σ]

theorem turn (h : Live past s) (control : Control) (hdown : ∀ k, IsDown past k → IsDown past' k)
    (huntouched : Untouched past' → Untouched past) :
    Live past' { s with engine := (s.engine.turn control).engine } := by
  refine h.of_sublist rfl rfl (s.engine.held_turn_sublist control) huntouched ?_ ?_
  · intro k hk
    exact ⟨hdown k (h.host_down k hk), h.host_plain k hk⟩
  · intro hactive k hk
    rcases Engine.held_turn_of_active hactive with hnil | ⟨hbefore, hheld⟩
    · exact absurd (hnil ▸ hk) List.not_mem_nil
    · exact hdown k (h.held_down hbefore k (hheld ▸ hk))

theorem key (h : Live past s) (hmove : KeyMove s k event s') :
    Live (past ++ [.key k event]) s' := by
  cases hmove with
  | turned control _ hdown =>
    exact h.turn control (fun _ => isDown_key_of_down hdown)
      fun hpast => absurd hpast (not_untouched_key k event)
  | swallowed control hcontrol _ =>
    -- neither the host nor the hold buffer has a control key
    have hstays : ∀ a, Control.ofKey? a = none → IsDown past a →
        IsDown (past ++ [.key k event]) a := by
      intro a hplain ha
      refine (isDown_key_of_ne ?_).mpr ha
      rintro rfl
      exact absurd (hcontrol.symm.trans hplain) (Option.some_ne_none control)
    refine h.of_sublist rfl rfl (List.Sublist.refl _)
      (fun hpast => absurd hpast (not_untouched_key k event)) ?_ ?_
    · intro a ha
      exact ⟨hstays a (h.host_plain a ha) (h.host_down a ha), h.host_plain a ha⟩
    · intro hactive a ha
      exact hstays a (h.held_plain ha) (h.held_down hactive a ha)
  | passed hplain hpass => exact h.pass hplain hpass
  | pressed hadmitted hdown host hhost =>
    exact h.press hadmitted hdown fun a ha => ((hhost a).mp ha).imp_right And.left
  | lifted _ _ hactive host hhost =>
    exact h.lift hactive fun a ha =>
      ((hhost a).mp ha).imp_left (Or.imp And.left mem_of_mem_survivors)

/-- An input that is no key event changes nothing about which keys are down. -/
theorem other (h : Live past s) {input : Input σ} (hkey : input.isKey = false)
    (hfits : FilterFits past input) : Live (past ++ [input]) (s.step input).1 := by
  have hdown : ∀ k, IsDown (past ++ [input]) k ↔ IsDown past k :=
    fun k => isDown_append_of_none (Input.edgeOf?_eq_none hkey k)
  have hhost : ∀ k ∈ s.host, IsDown (past ++ [input]) k ∧ Control.ofKey? k = none :=
    fun k hk => ⟨(hdown k).mpr (h.host_down k hk), h.host_plain k hk⟩
  have hheld : s.engine.flags.recoveryActive = true →
      ∀ k ∈ s.engine.held.toList, IsDown (past ++ [input]) k :=
    fun hactive k hk => (hdown k).mpr (h.held_down hactive k hk)
  cases input with
  | key k event => exact Bool.noConfusion hkey
  | control control =>
    exact h.turn control (fun k => (hdown k).mpr) fun hpast => (hpast.of_append rfl).2
  | listen listener =>
    exact h.of_sublist rfl rfl (List.Sublist.refl _) (fun hpast => (hpast.of_append rfl).2)
      hhost hheld
  | adjust change =>
    exact h.of_sublist rfl rfl (List.Sublist.refl _) (fun hpast => (hpast.of_append rfl).2)
      hhost hheld
  | restart =>
    exact {
      tidy := Engine.tidy_of_nil rfl
      host_down := fun k hk => (hhost k hk).1
      host_plain := h.host_plain
      held_down := fun _ _ hk => absurd hk List.not_mem_nil
      filter_keyOnly := fun _ hf => absurd hf (Option.not_mem_none _)
      filter_admits := fun _ hf => absurd hf (Option.not_mem_none _)
      held_untouched := fun _ => rfl }
  | filter f =>
    obtain ⟨hkeyOnly, huntouched⟩ := hfits
    have hnil := h.held_untouched huntouched
    exact {
      tidy := Engine.tidy_of_nil hnil
      host_down := fun k hk => (hhost k hk).1
      host_plain := h.host_plain
      held_down := hheld
      filter_keyOnly := fun g hg => Option.some.inj hg ▸ hkeyOnly
      filter_admits := fun _ _ k hk => absurd (hnil ▸ hk) List.not_mem_nil
      held_untouched := fun _ => hnil }

theorem step (h : Live past s) {input : Input σ} (hfits : FilterFits past input) :
    Live (past ++ [input]) (s.step input).1 := by
  cases input with
  | key k event => exact h.key (Session.keyMove h.tidy k event)
  | _ => exact h.other rfl hfits

theorem run (table : τ) (store : σ) {inputs : List (Input σ)}
    (hfits : Throughout FilterFits inputs) :
    Live inputs ((Session.start table store).run inputs) := by
  induction inputs using List.reverseRecOn with
  | nil => exact start table store
  | append_singleton past input ih =>
    obtain ⟨hpast, hinput⟩ := throughout_append_singleton.mp hfits
    rw [Session.run_append]
    exact (ih hpast).step hinput

end Live

variable [SettingsStore σ]

/-- The host never holds a key whose latest event was a release, nor does the hold buffer while
recovery is in force. -/
theorem no_ghost_keys (table : τ) (store : σ) (inputs : List (Input σ))
    (hfits : Throughout FilterFits inputs) :
    let s := (Session.start table store).run inputs
    (∀ k ∈ s.host, latestEdge? inputs k = some .down) ∧
    (s.engine.flags.recoveryActive = true →
      ∀ k ∈ s.engine.held.toList, latestEdge? inputs k = some .down) :=
  have hlive := Live.run table store hfits
  ⟨hlive.host_down, hlive.held_down⟩

/-- A key goes up while cancellation is off, and after that the store fails and the engine starts
anew. -/
theorem no_ghost_keys_across_switches :
    let a : Key := ⟨0x04⟩
    let d : Key := ⟨0x07⟩
    let w : Key := ⟨0x1A⟩
    let store : CuttableStore := { memory := .ofFlags ⟨true, true⟩ }
    let inputs : List (Input CuttableStore) :=
      [.filter fun k _ => k ≠ w, .key a ⟨.down, none⟩, .control ⟨.cancellation, .off⟩,
        .key a ⟨.up, none⟩, .key (Control.key ⟨.cancellation, .on⟩) ⟨.down, none⟩,
        .key d ⟨.down, none⟩, .adjust fun c => { c with saveCut := true }, .restart,
        .key w ⟨.down, none⟩]
    let s := (Session.start wasd store).run inputs
    Throughout FilterFits inputs ∧ s.host.held = [d, w] ∧ s.engine.held.toList = [w] ∧
    ∀ k ∈ s.engine.held.toList, latestEdge? inputs k = some .down := by
  intro a d w store inputs s
  have hfits : Throughout FilterFits inputs := by
    intro n hn
    match n, hn with
    | 0, _ => exact ⟨fun _ _ _ => rfl, fun _ h => absurd h List.not_mem_nil⟩
    | 1, _ | 2, _ | 3, _ | 4, _ | 5, _ | 6, _ | 7, _ | 8, _ => trivial
  exact ⟨hfits, by decide, by decide, (no_ghost_keys wasd store inputs hfits).2 (by decide)⟩

end OpposingKeys
