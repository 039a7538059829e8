import OpposingKeys.Proofs.GhostKeys

/-!
# Recovery only gives keys back

Two engines over one table take the same events of ordinary keys, one with recovery and one without.
A press takes the same keys away from both hosts. A release also releases held keys, with recovery
only, but none that the host without recovery still holds: it releases a key for one that is held
after it and opposes it, and the press of that one has taken the key away from both hosts
(`Spares.spared`). A key that found the hold buffer full is not held and so releases nothing.
-/

namespace OpposingKeys

set_option autoImplicit false

variable {τ σ : Type} [Table τ]

/-- An event of a key that is no control key. -/
def Input.isOrdinary : Input σ → Bool
  | .key k _ => (Control.ofKey? k).isNone
  | _ => false

/-- The host without recovery holds nothing that the other lacks, nor any held key that one held
after it opposes. -/
structure Spares (t : τ) (held : List Key) (full plain : Host) : Prop where
  subset : ∀ k ∈ plain, k ∈ full
  spared : ∀ a b, Before held a b → Opposes t b a → a ∉ plain

namespace Spares
variable {t : τ} {held held' : List Key} {full full' plain plain' : Host} {k : Key}

theorem deliver (h : Spares t held full plain) (hk : k ∉ held) (edge : Edge) :
    Spares t held (full.deliver k edge .pass) (plain.deliver k edge .pass) := by
  constructor
  · intro a ha
    by_cases hak : a = k
    · subst hak
      exact Host.mem_deliver_self.mpr (Host.mem_deliver_self.mp ha)
    · rw [Host.mem_deliver_of_ne edge .pass hak] at ha ⊢
      exact h.subset a ha
  · intro a b hbefore hopposes ha
    have hak : a ≠ k := fun e => hk (e ▸ hbefore.mem_left)
    exact h.spared a b hbefore hopposes ((Host.mem_deliver_of_ne edge .pass hak).mp ha)

theorem press (h : Spares t held full plain) (hk : k ∉ held)
    (hheld : held' = held ++ [k] ∨ held' = held)
    (hfull : ∀ a, a ∈ full' ↔ a = k ∨ (a ∈ full ∧ ¬ Opposes t k a))
    (hplain : ∀ a, a ∈ plain' ↔ a = k ∨ (a ∈ plain ∧ ¬ Opposes t k a)) :
    Spares t held' full' plain' := by
  constructor
  · intro a ha
    rcases (hplain a).mp ha with hak | ⟨ha, hfree⟩
    · exact (hfull a).mpr (Or.inl hak)
    · exact (hfull a).mpr (Or.inr ⟨h.subset a ha, hfree⟩)
  · intro a b hbefore hopposes ha
    have hcases : Before held a b ∨ (a ∈ held ∧ b = k) := by
      rcases hheld with rfl | rfl
      · exact before_append_singleton_iff.mp hbefore
      · exact Or.inl hbefore
    have hak : a ≠ k := by
      rintro rfl
      exact hk (hcases.elim Before.mem_left And.left)
    obtain ⟨ha, hfree⟩ := ((hplain a).mp ha).resolve_left hak
    rcases hcases with hbefore | ⟨_, rfl⟩
    · exact h.spared a b hbefore hopposes ha
    · exact hfree hopposes

/-- What does not survive is opposed by a key held after it, so nobody misses it. -/
theorem lift (h : Spares t held full plain) (hheld : held'.Sublist held)
    (hfull : ∀ a, a ∈ full' ↔ ((a ∈ full ∧ a ∉ held') ∨ a ∈ survivors t held') ∧ a ≠ k)
    (hplain : ∀ a, a ∈ plain' ↔ a ∈ plain ∧ a ≠ k) : Spares t held' full' plain' := by
  constructor
  · intro a ha
    obtain ⟨ha, hak⟩ := (hplain a).mp ha
    refine (hfull a).mpr ⟨?_, hak⟩
    by_cases hin : a ∈ held'
    · refine Or.inr ?_
      by_contra hgone
      obtain ⟨b, _, hbefore, hopposes⟩ := exists_opposing_survivor hin hgone
      exact h.spared a b (hbefore.of_sublist hheld) hopposes ha
    · exact Or.inl ⟨h.subset a ha, hin⟩
  · intro a b hbefore hopposes ha
    exact h.spared a b (hbefore.of_sublist hheld) hopposes ((hplain a).mp ha).1

end Spares

/-- Two sessions over one table that differ in recovery, after the same events. -/
structure Ahead (past : List (Input σ)) (on off : Session τ σ) : Prop where
  live : Live past on
  off_tidy : off.engine.Tidy
  table_eq : off.engine.table = on.engine.table
  on_filter : on.engine.filter = none
  off_filter : off.engine.filter = none
  on_flags : on.engine.flags = ⟨true, true⟩
  off_flags : off.engine.flags = ⟨true, false⟩
  spares : Spares on.engine.table on.engine.held.toList on.host off.host

namespace Ahead
variable {past : List (Input σ)} {on off on' : Session τ σ} {k : Key} {event : Transition}

theorem on_admitted_iff (h : Ahead past on off) :
    on.engine.admission k event = .admitted ↔ k.isBasic = true := by
  rw [Engine.admitted_iff_of_no_filter h.on_filter, h.on_flags]
  exact and_iff_right rfl

theorem off_admitted_iff (h : Ahead past on off) :
    off.engine.admission k event = .admitted ↔ k.isBasic = true := by
  rw [Engine.admitted_iff_of_no_filter h.off_filter, h.off_flags]
  exact and_iff_right rfl

variable [SettingsStore σ]

theorem spares_key (h : Ahead past on off) (hplain : Control.ofKey? k = none)
    (hup : event.edge = .down → ¬ IsDown past k) (hmove : KeyMove on k event on') :
    Spares on'.engine.table on'.engine.held.toList on'.host (off.key k event).1.host := by
  have hactive : on.engine.flags.recoveryActive = true := by rw [h.on_flags]; rfl
  have hinactive : off.engine.flags.recoveryActive = false := by rw [h.off_flags]; rfl
  cases hmove with
  | turned control hcontrol =>
    exact absurd (hcontrol.symm.trans hplain) (Option.some_ne_none control)
  | swallowed control hcontrol =>
    exact absurd (hcontrol.symm.trans hplain) (Option.some_ne_none control)
  | passed _ hpass =>
    have hrejected : on.engine.admission k event ≠ .admitted :=
      hpass.resolve_right fun h => Bool.noConfusion (hactive.symm.trans h.2)
    have hbasic : ¬ k.isBasic = true := fun hbasic => hrejected (h.on_admitted_iff.mpr hbasic)
    rw [Session.key_of_passed hplain (Or.inl fun hin => hbasic (h.off_admitted_iff.mp hin))]
    exact h.spares.deliver (fun hk => hbasic (h.live.tidy.basic k hk)) event.edge
  | pressed hadmitted hdown host hhost =>
    obtain ⟨plain, hhost', hkey⟩ := Session.key_of_pressed
      (h.off_admitted_iff.mpr (h.on_admitted_iff.mp hadmitted)) hdown
    rw [h.table_eq] at hhost'
    rw [hkey]
    exact h.spares.press (fun hk => hup hdown (h.live.held_down hactive k hk))
      (Engine.toList_heldOnPress on.engine k) hhost hhost'
  | lifted _ hreleased _ host hhost =>
    rw [Session.key_of_passed hplain (Or.inr ⟨hreleased, hinactive⟩), hreleased]
    refine h.spares.lift ?_ hhost fun a => Host.mem_release
    rw [Engine.toList_heldOnLift h.live.tidy]
    exact List.erase_sublist

theorem key (h : Ahead past on off) (hplain : Control.ofKey? k = none)
    (hup : event.edge = .down → ¬ IsDown past k) :
    Ahead (past ++ [.key k event]) (on.key k event).1 (off.key k event).1 := by
  have hmove := Session.keyMove h.live.tidy k event
  have hmove' := Session.keyMove h.off_tidy k event
  exact {
    live := h.live.key hmove
    off_tidy := hmove'.tidy h.off_tidy
    table_eq := hmove'.table_eq.trans (h.table_eq.trans hmove.table_eq.symm)
    on_filter := hmove.filter_eq.trans h.on_filter
    off_filter := hmove'.filter_eq.trans h.off_filter
    on_flags := (hmove.flags_eq hplain).trans h.on_flags
    off_flags := (hmove'.flags_eq hplain).trans h.off_flags
    spares := h.spares_key hplain hup hmove }

theorem step (h : Ahead past on off) {input : Input σ} (hordinary : input.isOrdinary = true)
    (hup : ∀ a ∈ input.pressed?, ¬ IsDown past a) :
    Ahead (past ++ [input]) (on.step input).1 (off.step input).1 := by
  cases input with
  | key k event =>
    exact h.key (Option.isNone_iff_eq_none.mp hordinary) fun hdown =>
      hup k (Input.pressed?_key hdown)
  | _ => exact Bool.noConfusion hordinary

theorem run (t : τ) {on off : σ} {inputs : List (Input σ)}
    (hon : (Session.start t on).engine.flags = ⟨true, true⟩)
    (hoff : (Session.start t off).engine.flags = ⟨true, false⟩)
    (hordinary : ∀ input ∈ inputs, input.isOrdinary = true)
    (hup : Throughout (fun past input => ∀ k ∈ input.pressed?, ¬ IsDown past k) inputs) :
    Ahead inputs ((Session.start t on).run inputs) ((Session.start t off).run inputs) := by
  induction inputs using List.reverseRecOn with
  | nil =>
    exact {
      live := Live.start t on
      off_tidy := Session.tidy_start t off
      table_eq := rfl
      on_filter := rfl
      off_filter := rfl
      on_flags := hon
      off_flags := hoff
      spares := ⟨fun _ hk => absurd hk (Host.not_mem_empty _),
        fun _ _ hbefore => absurd hbefore.mem_left List.not_mem_nil⟩ }
  | append_singleton past input ih =>
    obtain ⟨hpast, hinput⟩ := List.forall_mem_append.mp hordinary
    obtain ⟨huppast, hupinput⟩ := throughout_append_singleton.mp hup
    rw [Session.run_append, Session.run_append]
    exact (ih hpast huppast).step (hinput input (List.mem_singleton.mpr rfl)) hupinput

end Ahead

variable [SettingsStore σ]

/-- What the host holds without recovery it also holds with recovery, also after presses that found
the hold buffer full. -/
theorem held_with_recovery (t : τ) (on off : σ) (inputs : List (Input σ))
    (hon : (Session.start t on).engine.flags = ⟨true, true⟩)
    (hoff : (Session.start t off).engine.flags = ⟨true, false⟩)
    (hordinary : ∀ input ∈ inputs, input.isOrdinary = true)
    (hup : Throughout (fun past input => ∀ k ∈ input.pressed?, ¬ IsDown past k) inputs) :
    ∀ k ∈ ((Session.start t off).run inputs).host, k ∈ ((Session.start t on).run inputs).host :=
  (Ahead.run t hon hoff hordinary hup).spares.subset

/-- Eleven keys oppose a twelfth, which opposes the first of them; the last two to go down find the
hold buffer full. As the twelfth goes up, the first comes back, with recovery only. -/
theorem held_with_recovery_when_full :
    let keys : List Key := [⟨0x04⟩, ⟨0x05⟩, ⟨0x06⟩, ⟨0x07⟩, ⟨0x08⟩, ⟨0x09⟩, ⟨0x0A⟩, ⟨0x0B⟩, ⟨0x0C⟩,
      ⟨0x0D⟩, ⟨0x0E⟩]
    let last : Key := ⟨0x0F⟩
    let table : List Pair := ⟨last, ⟨0x04⟩⟩ :: keys.map fun k => ⟨k, last⟩
    let on := ByteStore.ofFlags ⟨true, true⟩
    let off := ByteStore.ofFlags ⟨true, false⟩
    let inputs : List (Input ByteStore) :=
      (keys ++ [last]).map (fun k => .key k ⟨.down, none⟩) ++ [.key last ⟨.up, none⟩]
    (Session.start table on).engine.flags = ⟨true, true⟩ ∧
    (Session.start table off).engine.flags = ⟨true, false⟩ ∧
    (∀ input ∈ inputs, input.isOrdinary = true) ∧
    Throughout (fun past input => ∀ k ∈ input.pressed?, ¬ IsDown past k) inputs ∧
    ((Session.start table on).run inputs).host.held = keys ∧
    ((Session.start table off).run inputs).host.held = keys.tail ∧
    ∀ k ∈ ((Session.start table off).run inputs).host,
      k ∈ ((Session.start table on).run inputs).host := by
  intro keys last table on off inputs
  have hon : (Session.start table on).engine.flags = ⟨true, true⟩ := by decide
  have hoff : (Session.start table off).engine.flags = ⟨true, false⟩ := by decide
  have hordinary : ∀ input ∈ inputs, input.isOrdinary = true := by decide
  have hup : Throughout (fun past input => ∀ k ∈ input.pressed?, ¬ IsDown past k) inputs := by
    decide
  exact ⟨hon, hoff, hordinary, hup, by decide, by decide,
    held_with_recovery table on off inputs hon hoff hordinary hup⟩

end OpposingKeys
