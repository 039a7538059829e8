import OpposingKeys.Proofs.Moves

/-!
# The corrections of a press

A press that is handled takes away all that its key cancels, whether or not recovery is in force and
whatever the hold buffer holds. With recovery in force a press after which nothing is held gives no
correction, but such a key cancels nothing (`Engine.cancellations_eq_nil`).
-/

namespace OpposingKeys

set_option autoImplicit false

variable {τ σ : Type} [Table τ]

/-- The entries of a table in order, holes left out. -/
def entries (t : τ) : List Pair := (List.range (Table.count t)).filterMap (Table.get? t)

section Entries
variable {t : τ} {k a : Key}

theorem pressing_eq_entries (t : τ) (k : Key) :
    Table.pressing t k = (entries t).filter fun pair => pair.press = k := by
  rw [Table.pressing_eq, Table.pairs_eq, entries]

theorem cancels_iff_entry : Table.cancels t k = true ↔ ∃ pair ∈ entries t, pair.press = k := by
  rw [Table.cancels_iff, Table.pairs_eq, entries]

theorem opposes_iff_entry :
    Opposes t k a ↔ ∃ pair ∈ entries t, pair.press = k ∧ pair.unpress = a := by
  simp only [opposes_iff_pressing, pressing_eq_entries, List.mem_filter, decide_eq_true_eq, and_assoc]

end Entries

namespace Engine
variable {e : Engine τ σ} {k : Key}

/-- The hold buffer takes in a key that cancels another, is not held yet and finds room. -/
theorem held_hold (e : Engine τ σ) (k : Key) :
    if Table.cancels e.table k = true ∧ k ∉ e.held.toList ∧ e.held.toList.length < holdCapacity then
      (e.hold k).toList = e.held.toList ++ [k]
    else e.hold k = e.held := by
  split
  · next h => rw [toList_hold, h.1, HoldBuffer.accepts_iff.mpr h.2]; rfl
  · next h =>
    rw [hold]
    split
    · next hcancels =>
      exact HoldBuffer.insert_of_not_accepts (Bool.eq_false_iff.mpr fun haccepts =>
        h ⟨hcancels, HoldBuffer.accepts_iff.mp haccepts⟩)
    · rfl

theorem heldOnPress_of_inactive (h : e.flags.recoveryActive = false) : e.heldOnPress k = e.held := by
  rw [heldOnPress, if_neg (Bool.eq_false_iff.mp h)]

theorem heldOnPress_of_active (h : e.flags.recoveryActive = true) : e.heldOnPress k = e.hold k := by
  rw [heldOnPress, if_pos h]

end Engine

section Sessions
variable [SettingsStore σ] {s : Session τ σ} {p : Key} {event : Transition}

theorem key_press (hdown : event.edge = .down) (hadmitted : s.engine.admission p event = .admitted) :
    s.key p event =
      ({ engine := { s.engine with held := s.engine.heldOnPress p }
         host := (s.host.apply (s.engine.cancellations p)).register p },
       { action := some .pass
         corrections := s.engine.cancellations p
         notices := (s.engine.press p).notices
         calls := (s.engine.press p).calls }) := by
  have hbasic := (Engine.admission_eq_admitted_iff.mp hadmitted).2.1
  have hplain := Control.ofKey?_eq_none_of_isBasic hbasic
  simp only [Session.key, Engine.process, hplain, hadmitted, hdown, Engine.engine_press,
    Engine.action_press, Engine.corrections_press]
  rfl

end Sessions

variable [SettingsStore σ]

/-- In every reachable state with cancellation on and on every host, a press that is handled gives one
release for each pair of its key. The host loses what these name and gains the key, and the hold buffer
stays as it is or takes the key in. -/
theorem press_loses_no_cancellation (t : τ) (store : σ) (inputs : List (Input σ)) (host : Host)
    (p : Key) (event : Transition) (hdown : event.edge = .down) (hbasic : p.isBasic = true)
    (hon : ((Session.start t store).run inputs).engine.flags.cancellation = true)
    (hadmits : ∀ f ∈ ((Session.start t store).run inputs).engine.filter, f p event = true) :
    let before : Session τ σ := { engine := ((Session.start t store).run inputs).engine, host }
    let after := (before.key p event).1
    let response := (before.key p event).2
    response.action = some .pass ∧
    response.corrections =
      ((entries t).filter fun pair => pair.press = p).map (fun pair => .release pair.unpress) ∧
    (∀ a, a ∈ after.host ↔
      a = p ∨ (a ∈ host ∧ ¬ ∃ pair ∈ entries t, pair.press = p ∧ pair.unpress = a)) ∧
    (if before.engine.flags.recoveryActive = true ∧ (∃ pair ∈ entries t, pair.press = p) ∧
        p ∉ before.engine.held.toList ∧ before.engine.held.toList.length < holdCapacity then
      after.engine.held.toList = before.engine.held.toList ++ [p]
    else after.engine.held = before.engine.held) ∧
    (before.engine.flags.recoveryActive = true → after.engine.held.toList = [] →
      ∀ pair ∈ entries t, pair.press ≠ p) := by
  intro before after response
  have htable : before.engine.table = t :=
    Session.table_run (Session.tidy_start t store) inputs
  have hkey := key_press (s := before) hdown
    (Engine.admission_eq_admitted_iff.mpr ⟨hon, hbasic, hadmits⟩)
  have hcorrections : before.engine.cancellations p =
      ((entries t).filter fun pair => pair.press = p).map fun pair => .release pair.unpress := by
    rw [Engine.cancellations, pressing_eq_entries, htable]
  have hheld := before.engine.held_hold p
  rw [htable] at hheld
  simp only [after, response, hkey]
  refine ⟨trivial, hcorrections, ?_, ?_, ?_⟩
  · intro a
    rw [Host.mem_register, ← Engine.corrections_press, Engine.mem_apply_press, htable, opposes_iff_entry]
  · cases hactive : before.engine.flags.recoveryActive with
    | false => rw [if_neg fun h => Bool.false_ne_true h.1, Engine.heldOnPress_of_inactive hactive]
    | true => simpa only [Engine.heldOnPress_of_active hactive, cancels_iff_entry, true_and] using hheld
  · intro hactive hnil pair hpair hpress
    rw [Engine.heldOnPress_of_active hactive] at hnil
    have hnone := Engine.cancellations_eq_nil (HoldBuffer.isEmpty_iff.mpr hnil)
    have hmem : pair ∈ (entries t).filter fun pair => pair.press = p :=
      List.mem_filter.mpr ⟨hpair, decide_eq_true hpress⟩
    rw [hcorrections, List.map_eq_nil_iff] at hnone
    exact absurd (hnone ▸ hmem) List.not_mem_nil

/-- The table has holes, and `p` cancels itself once and `u` twice. The hold buffer is full without `p`, so
it stays as it is, and yet `u` is taken away. -/
theorem press_loses_no_cancellation_when_full :
    let p : Key := ⟨0x04⟩
    let u : Key := ⟨0x05⟩
    let keys : List Key := [u, ⟨0x06⟩, ⟨0x07⟩, ⟨0x08⟩, ⟨0x09⟩, ⟨0x0A⟩, ⟨0x0B⟩, ⟨0x0C⟩, ⟨0x0D⟩, ⟨0x0E⟩]
    let table : List (Option Pair) := [none, some ⟨p, u⟩, some ⟨p, p⟩, none, some ⟨p, u⟩] ++
      keys.map fun k => some ⟨k, ⟨0x2C⟩⟩
    let store := ByteStore.ofFlags ⟨true, true⟩
    let inputs : List (Input ByteStore) := (.filter fun k _ => k ≠ ⟨0x2C⟩) ::
      keys.map fun k => .key k ⟨.down, none⟩
    let before := (Session.start table store).run inputs
    let after := before.key p ⟨.down, none⟩
    p.isBasic = true ∧ before.engine.flags.cancellation = true ∧
    (∀ f ∈ before.engine.filter, f p ⟨.down, none⟩ = true) ∧
    before.engine.held.toList = keys ∧ u ∈ before.host ∧
    after.2.corrections = [.release u, .release p, .release u] ∧
    after.1.engine.held.toList = keys ∧ p ∈ after.1.host ∧ u ∉ after.1.host := by
  intro p u keys table store inputs before after
  have hbasic : p.isBasic = true := by decide
  have hon : before.engine.flags.cancellation = true := by decide
  have hadmits : ∀ f ∈ before.engine.filter, f p ⟨.down, none⟩ = true := by decide
  have hheld : before.engine.held.toList = keys := by decide
  obtain ⟨_, hcorrections, hhost, hbuffer, _⟩ :=
    press_loses_no_cancellation table store inputs before.host p ⟨.down, none⟩ rfl hbasic hon hadmits
  have hroom : ¬ before.engine.held.toList.length < holdCapacity := by rw [hheld]; decide
  rw [if_neg fun h => hroom h.2.2.2] at hbuffer
  have hsame : after.1.engine.held.toList = before.engine.held.toList := congrArg HoldBuffer.toList hbuffer
  refine ⟨hbasic, hon, hadmits, hheld, by decide, hcorrections.trans (by decide),
    hsame.trans hheld, (hhost p).mpr (Or.inl rfl), fun hu => ?_⟩
  rcases (hhost u).mp hu with hup | ⟨_, hfree⟩
  · exact absurd hup (by decide)
  · exact hfree ⟨⟨p, u⟩, by decide, rfl, rfl⟩

end OpposingKeys
