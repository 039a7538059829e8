import OpposingKeys.Proofs.PressOrder

/-!
# When a suppressed key comes back

A key that is held while the host does not hold it is suppressed. With both modes on, in an orderly
run, every suppressed key has a suppressor: a held key that opposes it and was pressed after it. A
suppressor that is itself suppressed has no force. So a key that a release brings back was opposed
by the released key, or has only suppressors left that the host does not hold
(`comes_back_only_if`). The released key need not oppose it (`comes_back_on_unrelated_release`).
-/

namespace OpposingKeys

set_option autoImplicit false

variable {τ σ : Type} [Table τ]

/-- `p` is held, opposes `u` and was pressed after `u`. -/
structure Suppressor (past : List (Input σ)) (s : Session τ σ) (p u : Key) : Prop where
  held : p ∈ s.engine.held.toList
  opposes : Opposes s.engine.table p u
  later : PressedBefore past u p

section Suppressors
variable {past : List (Input σ)} {s : Session τ σ} {k p u : Key} {event : Transition}

theorem suppressor_append_of_up (hup : event.edge = .up) :
    Suppressor (past ++ [.key k event]) s p u ↔ Suppressor past s p u := by
  constructor
  · rintro ⟨hheld, hopposes, hlater⟩
    exact ⟨hheld, hopposes, (pressedBefore_key_of_up hup).mp hlater⟩
  · rintro ⟨hheld, hopposes, hlater⟩
    exact ⟨hheld, hopposes, (pressedBefore_key_of_up hup).mpr hlater⟩

theorem suppressor_iff_before (horder : InOrder past s)
    (hactive : s.engine.flags.recoveryActive = true) (hu : u ∈ s.engine.held.toList) :
    Suppressor past s p u ↔ Before s.engine.held.toList u p ∧ Opposes s.engine.table p u := by
  constructor
  · rintro ⟨hheld, hopposes, hlater⟩
    exact ⟨before_of_rel (horder.sorted hactive) (fun _ _ => PressedBefore.asymm) hu hheld hlater,
      hopposes⟩
  · rintro ⟨hbefore, hopposes⟩
    exact ⟨hbefore.mem_right, hopposes, hbefore.rel (horder.sorted hactive)⟩

/-- The suppressors of a survivor do not survive, each because of one that does. -/
theorem Suppressor.suppressed (h : Suppressor past s p u) (horder : InOrder past s)
    (hactive : s.engine.flags.recoveryActive = true)
    (hu : u ∈ survivors s.engine.table s.engine.held.toList) :
    p ∉ survivors s.engine.table s.engine.held.toList ∧
      ∃ q ∈ survivors s.engine.table s.engine.held.toList, Suppressor past s q p := by
  obtain ⟨hbefore, hopposes⟩ :=
    (suppressor_iff_before horder hactive (mem_of_mem_survivors hu)).mp h
  have hgone : p ∉ survivors s.engine.table s.engine.held.toList :=
    fun hp => survivors_independent horder.tidy.nodup hbefore hu hp hopposes
  obtain ⟨q, hq, hpq, hqp⟩ := exists_opposing_survivor h.held hgone
  exact ⟨hgone, q, hq, (suppressor_iff_before horder hactive h.held).mpr ⟨hpq, hqp⟩⟩

end Suppressors

/-- Every held key that the host does not hold is opposed by a key held after it. -/
def Accounted (s : Session τ σ) : Prop :=
  ∀ u ∈ s.engine.held.toList, u ∉ s.host →
    ∃ p, Before s.engine.held.toList u p ∧ Opposes s.engine.table p u

namespace Accounted
variable {past : List (Input σ)} {s s' : Session τ σ} {input : Input σ} {k : Key}
  {event : Transition}

/-- Where the hold buffer stays and the host loses none of its keys, nothing has to be done. -/
theorem of_held_eq (h : Accounted s) (htable : s'.engine.table = s.engine.table)
    (hheld : s'.engine.held.toList = s.engine.held.toList)
    (hhost : ∀ u ∈ s.engine.held.toList, u ∈ s.host → u ∈ s'.host) : Accounted s' := by
  intro u hu hout
  rw [hheld] at hu
  rw [hheld, htable]
  exact h u hu fun hin => hout (hhost u hu hin)

/-- A press takes away nothing but what its key opposes, and its key comes last. -/
theorem press (h : Accounted s) (hdown : ∀ a ∈ s.engine.held.toList, a ≠ k)
    (hactive : s.engine.flags.recoveryActive = true) (hbasic : k.isBasic = true)
    (hroom : s.engine.overflows k = false) {host : Host}
    (hhost : ∀ a, a ∈ host ↔ a = k ∨ (a ∈ s.host ∧ ¬ Opposes s.engine.table k a)) :
    Accounted { engine := { s.engine with held := s.engine.heldOnPress k }, host } := by
  intro u hu hout
  change ∃ p, Before (s.engine.heldOnPress k).toList u p ∧ Opposes s.engine.table p u
  have huk : u ≠ k := fun e => hout ((hhost u).mpr (Or.inl e))
  have huheld := (Engine.mem_heldOnPress hu).resolve_right huk
  by_cases hin : u ∈ s.host
  · have hopposes : Opposes s.engine.table k u := by
      by_contra hfree
      exact hout ((hhost u).mpr (Or.inr ⟨hin, hfree⟩))
    have hk : k ∈ (s.engine.heldOnPress k).toList :=
      Engine.mem_heldOnPress_self hactive hbasic (cancels_of_opposes hopposes) hroom
    refine ⟨k, ?_, hopposes⟩
    rcases Engine.toList_heldOnPress s.engine k with hheld | hheld
    · rw [hheld]
      exact before_append_singleton_iff.mpr (Or.inr ⟨huheld, rfl⟩)
    · exact absurd rfl (hdown k (hheld ▸ hk))
  · obtain ⟨p, hbefore, hopposes⟩ := h u huheld hin
    exact ⟨p, Engine.before_heldOnPress hbefore, hopposes⟩

/-- After a release the held keys that the host does not hold are those that do not survive. -/
theorem lift {host : Host}
    (hhost : ∀ a, a ∈ host ↔ ((a ∈ s.host ∧ a ∉ (s.engine.heldOnLift k).toList) ∨
      a ∈ survivors s.engine.table (s.engine.heldOnLift k).toList) ∧ a ≠ k)
    (htidy : s.engine.Tidy) :
    Accounted { engine := { s.engine with held := s.engine.heldOnLift k }, host } := by
  intro u hu hout
  have huk : u ≠ k := ((Engine.mem_heldOnLift htidy).mp hu).1
  have hgone : u ∉ survivors s.engine.table (s.engine.heldOnLift k).toList :=
    fun hin => hout ((hhost u).mpr ⟨Or.inr hin, huk⟩)
  obtain ⟨p, _, hbefore, hopposes⟩ := exists_opposing_survivor hu hgone
  exact ⟨p, hbefore, hopposes⟩

variable [SettingsStore σ]

theorem start (table : τ) (store : σ) : Accounted (Session.start table store) :=
  fun _ hu => absurd hu List.not_mem_nil

theorem key (h : Accounted s) (horder : InOrder past s)
    (hactive : s.engine.flags.recoveryActive = true) (hup : event.edge = .down → ¬ IsDown past k)
    (hroom : event.edge = .down → s.engine.overflows k = false) (hmove : KeyMove s k event s') :
    Accounted s' := by
  cases hmove with
  | turned control =>
    exact h.of_held_eq rfl (Engine.held_turn_of_was_active hactive) fun _ _ hu => hu
  | swallowed => exact h
  | passed _ hpass =>
    have hk := Engine.isBasic_of_passed horder.filter_eq hactive hpass
    refine h.of_held_eq rfl rfl fun u hu hin => ?_
    exact (Host.mem_deliver_of_ne event.edge .pass
      (Key.ne_of_isBasic (horder.tidy.basic u hu) hk)).mpr hin
  | pressed hadmitted hdown host hhost =>
    refine h.press ?_ hactive (horder.admitted_iff.mp hadmitted).2 (hroom hdown) hhost
    rintro a ha rfl
    exact hup hdown (horder.held_down hactive a ha)
  | lifted _ _ _ host hhost => exact lift hhost horder.tidy

theorem step (h : Accounted s) (horder : InOrder past s)
    (hactive : s.engine.flags.recoveryActive = true) (hplain : input.isPlain = true)
    (hup : ∀ a ∈ input.pressed?, ¬ IsDown past a)
    (hroom : ∀ a ∈ input.pressed?, s.engine.overflows a = false) :
    Accounted (s.step input).1 := by
  cases input with
  | key k event =>
    exact h.key horder hactive (fun hdown => hup k (Input.pressed?_key hdown))
      (fun hdown => hroom k (Input.pressed?_key hdown)) (Session.keyMove horder.tidy k event)
  | control control =>
    exact h.of_held_eq rfl (Engine.held_turn_of_was_active hactive) fun _ _ hu => hu
  | listen _ => exact h
  | adjust _ => exact h
  | filter _ => exact Bool.noConfusion hplain
  | restart => exact Bool.noConfusion hplain

theorem run {table : τ} {store : σ} {inputs : List (Input σ)}
    (horderly : OrderlyRun table store inputs)
    (hon : (Session.start table store).Always (fun s => s.engine.flags = ⟨true, true⟩) inputs) :
    Accounted ((Session.start table store).run inputs) := by
  induction inputs using List.reverseRecOn with
  | nil => exact start table store
  | append_singleton past input ih =>
    obtain ⟨hon, _⟩ := Session.always_append_singleton.mp hon
    have hactive : ((Session.start table store).run past).engine.flags.recoveryActive = true := by
      rw [hon.last]
      rfl
    rw [Session.run_append]
    exact (ih horderly.init hon).step horderly.init.inOrder hactive horderly.last_plain
      (fun _ => horderly.last_up) fun _ => horderly.last_room

end Accounted

variable [SettingsStore σ]

/-- A key that a release brings back was opposed by the released key, which was pressed later, or
still has a suppressor; and each suppressor that it still has is off the host, since one of its own
suppressors is on the host. -/
theorem comes_back_only_if (t : τ) (store : σ) (inputs : List (Input σ)) (r u : Key)
    (event : Transition) (hup : event.edge = .up) (horderly : OrderlyRun t store inputs)
    (hon : (Session.start t store).Always (fun s => s.engine.flags = ⟨true, true⟩) inputs) :
    let before := (Session.start t store).run inputs
    let after := (before.key r event).1
    u ∉ before.host → u ∈ after.host →
      ((Opposes t r u ∧ PressedBefore inputs u r) ∨ ∃ p, Suppressor inputs after p u) ∧
      ∀ p, Suppressor inputs after p u →
        p ∉ after.host ∧ ∃ q, Suppressor inputs after q p ∧ q ∈ after.host := by
  intro before after hout hin
  have horder : InOrder inputs before := horderly.inOrder
  have hactive : before.engine.flags.recoveryActive = true := by
    rw [hon.last]
    rfl
  have htable : before.engine.table = t := Session.table_run (Session.tidy_start t store) inputs
  have hmove : KeyMove before r event after := Session.keyMove horder.tidy r event
  have hnopress : event.edge ≠ .down := by simp [hup]
  have horder' : InOrder (inputs ++ [.key r event]) after :=
    horder.key hmove (fun h => absurd h hnopress) fun h => absurd h hnopress
  generalize after = after at hin hmove horder' ⊢
  cases hmove with
  | turned _ _ hdown => exact absurd hdown hnopress
  | swallowed => exact absurd hin hout
  | passed =>
    rw [hup] at hin
    exact absurd (Host.mem_release.mp hin).1 hout
  | pressed _ hdown => exact absurd hdown hnopress
  | lifted _ _ _ host hhost =>
    have hsurvives := ((hhost u).mp hin).1.resolve_left fun h => hout h.1
    constructor
    · have huheld := ((Engine.mem_heldOnLift horder.tidy).mp (mem_of_mem_survivors hsurvives)).2
      obtain ⟨p, hsuppressed⟩ := Accounted.run horderly hon u huheld hout
      obtain ⟨hheld, hopposes, hlater⟩ :=
        (suppressor_iff_before horder hactive huheld).mpr hsuppressed
      by_cases hpr : p = r
      · exact Or.inl ⟨hpr ▸ htable ▸ hopposes, hpr ▸ hlater⟩
      · exact Or.inr ⟨p, (Engine.mem_heldOnLift horder.tidy).mpr ⟨hpr, hheld⟩, hopposes, hlater⟩
    · intro p hp
      obtain ⟨hgone, q, hq, hqp⟩ :=
        ((suppressor_append_of_up hup).mpr hp).suppressed horder' hactive hsurvives
      refine ⟨fun hpin => ?_, q, (suppressor_append_of_up hup).mp hqp, ?_⟩
      · exact ((hhost p).mp hpin).1.elim (fun h => h.2 hp.held) hgone
      · have hqr := ((Engine.mem_heldOnLift horder.tidy).mp (mem_of_mem_survivors hq)).1
        exact (hhost q).mpr ⟨Or.inr hq, hqr⟩

/-- `d` opposes `a`, and so does `w`, which `s` suppresses: `a` comes back as `d` goes up. -/
theorem comes_back_past_suppressed_suppressor :
    let a : Key := ⟨0x04⟩
    let d : Key := ⟨0x07⟩
    let s : Key := ⟨0x16⟩
    let w : Key := ⟨0x1A⟩
    let table : List Pair := [⟨a, d⟩, ⟨d, a⟩, ⟨w, a⟩, ⟨s, w⟩]
    let store := ByteStore.ofFlags ⟨true, true⟩
    let inputs : List (Input ByteStore) := [.key a ⟨.down, none⟩, .key w ⟨.down, none⟩,
      .key s ⟨.down, none⟩, .key d ⟨.down, none⟩]
    let start := Session.start table store
    let before := start.run inputs
    let after := (before.key d ⟨.up, none⟩).1
    OrderlyRun table store inputs ∧
    start.Always (fun s => s.engine.flags = ⟨true, true⟩) inputs ∧
    a ∉ before.host ∧ a ∈ after.host ∧ Suppressor inputs after w a ∧
    w ∉ after.host ∧ ∃ q, Suppressor inputs after q w ∧ q ∈ after.host := by
  intro a d s w table store inputs start before after
  have horderly : OrderlyRun table store inputs := ⟨by decide, by decide, by decide⟩
  have hon : start.Always (fun s => s.engine.flags = ⟨true, true⟩) inputs := by decide
  have hout : a ∉ before.host := by decide
  have hin : a ∈ after.host := by decide
  have hw : Suppressor inputs after w a :=
    ⟨by decide, by decide, 0, 1, by decide, by decide, by decide⟩
  have hback := comes_back_only_if table store inputs d a ⟨.up, none⟩ rfl horderly hon hout hin
  exact ⟨horderly, hon, hout, hin, hw, hback.2 w hw⟩

/-- The space bar, which opposes nothing, goes up, and `a` comes back while `b` is still held, which
opposes `a` and was pressed after it. -/
theorem comes_back_on_unrelated_release :
    let a : Key := ⟨0x04⟩
    let b : Key := ⟨0x05⟩
    let c : Key := ⟨0x06⟩
    let d : Key := ⟨0x07⟩
    let space : Key := ⟨0x2C⟩
    let table : List Pair := [⟨a, d⟩, ⟨b, a⟩, ⟨c, b⟩]
    let store := ByteStore.ofFlags ⟨true, true⟩
    let inputs : List (Input ByteStore) := [.key a ⟨.down, none⟩, .key space ⟨.down, none⟩,
      .key b ⟨.down, none⟩, .key c ⟨.down, none⟩]
    let start := Session.start table store
    let before := start.run inputs
    let after := (before.key space ⟨.up, none⟩).1
    OrderlyRun table store inputs ∧
    start.Always (fun s => s.engine.flags = ⟨true, true⟩) inputs ∧
    a ∉ before.host ∧ a ∈ after.host ∧
    ¬ Opposes table space a ∧
    ¬ ∀ p ∈ after.engine.held.toList, PressedBefore inputs a p → ¬ Opposes table p a := by
  intro a b c d space table store inputs start before after
  refine ⟨⟨by decide, by decide, by decide⟩, by decide, by decide, by decide, by decide, ?_⟩
  intro hfree
  have hlater : PressedBefore inputs a b := ⟨0, 2, by decide, by decide, by decide⟩
  exact hfree b (by decide) hlater (by decide)

end OpposingKeys
