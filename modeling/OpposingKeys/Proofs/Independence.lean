import OpposingKeys.Proofs.PressOrder

/-!
# Independent chains

The pairs of a table may fall into two parts that share no key. Then an engine over the whole table
and an engine over the first part, which see the same inputs, agree about every key that the second
part does not mention, and the smaller engine holds those of the held keys that the first part lets
cancel (`independent_chains`). The survivors of the parts do not mix: what a key of the first part
survives is decided by keys of the first part (`Splits.survivors_filter`).
-/

namespace OpposingKeys

set_option autoImplicit false

variable {τ τ₁ τ₂ σ : Type} [Table τ] [Table τ₁] [Table τ₂]

/-- Some pair of the table names `k`. -/
def Mentions (t : τ) (k : Key) : Prop := ∃ p ∈ Table.pairs t, p.press = k ∨ p.unpress = k

instance (t : τ) (k : Key) : Decidable (Mentions t k) :=
  inferInstanceAs (Decidable (∃ p ∈ Table.pairs t, p.press = k ∨ p.unpress = k))

/-- The pairs of `t` are those of `t₁` and of `t₂`, in any order and number, and `t₁` and `t₂` share
no key. -/
structure Splits (t : τ) (t₁ : τ₁) (t₂ : τ₂) : Prop where
  pair_iff : ∀ p, p ∈ Table.pairs t ↔ p ∈ Table.pairs t₁ ∨ p ∈ Table.pairs t₂
  apart : ∀ k, Mentions t₁ k → ¬ Mentions t₂ k

section Tables
variable {t : τ} {t₁ : τ₁} {t₂ : τ₂} {k p u : Key}

/-- Interleaving two tables is one way to put them together. -/
theorem splits_of_perm (hperm : (Table.pairs t).Perm (Table.pairs t₁ ++ Table.pairs t₂))
    (hapart : ∀ p ∈ Table.pairs t₁, ¬ Mentions t₂ p.press ∧ ¬ Mentions t₂ p.unpress) :
    Splits t t₁ t₂ where
  pair_iff _ := hperm.mem_iff.trans List.mem_append
  apart := by
    rintro k ⟨p, hp, rfl | rfl⟩
    · exact (hapart p hp).1
    · exact (hapart p hp).2

theorem mentions_of_cancels (h : Table.cancels t k = true) : Mentions t k := by
  obtain ⟨p, hp, hk⟩ := Table.cancels_iff.mp h
  exact ⟨p, hp, Or.inl hk⟩

namespace Splits

theorem opposes_iff (h : Splits t t₁ t₂) (hu : ¬ Mentions t₂ u) :
    Opposes t p u ↔ Opposes t₁ p u :=
  (h.pair_iff ⟨p, u⟩).trans (or_iff_left fun hp => hu ⟨_, hp, Or.inr rfl⟩)

theorem not_mentions (h : Splits t t₁ t₂) (hk : Table.cancels t₁ k = true) : ¬ Mentions t₂ k :=
  h.apart k (mentions_of_cancels hk)

theorem cancels_of_first (h : Splits t t₁ t₂) (hk : Table.cancels t₁ k = true) :
    Table.cancels t k = true := by
  obtain ⟨p, hp, hpk⟩ := Table.cancels_iff.mp hk
  exact Table.cancels_iff.mpr ⟨p, (h.pair_iff p).mpr (Or.inl hp), hpk⟩

theorem cancels_first (h : Splits t t₁ t₂) (hk : Table.cancels t k = true)
    (hout : ¬ Mentions t₂ k) : Table.cancels t₁ k = true := by
  obtain ⟨p, hp, hpk⟩ := Table.cancels_iff.mp hk
  have hfirst := ((h.pair_iff p).mp hp).resolve_right fun hp => hout ⟨p, hp, Or.inl hpk⟩
  exact Table.cancels_iff.mpr ⟨p, hfirst, hpk⟩

/-- The survivors of the first part are the survivors that the first part lets cancel. -/
theorem survivors_filter (h : Splits t t₁ t₂) (keys : List Key) :
    survivors t₁ (keys.filter (Table.cancels t₁)) =
      (survivors t keys).filter (Table.cancels t₁) := by
  induction keys with
  | nil => rfl
  | cons k later ih =>
    by_cases hk : Table.cancels t₁ k = true
    · have hopposes : ∀ b, Opposes t b k ↔ Opposes t₁ b k :=
        fun b => h.opposes_iff (h.not_mentions hk)
      rw [List.filter_cons_of_pos hk]
      rcases survivors_cons t k later with ⟨b, hb, hbk, hs⟩ | ⟨hfree, hs⟩
      · have hbk := (hopposes b).mp hbk
        have hb : b ∈ survivors t₁ (later.filter (Table.cancels t₁)) := by
          rw [ih]
          exact List.mem_filter.mpr ⟨hb, cancels_of_opposes hbk⟩
        rw [hs, survivors_cons_of_opposed hb hbk, ih]
      · have hfree : ∀ b ∈ survivors t₁ (later.filter (Table.cancels t₁)), ¬ Opposes t₁ b k := by
          rw [ih]
          intro b hb hbk
          exact hfree b (List.mem_of_mem_filter hb) ((hopposes b).mpr hbk)
        rw [hs, survivors_cons_of_unopposed hfree, List.filter_cons_of_pos hk, ih]
    · rw [List.filter_cons_of_neg hk, ih]
      rcases survivors_cons t k later with ⟨_, _, _, hs⟩ | ⟨_, hs⟩
      · rw [hs]
      · rw [hs, List.filter_cons_of_neg hk]

end Splits

end Tables

/-- A session over a table and a session over its first part, which took the same inputs. -/
structure Alongside (t₂ : τ₂) (s : Session τ σ) (s₁ : Session τ₁ σ) : Prop where
  splits : Splits s.engine.table s₁.engine.table t₂
  tidy : s.engine.Tidy
  tidy₁ : s₁.engine.Tidy
  flags_eq : s₁.engine.flags = s.engine.flags
  filter_eq : s₁.engine.filter = s.engine.filter
  held_eq : s₁.engine.held.toList = s.engine.held.toList.filter (Table.cancels s₁.engine.table)
  host_iff : ∀ k, ¬ Mentions t₂ k → (k ∈ s₁.host ↔ k ∈ s.host)

namespace Alongside
variable {t₂ : τ₂} {s s' : Session τ σ} {s₁ : Session τ₁ σ} {k a : Key} {event : Transition}

theorem mem_held_iff (h : Alongside t₂ s s₁) :
    a ∈ s₁.engine.held.toList ↔
      a ∈ s.engine.held.toList ∧ Table.cancels s₁.engine.table a = true := by
  rw [h.held_eq, List.mem_filter]

/-- What finds room among all held keys finds room among those of the first part. -/
theorem overflows_eq_false (h : Alongside t₂ s s₁) (hroom : s.engine.overflows k = false) :
    s₁.engine.overflows k = false := by
  rw [Bool.eq_false_iff] at hroom ⊢
  intro hover
  obtain ⟨hactive, hbasic, hcancels, hout, hfull⟩ := Engine.overflows_iff.mp hover
  refine hroom (Engine.overflows_iff.mpr
    ⟨h.flags_eq ▸ hactive, hbasic, h.splits.cancels_of_first hcancels, ?_, ?_⟩)
  · exact fun hin => hout (h.mem_held_iff.mpr ⟨hin, hcancels⟩)
  · have hlength := List.length_filter_le (Table.cancels s₁.engine.table) s.engine.held.toList
    rw [← h.held_eq, HoldBuffer.isFull_iff.mp hfull] at hlength
    have hsize := s.engine.held.length_toList ▸ s.engine.held.size_le
    exact HoldBuffer.isFull_iff.mpr (Nat.le_antisymm hsize hlength)

theorem toList_heldOnPress (h : Alongside t₂ s s₁) (hbasic : k.isBasic = true)
    (hroom : s.engine.overflows k = false) :
    (s₁.engine.heldOnPress k).toList =
      (s.engine.heldOnPress k).toList.filter (Table.cancels s₁.engine.table) := by
  cases hactive : s.engine.flags.recoveryActive with
  | false =>
    have hoff : ¬ s.engine.flags.recoveryActive = true := Bool.eq_false_iff.mp hactive
    rw [Engine.heldOnPress, Engine.heldOnPress, h.flags_eq, if_neg hoff, if_neg hoff, h.held_eq]
  | true =>
    have hactive₁ : s₁.engine.flags.recoveryActive = true := h.flags_eq ▸ hactive
    rw [Engine.toList_heldOnPress_of_room hactive₁ hbasic (h.overflows_eq_false hroom),
      Engine.toList_heldOnPress_of_room hactive hbasic hroom]
    by_cases hk : Table.cancels s₁.engine.table k = true
    · have hin : (Table.cancels s₁.engine.table k = true ∧ k ∉ s₁.engine.held.toList) ↔
          (Table.cancels s.engine.table k = true ∧ k ∉ s.engine.held.toList) := by
        simp [h.mem_held_iff, hk, h.splits.cancels_of_first hk]
      by_cases hnew : Table.cancels s.engine.table k = true ∧ k ∉ s.engine.held.toList
      · rw [if_pos (hin.mpr hnew), if_pos hnew, h.held_eq, List.filter_append,
          List.filter_cons_of_pos hk, List.filter_nil]
      · rw [if_neg (mt hin.mp hnew), if_neg hnew, h.held_eq]
    · rw [if_neg fun hin => hk hin.1, h.held_eq]
      split
      · rw [List.filter_append, List.filter_cons_of_neg hk, List.filter_nil, List.append_nil]
      · rfl

theorem toList_heldOnLift (h : Alongside t₂ s s₁) (k : Key) :
    (s₁.engine.heldOnLift k).toList =
      (s.engine.heldOnLift k).toList.filter (Table.cancels s₁.engine.table) := by
  rw [Engine.toList_heldOnLift h.tidy₁, Engine.toList_heldOnLift h.tidy,
    h.tidy₁.nodup.erase_eq_filter, h.tidy.nodup.erase_eq_filter, h.held_eq, List.filter_comm]

/-- A held key that the second part does not mention is held because of the first. -/
theorem mem_filter_iff (h : Alongside t₂ s s₁) {keys : List Key}
    (hcancels : ∀ b ∈ keys, Table.cancels s.engine.table b = true) (ha : ¬ Mentions t₂ a) :
    a ∈ keys.filter (Table.cancels s₁.engine.table) ↔ a ∈ keys :=
  List.mem_filter.trans
    (and_iff_left_of_imp fun hin => h.splits.cancels_first (hcancels a hin) ha)

theorem deliver (h : Alongside t₂ s s₁) (k : Key) (edge : Edge) :
    Alongside t₂ { s with host := s.host.deliver k edge .pass }
      { s₁ with host := s₁.host.deliver k edge .pass } where
  splits := h.splits
  tidy := h.tidy
  tidy₁ := h.tidy₁
  flags_eq := h.flags_eq
  filter_eq := h.filter_eq
  held_eq := h.held_eq
  host_iff a ha := by
    by_cases hak : a = k
    · subst hak
      exact Host.mem_deliver_self.trans Host.mem_deliver_self.symm
    · rw [Host.mem_deliver_of_ne edge .pass hak, Host.mem_deliver_of_ne edge .pass hak]
      exact h.host_iff a ha

theorem press (h : Alongside t₂ s s₁) (hbasic : k.isBasic = true)
    (hroom : s.engine.overflows k = false) {host host₁ : Host}
    (hhost : ∀ a, a ∈ host ↔ a = k ∨ (a ∈ s.host ∧ ¬ Opposes s.engine.table k a))
    (hhost₁ : ∀ a, a ∈ host₁ ↔ a = k ∨ (a ∈ s₁.host ∧ ¬ Opposes s₁.engine.table k a)) :
    Alongside t₂ { engine := { s.engine with held := s.engine.heldOnPress k }, host }
      { engine := { s₁.engine with held := s₁.engine.heldOnPress k }, host := host₁ } where
  splits := h.splits
  tidy := Engine.tidy_heldOnPress h.tidy hbasic
  tidy₁ := Engine.tidy_heldOnPress h.tidy₁ hbasic
  flags_eq := h.flags_eq
  filter_eq := h.filter_eq
  held_eq := h.toList_heldOnPress hbasic hroom
  host_iff a ha := by
    rw [hhost, hhost₁, h.host_iff a ha, h.splits.opposes_iff ha]

theorem lift (h : Alongside t₂ s s₁) {host host₁ : Host}
    (hhost : ∀ a, a ∈ host ↔ ((a ∈ s.host ∧ a ∉ (s.engine.heldOnLift k).toList) ∨
      a ∈ survivors s.engine.table (s.engine.heldOnLift k).toList) ∧ a ≠ k)
    (hhost₁ : ∀ a, a ∈ host₁ ↔ ((a ∈ s₁.host ∧ a ∉ (s₁.engine.heldOnLift k).toList) ∨
      a ∈ survivors s₁.engine.table (s₁.engine.heldOnLift k).toList) ∧ a ≠ k) :
    Alongside t₂ { engine := { s.engine with held := s.engine.heldOnLift k }, host }
      { engine := { s₁.engine with held := s₁.engine.heldOnLift k }, host := host₁ } where
  splits := h.splits
  tidy := Engine.tidy_heldOnLift h.tidy k
  tidy₁ := Engine.tidy_heldOnLift h.tidy₁ k
  flags_eq := h.flags_eq
  filter_eq := h.filter_eq
  held_eq := h.toList_heldOnLift k
  host_iff a ha := by
    have hcancels : ∀ b ∈ (s.engine.heldOnLift k).toList, Table.cancels s.engine.table b = true :=
      (Engine.tidy_heldOnLift h.tidy k).cancels
    have hsurvive : ∀ b ∈ survivors s.engine.table (s.engine.heldOnLift k).toList,
        Table.cancels s.engine.table b = true :=
      fun b hb => hcancels b (mem_of_mem_survivors hb)
    rw [hhost, hhost₁, h.toList_heldOnLift k, h.splits.survivors_filter, h.host_iff a ha,
      h.mem_filter_iff hcancels ha, h.mem_filter_iff hsurvive ha]

variable [SettingsStore σ]

theorem turn (h : Alongside t₂ s s₁) (control : Control) :
    Alongside t₂ { s with engine := (s.engine.turn control).engine }
      { s₁ with engine := (s₁.engine.turn control).engine } where
  splits := h.splits
  tidy := Engine.tidy_turn h.tidy control
  tidy₁ := Engine.tidy_turn h.tidy₁ control
  flags_eq := congrArg (Flags.apply · control) h.flags_eq
  filter_eq := h.filter_eq
  held_eq := by
    -- both buffers are dropped or both are kept, whatever is in them
    rw [Engine.toList_held_turn, Engine.toList_held_turn, h.flags_eq, h.held_eq]
    split
    · rfl
    · rfl
  host_iff := h.host_iff

theorem key (h : Alongside t₂ s s₁)
    (hroom : event.edge = .down → s.engine.overflows k = false)
    (hmove : KeyMove s k event s') : Alongside t₂ s' (s₁.key k event).1 := by
  have hadmission := Engine.admission_congr h.flags_eq h.filter_eq k event
  cases hmove with
  | turned control hcontrol hdown =>
    rw [Session.key_of_control event hcontrol, hdown]
    exact h.turn control
  | swallowed control hcontrol hup =>
    rw [Session.key_of_control event hcontrol, hup]
    exact h
  | passed hplain hpass =>
    rw [← hadmission, ← h.flags_eq] at hpass
    rw [Session.key_of_passed hplain hpass]
    exact h.deliver k event.edge
  | pressed hadmitted hdown host hhost =>
    obtain ⟨host₁, hhost₁, hkey⟩ := Session.key_of_pressed (hadmission.trans hadmitted) hdown
    rw [hkey]
    exact h.press (Engine.admission_eq_admitted_iff.mp hadmitted).2.1 (hroom hdown) hhost hhost₁
  | lifted hadmitted hup hactive host hhost =>
    obtain ⟨host₁, hhost₁, hkey⟩ :=
      Session.key_of_lifted h.tidy₁ (hadmission.trans hadmitted) hup (h.flags_eq ▸ hactive)
    rw [hkey]
    exact h.lift hhost hhost₁

theorem step (h : Alongside t₂ s s₁) {input : Input σ} (hplain : input.isPlain = true)
    (hroom : ∀ a ∈ input.pressed?, s.engine.overflows a = false) :
    Alongside t₂ (s.step input).1 (s₁.step input).1 := by
  cases input with
  | key k event =>
    exact h.key (fun hdown => hroom k (Input.pressed?_key hdown)) (Session.keyMove h.tidy k event)
  | control control => exact h.turn control
  | listen _ =>
    exact { h with
      tidy := Session.tidy_step h.tidy _
      tidy₁ := Session.tidy_step h.tidy₁ _ }
  | adjust _ =>
    exact { h with
      tidy := Session.tidy_step h.tidy _
      tidy₁ := Session.tidy_step h.tidy₁ _ }
  | filter _ => exact Bool.noConfusion hplain
  | restart => exact Bool.noConfusion hplain

theorem run {t : τ} {t₁ : τ₁} {store store₁ : σ} {inputs : List (Input σ)}
    (hsplits : Splits t t₁ t₂)
    (hflags : (Session.start t₁ store₁).engine.flags = (Session.start t store).engine.flags)
    (hplain : ∀ input ∈ inputs, input.isPlain = true)
    (hroom : Throughout (fun past input => ∀ k ∈ input.pressed?,
      ((Session.start t store).run past).engine.overflows k = false) inputs) :
    Alongside t₂ ((Session.start t store).run inputs) ((Session.start t₁ store₁).run inputs) := by
  induction inputs using List.reverseRecOn with
  | nil =>
    exact {
      splits := hsplits
      tidy := Session.tidy_start t store
      tidy₁ := Session.tidy_start t₁ store₁
      flags_eq := hflags
      filter_eq := rfl
      held_eq := rfl
      host_iff := fun _ _ => Iff.rfl }
  | append_singleton past input ih =>
    obtain ⟨hpast, hinput⟩ := List.forall_mem_append.mp hplain
    obtain ⟨hroompast, hroominput⟩ := throughout_append_singleton.mp hroom
    rw [Session.run_append, Session.run_append]
    exact (ih hpast hroompast).step (hinput input (List.mem_singleton.mpr rfl)) hroominput

end Alongside

variable [SettingsStore σ]

/-- While no press has found the hold buffer of the whole table full, the keys of the second part
change nothing for the keys of the first. -/
theorem independent_chains (t : τ) (t₁ : τ₁) (t₂ : τ₂) (store store₁ : σ)
    (inputs : List (Input σ)) (hsplits : Splits t t₁ t₂)
    (hflags : (Session.start t₁ store₁).engine.flags = (Session.start t store).engine.flags)
    (hplain : ∀ input ∈ inputs, input.isPlain = true)
    (hroom : Throughout (fun past input => ∀ k ∈ input.pressed?,
      ((Session.start t store).run past).engine.overflows k = false) inputs) :
    let s := (Session.start t store).run inputs
    let s₁ := (Session.start t₁ store₁).run inputs
    (∀ k, ¬ Mentions t₂ k → (k ∈ s.host ↔ k ∈ s₁.host)) ∧
      s₁.engine.held.toList = s.engine.held.toList.filter (Table.cancels t₁) := by
  intro s s₁
  have h : Alongside t₂ s s₁ := Alongside.run hsplits hflags hplain hroom
  have htable : s₁.engine.table = t₁ := Session.table_run (Session.tidy_start t₁ store₁) inputs
  exact ⟨fun k hk => (h.host_iff k hk).symm, htable ▸ h.held_eq⟩

/-- The pairs of two chains alternate. A switch drops W and S from the buffer of the whole table,
while the other one is empty; later D is suppressed and comes back in both. -/
theorem independent_chains_of_wasd :
    let a : Key := ⟨0x04⟩
    let d : Key := ⟨0x07⟩
    let s : Key := ⟨0x16⟩
    let w : Key := ⟨0x1A⟩
    let toggleRecovery : Key := ⟨0x7E45⟩
    let table : List Pair := [⟨a, d⟩, ⟨w, s⟩, ⟨d, a⟩, ⟨s, w⟩]
    let sideways : List Pair := [⟨a, d⟩, ⟨d, a⟩]
    let forwards : List Pair := [⟨w, s⟩, ⟨s, w⟩]
    let store := ByteStore.ofFlags ⟨true, true⟩
    let inputs : List (Input ByteStore) := [.key w ⟨.down, none⟩, .key s ⟨.down, none⟩,
      .key toggleRecovery ⟨.down, none⟩, .key toggleRecovery ⟨.down, none⟩, .key s ⟨.up, none⟩,
      .key d ⟨.down, none⟩, .key s ⟨.down, none⟩, .key a ⟨.down, none⟩, .key a ⟨.up, none⟩]
    let whole := (Session.start table store).run inputs
    let part := (Session.start sideways store).run inputs
    Splits table sideways forwards ∧
    (Session.start sideways store).engine.flags = (Session.start table store).engine.flags ∧
    (∀ input ∈ inputs, input.isPlain = true) ∧
    Throughout (fun past input => ∀ k ∈ input.pressed?,
      ((Session.start table store).run past).engine.overflows k = false) inputs ∧
    (whole.host.held = [d, s] ∧ part.host.held = [d, s, w]) ∧
    (whole.engine.held.toList = [d, s] ∧ part.engine.held.toList = [d]) ∧
    (∀ k, ¬ Mentions forwards k → (k ∈ whole.host ↔ k ∈ part.host)) ∧
      part.engine.held.toList = whole.engine.held.toList.filter (Table.cancels sideways) := by
  intro a d s w toggleRecovery table sideways forwards store inputs whole part
  have hsplits : Splits table sideways forwards := splits_of_perm (by decide) (by decide)
  have hflags : (Session.start sideways store).engine.flags =
      (Session.start table store).engine.flags := by decide
  have hplain : ∀ input ∈ inputs, input.isPlain = true := by decide
  have hroom : Throughout (fun past input => ∀ k ∈ input.pressed?,
      ((Session.start table store).run past).engine.overflows k = false) inputs := by decide
  exact ⟨hsplits, hflags, hplain, hroom, by decide, by decide,
    independent_chains table sideways forwards store store inputs hsplits hflags hplain hroom⟩

end OpposingKeys
