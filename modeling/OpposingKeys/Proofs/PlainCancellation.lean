import OpposingKeys.Proofs.Tracking

/-!
# Cancellation without recovery

With cancellation on and recovery off a key that is taken away stays away until it is pressed again, so
the order of presses alone decides what the host holds: a key stands if it is down, is no control key,
and no other basic key that cancels it went down after it (`Stands`). Keys may be pressed while they are
down and released while they are up. A pair of a key with itself takes nothing away, since the press
reaches the host after the corrections.
-/

namespace OpposingKeys

set_option autoImplicit false

variable {τ σ : Type} [Table τ]

/-- `k` is down, is no control key, and has not been cancelled since its latest press. -/
structure Stands (t : τ) (past : List (Input σ)) (k : Key) : Prop where
  plain : Control.ofKey? k = none
  down : IsDown past k
  last : ∀ p, p.isBasic = true → p ≠ k → Opposes t p k → ¬ PressedBefore past k p

section Standing
variable {t : τ} {past past' : List (Input σ)} {input : Input σ} {k a : Key} {event : Transition}

/-- A key that stands does so in every past in which it is down and nothing more came after it. -/
theorem Stands.of_no_later (h : Stands t past a) (hdown : IsDown past' a)
    (hlater : ∀ p, PressedBefore past' a p → PressedBefore past a p) : Stands t past' a :=
  ⟨h.plain, hdown, fun p hbasic hpa hopposes hp => h.last p hbasic hpa hopposes (hlater p hp)⟩

theorem stands_append_of_none (hnone : ∀ p, input.edgeOf? p = none) :
    Stands t (past ++ [input]) a ↔ Stands t past a := by
  have hdown : IsDown (past ++ [input]) a ↔ IsDown past a := isDown_append_of_none (hnone a)
  have hlater (p : Key) : PressedBefore (past ++ [input]) a p ↔ PressedBefore past a p :=
    pressedBefore_append_of_none (hnone a) (hnone p)
  constructor
  · exact fun h => h.of_no_later (hdown.mp h.down) fun p => (hlater p).mpr
  · exact fun h => h.of_no_later (hdown.mpr h.down) fun p => (hlater p).mp

/-- A press forgets what was pressed before it. -/
theorem stands_key_self :
    Stands t (past ++ [.key k event]) k ↔ Control.ofKey? k = none ∧ event.edge = .down := by
  constructor
  · exact fun h => ⟨h.plain, isDown_key_self.mp h.down⟩
  · rintro ⟨hplain, hdown⟩
    refine ⟨hplain, isDown_key_self.mpr hdown, fun p _ _ _ => ?_⟩
    exact not_pressedBefore_of_pressed (by rw [Input.edgeOf?_key_self, hdown])

/-- Beside the earlier presses only the last input can come after a key that was down before it. -/
theorem pressedBefore_key_iff {p : Key} (ha : IsDown past a) (hak : a ≠ k) :
    PressedBefore (past ++ [.key k event]) a p ↔
      PressedBefore past a p ∨ (event.edge = .down ∧ p = k) := by
  by_cases hpk : p = k
  · subst hpk
    cases hedge : event.edge with
    | down =>
      refine iff_of_true (pressedBefore_of_pressed ha ?_ ?_) (Or.inr ⟨rfl, rfl⟩)
      · simp [Input.edgeOf?_key_of_ne event hak]
      · rw [Input.edgeOf?_key_self, hedge]
    | up =>
      rw [pressedBefore_key_of_up hedge]
      exact (or_iff_left fun h => Edge.noConfusion h.1).symm
  · rw [pressedBefore_key_of_ne hak hpk]
    exact (or_iff_left fun h => hpk h.2).symm

/-- An event of another key takes away the keys that it opposes, if it presses a basic key. -/
theorem stands_key_of_ne (hak : a ≠ k) :
    Stands t (past ++ [.key k event]) a ↔ Stands t past a ∧
      ¬ (event.edge = .down ∧ k.isBasic = true ∧ Opposes t k a) := by
  constructor
  · intro h
    have hdown := (isDown_key_of_ne hak).mp h.down
    have hlater {p : Key} : PressedBefore (past ++ [.key k event]) a p ↔
        PressedBefore past a p ∨ (event.edge = .down ∧ p = k) := pressedBefore_key_iff hdown hak
    refine ⟨h.of_no_later hdown fun p hp => hlater.mpr (Or.inl hp), ?_⟩
    rintro ⟨hpress, hbasic, hopposes⟩
    exact h.last k hbasic hak.symm hopposes (hlater.mpr (Or.inr ⟨hpress, rfl⟩))
  · rintro ⟨⟨hplain, hdown, hlast⟩, hfree⟩
    refine ⟨hplain, (isDown_key_of_ne hak).mpr hdown, ?_⟩
    intro p hbasic hpa hopposes hlater
    rcases (pressedBefore_key_iff hdown hak).mp hlater with hlater | ⟨hpress, rfl⟩
    · exact hlast p hbasic hpa hopposes hlater
    · exact hfree ⟨hpress, hbasic, hopposes⟩

end Standing

section Steps
variable {past : List (Input σ)} {s s' : Session τ σ} {input : Input σ} {k : Key}
  {event : Transition}

/-- The host holds the keys that stand. -/
def HoldsStanding (past : List (Input σ)) (s : Session τ σ) : Prop :=
  ∀ a, a ∈ s.host ↔ Stands s.engine.table past a

namespace HoldsStanding

/-- An event that takes nothing away changes the host at its own key only. -/
theorem of_key_spared (h : HoldsStanding past s) (htable : s'.engine.table = s.engine.table)
    (hspared : event.edge = .down → k.isBasic = false)
    (hself : k ∈ s'.host ↔ Control.ofKey? k = none ∧ event.edge = .down)
    (hother : ∀ a, a ≠ k → (a ∈ s'.host ↔ a ∈ s.host)) :
    HoldsStanding (past ++ [.key k event]) s' := by
  intro a
  rw [htable]
  by_cases hak : a = k
  · subst hak
    exact hself.trans stands_key_self.symm
  · have hfree : ¬ (event.edge = .down ∧ k.isBasic = true ∧ Opposes s.engine.table k a) :=
      fun ⟨hdown, hbasic, _⟩ => Bool.false_ne_true ((hspared hdown).symm.trans hbasic)
    rw [hother a hak, h a, stands_key_of_ne hak]
    exact (and_iff_left hfree).symm

variable [SettingsStore σ]

theorem key (h : HoldsStanding past s) (hfilter : s.engine.filter = none)
    (hflags : s.engine.flags = ⟨true, false⟩) (hmove : KeyMove s k event s') :
    HoldsStanding (past ++ [.key k event]) s' := by
  have hinactive : s.engine.flags.recoveryActive = false := by rw [hflags]; rfl
  have hcontrolled (control : Control) (hcontrol : Control.ofKey? k = some control) :
      k ∈ s.host ↔ Control.ofKey? k = none ∧ event.edge = .down := by
    have hplain : Control.ofKey? k ≠ none := by simp [hcontrol]
    exact ⟨fun hk => absurd ((h k).mp hk).plain hplain, fun hk => absurd hk.1 hplain⟩
  cases hmove with
  | turned control hcontrol =>
    exact h.of_key_spared rfl (fun _ => Control.isBasic_of_ofKey? hcontrol)
      (hcontrolled control hcontrol) fun _ _ => Iff.rfl
  | swallowed control hcontrol =>
    exact h.of_key_spared rfl (fun _ => Control.isBasic_of_ofKey? hcontrol)
      (hcontrolled control hcontrol) fun _ _ => Iff.rfl
  | passed hplain hpass =>
    have hspared : event.edge = .down → k.isBasic = false := by
      intro hdown
      have hrejected : s.engine.admission k event ≠ .admitted :=
        hpass.resolve_right fun hup => Edge.noConfusion (hdown.symm.trans hup.1)
      refine Bool.eq_false_iff.mpr fun hbasic => hrejected ?_
      exact (Engine.admitted_iff_of_no_filter hfilter).mpr ⟨by rw [hflags], hbasic⟩
    refine h.of_key_spared rfl hspared ?_ fun a hak => Host.mem_deliver_of_ne event.edge .pass hak
    exact Host.mem_deliver_self.trans (and_iff_right hplain).symm
  | pressed hadmitted hdown host hhost =>
    have hbasic := (Engine.admission_eq_admitted_iff.mp hadmitted).2.1
    intro a
    rw [hhost a]
    by_cases hak : a = k
    · subst hak
      exact iff_of_true (Or.inl rfl)
        (stands_key_self.mpr ⟨Control.ofKey?_eq_none_of_isBasic hbasic, hdown⟩)
    · rw [or_iff_right hak, h a, stands_key_of_ne hak]
      exact and_congr_right fun _ => not_congr
        ⟨fun hopposes => ⟨hdown, hbasic, hopposes⟩, fun hpressed => hpressed.2.2⟩
  | lifted _ _ hactive => exact absurd (hinactive.symm.trans hactive) Bool.false_ne_true

theorem step (h : HoldsStanding past s) (htidy : s.engine.Tidy) (hfilter : s.engine.filter = none)
    (hflags : s.engine.flags = ⟨true, false⟩) (hplain : input.isPlain = true) :
    HoldsStanding (past ++ [input]) (s.step input).1 := by
  have hother (hkey : input.isKey = false) : ∀ a, a ∈ (s.step input).1.host ↔
      Stands s.engine.table (past ++ [input]) a := by
    intro a
    rw [Session.host_step s hkey, h a, stands_append_of_none (Input.edgeOf?_eq_none hkey)]
  cases input with
  | key k event => exact h.key hfilter hflags (Session.keyMove htidy k event)
  | control _ => exact hother rfl
  | listen _ => exact hother rfl
  | adjust _ => exact hother rfl
  | filter _ => exact Bool.noConfusion hplain
  | restart => exact Bool.noConfusion hplain

theorem run {inputs : List (Input σ)} (t : τ) (store : σ)
    (hplain : ∀ input ∈ inputs, input.isPlain = true)
    (hflags : (Session.start t store).Always (fun s => s.engine.flags = ⟨true, false⟩) inputs) :
    HoldsStanding inputs ((Session.start t store).run inputs) := by
  induction inputs using List.reverseRecOn with
  | nil =>
    intro a
    exact ⟨fun ha => absurd ha (Host.not_mem_empty a), fun ha => absurd ha.down not_isDown_nil⟩
  | append_singleton past input ih =>
    obtain ⟨hpast, hinput⟩ := List.forall_mem_append.mp hplain
    obtain ⟨hflags, _⟩ := Session.always_append_singleton.mp hflags
    have htidy := Session.tidy_start t store
    rw [Session.run_append]
    exact (ih hpast hflags).step (Session.tidy_run htidy past) (Session.filter_run htidy hpast)
      hflags.last (hinput input (List.mem_singleton_self input))

end HoldsStanding

end Steps

variable [SettingsStore σ]

/-- With cancellation on, recovery off and no filter, the host holds a key if and only if it is no
control key, is down, and no other basic key that cancels it was pressed after its latest press. The
hold buffer stays empty. -/
theorem plain_cancellation (t : τ) (store : σ) (inputs : List (Input σ))
    (hplain : ∀ input ∈ inputs, input.isPlain = true)
    (hflags : (Session.start t store).Always (fun s => s.engine.flags = ⟨true, false⟩) inputs) :
    let s := (Session.start t store).run inputs
    (∀ k, k ∈ s.host ↔ Control.ofKey? k = none ∧ latestEdge? inputs k = some .down ∧
      ∀ p, p.isBasic = true → p ≠ k → ⟨p, k⟩ ∈ Table.pairs t → ¬ PressedBefore inputs k p) ∧
    s.engine.held.toList = [] := by
  intro s
  have htidy : (Session.start t store).engine.Tidy := Session.tidy_start t store
  have htable : s.engine.table = t := Session.table_run htidy inputs
  have hhost : HoldsStanding inputs s := HoldsStanding.run t store hplain hflags
  refine ⟨fun k => ?_, ?_⟩
  · rw [hhost k, htable]
    exact ⟨fun h => ⟨h.plain, h.down, h.last⟩, fun ⟨hplain, hdown, hlast⟩ => ⟨hplain, hdown, hlast⟩⟩
  · have hserves : ∀ input ∈ inputs, input.isRestart = false := by
      intro input hinput
      cases input with
      | restart => exact Bool.noConfusion (hplain _ hinput)
      | _ => rfl
    have hinactive : (Session.start t store).Always
        (fun s => s.engine.flags.recoveryActive = false) inputs := by
      intro n hn
      rw [hflags n hn]
      rfl
    rw [Session.held_run_of_inactive htidy hserves hinactive]
    rfl

/-- `d` cancels itself and `shift`, and `shift` is not basic, so it cancels nothing. `a` is pressed
twice, and `d` takes it away for good, though `d` goes up. -/
theorem plain_cancellation_with_self_pair :
    let a : Key := ⟨0x04⟩
    let d : Key := ⟨0x07⟩
    let shift : Key := ⟨0xE0⟩
    let table : List (Option Pair) := [some ⟨d, d⟩, none, some ⟨d, a⟩, some ⟨d, a⟩,
      some ⟨shift, d⟩, some ⟨d, shift⟩]
    let store := ByteStore.ofFlags ⟨true, false⟩
    let inputs : List (Input ByteStore) := [.key d ⟨.up, none⟩, .key a ⟨.down, none⟩,
      .key a ⟨.down, none⟩, .key d ⟨.down, none⟩, .key shift ⟨.down, none⟩,
      .key (Control.key ⟨.recovery, .off⟩) ⟨.down, none⟩, .key d ⟨.up, none⟩,
      .key d ⟨.down, none⟩, .key shift ⟨.down, none⟩]
    let start := Session.start table store
    (∀ input ∈ inputs, input.isPlain = true) ∧
    start.Always (fun s => s.engine.flags = ⟨true, false⟩) inputs ∧
    (start.run inputs).host.held = [d, shift] ∧ latestEdge? inputs a = some .down ∧
    (∀ p, p.isBasic = true → p ≠ d → ⟨p, d⟩ ∈ Table.pairs table → ¬ PressedBefore inputs d p) ∧
    (start.run inputs).engine.held.toList = [] := by
  intro a d shift table store inputs start
  have hplain : ∀ input ∈ inputs, input.isPlain = true := by decide
  have hflags : start.Always (fun s => s.engine.flags = ⟨true, false⟩) inputs := by decide
  obtain ⟨hhost, hheld⟩ := plain_cancellation table store inputs hplain hflags
  exact ⟨hplain, hflags, by decide, by decide, ((hhost d).mp (by decide)).2.2, hheld⟩

end OpposingKeys
