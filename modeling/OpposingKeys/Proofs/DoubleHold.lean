import OpposingKeys.Proofs.PressOrder

/-!
# No double hold

A key overrides the keys that it opposes and that were pressed before it, as long as both are down.
In an orderly run in which cancellation stays on, the host never holds a key together with one that
it overrides, however often recovery is switched. A press takes away what its key overrides; a
release may bring back held keys only, and the invariant `Apart` says that what the host holds of the
keys overridden by a held one is held itself, so the pass over the hold buffer decides about it.
-/

namespace OpposingKeys

set_option autoImplicit false

variable {τ σ : Type} [Table τ]

/-- `p` and `u` are down, `p` was pressed after `u`, and a handled press of `p` takes `u` away. -/
structure Overrides (t : τ) (past : List (Input σ)) (p u : Key) : Prop where
  opposes : Opposes t p u
  basic : p.isBasic = true
  down : IsDown past p
  down_under : IsDown past u
  later : PressedBefore past u p

namespace Overrides
variable {t : τ} {past : List (Input σ)} {input : Input σ} {k p u : Key} {event : Transition}

theorem of_append (h : Overrides t (past ++ [input]) p u) (hp : input.edgeOf? p = none)
    (hu : input.edgeOf? u = none) : Overrides t past p u where
  opposes := h.opposes
  basic := h.basic
  down := (isDown_append_of_none hp).mp h.down
  down_under := (isDown_append_of_none hu).mp h.down_under
  later := (pressedBefore_append_of_none hu hp).mp h.later

theorem under_ne (h : Overrides t (past ++ [.key k event]) p u) : u ≠ k := by
  rintro rfl
  have hdown := isDown_key_self.mp h.down_under
  exact not_pressedBefore_of_pressed (by rw [Input.edgeOf?_key_self, hdown]) h.later

theorem of_key (h : Overrides t (past ++ [.key k event]) p u) :
    (p ≠ k ∧ Overrides t past p u) ∨ (p = k ∧ event.edge = .down) := by
  by_cases hpk : p = k
  · subst hpk
    exact Or.inr ⟨rfl, isDown_key_self.mp h.down⟩
  · exact Or.inl ⟨hpk, h.of_append (Input.edgeOf?_key_of_ne event hpk)
      (Input.edgeOf?_key_of_ne event h.under_ne)⟩

end Overrides

/-- The host does not hold a key and what it overrides, and holds nothing that a held key overrides
but held keys. -/
structure Apart (past : List (Input σ)) (s : Session τ σ) : Prop where
  apart : ∀ p u, Overrides s.engine.table past p u → p ∈ s.host → u ∉ s.host
  covered : s.engine.flags.recoveryActive = true → ∀ p u, Overrides s.engine.table past p u →
    p ∈ s.engine.held.toList → u ∈ s.host → u ∈ s.engine.held.toList

namespace Apart
variable {past past' : List (Input σ)} {s s' : Session τ σ} {input : Input σ} {k : Key}
  {event : Transition}

/-- Where nothing new is overridden and nothing comes to those concerned, nothing has to be done. -/
theorem of_same (h : Apart past s) (hquiet : Quiet s s')
    (hsame : ∀ p u, Overrides s.engine.table past' p u → Overrides s.engine.table past p u ∧
      (p ∈ s'.host → p ∈ s.host) ∧ (u ∈ s'.host → u ∈ s.host)) :
    Apart past' s' := by
  constructor
  · intro p u hover hp hu
    rw [hquiet.table_eq] at hover
    obtain ⟨hover, hhostp, hhostu⟩ := hsame p u hover
    exact h.apart p u hover (hhostp hp) (hhostu hu)
  · intro hactive p u hover hp hu
    rw [hquiet.table_eq] at hover
    obtain ⟨hover, _, hhostu⟩ := hsame p u hover
    rcases hquiet.held_eq hactive with hnil | ⟨hbefore, heq⟩
    · exact absurd (hnil ▸ hp) List.not_mem_nil
    · rw [heq] at hp ⊢
      exact h.covered hbefore p u hover hp (hhostu hu)

/-- A key that is not basic overrides nothing, whatever it does on the host. -/
theorem of_key_not_basic (h : Apart past s) (hquiet : Quiet s s') (hk : k.isBasic = false)
    (hhost : ∀ a, a ≠ k → a ∈ s'.host → a ∈ s.host) : Apart (past ++ [.key k event]) s' := by
  refine h.of_same hquiet ?_
  intro p u hover
  rcases hover.of_key with ⟨hpk, hbefore⟩ | ⟨rfl, _⟩
  · exact ⟨hbefore, hhost p hpk, hhost u hover.under_ne⟩
  · exact absurd rfl (Key.ne_of_isBasic hover.basic hk)

/-- A press takes away what its key overrides. -/
theorem press (h : Apart past s) (hflags : s'.engine.flags = s.engine.flags)
    (htable : s'.engine.table = s.engine.table) (hheld : s'.engine.held = s.engine.heldOnPress k)
    (hhost : ∀ a, a ∈ s'.host ↔ a = k ∨ (a ∈ s.host ∧ ¬ Opposes s.engine.table k a)) :
    Apart (past ++ [.key k event]) s' := by
  have hother : ∀ p u, Overrides s.engine.table (past ++ [.key k event]) p u → u ∈ s'.host →
      p ≠ k ∧ Overrides s.engine.table past p u ∧ u ∈ s.host := by
    intro p u hover hu
    obtain ⟨hu, hfree⟩ := ((hhost u).mp hu).resolve_left hover.under_ne
    rcases hover.of_key with ⟨hpk, hbefore⟩ | ⟨rfl, _⟩
    · exact ⟨hpk, hbefore, hu⟩
    · exact absurd hover.opposes hfree
  constructor
  · intro p u hover hp hu
    rw [htable] at hover
    obtain ⟨hpk, hbefore, hu⟩ := hother p u hover hu
    exact h.apart p u hbefore (((hhost p).mp hp).resolve_left hpk).1 hu
  · intro hon p u hover hp hu
    rw [htable] at hover
    rw [hflags] at hon
    rw [hheld] at hp ⊢
    obtain ⟨hpk, hbefore, hu⟩ := hother p u hover hu
    exact s.engine.held_subset_heldOnPress k u
      (h.covered hon p u hbefore ((Engine.mem_heldOnPress hp).resolve_right hpk) hu)

/-- A release brings back no key that a held one overrides: both are held, and in press order. -/
theorem lift (h : Apart past s) (horder : InOrder (past ++ [.key k event]) s') (hup : event.edge = .up)
    (hactive : s.engine.flags.recoveryActive = true)
    (hactive' : s'.engine.flags.recoveryActive = true)
    (htable : s'.engine.table = s.engine.table)
    (hheld : ∀ a, a ∈ s'.engine.held.toList ↔ a ≠ k ∧ a ∈ s.engine.held.toList)
    (hhost : ∀ a, a ∈ s'.host ↔ ((a ∈ s.host ∧ a ∉ s'.engine.held.toList) ∨
      a ∈ survivors s'.engine.table s'.engine.held.toList) ∧ a ≠ k) :
    Apart (past ++ [.key k event]) s' := by
  have hold : ∀ p u, Overrides s'.engine.table (past ++ [.key k event]) p u →
      Overrides s.engine.table past p u := by
    intro p u hover
    rcases hover.of_key with ⟨_, hbefore⟩ | ⟨_, hdown⟩
    · exact htable ▸ hbefore
    · exact absurd (hup.symm.trans hdown) (by decide)
  have hcovered : ∀ p u, Overrides s'.engine.table (past ++ [.key k event]) p u →
      p ∈ s'.engine.held.toList → u ∈ s'.host → u ∈ s'.engine.held.toList := by
    intro p u hover hp hu
    rcases ((hhost u).mp hu).1 with ⟨hu, _⟩ | hu
    · exact (hheld u).mpr
        ⟨hover.under_ne, h.covered hactive p u (hold p u hover) ((hheld p).mp hp).2 hu⟩
    · exact mem_of_mem_survivors hu
  refine ⟨?_, fun _ => hcovered⟩
  intro p u hover hp hu
  rcases ((hhost u).mp hu).1 with ⟨huhost, huout⟩ | husurvives
  · have hpout : p ∉ s'.engine.held.toList := fun hp => huout (hcovered p u hover hp hu)
    rcases ((hhost p).mp hp).1 with ⟨hphost, _⟩ | hpsurvives
    · exact h.apart p u (hold p u hover) hphost huhost
    · exact hpout (mem_of_mem_survivors hpsurvives)
  · have huheld := mem_of_mem_survivors husurvives
    have hpheld := horder.complete hactive' u huheld p hover.down hover.later hover.basic
      (cancels_of_opposes hover.opposes)
    have hpsurvives := ((hhost p).mp hp).1.resolve_left fun hstays => hstays.2 hpheld
    have hbefore := before_of_rel (horder.sorted hactive') (fun _ _ => PressedBefore.asymm)
      huheld hpheld hover.later
    exact survivors_independent horder.tidy.nodup hbefore husurvives hpsurvives hover.opposes

variable [SettingsStore σ]

theorem start (table : τ) (store : σ) : Apart [] (Session.start table store) where
  apart _ _ hover := absurd hover.down not_isDown_nil
  covered _ _ _ hover := absurd hover.down not_isDown_nil

theorem key (h : Apart past s) (horder : InOrder past s)
    (horder' : InOrder (past ++ [.key k event]) s')
    (hon : s.engine.flags.cancellation = true) (hmove : KeyMove s k event s') :
    Apart (past ++ [.key k event]) s' := by
  cases hmove with
  | turned control hcontrol hdown =>
    exact h.of_key_not_basic (.turn s control) (Control.isBasic_of_ofKey? hcontrol)
      fun _ _ ha => ha
  | swallowed control hcontrol hup =>
    exact h.of_key_not_basic (.host s s.host) (Control.isBasic_of_ofKey? hcontrol)
      fun _ _ ha => ha
  | passed _ hpass =>
    have hhost : ∀ a, a ≠ k → a ∈ s.host.deliver k event.edge .pass → a ∈ s.host :=
      fun a hak => (Host.mem_deliver_of_ne event.edge .pass hak).mp
    rcases hpass with hpass | ⟨hup, hinactive⟩
    · have hk : k.isBasic = false :=
        Bool.eq_false_iff.mpr fun hbasic => hpass (horder.admitted_iff.mpr ⟨hon, hbasic⟩)
      exact h.of_key_not_basic (.host s _) hk hhost
    · refine h.of_same (.host s _) ?_
      intro p u hover
      rcases hover.of_key with ⟨hpk, hbefore⟩ | ⟨_, hdown⟩
      · exact ⟨hbefore, hhost p hpk, hhost u hover.under_ne⟩
      · exact absurd (hup.symm.trans hdown) (by decide)
  | pressed hadmitted hdown host hhost => exact h.press rfl rfl rfl hhost
  | lifted hadmitted hup hactive host hhost =>
    exact h.lift horder' hup hactive hactive rfl (fun _ => Engine.mem_heldOnLift horder.tidy) hhost

theorem step (h : Apart past s) (horder : InOrder past s)
    (horder' : InOrder (past ++ [input]) (s.step input).1)
    (hon : s.engine.flags.cancellation = true) (hplain : input.isPlain = true) :
    Apart (past ++ [input]) (s.step input).1 := by
  have hother : input.isKey = false → Apart (past ++ [input]) (s.step input).1 := by
    intro hkey
    refine h.of_same (.step s hkey hplain) fun p u hover => ⟨?_, ?_, ?_⟩
    · exact hover.of_append (Input.edgeOf?_eq_none hkey p) (Input.edgeOf?_eq_none hkey u)
    · exact fun hp => s.host_step hkey ▸ hp
    · exact fun hu => s.host_step hkey ▸ hu
  cases input with
  | key k event => exact h.key horder horder' hon (Session.keyMove horder.tidy k event)
  | _ => exact hother rfl

theorem run {table : τ} {store : σ} {inputs : List (Input σ)}
    (horderly : OrderlyRun table store inputs)
    (hon : (Session.start table store).Always (fun s => s.engine.flags.cancellation = true) inputs) :
    Apart inputs ((Session.start table store).run inputs) := by
  induction inputs using List.reverseRecOn with
  | nil => exact start table store
  | append_singleton past input ih =>
    obtain ⟨hon, _⟩ := Session.always_append_singleton.mp hon
    have horder := horderly.inOrder
    rw [Session.run_append] at horder ⊢
    exact (ih horderly.init hon).step horderly.init.inOrder horder hon.last horderly.last_plain

end Apart

variable [SettingsStore σ]

/-- While cancellation stays on, no key is on the host together with a later one that opposes it and
is basic, so the two sides of a symmetric pair of basic keys never are. -/
theorem never_held_together (t : τ) (store : σ) (inputs : List (Input σ))
    (horderly : OrderlyRun t store inputs)
    (hon : (Session.start t store).Always (fun s => s.engine.flags.cancellation = true) inputs) :
    let s := (Session.start t store).run inputs
    (∀ p u, Opposes t p u → p.isBasic = true → IsDown inputs p → IsDown inputs u →
      PressedBefore inputs u p → ¬ (p ∈ s.host ∧ u ∈ s.host)) ∧
    (∀ a b, Opposes t a b → Opposes t b a → a.isBasic = true → b.isBasic = true → a ≠ b →
      ¬ (a ∈ s.host ∧ b ∈ s.host)) := by
  intro s
  have happart : Apart inputs s := Apart.run horderly hon
  have hlive : Live inputs s := horderly.inOrder.toLive
  have htable : s.engine.table = t := Session.table_run (Session.tidy_start t store) inputs
  have hlater : ∀ p u, Opposes t p u → p.isBasic = true → IsDown inputs p → IsDown inputs u →
      PressedBefore inputs u p → ¬ (p ∈ s.host ∧ u ∈ s.host) := by
    rintro p u hopposes hbasic hp hu hbefore ⟨hphost, huhost⟩
    exact happart.apart p u ⟨htable ▸ hopposes, hbasic, hp, hu, hbefore⟩ hphost huhost
  refine ⟨hlater, ?_⟩
  rintro a b hab hba habasic hbbasic hne ⟨ha, hb⟩
  have hadown := hlive.host_down a ha
  have hbdown := hlive.host_down b hb
  rcases pressedBefore_total hadown hbdown hne with hbefore | hbefore
  · exact hlater b a hba hbbasic hbdown hadown hbefore ⟨hb, ha⟩
  · exact hlater a b hab habasic hadown hbdown hbefore ⟨ha, hb⟩

/-- Recovery goes off and on while two opposing keys are down, and a third one takes its turn. -/
theorem never_held_together_across_switches :
    let a : Key := ⟨0x04⟩
    let d : Key := ⟨0x07⟩
    let w : Key := ⟨0x1A⟩
    let toggle : Key := Control.key ⟨.recovery, .toggle⟩
    let table : List Pair := [⟨a, d⟩, ⟨d, a⟩, ⟨w, a⟩]
    let store := ByteStore.ofFlags ⟨true, true⟩
    let inputs : List (Input ByteStore) := [.key d ⟨.down, none⟩, .key toggle ⟨.down, none⟩,
      .key toggle ⟨.up, none⟩, .key a ⟨.down, none⟩, .control ⟨.recovery, .on⟩,
      .key w ⟨.down, none⟩, .key a ⟨.up, none⟩, .key a ⟨.down, none⟩, .key w ⟨.up, none⟩]
    let start := Session.start table store
    OrderlyRun table store inputs ∧
    start.Always (fun s => s.engine.flags.cancellation = true) inputs ∧
    (start.run inputs).host.held = [a] ∧ IsDown inputs d ∧
    ¬ (a ∈ (start.run inputs).host ∧ d ∈ (start.run inputs).host) := by
  intro a d w toggle table store inputs start
  have horderly : OrderlyRun table store inputs := ⟨by decide, by decide, by decide⟩
  have hon : start.Always (fun s => s.engine.flags.cancellation = true) inputs := by decide
  have hnever := (never_held_together table store inputs horderly hon).2
  exact ⟨horderly, hon, by decide, by decide, hnever a d (by decide) (by decide) (by decide)
    (by decide) (by decide)⟩

end OpposingKeys
