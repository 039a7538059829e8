import OpposingKeys.Proofs.Groups
import OpposingKeys.Proofs.PressOrder

/-!
# The last input wins

On a table of disjoint groups, in an orderly run with both modes on, the host is a function of the
history: it holds the keys that are down, are no control keys, and are the last pressed of those of
their group that are down (`Wins`). The invariant adds that all keys that are down and could be held
are held, which is what a release needs: then the survivors of the hold buffer are the winners.
-/

namespace OpposingKeys

set_option autoImplicit false

variable {τ σ : Type} [Table τ]

/-- `k` is down, is no control key, and no key of its group that is down was pressed later. -/
structure Wins (t : τ) (past : List (Input σ)) (k : Key) : Prop where
  down : IsDown past k
  plain : Control.ofKey? k = none
  last : ∀ p, SameGroup t p k → IsDown past p → ¬ PressedBefore past k p

section Winners
variable {t : τ} {past : List (Input σ)} {input : Input σ} {k a : Key} {event : Transition}

/-- Only events of its own group decide whether a key wins. -/
theorem wins_append_of_none (hgroup : ∀ p, SameGroup t p a → input.edgeOf? p = none) :
    Wins t (past ++ [input]) a ↔ Wins t past a := by
  have ha := hgroup a (Or.inl rfl)
  constructor
  · rintro ⟨hdown, hplain, hlast⟩
    refine ⟨(isDown_append_of_none ha).mp hdown, hplain, ?_⟩
    intro p hp hpdown hlater
    exact hlast p hp ((isDown_append_of_none (hgroup p hp)).mpr hpdown)
      ((pressedBefore_append_of_none ha (hgroup p hp)).mpr hlater)
  · rintro ⟨hdown, hplain, hlast⟩
    refine ⟨(isDown_append_of_none ha).mpr hdown, hplain, ?_⟩
    intro p hp hpdown hlater
    exact hlast p hp ((isDown_append_of_none (hgroup p hp)).mp hpdown)
      ((pressedBefore_append_of_none ha (hgroup p hp)).mp hlater)

theorem wins_key_of_not_sameGroup (h : ¬ SameGroup t k a) :
    Wins t (past ++ [.key k event]) a ↔ Wins t past a := by
  apply wins_append_of_none
  intro p hp
  apply Input.edgeOf?_key_of_ne
  rintro rfl
  exact h hp

theorem wins_of_pressed (hdown : event.edge = .down) (hplain : Control.ofKey? k = none) :
    Wins t (past ++ [.key k event]) k where
  down := isDown_key_self.mpr hdown
  plain := hplain
  last _ _ _ := not_pressedBefore_of_pressed (by rw [Input.edgeOf?_key_self, hdown])

/-- A key that goes down wins over its group. -/
theorem wins_key_of_pressed (hdown : event.edge = .down) (hne : a ≠ k) :
    Wins t (past ++ [.key k event]) a ↔ Wins t past a ∧ ¬ SameGroup t k a := by
  by_cases hgroup : SameGroup t k a
  · have hedge : (Input.key k event : Input σ).edgeOf? k = some .down := by
      rw [Input.edgeOf?_key_self, hdown]
    have hloses : ¬ Wins t (past ++ [.key k event]) a := by
      rintro ⟨hadown, _, hlast⟩
      have hbefore : PressedBefore (past ++ [.key k event]) a k :=
        pressedBefore_of_pressed ((isDown_key_of_ne hne).mp hadown)
          (by simp [Input.edgeOf?_key_of_ne event hne]) hedge
      exact hlast k hgroup (isDown_key_self.mpr hdown) hbefore
    exact ⟨fun hwins => absurd hwins hloses, fun hwins => absurd hgroup hwins.2⟩
  · rw [wins_key_of_not_sameGroup hgroup]
    exact (and_iff_left hgroup).symm

/-- Every key that is down has a winner in its group, unless it is a control key. -/
theorem exists_wins (h : Grouped t) (hdown : IsDown past k) (hplain : Control.ofKey? k = none) :
    ∃ w, Wins t past w ∧ SameGroup t w k := by
  induction k using (wellFounded_pressedBefore past).induction with
  | _ k ih =>
    by_cases hlast : ∀ p, SameGroup t p k → IsDown past p → ¬ PressedBefore past k p
    · exact ⟨k, ⟨hdown, hplain, hlast⟩, Or.inl rfl⟩
    · push Not at hlast
      obtain ⟨p, hgroup, hpdown, hlater⟩ := hlast
      have hbasic := (h.basic p k (hgroup.opposes hlater.ne.symm)).1
      obtain ⟨w, hwins, hw⟩ := ih p hlater hpdown (Control.ofKey?_eq_none_of_isBasic hbasic)
      exact ⟨w, hwins, h.sameGroup.trans hw hgroup⟩

theorem Wins.eq_of_sameGroup {b : Key} (ha : Wins t past a) (hb : Wins t past b)
    (hab : SameGroup t a b) (hba : SameGroup t b a) : a = b := by
  by_contra hne
  rcases pressedBefore_total ha.down hb.down hne with hbefore | hbefore
  · exact ha.last b hba hb.down hbefore
  · exact hb.last a hab ha.down hbefore

end Winners

/-- The host holds the winners, and all that is down and could be held is held. -/
structure LastWins (past : List (Input σ)) (s : Session τ σ) : Prop where
  all_held : ∀ p, IsDown past p → p.isBasic = true → Table.cancels s.engine.table p = true →
    p ∈ s.engine.held.toList
  host_iff : ∀ k, k ∈ s.host ↔ Wins s.engine.table past k

namespace LastWins
variable {past : List (Input σ)} {s s' : Session τ σ} {input : Input σ} {k : Key}
  {event : Transition}

/-- An event of a key that is not basic concerns no other key. -/
theorem of_key_not_basic (h : LastWins past s) (hgrouped : Grouped s.engine.table)
    (hk : k.isBasic = false) (htable : s'.engine.table = s.engine.table)
    (hheld : s'.engine.held.toList = s.engine.held.toList)
    (hother : ∀ a, a ≠ k → (a ∈ s'.host ↔ a ∈ s.host))
    (hself : k ∈ s'.host ↔ Wins s.engine.table (past ++ [.key k event]) k) :
    LastWins (past ++ [.key k event]) s' := by
  constructor
  · intro p hdown hbasic hcancels
    rw [hheld]
    have hpk := Key.ne_of_isBasic hbasic hk
    exact h.all_held p ((isDown_key_of_ne hpk).mp hdown) hbasic (htable ▸ hcancels)
  · intro a
    rw [htable]
    by_cases hak : a = k
    · exact hak ▸ hself
    · have hgroup : ¬ SameGroup s.engine.table k a :=
        fun hgroup => hak (hgrouped.eq_of_not_basic hk hgroup).symm
      rw [hother a hak, h.host_iff a, wins_key_of_not_sameGroup hgroup]

/-- Of the held keys the winners survive. -/
theorem mem_survivors_iff (hgrouped : Grouped s.engine.table) (horder : InOrder past s)
    (hactive : s.engine.flags.recoveryActive = true) (hk : k ∈ s.engine.held.toList) :
    k ∈ survivors s.engine.table s.engine.held.toList ↔ Wins s.engine.table past k := by
  have hsorted := horder.sorted hactive
  rw [hgrouped.mem_survivors_iff horder.tidy.nodup hk]
  constructor
  · intro hlast
    refine ⟨horder.held_down hactive k hk, horder.held_plain hk, ?_⟩
    intro p hgroup hdown hlater
    have hopposes := hgroup.opposes hlater.ne.symm
    have hp : p ∈ s.engine.held.toList :=
      horder.complete hactive k hk p hdown hlater (hgrouped.basic p k hopposes).1
        (cancels_of_opposes hopposes)
    exact hlast p (before_of_rel hsorted (fun _ _ => PressedBefore.asymm) hk hp hlater) hgroup
  · intro hwins p hbefore hgroup
    exact hwins.last p hgroup (horder.held_down hactive p hbefore.mem_right) (hbefore.rel hsorted)

theorem press (h : LastWins past s) (hactive : s.engine.flags.recoveryActive = true)
    (hroom : s.engine.overflows k = false) (hdown : event.edge = .down)
    (hplain : Control.ofKey? k = none)
    (htable : s'.engine.table = s.engine.table) (hheld : s'.engine.held = s.engine.heldOnPress k)
    (hhost : ∀ a, a ∈ s'.host ↔ a = k ∨ (a ∈ s.host ∧ ¬ Opposes s.engine.table k a)) :
    LastWins (past ++ [.key k event]) s' := by
  constructor
  · intro p hpdown hbasic hcancels
    rw [htable] at hcancels
    rw [hheld]
    by_cases hpk : p = k
    · subst hpk
      exact Engine.mem_heldOnPress_self hactive hbasic hcancels hroom
    · exact Engine.held_subset_heldOnPress s.engine k p
        (h.all_held p ((isDown_key_of_ne hpk).mp hpdown) hbasic hcancels)
  · intro a
    rw [htable]
    by_cases hak : a = k
    · subst hak
      exact ⟨fun _ => wins_of_pressed hdown hplain, fun _ => (hhost a).mpr (Or.inl rfl)⟩
    · have hopposes : Opposes s.engine.table k a ↔ SameGroup s.engine.table k a :=
        ⟨sameGroup_of_opposes, fun hgroup => hgroup.opposes (Ne.symm hak)⟩
      rw [hhost a, or_iff_right hak, h.host_iff a, hopposes, wins_key_of_pressed hdown hak]

/-- What a release brings back is what wins without the released key. -/
theorem lift (h : LastWins past s) (hgrouped : Grouped s'.engine.table)
    (horder : InOrder (past ++ [.key k event]) s') (hup : event.edge = .up)
    (hactive : s'.engine.flags.recoveryActive = true)
    (htable : s'.engine.table = s.engine.table)
    (hheld : ∀ a, a ∈ s'.engine.held.toList ↔ a ≠ k ∧ a ∈ s.engine.held.toList)
    (hhost : ∀ a, a ∈ s'.host ↔ ((a ∈ s.host ∧ a ∉ s'.engine.held.toList) ∨
      a ∈ survivors s'.engine.table s'.engine.held.toList) ∧ a ≠ k) :
    LastWins (past ++ [.key k event]) s' := by
  have hkup : ¬ IsDown (past ++ [.key k event]) k := by
    rw [isDown_key_self, hup]
    decide
  have hall : ∀ p, IsDown (past ++ [.key k event]) p → p.isBasic = true →
      Table.cancels s'.engine.table p = true → p ∈ s'.engine.held.toList := by
    intro p hdown hbasic hcancels
    have hpk : p ≠ k := fun e => hkup (e ▸ hdown)
    exact (hheld p).mpr ⟨hpk, h.all_held p ((isDown_key_of_ne hpk).mp hdown) hbasic
      (htable ▸ hcancels)⟩
  refine ⟨hall, ?_⟩
  intro a
  rw [hhost a]
  by_cases hak : a = k
  · subst hak
    exact ⟨fun hmem => absurd rfl hmem.2, fun hwins => absurd hwins.down hkup⟩
  rw [and_iff_left hak]
  by_cases ha : a ∈ s'.engine.held.toList
  · rw [mem_survivors_iff hgrouped horder hactive ha]
    exact or_iff_right fun hout => hout.2 ha
  · have hgone : a ∉ survivors s'.engine.table s'.engine.held.toList :=
      fun hsurvives => ha (mem_of_mem_survivors hsurvives)
    rw [or_iff_left hgone, and_iff_left ha, h.host_iff a, ← htable]
    by_cases hgroup : SameGroup s'.engine.table k a
    · -- a key of the released key's group would be held if it were down
      have hopposes := (hgrouped.sameGroup.symm hgroup).opposes hak
      have hadown : ¬ IsDown (past ++ [.key k event]) a := fun hdown =>
        ha (hall a hdown (hgrouped.basic a k hopposes).1 (cancels_of_opposes hopposes))
      exact ⟨fun hwins => absurd ((isDown_key_of_ne hak).mpr hwins.down) hadown,
        fun hwins => absurd hwins.down hadown⟩
    · exact (wins_key_of_not_sameGroup hgroup).symm

/-- An input that is no key event changes neither the host nor the winners. -/
theorem other (h : LastWins past s) (hkey : input.isKey = false)
    (htable : s'.engine.table = s.engine.table) (hhost : s'.host = s.host)
    (hheld : s'.engine.held.toList = s.engine.held.toList) : LastWins (past ++ [input]) s' where
  all_held p hdown hbasic hcancels := by
    rw [hheld]
    exact h.all_held p ((isDown_append_of_none (Input.edgeOf?_eq_none hkey p)).mp hdown) hbasic
      (htable ▸ hcancels)
  host_iff a := by
    rw [hhost, htable, h.host_iff a]
    exact (wins_append_of_none fun p _ => Input.edgeOf?_eq_none hkey p).symm

variable [SettingsStore σ]

theorem start (table : τ) (store : σ) : LastWins [] (Session.start table store) where
  all_held _ hdown := absurd hdown not_isDown_nil
  host_iff k := ⟨fun hk => absurd hk (Host.not_mem_empty k),
    fun hwins => absurd hwins.down not_isDown_nil⟩

theorem key (h : LastWins past s) (hgrouped : Grouped s.engine.table) (horder : InOrder past s)
    (horder' : InOrder (past ++ [.key k event]) s')
    (hactive : s.engine.flags.recoveryActive = true)
    (hroom : event.edge = .down → s.engine.overflows k = false) (hmove : KeyMove s k event s') :
    LastWins (past ++ [.key k event]) s' := by
  have hcontrolled : ∀ control, Control.ofKey? k = some control →
      (k ∈ s.host ↔ Wins s.engine.table (past ++ [.key k event]) k) := by
    intro control hcontrol
    have hplain : Control.ofKey? k ≠ none := by simp [hcontrol]
    exact ⟨fun hk => absurd (horder.host_plain k hk) hplain, fun hwins => absurd hwins.plain hplain⟩
  cases hmove with
  | turned control hcontrol hdown =>
    exact h.of_key_not_basic hgrouped (Control.isBasic_of_ofKey? hcontrol) rfl
      (Engine.held_turn_of_was_active hactive) (fun _ _ => Iff.rfl) (hcontrolled control hcontrol)
  | swallowed control hcontrol hup =>
    exact h.of_key_not_basic hgrouped (Control.isBasic_of_ofKey? hcontrol) rfl rfl
      (fun _ _ => Iff.rfl) (hcontrolled control hcontrol)
  | passed hplain hpass =>
    have hself : k ∈ s.host.deliver k event.edge .pass ↔
        Wins s.engine.table (past ++ [.key k event]) k := by
      rw [Host.mem_deliver_self]
      exact ⟨fun hdown => wins_of_pressed hdown hplain, fun hwins => isDown_key_self.mp hwins.down⟩
    have hk := Engine.isBasic_of_passed horder.filter_eq hactive hpass
    exact h.of_key_not_basic hgrouped hk rfl rfl
      (fun a hak => Host.mem_deliver_of_ne event.edge .pass hak) hself
  | pressed hadmitted hdown host hhost =>
    have hbasic := (horder.admitted_iff.mp hadmitted).2
    exact h.press hactive (hroom hdown) hdown (Control.ofKey?_eq_none_of_isBasic hbasic) rfl rfl
      hhost
  | lifted hadmitted hup _ host hhost =>
    exact h.lift hgrouped horder' hup hactive rfl (fun _ => Engine.mem_heldOnLift horder.tidy)
      hhost

theorem step (h : LastWins past s) (hgrouped : Grouped s.engine.table) (horder : InOrder past s)
    (horder' : InOrder (past ++ [input]) (s.step input).1)
    (hactive : s.engine.flags.recoveryActive = true) (hplain : input.isPlain = true)
    (hroom : ∀ a ∈ input.pressed?, s.engine.overflows a = false) :
    LastWins (past ++ [input]) (s.step input).1 := by
  cases input with
  | key k event =>
    exact h.key hgrouped horder horder' hactive
      (fun hdown => hroom k (Input.pressed?_key hdown)) (Session.keyMove horder.tidy k event)
  | control control => exact h.other rfl rfl rfl (Engine.held_turn_of_was_active hactive)
  | listen _ => exact h.other rfl rfl rfl rfl
  | adjust _ => exact h.other rfl rfl rfl rfl
  | filter _ => exact Bool.noConfusion hplain
  | restart => exact Bool.noConfusion hplain

theorem run {table : τ} {store : σ} {inputs : List (Input σ)} (hgrouped : Grouped table)
    (horderly : OrderlyRun table store inputs)
    (hon : (Session.start table store).Always (fun s => s.engine.flags = ⟨true, true⟩) inputs) :
    LastWins inputs ((Session.start table store).run inputs) := by
  induction inputs using List.reverseRecOn with
  | nil => exact start table store
  | append_singleton past input ih =>
    obtain ⟨hon, _⟩ := Session.always_append_singleton.mp hon
    have htable : ((Session.start table store).run past).engine.table = table :=
      Session.table_run (Session.tidy_start table store) past
    have hactive : ((Session.start table store).run past).engine.flags.recoveryActive = true := by
      rw [hon.last]
      rfl
    have horder := horderly.inOrder
    rw [Session.run_append] at horder ⊢
    exact (ih horderly.init hon).step (htable.symm ▸ hgrouped) horderly.init.inOrder horder hactive
      horderly.last_plain fun _ => horderly.last_room

end LastWins

variable [SettingsStore σ]

/-- With both modes on throughout, the host holds the keys that are down and were pressed last of
their groups, one of every group that has a key down. -/
theorem last_input_wins (t : τ) (store : σ) (inputs : List (Input σ)) (hgrouped : Grouped t)
    (horderly : OrderlyRun t store inputs)
    (hon : (Session.start t store).Always (fun s => s.engine.flags = ⟨true, true⟩) inputs) :
    let s := (Session.start t store).run inputs
    (∀ k, k ∈ s.host ↔ IsDown inputs k ∧ Control.ofKey? k = none ∧
      ∀ p, SameGroup t p k → IsDown inputs p → ¬ PressedBefore inputs k p) ∧
    (∀ k, IsDown inputs k → Control.ofKey? k = none → ∃! w, w ∈ s.host ∧ SameGroup t w k) := by
  intro s
  have htable : s.engine.table = t := Session.table_run (Session.tidy_start t store) inputs
  have hhost : ∀ k, k ∈ s.host ↔ Wins t inputs k :=
    htable ▸ (LastWins.run hgrouped horderly hon).host_iff
  refine ⟨?_, ?_⟩
  · intro k
    rw [hhost k]
    exact ⟨fun ⟨hdown, hplain, hlast⟩ => ⟨hdown, hplain, hlast⟩,
      fun ⟨hdown, hplain, hlast⟩ => ⟨hdown, hplain, hlast⟩⟩
  · intro k hdown hplain
    obtain ⟨w, hwins, hw⟩ := exists_wins hgrouped hdown hplain
    refine ⟨w, ⟨(hhost w).mpr hwins, hw⟩, ?_⟩
    rintro v ⟨hv, hvk⟩
    have hvw := hgrouped.sameGroup.trans hvk (hgrouped.sameGroup.symm hw)
    exact ((hhost v).mp hv).eq_of_sameGroup hwins hvw (hgrouped.sameGroup.symm hvw)

/-- Two groups take turns, with a key outside the table and a control key between them. -/
theorem last_input_wins_two_groups :
    let a : Key := ⟨0x04⟩
    let d : Key := ⟨0x07⟩
    let s : Key := ⟨0x16⟩
    let w : Key := ⟨0x1A⟩
    let space : Key := ⟨0x2C⟩
    let enable : Key := Control.key ⟨.recovery, .on⟩
    let store := ByteStore.ofFlags ⟨true, true⟩
    let inputs : List (Input ByteStore) := [.key a ⟨.down, none⟩, .key w ⟨.down, none⟩,
      .key d ⟨.down, none⟩, .key space ⟨.down, none⟩, .key enable ⟨.down, none⟩,
      .key s ⟨.down, none⟩, .key d ⟨.up, none⟩]
    let start := Session.start wasd store
    Grouped wasd ∧ OrderlyRun wasd store inputs ∧
    start.Always (fun s => s.engine.flags = ⟨true, true⟩) inputs ∧
    (start.run inputs).host.held = [a, s, space] ∧
    ∃! k, k ∈ (start.run inputs).host ∧ SameGroup wasd k w := by
  intro a d s w space enable store inputs start
  have horderly : OrderlyRun wasd store inputs := ⟨by decide, by decide, by decide⟩
  have hon : start.Always (fun s => s.engine.flags = ⟨true, true⟩) inputs := by decide
  have hwins := last_input_wins wasd store inputs grouped_wasd horderly hon
  exact ⟨grouped_wasd, horderly, hon, by decide, hwins.2 w (by decide) (by decide)⟩

end OpposingKeys
