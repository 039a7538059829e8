import OpposingKeys.Proofs.History
import OpposingKeys.Proofs.Release

/-!
# What brings a key back

A key that the host does not hold comes to it in two ways only: it goes down, or a release of
another key gives it back (`GivesBack`). That takes a handled release while recovery is in force;
the key is still held, and no key held after it that is registered with it opposes it (`Prevails`).
Every such release gives the key back (`givesBack_iff`). So it is for every run, with any filters,
switches and restarts, and it decides what becomes of two keys that the hold buffer has wrong: one
that went down while the buffer was full, and one whose release was vetoed. The first takes away
what it opposes, and the second leaves the host, but either may be undone by the next release of
some other key.
-/

namespace OpposingKeys

set_option autoImplicit false

variable {τ σ : Type}

/-- If both are held, then `p` after `u`. -/
def HeldAfter (s : Session τ σ) (p u : Key) : Prop :=
  u ∈ s.engine.held.toList → p ∈ s.engine.held.toList → Before s.engine.held.toList u p

namespace HeldAfter
variable {s s' : Session τ σ} {p u : Key} {input : Input σ} {later : List (Input σ)}

theorem of_append {k : Key} (h : HeldAfter s p u) (hk : u ≠ k)
    (hheld : s'.engine.held.toList = s.engine.held.toList ++ [k]) : HeldAfter s' p u := by
  intro hu hp
  -- the key that came in stands at the end, and it is not `u`
  rw [hheld] at hu hp ⊢
  have hu : u ∈ s.engine.held.toList :=
    (List.mem_append.mp hu).resolve_right fun hu => hk (List.mem_singleton.mp hu)
  rcases List.mem_append.mp hp with hp | hp
  · exact before_append_singleton_iff.mpr (Or.inl (h hu hp))
  · exact before_append_singleton_iff.mpr (Or.inr ⟨hu, List.mem_singleton.mp hp⟩)

variable [Table τ]

theorem of_sublist (h : HeldAfter s p u) (htidy : s.engine.Tidy)
    (hsub : s'.engine.held.toList.Sublist s.engine.held.toList) : HeldAfter s' p u :=
  fun hu hp => (h (hsub.subset hu) (hsub.subset hp)).sublist htidy.nodup hsub hu hp

variable [SettingsStore σ]

theorem step (h : HeldAfter s p u) (htidy : s.engine.Tidy)
    (hpress : input.edgeOf? u ≠ some .down) : HeldAfter (s.step input).1 p u := by
  cases input with
  | key k event =>
    rcases (Session.keyMove htidy k event).held_cases htidy with hsub | ⟨hdown, hheld⟩
    · exact h.of_sublist htidy hsub
    · refine h.of_append ?_ hheld
      rintro rfl
      exact hpress (hdown ▸ Input.edgeOf?_key_self u event)
  | control control => exact h.of_sublist htidy (s.engine.held_turn_sublist control)
  | restart => exact fun hu => absurd hu List.not_mem_nil
  | filter _ => exact h
  | listen _ => exact h
  | adjust _ => exact h

theorem run (h : HeldAfter s p u) (htidy : s.engine.Tidy)
    (hpress : ∀ input ∈ later, input.edgeOf? u ≠ some .down) : HeldAfter (s.run later) p u := by
  induction later generalizing s with
  | nil => exact h
  | cons input later ih =>
    obtain ⟨hinput, hlater⟩ := List.forall_mem_cons.mp hpress
    exact ih (h.step htidy hinput) (Session.tidy_step htidy input) hlater

end HeldAfter

variable [Table τ] [SettingsStore σ]

/-- An event of `r` is a release that registers `u`, and with it no key held after `u` that opposes
`u`. -/
structure GivesBack (s : Session τ σ) (r : Key) (event : Transition) (u : Key) : Prop where
  up : event.edge = .up
  active : s.engine.flags.recoveryActive = true
  admitted : s.engine.admission r event = .admitted
  ne : r ≠ u
  registered : .register u ∈ (s.key r event).2.corrections
  unopposed : ∀ q, .register q ∈ (s.key r event).2.corrections →
    Before (s.key r event).1.engine.held.toList u q → ¬ Opposes s.engine.table q u

/-- As an event of `r` is handled, `u` stays held, and none of the keys held after it that the event
registers opposes it. -/
def Prevails (s : Session τ σ) (r : Key) (event : Transition) (u : Key) : Prop :=
  u ∈ (s.key r event).1.engine.held.toList ∧
    ∀ q, .register q ∈ (s.key r event).2.corrections →
      Before (s.key r event).1.engine.held.toList u q → ¬ Opposes s.engine.table q u

section Releases
variable {s : Session τ σ} {r q u p : Key} {event : Transition}

theorem register_mem_corrections_iff (htidy : s.engine.Tidy) (hup : event.edge = .up)
    (hactive : s.engine.flags.recoveryActive = true)
    (hadmitted : s.engine.admission r event = .admitted) :
    .register q ∈ (s.key r event).2.corrections ↔
      q ∈ survivors s.engine.table (s.engine.heldOnLift r).toList := by
  rw [key_lift hup hactive hadmitted]
  exact register_mem_recover_iff s.engine.table (Engine.nodup_heldOnLift htidy r)

theorem held_key_lift (hup : event.edge = .up) (hactive : s.engine.flags.recoveryActive = true)
    (hadmitted : s.engine.admission r event = .admitted) :
    (s.key r event).1.engine.held = s.engine.heldOnLift r := by
  rw [key_lift hup hactive hadmitted]

/-- A handled release registers the keys that prevail, and no others. -/
theorem register_iff_prevails (htidy : s.engine.Tidy) (hup : event.edge = .up)
    (hactive : s.engine.flags.recoveryActive = true)
    (hadmitted : s.engine.admission r event = .admitted) :
    .register u ∈ (s.key r event).2.corrections ↔ Prevails s r event u := by
  have hnodup := Engine.nodup_heldOnLift htidy r
  simp only [Prevails, register_mem_corrections_iff htidy hup hactive hadmitted,
    held_key_lift hup hactive hadmitted]
  constructor
  · intro hu
    have hheld := mem_of_mem_survivors hu
    exact ⟨hheld, (mem_survivors_iff hnodup hheld).mp hu⟩
  · rintro ⟨hheld, hfree⟩
    exact (mem_survivors_iff hnodup hheld).mpr hfree

/-- Exactly the handled releases in which a key prevails give it back. -/
theorem givesBack_iff (htidy : s.engine.Tidy) :
    GivesBack s r event u ↔ event.edge = .up ∧ s.engine.flags.recoveryActive = true ∧
      s.engine.admission r event = .admitted ∧ Prevails s r event u := by
  constructor
  · intro h
    exact ⟨h.up, h.active, h.admitted,
      (register_iff_prevails htidy h.up h.active h.admitted).mp h.registered⟩
  · rintro ⟨hup, hactive, hadmitted, hheld, hfree⟩
    have hregistered := (register_iff_prevails htidy hup hactive hadmitted).mpr ⟨hheld, hfree⟩
    refine ⟨hup, hactive, hadmitted, ?_, hregistered, hfree⟩
    rintro rfl
    rw [held_key_lift hup hactive hadmitted] at hheld
    exact Engine.not_mem_heldOnLift htidy r hheld

theorem GivesBack.mem_host (h : GivesBack s r event u) (htidy : s.engine.Tidy) :
    u ∈ (s.key r event).1.host := by
  obtain ⟨host, hhost, hkey⟩ := Session.key_of_lifted htidy h.admitted h.up h.active
  have hregistered := h.registered
  rw [register_mem_corrections_iff htidy h.up h.active h.admitted] at hregistered
  rw [hkey]
  exact (hhost u).mpr ⟨Or.inr hregistered, h.ne.symm⟩

theorem GivesBack.mem_held (h : GivesBack s r event u) (htidy : s.engine.Tidy)
    (hq : .register q ∈ (s.key r event).2.corrections) :
    q ∈ (s.key r event).1.engine.held.toList :=
  ((register_iff_prevails htidy h.up h.active h.admitted).mp hq).1

end Releases

section Returning
variable {s : Session τ σ} {u : Key} {input : Input σ} {later : List (Input σ)}

/-- Only a press of the key itself or the release of another brings a key to the host. -/
theorem givesBack_of_step (htidy : s.engine.Tidy) (hout : u ∉ s.host)
    (hin : u ∈ (s.step input).1.host) (hpress : input.edgeOf? u ≠ some .down) :
    ∃ r event, input = .key r event ∧ GivesBack s r event u := by
  cases input with
  | key k event =>
    have hself : u = k → event.edge ≠ .down := by
      rintro rfl hdown
      exact hpress (hdown ▸ Input.edgeOf?_key_self u event)
    have hmove : KeyMove s k event (s.key k event).1 := Session.keyMove htidy k event
    change u ∈ (s.key k event).1.host at hin
    refine ⟨k, event, rfl, ?_⟩
    generalize (s.key k event).1 = s' at hmove hin
    cases hmove with
    | turned => exact absurd hin hout
    | swallowed => exact absurd hin hout
    | passed =>
      by_cases huk : u = k
      · subst huk
        exact absurd (Host.mem_deliver_self.mp hin) (hself rfl)
      · exact absurd ((Host.mem_deliver_of_ne event.edge .pass huk).mp hin) hout
    | pressed _ hdown host hhost =>
      rcases (hhost u).mp hin with huk | ⟨hu, _⟩
      · exact absurd hdown (hself huk)
      · exact absurd hu hout
    | lifted hadmitted hup hactive host hhost =>
      -- a release keeps what was on the host or registers a survivor
      have hsurvives := ((hhost u).mp hin).1.resolve_left fun hu => hout hu.1
      have hregistered :=
        (register_mem_corrections_iff htidy hup hactive hadmitted).mpr hsurvives
      exact (givesBack_iff htidy).mpr ⟨hup, hactive, hadmitted,
        (register_iff_prevails htidy hup hactive hadmitted).mp hregistered⟩
  | _ => exact absurd hin hout

/-- A key that is not pressed comes to the host only where a release gives it back. -/
theorem givesBack_of_run (htidy : s.engine.Tidy) (hout : u ∉ s.host)
    (hpress : ∀ input ∈ later, input.edgeOf? u ≠ some .down) (hin : u ∈ (s.run later).host) :
    ∃ past r event rest, later = past ++ .key r event :: rest ∧
      GivesBack (s.run past) r event u := by
  induction later generalizing s with
  | nil => exact absurd hin hout
  | cons input later ih =>
    obtain ⟨hinput, hlater⟩ := List.forall_mem_cons.mp hpress
    by_cases hnow : u ∈ (s.step input).1.host
    · obtain ⟨r, event, rfl, hback⟩ := givesBack_of_step htidy hout hnow hinput
      exact ⟨[], r, event, later, rfl, hback⟩
    · obtain ⟨past, r, event, rest, rfl, hback⟩ :=
        ih (Session.tidy_step htidy input) hnow hlater hin
      exact ⟨input :: past, r, event, rest, rfl, hback⟩

end Returning

theorem pressed_when_full {s : Session τ σ} {p : Key} {event : Transition}
    (hadmitted : s.engine.admission p event = .admitted) (hdown : event.edge = .down)
    (hfull : s.engine.held.isFull = true) :
    (s.key p event).1.engine.held.toList = s.engine.held.toList ∧
      ∀ a, a ∈ (s.key p event).1.host ↔ a = p ∨ (a ∈ s.host ∧ ¬ Opposes s.engine.table p a) := by
  obtain ⟨host, hhost, hkey⟩ := Session.key_of_pressed hadmitted hdown
  rw [hkey]
  exact ⟨Engine.toList_heldOnPress_of_full hfull, hhost⟩

/-- A press that finds the hold buffer full takes away the held keys that it opposes, and what it took
away stays off the host until it is pressed again or the release of another key gives it back. The
pressed key itself is not registered then. A release gives a key back exactly if it is handled and the
key prevails in it, and then the host has the key. -/
theorem taken_away_when_full (t : τ) (store : σ) (inputs later : List (Input σ)) (p u : Key)
    (event : Transition) (hdown : event.edge = .down) (hbasic : p.isBasic = true)
    (hopposes : Opposes t p u)
    (hflags : ((Session.start t store).run inputs).engine.flags = ⟨true, true⟩)
    (hfilter : ((Session.start t store).run inputs).engine.filter = none)
    (hfull : ((Session.start t store).run inputs).engine.held.isFull = true)
    (hp : p ∉ ((Session.start t store).run inputs).engine.held.toList)
    (hu : u ∈ ((Session.start t store).run inputs).engine.held.toList)
    (hlift : ∀ input ∈ later, input.edgeOf? p ≠ some .up)
    (hpress : ∀ input ∈ later, input.edgeOf? u ≠ some .down) :
    let full := (Session.start t store).run inputs
    let pressed := (full.key p event).1
    pressed.engine.held.toList = full.engine.held.toList ∧ p ∈ pressed.host ∧ u ∉ pressed.host ∧
    (u ∈ (pressed.run later).host → ∃ past r event' rest,
      later = past ++ .key r event' :: rest ∧ r ≠ p ∧ GivesBack (pressed.run past) r event' u ∧
      .register p ∉ ((pressed.run past).key r event').2.corrections) ∧
    ∀ past r event',
      (GivesBack (pressed.run past) r event' u ↔ event'.edge = .up ∧
        (pressed.run past).engine.flags.recoveryActive = true ∧
        (pressed.run past).engine.admission r event' = .admitted ∧
        Prevails (pressed.run past) r event' u) ∧
      (GivesBack (pressed.run past) r event' u → u ∈ ((pressed.run past).key r event').1.host) := by
  intro full pressed
  have htidy : full.engine.Tidy := Session.tidy_run (Session.tidy_start t store) inputs
  have htable : full.engine.table = t := Session.table_run (Session.tidy_start t store) inputs
  have hadmitted : full.engine.admission p event = .admitted :=
    (Engine.admitted_iff_of_no_filter hfilter).mpr ⟨by rw [hflags], hbasic⟩
  have hpu : u ≠ p := fun e => hp (e ▸ hu)
  obtain ⟨hheld, hpressed⟩ := pressed_when_full hadmitted hdown hfull
  change pressed.engine.held.toList = full.engine.held.toList at hheld
  change ∀ a, a ∈ pressed.host ↔ _ at hpressed
  rw [htable] at hpressed
  have hout : u ∉ pressed.host := by
    rw [hpressed]
    exact not_or.mpr ⟨hpu, fun hin => hin.2 hopposes⟩
  have htidy' : pressed.engine.Tidy := Session.tidy_step htidy (.key p event)
  have hafter : HeldAfter pressed p u := fun _ hin => absurd (hheld ▸ hin) hp
  have htidyrun (past : List (Input σ)) : (pressed.run past).engine.Tidy :=
    Session.tidy_run htidy' past
  refine ⟨hheld, (hpressed p).mpr (Or.inl rfl), hout, ?_, fun past r event' =>
    ⟨givesBack_iff (htidyrun past), fun hback => hback.mem_host (htidyrun past)⟩⟩
  intro hin
  obtain ⟨past, r, event', rest, rfl, hback⟩ := givesBack_of_run htidy' hout hpress hin
  obtain ⟨hpresspast, hpressnow⟩ := List.forall_mem_append.mp hpress
  have htidypast := htidyrun past
  refine ⟨past, r, event', rest, rfl, ?_, hback, ?_⟩
  · rintro rfl
    exact hlift (.key r event') (by simp) (hback.up ▸ Input.edgeOf?_key_self r event')
  · intro hregistered
    -- `p` came into the hold buffer after `u`, if at all, so the pass had to choose between them
    have hbehind : HeldAfter ((pressed.run past).key r event').1 p u :=
      (hafter.run htidy' hpresspast).step htidypast (List.forall_mem_cons.mp hpressnow).1
    have hbefore := hbehind (hback.mem_held htidypast hback.registered)
      (hback.mem_held htidypast hregistered)
    refine hback.unopposed p hregistered hbefore ?_
    have htablepast : (pressed.run past).engine.table = t :=
      (Session.table_run htidy' past).trans ((Session.table_step htidy (.key p event)).trans htable)
    exact htablepast.symm ▸ hopposes

/-- `last`, which is held, keeps `u` away as `r` goes up; `p`, which is not, does not as `last` does. -/
theorem taken_away_when_full_and_given_back :
    let u : Key := ⟨0x04⟩
    let p : Key := ⟨0x0E⟩
    let r : Key := ⟨0x0C⟩
    let last : Key := ⟨0x0D⟩
    let keys : List Key := [u, ⟨0x05⟩, ⟨0x06⟩, ⟨0x07⟩, ⟨0x08⟩, ⟨0x09⟩, ⟨0x0A⟩, ⟨0x0B⟩, r, last]
    let table : List Pair := ⟨p, u⟩ :: ⟨last, u⟩ :: keys.map fun k => ⟨k, p⟩
    let store := ByteStore.ofFlags ⟨true, true⟩
    let inputs : List (Input ByteStore) := keys.map fun k => .key k ⟨.down, none⟩
    let later : List (Input ByteStore) := [.key r ⟨.up, none⟩, .key last ⟨.up, none⟩]
    let full := (Session.start table store).run inputs
    let pressed := (full.key p ⟨.down, none⟩).1
    full.engine.flags = ⟨true, true⟩ ∧ full.engine.held.isFull = true ∧
    p ∉ full.engine.held.toList ∧ u ∈ full.engine.held.toList ∧ Opposes table p u ∧
    u ∉ pressed.host ∧ u ∉ (pressed.run (later.take 1)).host ∧ u ∈ (pressed.run later).host ∧
    ∃ past r' event' rest, later = past ++ .key r' event' :: rest ∧ r' ≠ p ∧
      GivesBack (pressed.run past) r' event' u ∧
      .register p ∉ ((pressed.run past).key r' event').2.corrections := by
  intro u p r last keys table store inputs later full pressed
  have hopposes : Opposes table p u := by decide
  have hflags : full.engine.flags = ⟨true, true⟩ := by decide
  have hfull : full.engine.held.isFull = true := by decide
  have hp : p ∉ full.engine.held.toList := by decide
  have hu : u ∈ full.engine.held.toList := by decide
  have hin : u ∈ (pressed.run later).host := by decide
  obtain ⟨_, _, hout, hback, _⟩ := taken_away_when_full table store inputs later p u ⟨.down, none⟩ rfl
    (by decide) hopposes hflags (by decide) hfull hp hu (by decide) (by decide)
  exact ⟨hflags, hfull, hp, hu, hopposes, hout, by decide, hin, hback hin⟩

/-- Two keys cancel each other. One is held and nine others with it, and the press of the other finds
the hold buffer full. As one of the nine goes up, both are on the host. -/
theorem held_together_when_full :
    let u : Key := ⟨0x04⟩
    let p : Key := ⟨0x0E⟩
    let r : Key := ⟨0x0D⟩
    let space : Key := ⟨0x2C⟩
    let others : List Key := [⟨0x05⟩, ⟨0x06⟩, ⟨0x07⟩, ⟨0x08⟩, ⟨0x09⟩, ⟨0x0A⟩, ⟨0x0B⟩, ⟨0x0C⟩, r]
    let table : List Pair := ⟨u, p⟩ :: ⟨p, u⟩ :: others.map fun k => ⟨k, space⟩
    let store := ByteStore.ofFlags ⟨true, true⟩
    let inputs : List (Input ByteStore) := (u :: others).map fun k => .key k ⟨.down, none⟩
    let press : Input ByteStore := .key p ⟨.down, none⟩
    let lift : Input ByteStore := .key r ⟨.up, none⟩
    let start := Session.start table store
    let full := start.run inputs
    start.Always (fun s => s.engine.flags = ⟨true, true⟩) (inputs ++ [press, lift]) ∧
    full.engine.filter = none ∧ full.engine.held.isFull = true ∧ p ∉ full.engine.held.toList ∧
    u ∈ full.engine.held.toList ∧ p.isBasic = true ∧ p ≠ u ∧ Opposes table p u ∧
    lift.edgeOf? p = none ∧ lift.edgeOf? u = none ∧
    u ∈ (full.run [press, lift]).host ∧ p ∈ (full.run [press, lift]).host := by
  intro u p r space others table store inputs press lift start full
  exact ⟨by decide, by decide, by decide, by decide, by decide, by decide, by decide, by decide,
    by decide, by decide, by decide, by decide⟩

/-- A held key whose release is vetoed leaves the host but not the hold buffer, and stays off the host
until it is pressed again or the release of another key gives it back. -/
theorem off_host_after_veto (t : τ) (store : σ) (inputs later : List (Input σ)) (k : Key)
    (event : Transition) (hup : event.edge = .up)
    (hheld : k ∈ ((Session.start t store).run inputs).engine.held.toList)
    (hvetoed : ((Session.start t store).run inputs).engine.admission k event = .vetoed)
    (hpress : ∀ input ∈ later, input.edgeOf? k ≠ some .down) :
    let before := (Session.start t store).run inputs
    let after := (before.key k event).1
    after.engine = before.engine ∧ k ∉ after.host ∧
    (k ∈ (after.run later).host → ∃ past r event' rest,
      later = past ++ .key r event' :: rest ∧ GivesBack (after.run past) r event' k) := by
  intro before after
  have htidy : before.engine.Tidy := Session.tidy_run (Session.tidy_start t store) inputs
  have hplain : Control.ofKey? k = none :=
    Control.ofKey?_eq_none_of_isBasic (htidy.basic k hheld)
  have hrejected : before.engine.admission k event ≠ .admitted :=
    fun hadmitted => nomatch hvetoed.symm.trans hadmitted
  have hafter : after = { before with host := before.host.deliver k event.edge .pass } :=
    Session.key_of_not_admitted hplain hrejected
  have hengine : after.engine = before.engine := by rw [hafter]
  have hout : k ∉ after.host := by
    rw [hafter, Host.mem_deliver_self, hup]
    decide
  exact ⟨hengine, hout, givesBack_of_run (hengine ▸ htidy) hout hpress⟩

/-- The release of `a` is vetoed while `d` suppresses it, and the release of `d` gives it back. -/
theorem off_host_after_veto_until_given_back :
    let a : Key := ⟨0x04⟩
    let d : Key := ⟨0x07⟩
    let space : Key := ⟨0x2C⟩
    let store := ByteStore.ofFlags ⟨true, true⟩
    let inputs : List (Input ByteStore) := [.filter fun k event => k ≠ a ∨ event.edge = .down,
      .key a ⟨.down, none⟩, .key d ⟨.down, none⟩]
    let later : List (Input ByteStore) := [.key space ⟨.down, none⟩, .key space ⟨.up, none⟩,
      .key d ⟨.up, none⟩]
    let before := (Session.start wasd store).run inputs
    let after := (before.key a ⟨.up, none⟩).1
    a ∈ before.engine.held.toList ∧ before.engine.admission a ⟨.up, none⟩ = .vetoed ∧
    a ∉ after.host ∧ a ∉ (after.run (later.take 2)).host ∧ a ∈ (after.run later).host ∧
    ∃ past r event' rest, later = past ++ .key r event' :: rest ∧
      GivesBack (after.run past) r event' a := by
  intro a d space store inputs later before after
  have hheld : a ∈ before.engine.held.toList := by decide
  have hvetoed : before.engine.admission a ⟨.up, none⟩ = .vetoed := by decide
  have hin : a ∈ (after.run later).host := by decide
  obtain ⟨_, hout, hback⟩ := off_host_after_veto wasd store inputs later a ⟨.up, none⟩ rfl hheld
    hvetoed (by decide)
  exact ⟨hheld, hvetoed, hout, by decide, hin, hback hin⟩

/-- The release of `a` is vetoed. The space bar, which opposes nothing, goes up, and the host holds
`a`, though nobody does. -/
theorem vetoed_release_undone :
    let a : Key := ⟨0x04⟩
    let space : Key := ⟨0x2C⟩
    let store := ByteStore.ofFlags ⟨true, true⟩
    let inputs : List (Input ByteStore) := [.filter fun k event => k ≠ a ∨ event.edge = .down,
      .key a ⟨.down, none⟩, .key space ⟨.down, none⟩]
    let lift : Input ByteStore := .key a ⟨.up, none⟩
    let other : Input ByteStore := .key space ⟨.up, none⟩
    let before := (Session.start wasd store).run inputs
    before.engine.flags.recoveryActive = true ∧ a ∈ before.engine.held.toList ∧
    before.engine.admission a ⟨.up, none⟩ = .vetoed ∧
    a ∉ (before.run [lift]).host ∧ latestEdge? (inputs ++ [lift, other]) a = some .up ∧
    (before.run [lift, other]).host.held = [a] := by
  intro a space store inputs lift other before
  exact ⟨by decide, by decide, by decide, by decide, by decide, by decide⟩

end OpposingKeys
