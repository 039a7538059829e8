import OpposingKeys.Proofs.GhostKeys

/-!
# A clean slate

Once all keys are up, nothing that happened before matters but the modes and the filter: the host is
empty, and from there on the engine does what a new one would do (`starts_afresh`). The hold buffers of
the two may differ while recovery is not in force, since nobody reads them then, and both are empty as
it comes into force. So `Alike` asks for the same held keys only while it is.
-/

namespace OpposingKeys

set_option autoImplicit false

theorem HoldBuffer.accepts_congr {capacity : Nat} {b b' : HoldBuffer capacity}
    (h : b'.toList = b.toList) (k : Key) : b'.accepts k = b.accepts k := by
  rw [Bool.eq_iff_iff, accepts_iff, accepts_iff, h]

variable {τ σ : Type} [Table τ]

/-- The same modes and filter, and the same held keys while recovery is in force. -/
structure Engine.Alike (e e' : Engine τ σ) : Prop where
  tidy : e.Tidy
  tidy' : e'.Tidy
  table_eq : e'.table = e.table
  flags_eq : e'.flags = e.flags
  filter_eq : e'.filter = e.filter
  held_eq : e.flags.recoveryActive = true → e'.held.toList = e.held.toList

namespace Engine.Alike
variable {e e' : Engine τ σ} {k : Key} {event : Transition}

theorem corrections_press_eq (h : e.Alike e') (k : Key) :
    (e'.press k).corrections = (e.press k).corrections := by
  rw [corrections_press, corrections_press, cancellations, cancellations, h.table_eq]

theorem heldOnPress_eq (h : e.Alike e') (hactive : e.flags.recoveryActive = true) (k : Key) :
    (e'.heldOnPress k).toList = (e.heldOnPress k).toList := by
  have hheld := h.held_eq hactive
  rw [heldOnPress, heldOnPress, h.flags_eq, if_pos hactive, if_pos hactive, toList_hold,
    toList_hold, h.table_eq, HoldBuffer.accepts_congr hheld, hheld]

theorem press (h : e.Alike e') (hbasic : k.isBasic = true) :
    (e.press k).engine.Alike (e'.press k).engine := by
  rw [engine_press, engine_press]
  exact {
    tidy := tidy_heldOnPress h.tidy hbasic
    tidy' := tidy_heldOnPress h.tidy' hbasic
    table_eq := h.table_eq
    flags_eq := h.flags_eq
    filter_eq := h.filter_eq
    held_eq := fun hactive => h.heldOnPress_eq hactive k }

theorem heldOnLift_eq (h : e.Alike e') (hactive : e.flags.recoveryActive = true) (k : Key) :
    (e'.heldOnLift k).toList = (e.heldOnLift k).toList := by
  rw [toList_heldOnLift h.tidy', toList_heldOnLift h.tidy, h.held_eq hactive]

theorem lift (h : e.Alike e') (k : Key) :
    (e.lift k).engine.Alike (e'.lift k).engine ∧
      (e'.lift k).corrections = (e.lift k).corrections := by
  cases hactive : e.flags.recoveryActive with
  | false =>
    have hinactive' : e'.flags.recoveryActive = false := h.flags_eq ▸ hactive
    rw [lift_of_inactive hactive k, lift_of_inactive hinactive' k]
    exact ⟨h, rfl⟩
  | true =>
    have hactive' : e'.flags.recoveryActive = true := h.flags_eq ▸ hactive
    have hheld := h.heldOnLift_eq hactive k
    constructor
    · rw [engine_lift hactive, engine_lift hactive']
      exact {
        tidy := tidy_heldOnLift h.tidy k
        tidy' := tidy_heldOnLift h.tidy' k
        table_eq := h.table_eq
        flags_eq := h.flags_eq
        filter_eq := h.filter_eq
        held_eq := fun _ => hheld }
    · rw [corrections_lift hactive, corrections_lift hactive',
        recover_eq _ (nodup_heldOnLift h.tidy' k), recover_eq _ (nodup_heldOnLift h.tidy k), hheld,
        h.table_eq]

variable [SettingsStore σ]

theorem turn (h : e.Alike e') (control : Control) :
    (e.turn control).engine.Alike (e'.turn control).engine where
  tidy := tidy_turn h.tidy control
  tidy' := tidy_turn h.tidy' control
  table_eq := h.table_eq
  flags_eq := congrArg (Flags.apply · control) h.flags_eq
  filter_eq := h.filter_eq
  held_eq hactive := by
    replace hactive : (e.flags.apply control).recoveryActive = true := hactive
    rw [toList_held_turn, toList_held_turn, h.flags_eq, hactive]
    cases hbefore : e.flags.recoveryActive with
    -- recovery comes into force, and both hold buffers are emptied
    | false => rfl
    | true => exact h.held_eq hbefore

theorem process (h : e.Alike e') (k : Key) (event : Transition) :
    (e.process k event).engine.Alike (e'.process k event).engine ∧
      (e'.process k event).corrections = (e.process k event).corrections := by
  have hadmission := admission_congr h.flags_eq h.filter_eq k event
  unfold Engine.process
  rw [hadmission]
  cases Control.ofKey? k with
  | some control =>
    cases event.edge with
    | down => exact ⟨h.turn control, rfl⟩
    | up => exact ⟨h, rfl⟩
  | none =>
    cases hadmitted : e.admission k event with
    | disabled => exact ⟨h, rfl⟩
    | notBasic => exact ⟨h, rfl⟩
    | vetoed => exact ⟨h, rfl⟩
    | admitted =>
      cases event.edge with
      | down => exact ⟨h.press (admission_eq_admitted_iff.mp hadmitted).2.1, h.corrections_press_eq k⟩
      | up => exact h.lift k

end Engine.Alike

/-- Engines that are alike behind hosts that are equal. -/
structure Session.Alike (s s' : Session τ σ) : Prop where
  engine : s.engine.Alike s'.engine
  host_eq : s'.host = s.host

def Response.Agrees (r r' : Response) : Prop :=
  r'.action = r.action ∧ r'.corrections = r.corrections

namespace Session.Alike
variable {s s' : Session τ σ} {k : Key} {event : Transition} {input : Input σ} [SettingsStore σ]

theorem key (h : s.Alike s') (k : Key) (event : Transition) :
    (s.key k event).1.Alike (s'.key k event).1 ∧
      (s.key k event).2.Agrees (s'.key k event).2 := by
  obtain ⟨hengine, hcorrections⟩ := h.engine.process k event
  have haction : (s'.engine.process k event).action = (s.engine.process k event).action := by
    rw [(s'.engine.handling k event).action_eq, (s.engine.handling k event).action_eq]
  refine ⟨⟨hengine, ?_⟩, congrArg some haction, hcorrections⟩
  simp only [Session.key, haction, hcorrections, h.host_eq]

theorem step (h : s.Alike s') (hinput : input.isRestart = false) :
    (s.step input).1.Alike (s'.step input).1 ∧ (s.step input).2.Agrees (s'.step input).2 := by
  cases input with
  | key k event => exact h.key k event
  | control control => exact ⟨⟨h.engine.turn control, h.host_eq⟩, rfl, rfl⟩
  | restart => exact Bool.noConfusion hinput
  | filter f =>
    exact ⟨⟨{ h.engine with
      tidy := Session.tidy_step h.engine.tidy (.filter f)
      tidy' := Session.tidy_step h.engine.tidy' (.filter f)
      filter_eq := rfl }, h.host_eq⟩, rfl, rfl⟩
  | listen listener =>
    exact ⟨⟨{ h.engine with
      tidy := Session.tidy_step h.engine.tidy (.listen listener)
      tidy' := Session.tidy_step h.engine.tidy' (.listen listener) }, h.host_eq⟩, rfl, rfl⟩
  | adjust change =>
    exact ⟨⟨{ h.engine with
      tidy := Session.tidy_step h.engine.tidy (.adjust change)
      tidy' := Session.tidy_step h.engine.tidy' (.adjust change) }, h.host_eq⟩, rfl, rfl⟩

theorem run {inputs : List (Input σ)} (h : s.Alike s')
    (hinputs : ∀ input ∈ inputs, input.isRestart = false) : (s.run inputs).Alike (s'.run inputs) := by
  induction inputs generalizing s s' with
  | nil => exact h
  | cons input inputs ih =>
    obtain ⟨hinput, hinputs⟩ := List.forall_mem_cons.mp hinputs
    exact ih (h.step hinput).1 hinputs

end Session.Alike

/-- A new engine in given modes, and a host that holds nothing. -/
def Session.fresh (table : τ) (modes : Modes σ) (filter : Option Filter) : Session τ σ :=
  { engine := { table, modes, filter } }

example [SettingsStore σ] (table : τ) (store : σ) :
    Session.start table store = Session.fresh table (.start store) none := rfl

namespace Live
variable {past : List (Input σ)} {s : Session τ σ}

/-- While no key is down, the host holds none, and neither does a hold buffer in use. -/
theorem host_eq_empty (h : Live past s)
    (hup : ∀ k, Control.ofKey? k = none → ¬ IsDown past k) : s.host = .empty := by
  apply Host.ext_mem
  intro k
  exact ⟨fun hk => absurd (h.host_down k hk) (hup k (h.host_plain k hk)),
    fun hk => absurd hk (Host.not_mem_empty k)⟩

theorem held_eq_nil (h : Live past s) (hup : ∀ k, Control.ofKey? k = none → ¬ IsDown past k)
    (hactive : s.engine.flags.recoveryActive = true) : s.engine.held.toList = [] := by
  apply List.eq_nil_iff_forall_not_mem.mpr
  intro k hk
  exact hup k (h.held_plain hk) (h.held_down hactive k hk)

theorem alike_fresh (h : Live past s) (hup : ∀ k, Control.ofKey? k = none → ¬ IsDown past k)
    (modes : Modes σ) (hflags : modes.flags = s.engine.flags) :
    s.Alike (.fresh s.engine.table modes s.engine.filter) where
  engine := {
    tidy := h.tidy
    tidy' := Engine.tidy_of_nil rfl
    table_eq := rfl
    flags_eq := hflags
    filter_eq := rfl
    held_eq := fun hactive => (h.held_eq_nil hup hactive).symm }
  host_eq := (h.host_eq_empty hup).symm

end Live

variable [SettingsStore σ]

/-- Once all keys are up the host is empty, and from there on a new engine in the same modes and with
the same filter behaves alike, whatever the old one has in its hold buffer. -/
theorem starts_afresh (t : τ) (store : σ) (inputs later : List (Input σ)) (input : Input σ)
    (modes : Modes σ) (hfits : Throughout FilterFits inputs)
    (hup : ∀ k, Control.ofKey? k = none → latestEdge? inputs k ≠ some .down)
    (hmodes : modes.flags = ((Session.start t store).run inputs).engine.flags)
    (hlater : ∀ a ∈ later, a.isRestart = false) (hinput : input.isRestart = false) :
    let s := (Session.start t store).run inputs
    let old := (s.run later).step input
    let new := ((Session.fresh t modes s.engine.filter).run later).step input
    s.host = .empty ∧ new.2.action = old.2.action ∧ new.2.corrections = old.2.corrections ∧
      new.1.engine.flags = old.1.engine.flags ∧ new.1.host = old.1.host := by
  intro s old new
  have hlive : Live inputs s := Live.run t store hfits
  have htable : s.engine.table = t := Session.table_run (Session.tidy_start t store) inputs
  have halike : s.Alike (.fresh t modes s.engine.filter) :=
    htable ▸ hlive.alike_fresh hup modes hmodes
  obtain ⟨hnext, haction, hcorrections⟩ := (halike.run hlater).step hinput
  exact ⟨hlive.host_eq_empty hup, haction, hcorrections, hnext.engine.flags_eq, hnext.host_eq⟩

/-- `a` goes up while cancellation is off, and the hold buffer keeps it. It plays no part when
cancellation comes back. -/
theorem starts_afresh_with_stale_buffer :
    let a : Key := ⟨0x04⟩
    let d : Key := ⟨0x07⟩
    let w : Key := ⟨0x1A⟩
    let store := ByteStore.ofFlags ⟨true, true⟩
    let modes : Modes ByteStore := { flags := ⟨false, true⟩, store := {} }
    let inputs : List (Input ByteStore) := [.filter fun k _ => k ≠ w, .key a ⟨.down, none⟩,
      .key (Control.key ⟨.cancellation, .off⟩) ⟨.down, none⟩, .key a ⟨.up, none⟩]
    let later : List (Input ByteStore) := [.key w ⟨.down, none⟩, .control ⟨.cancellation, .toggle⟩,
      .key d ⟨.down, none⟩, .key w ⟨.up, none⟩]
    let input : Input ByteStore := .key a ⟨.down, none⟩
    let s := (Session.start wasd store).run inputs
    let old := (s.run later).step input
    let new := ((Session.fresh wasd modes s.engine.filter).run later).step input
    Throughout FilterFits inputs ∧
    (∀ k, Control.ofKey? k = none → latestEdge? inputs k ≠ some .down) ∧
    modes.flags = s.engine.flags ∧ s.engine.held.toList = [a] ∧
    s.host = .empty ∧ old.2.corrections = [.release d] ∧
    new.2.corrections = old.2.corrections ∧ new.1.host = old.1.host := by
  intro a d w store modes inputs later input s old new
  have hfits : Throughout FilterFits inputs := by
    intro n hn
    match n, hn with
    | 0, _ => exact ⟨fun _ _ _ => rfl, fun _ h => absurd h List.not_mem_nil⟩
    | 1, _ | 2, _ | 3, _ => trivial
  have hup : ∀ k, Control.ofKey? k = none → latestEdge? inputs k ≠ some .down := by
    -- only a key that some input pressed can be down, so those alone have to be looked at
    intro k hplain hdown
    have hpressed : ∀ input ∈ inputs, ∀ k ∈ input.pressed?, Control.ofKey? k = none →
        ¬ IsDown inputs k := by decide
    obtain ⟨input, hmem, hk⟩ := IsDown.exists_pressed hdown
    exact hpressed input hmem k hk hplain hdown
  have hmodes : modes.flags = s.engine.flags := by decide
  obtain ⟨hempty, _, hcorrections, _, hhost⟩ := starts_afresh wasd store inputs later input modes
    hfits hup hmodes (by decide) (by decide)
  exact ⟨hfits, hup, hmodes, by decide, hempty, by decide, hcorrections, hhost⟩

end OpposingKeys
