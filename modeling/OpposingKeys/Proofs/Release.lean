import OpposingKeys.Proofs.Moves

/-!
# The corrections of a release

A release that is handled while recovery is in force gives one correction for each key that is still
held. `Settled` says which: a key is registered exactly if no later registered key opposes it. These
are local rules about places; that they leave one choice only is said by its field `kernel_iff`.
-/

namespace OpposingKeys

set_option autoImplicit false

/-- What the corrections of a release do to the keys of `held`, place by place. -/
structure Settled {τ : Type} [Table τ] (t : τ) {capacity : Nat} (held : HoldBuffer capacity)
    (corrections : List Correction) : Prop where
  /-- There is one correction for each held key, in order, and none for any other key. -/
  keys : corrections.map Correction.key = held.toList
  nodup : held.toList.Nodup
  registered_iff : ∀ (i : Nat) (k : Key), held.toList[i]? = some k →
    (corrections[i]? = some (Correction.register k) ↔ ∀ (j : Nat) (b : Key), i < j →
      held.toList[j]? = some b → corrections[j]? = some (Correction.register b) → ¬ Opposes t b k)
  released_iff : ∀ (i : Nat) (k : Key), held.toList[i]? = some k →
    (corrections[i]? = some (Correction.release k) ↔
      corrections[i]? ≠ some (Correction.register k))
  kernel_iff : ∀ kept : Set Key,
    IsKernel t held.toList kept ↔ kept = {k | .register k ∈ corrections}
  /-- After the pass a place is empty or holds its own key. -/
  place : ∀ (i : Nat) (k : Key), held.toList[i]? = some k →
    (settle t held).get? i = none ∨ (settle t held).get? i = some k

section Verdicts
variable {keep : Key → Prop} [DecidablePred keep] {keys : List Key} {k a : Key} {i : Nat}

theorem verdict_eq_register_iff : verdict keep k = .register a ↔ k = a ∧ keep k := by
  unfold verdict
  split
  · next h => simp [h]
  · next h => simp [h]

theorem verdict_eq_release_iff : verdict keep k = .release k ↔ ¬ verdict keep k = .register k := by
  unfold verdict
  split <;> simp

theorem register_mem_verdicts : .register k ∈ keys.map (verdict keep) ↔ k ∈ keys ∧ keep k := by
  constructor
  · intro h
    obtain ⟨a, ha, heq⟩ := List.mem_map.mp h
    obtain ⟨rfl, hkeep⟩ := verdict_eq_register_iff.mp heq
    exact ⟨ha, hkeep⟩
  · rintro ⟨hk, hkeep⟩
    exact List.mem_map.mpr ⟨k, hk, verdict_eq_register_iff.mpr ⟨rfl, hkeep⟩⟩

theorem getElem?_verdicts (hk : keys[i]? = some k) :
    (keys.map (verdict keep))[i]? = some (verdict keep k) := by
  rw [List.getElem?_map, hk, Option.map_some]

theorem getElem?_verdicts_eq_register_iff (hk : keys[i]? = some k) :
    (keys.map (verdict keep))[i]? = some (.register k) ↔ keep k := by
  rw [getElem?_verdicts hk, Option.some.injEq, verdict_eq_register_iff]
  exact and_iff_right rfl

end Verdicts

section Settling
variable {τ : Type} [Table τ] {capacity : Nat} {held : HoldBuffer capacity} {k : Key}

theorem register_mem_recover_iff (t : τ) (hnodup : held.toList.Nodup) :
    .register k ∈ recover t held ↔ k ∈ survivors t held.toList := by
  rw [recover_eq t hnodup, register_mem_verdicts]
  exact and_iff_right_of_imp mem_of_mem_survivors

theorem settled_recover (t : τ) (hnodup : held.toList.Nodup) :
    Settled t held (recover t held) := by
  have hcorrections := recover_eq t hnodup
  constructor
  · rw [hcorrections, List.map_map]
    exact (List.map_congr_left fun k _ => key_verdict _ k).trans (List.map_id _)
  · exact hnodup
  · intro i k hk
    rw [hcorrections, getElem?_verdicts_eq_register_iff hk,
      mem_survivors_iff hnodup (List.mem_of_getElem? hk)]
    constructor
    · intro hfree j b hij hb hregistered
      have hbefore : Before held.toList k b := (before_iff_of_getElem? hnodup hk).mpr ⟨j, hij, hb⟩
      exact hfree b ((getElem?_verdicts_eq_register_iff hb).mp hregistered) hbefore
    · intro hfree b hsurvives hbefore
      obtain ⟨j, hij, hb⟩ := (before_iff_of_getElem? hnodup hk).mp hbefore
      exact hfree j b hij hb ((getElem?_verdicts_eq_register_iff hb).mpr hsurvives)
  · intro i k hk
    rw [hcorrections, getElem?_verdicts hk, Option.some.injEq, ne_eq, Option.some.injEq]
    exact verdict_eq_release_iff
  · intro kept
    have hset : {k | .register k ∈ recover t held} = {k | k ∈ survivors t held.toList} :=
      Set.ext fun k => register_mem_recover_iff t hnodup
    rw [isKernel_iff hnodup, hset]
  · intro i k hk
    rw [get?_settle t hnodup hk]
    split
    · exact Or.inr rfl
    · exact Or.inl rfl

end Settling

variable {τ σ : Type} [Table τ] [SettingsStore σ]

theorem key_lift {s : Session τ σ} {r : Key} {event : Transition} (hup : event.edge = .up)
    (hactive : s.engine.flags.recoveryActive = true)
    (hadmitted : s.engine.admission r event = .admitted) :
    s.key r event =
      ({ engine := { s.engine with held := s.engine.heldOnLift r }
         host := (s.host.apply (recover s.engine.table (s.engine.heldOnLift r))).release r },
       { action := some .pass
         corrections := recover s.engine.table (s.engine.heldOnLift r)
         notices := (s.engine.lift r).notices
         calls := (s.engine.lift r).calls }) := by
  have hbasic := (Engine.admission_eq_admitted_iff.mp hadmitted).2.1
  have hplain := Control.ofKey?_eq_none_of_isBasic hbasic
  simp only [Session.key, Engine.process, hplain, hadmitted, hup, Engine.engine_lift hactive,
    Engine.action_lift, Engine.corrections_lift hactive]
  rfl

/-- In every reachable state with recovery in force and on every host, a release that is handled
settles the keys that are still held, and the host follows. -/
theorem release_settles (t : τ) (store : σ) (inputs : List (Input σ)) (host : Host) (r : Key)
    (event : Transition) (hup : event.edge = .up) (hbasic : r.isBasic = true)
    (hactive : ((Session.start t store).run inputs).engine.flags.recoveryActive = true)
    (hadmits : ∀ f ∈ ((Session.start t store).run inputs).engine.filter, f r event = true) :
    let before : Session τ σ := { engine := ((Session.start t store).run inputs).engine, host }
    let after := (before.key r event).1
    let response := (before.key r event).2
    response.action = some .pass ∧
    after.engine.held.toList = before.engine.held.toList.erase r ∧
    r ∉ after.engine.held.toList ∧
    (after.engine.held.toList = [] →
      response.corrections = [] ∧ after.host = host.release r) ∧
    Settled t after.engine.held response.corrections ∧
    ∀ a, a ∈ after.host ↔ ((a ∈ host ∧ a ∉ after.engine.held.toList) ∨
      .register a ∈ response.corrections) ∧ a ≠ r := by
  intro before after response
  have htable : before.engine.table = t :=
    Session.table_run (Session.tidy_start t store) inputs
  have htidy : before.engine.Tidy := Session.tidy_run (Session.tidy_start t store) inputs
  have hon : before.engine.flags.cancellation = true := (Bool.and_eq_true_iff.mp hactive).1
  have hkey := key_lift (s := before) hup hactive
    (Engine.admission_eq_admitted_iff.mpr ⟨hon, hbasic, hadmits⟩)
  have hnodup := Engine.nodup_heldOnLift htidy r
  rw [htable] at hkey
  simp only [after, response, hkey]
  refine ⟨trivial, Engine.toList_heldOnLift htidy r, Engine.not_mem_heldOnLift htidy r, ?_,
    settled_recover t hnodup, ?_⟩
  · intro hnil
    rw [Engine.recover_of_nil t hnil]
    exact ⟨rfl, rfl⟩
  · intro a
    rw [Host.mem_release, mem_apply_recover t hnodup, register_mem_recover_iff t hnodup]

/-- Three keys that cancel each other in a cycle are held, and a fourth goes up. -/
theorem release_settles_cycle :
    let a : Key := ⟨0x04⟩
    let b : Key := ⟨0x05⟩
    let c : Key := ⟨0x06⟩
    let space : Key := ⟨0x2C⟩
    let cycle : List Pair := [⟨a, b⟩, ⟨b, c⟩, ⟨c, a⟩, ⟨c, c⟩, ⟨a, b⟩]
    let store := ByteStore.ofFlags ⟨true, true⟩
    let inputs : List (Input ByteStore) := [.key a ⟨.down, none⟩, .key b ⟨.down, none⟩,
      .key c ⟨.down, none⟩]
    let before : Session (List Pair) ByteStore :=
      { engine := ((Session.start cycle store).run inputs).engine }
    let after := before.key space ⟨.up, none⟩
    space.isBasic = true ∧ before.engine.flags.recoveryActive = true ∧
    (∀ f ∈ before.engine.filter, f space ⟨.up, none⟩ = true) ∧
    after.2.corrections = [.release a, .register b, .register c] ∧
    Settled cycle after.1.engine.held after.2.corrections := by
  intro a b c space cycle store inputs before after
  have hbasic : space.isBasic = true := by decide
  have hactive : before.engine.flags.recoveryActive = true := by decide
  have hadmits : ∀ f ∈ before.engine.filter, f space ⟨.up, none⟩ = true := by decide
  have hsettles := release_settles cycle store inputs .empty space ⟨.up, none⟩ rfl hbasic hactive
    hadmits
  exact ⟨hbasic, hactive, hadmits, by decide, hsettles.2.2.2.2.1⟩

end OpposingKeys
