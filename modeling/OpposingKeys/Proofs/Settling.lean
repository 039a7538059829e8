import Mathlib.Data.List.Induction
import OpposingKeys.Engine
import OpposingKeys.Host
import OpposingKeys.Proofs.Survivors

/-!
# What settling a hold buffer leaves

The pass over a snapshot empties places while it goes through them. For a hold buffer without
duplicates the places that keep their key are those of the survivors (`toList_settle`), so the
corrections register the survivors and release the others (`recover_eq`), and what the host believes
afterwards does not depend on the order of the corrections (`mem_apply_recover`).
-/

namespace OpposingKeys

set_option autoImplicit false

/-- The places of `keys`, emptied where the key does not satisfy `keep`. -/
def masked (keep : Key → Prop) [DecidablePred keep] (keys : List Key) : List (Option Key) :=
  keys.map fun k => if keep k then some k else none

section Masks
variable {keep keep' : Key → Prop} [DecidablePred keep] [DecidablePred keep'] {keys front : List Key}

@[simp] theorem length_masked : (masked keep keys).length = keys.length := List.length_map _

@[simp] theorem masked_nil : masked keep [] = [] := rfl

theorem masked_cons {k : Key} :
    masked keep (k :: keys) = (if keep k then some k else none) :: masked keep keys := rfl

theorem masked_cons_of_pos {k : Key} (h : keep k) :
    masked keep (k :: keys) = some k :: masked keep keys :=
  congrArg (· :: masked keep keys) (if_pos h)

theorem masked_cons_of_neg {k : Key} (h : ¬ keep k) :
    masked keep (k :: keys) = none :: masked keep keys :=
  congrArg (· :: masked keep keys) (if_neg h)

theorem masked_append {keys' : List Key} :
    masked keep (keys ++ keys') = masked keep keys ++ masked keep keys' := List.map_append

theorem masked_congr (h : ∀ k ∈ keys, keep k ↔ keep' k) : masked keep keys = masked keep' keys := by
  apply List.map_congr_left
  intro k hk
  by_cases hkeep : keep k
  · rw [if_pos hkeep, if_pos ((h k hk).mp hkeep)]
  · rw [if_neg hkeep, if_neg fun hkeep' => hkeep ((h k hk).mpr hkeep')]

theorem masked_of_forall (h : ∀ k ∈ keys, keep k) : masked keep keys = keys.map some := by
  apply List.map_congr_left
  intro k hk
  exact if_pos (h k hk)

/-- Emptying the first place of `u`, if `u` has one, is one more condition on the mask. -/
theorem masked_vacate (u : Key) (hnodup : keys.Nodup) :
    (match (masked keep keys).findIdx? (· == some u) with
      | some i => (masked keep keys).set i none
      | none => masked keep keys) = masked (fun k => keep k ∧ k ≠ u) keys := by
  induction keys with
  | nil => rfl
  | cons k later ih =>
    obtain ⟨hk, hlater⟩ := List.nodup_cons.mp hnodup
    replace ih := ih hlater
    rw [masked_cons, masked_cons, List.findIdx?_cons]
    by_cases hhere : keep k ∧ k = u
    · obtain ⟨hkeep, rfl⟩ := hhere
      have hrest : masked (fun a => keep a ∧ a ≠ k) later = masked keep later :=
        masked_congr fun a ha => and_iff_left fun e => hk (e ▸ ha)
      simp [hkeep, hrest]
    · have hhead : ((if keep k then some k else none) == some u) = false := by
        by_cases hkeep : keep k
        · simpa [hkeep] using fun e => hhere ⟨hkeep, e⟩
        · simp [hkeep]
      have hkeep : keep k ∧ k ≠ u ↔ keep k :=
        and_iff_left_of_imp fun hkeep e => hhere ⟨hkeep, e⟩
      rw [hhead, ← ih]
      simp only [hkeep, Bool.false_eq_true, if_false]
      cases (masked keep later).findIdx? (· == some u) with
      | none => rfl
      | some i => rfl

end Masks

section Pass
variable {τ : Type} [Table τ] {capacity : Nat} {t : τ} {held : HoldBuffer capacity}
  {front back : List Key} {rest : List (Option Key)} {s : Snapshot capacity}

theorem toList_vacateBefore_masked {keep : Key → Prop} [DecidablePred keep]
    (hs : s.toList = masked keep front ++ rest) (hnodup : front.Nodup) (u : Key) :
    (s.vacateBefore u front.length).toList = masked (fun k => keep k ∧ k ≠ u) front ++ rest := by
  have htake : s.toList.take front.length = masked keep front := by
    rw [hs]
    exact List.take_left' length_masked
  rw [Snapshot.toList_vacateBefore, Snapshot.position?, htake, ← masked_vacate u hnodup]
  cases hi : (masked keep front).findIdx? (· == some u) with
  | none => exact hs
  | some i =>
    obtain ⟨hlt, _⟩ := List.findIdx?_eq_some_iff_findIdx_eq.mp hi
    rw [hs]
    exact List.set_append_left i none hlt

/-- The pairs of one key, in any order and number, empty the places of their second keys. -/
theorem toList_foldl_vacate {keep : Key → Prop} [DecidablePred keep] (pairs : List Pair)
    (hs : s.toList = masked keep front ++ rest) (hnodup : front.Nodup)
    (hheld : ∀ k ∈ front, k ∈ held.toList) :
    (pairs.foldl (fun s p => if held.contains p.unpress then s.vacateBefore p.unpress front.length
      else s) s).toList = masked (fun k => keep k ∧ ∀ p ∈ pairs, p.unpress ≠ k) front ++ rest := by
  induction pairs generalizing s keep with
  | nil =>
    rw [List.foldl_nil, hs]
    exact congrArg (· ++ rest) (masked_congr fun k _ => (and_iff_left (by simp)).symm)
  | cons p pairs ih =>
    have hnext : (if held.contains p.unpress then s.vacateBefore p.unpress front.length
        else s).toList = masked (fun k => keep k ∧ k ≠ p.unpress) front ++ rest := by
      by_cases hmem : p.unpress ∈ held.toList
      · rw [if_pos (HoldBuffer.contains_iff.mpr hmem)]
        exact toList_vacateBefore_masked hs hnodup p.unpress
      · rw [if_neg fun h => hmem (HoldBuffer.contains_iff.mp h), hs]
        refine congrArg (· ++ rest) (masked_congr fun k hk => (and_iff_left ?_).symm)
        exact fun e => hmem (e ▸ hheld k hk)
    rw [List.foldl_cons, ih hnext]
    refine congrArg (· ++ rest) (masked_congr fun k _ => ?_)
    rw [and_assoc, List.forall_mem_cons, ne_comm]

theorem toList_clearCancelled {keep : Key → Prop} [DecidablePred keep]
    (hs : s.toList = masked keep front ++ rest) (hnodup : front.Nodup)
    (hheld : ∀ k ∈ front, k ∈ held.toList) (p : Key) :
    (clearCancelled t held p front.length s).toList =
      masked (fun k => keep k ∧ ¬ Opposes t p k) front ++ rest := by
  rw [clearCancelled, toList_foldl_vacate (Table.pressing t p) hs hnodup hheld]
  refine congrArg (· ++ rest) (masked_congr fun k _ => and_congr_right fun _ => ?_)
  rw [opposes_iff_pressing]
  simp

/-- The pass at the places before `back`: those of `back` hold its survivors, and those before lack
what these oppose. -/
theorem toList_settleFrom (hheld : held.toList = front ++ back) (hnodup : held.toList.Nodup)
    (hs : s.toList = masked (fun k => ∀ p ∈ survivors t back, ¬ Opposes t p k) front ++
      masked (· ∈ survivors t back) back) :
    (settleFrom t held front.length s).toList =
      masked (· ∈ survivors t held.toList) held.toList := by
  induction front using List.reverseRecOn generalizing back s with
  | nil =>
    rw [List.nil_append] at hheld
    rw [hheld]
    exact hs
  | append_singleton front k ih =>
    rw [List.append_assoc, List.singleton_append] at hheld
    have hparts : (front ++ k :: back).Nodup := hheld ▸ hnodup
    obtain ⟨hfront, hback, _⟩ := List.nodup_append.mp hparts
    obtain ⟨hk, _⟩ := List.nodup_cons.mp hback
    rw [masked_append, List.append_assoc] at hs
    rw [List.length_append, List.length_singleton, settleFrom]
    rcases survivors_cons t k back with ⟨b, hb, hopposes, hkept⟩ | ⟨hfree, hkept⟩
    · -- the place of `k` was emptied by `b`, so the pass goes on
      have hout : ¬ ∀ p ∈ survivors t back, ¬ Opposes t p k := fun hfree => hfree b hb hopposes
      rw [masked_cons_of_neg hout, masked_nil, List.singleton_append] at hs
      have hget : s.get? front.length = none := by
        rw [Snapshot.get?, hs, List.getElem?_append_right (by simp)]
        simp
      rw [hget]
      apply ih hheld
      rw [hs, hkept, masked_cons_of_neg fun h => hk (mem_of_mem_survivors h)]
    · -- `k` survives, so it empties what it opposes before its place
      rw [masked_cons_of_pos hfree, masked_nil, List.singleton_append] at hs
      have hget : s.get? front.length = some k := by
        rw [Snapshot.get?, hs, List.getElem?_append_right (by simp)]
        simp
      rw [hget]
      apply ih hheld
      have hmem : ∀ a ∈ front, a ∈ held.toList :=
        fun a ha => hheld ▸ List.mem_append_left _ ha
      have hfirst : masked (fun a => (∀ p ∈ survivors t back, ¬ Opposes t p a) ∧ ¬ Opposes t k a)
          front = masked (fun a => ∀ p ∈ k :: survivors t back, ¬ Opposes t p a) front :=
        masked_congr fun a _ => by rw [List.forall_mem_cons, and_comm]
      have hsecond : masked (· ∈ k :: survivors t back) back =
          masked (· ∈ survivors t back) back :=
        masked_congr fun a ha =>
          List.mem_cons.trans (or_iff_right fun e => hk (e ▸ ha))
      rw [toList_clearCancelled hs hfront hmem, hkept, hfirst,
        masked_cons_of_pos List.mem_cons_self, hsecond]

/-- After the pass exactly the survivors keep their places. -/
theorem toList_settle (t : τ) (hnodup : held.toList.Nodup) :
    (settle t held).toList = masked (· ∈ survivors t held.toList) held.toList := by
  rw [settle, ← HoldBuffer.length_toList held]
  have hparts : held.toList = held.toList ++ [] := (List.append_nil _).symm
  apply toList_settleFrom hparts hnodup
  have hfree : ∀ k ∈ held.toList, ∀ p ∈ survivors t [], ¬ Opposes t p k :=
    fun _ _ _ hp => absurd hp List.not_mem_nil
  rw [HoldBuffer.toList_snapshot, masked_of_forall hfree, masked_nil, List.append_nil]

theorem get?_settle (t : τ) (hnodup : held.toList.Nodup) {i : Nat} {k : Key}
    (hk : held.toList[i]? = some k) :
    (settle t held).get? i = if k ∈ survivors t held.toList then some k else none := by
  rw [Snapshot.get?, toList_settle t hnodup, masked, List.getElem?_map, hk]
  rfl

/-- What becomes of one held key: it is registered if `keep` holds of it and released if not. -/
def verdict (keep : Key → Prop) [DecidablePred keep] (k : Key) : Correction :=
  if keep k then .register k else .release k

@[simp] theorem key_verdict (keep : Key → Prop) [DecidablePred keep] (k : Key) :
    (verdict keep k).key = k := by
  unfold verdict
  split <;> rfl

theorem recover_eq (t : τ) (hnodup : held.toList.Nodup) :
    recover t held = held.toList.map (verdict (· ∈ survivors t held.toList)) := by
  have hcorrection : ∀ place ∈ held.toList.zipIdx, correctionAt (settle t held) place =
      some (verdict (· ∈ survivors t held.toList) place.1) := by
    intro place hplace
    rw [correctionAt, get?_settle t hnodup (List.mem_zipIdx_iff_getElem?.mp hplace), verdict]
    by_cases hkept : place.1 ∈ survivors t held.toList
    · simp only [if_pos hkept, if_true]
    · simp only [if_neg hkept]
  calc recover t held
      = held.toList.zipIdx.filterMap fun place =>
          some (verdict (· ∈ survivors t held.toList) place.1) := List.filterMap_congr hcorrection
    _ = held.toList.zipIdx.map (verdict (· ∈ survivors t held.toList) ∘ Prod.fst) :=
          congrFun List.filterMap_eq_map' held.toList.zipIdx
    _ = held.toList.map (verdict (· ∈ survivors t held.toList)) := by
          rw [← List.map_map, List.zipIdx_map_fst]

end Pass

section Hosts
variable {host : Host} {a : Key}

/-- The order and number of the verdicts do not matter to the host. -/
theorem mem_apply_verdicts {keep : Key → Prop} [DecidablePred keep] {keys : List Key} :
    a ∈ host.apply (keys.map (verdict keep)) ↔ (a ∈ host ∧ a ∉ keys) ∨ (a ∈ keys ∧ keep a) := by
  induction keys generalizing host with
  | nil => simp
  | cons k later ih =>
    rw [List.map_cons, Host.apply_cons, ih]
    by_cases hkeep : keep k
    · have hhost : a ∈ host.correct (verdict keep k) ↔ a = k ∨ a ∈ host := by
        rw [verdict, if_pos hkeep]
        exact Host.mem_register
      rw [hhost, List.mem_cons]
      by_cases hak : a = k
      · subst hak
        by_cases ha : a ∈ later <;> simp [ha, hkeep]
      · simp [hak]
    · have hhost : a ∈ host.correct (verdict keep k) ↔ a ∈ host ∧ a ≠ k := by
        rw [verdict, if_neg hkeep]
        exact Host.mem_release
      rw [hhost, List.mem_cons]
      by_cases hak : a = k
      · subst hak
        by_cases ha : a ∈ later <;> simp [ha, hkeep]
      · simp [hak]

theorem mem_apply_releases {pairs : List Pair} :
    a ∈ host.apply (pairs.map fun p => .release p.unpress) ↔
      a ∈ host ∧ ∀ p ∈ pairs, p.unpress ≠ a := by
  induction pairs generalizing host with
  | nil => simp
  | cons p pairs ih =>
    rw [List.map_cons, Host.apply_cons, ih, List.forall_mem_cons, ← and_assoc]
    exact and_congr_left fun _ => Host.mem_release.trans (and_congr_right fun _ => ne_comm)

theorem mem_apply_recover {τ : Type} [Table τ] (t : τ) {capacity : Nat}
    {held : HoldBuffer capacity} (hnodup : held.toList.Nodup) :
    a ∈ host.apply (recover t held) ↔
      (a ∈ host ∧ a ∉ held.toList) ∨ a ∈ survivors t held.toList := by
  rw [recover_eq t hnodup, mem_apply_verdicts]
  exact or_congr_right (and_iff_right_of_imp mem_of_mem_survivors)

end Hosts

end OpposingKeys
