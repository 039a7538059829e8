import Mathlib.Data.List.NodupEquivFin
import Mathlib.Data.Set.Basic
import OpposingKeys.Table

/-!
# Survivors of a list of keys

A table is read here as a relation: `Opposes t p u` says that `p` cancels `u`. Any relation will do,
cycles and keys that oppose themselves included. From a list of keys, first pressed first, those
survive that no later survivor opposes. `survivors` decides this from the back of the list. The main
statement is `isKernel_iff`: in a list without duplicates the survivors are the only choice of keys
in which no member opposes an earlier one and each key left out is opposed by a later member.
-/

namespace OpposingKeys

set_option autoImplicit false

variable {τ : Type} [Table τ]

/-- The table has a pair that lets `p` cancel `u`. -/
def Opposes (t : τ) (p u : Key) : Prop := (⟨p, u⟩ : Pair) ∈ Table.pairs t

instance (t : τ) (p u : Key) : Decidable (Opposes t p u) :=
  inferInstanceAs (Decidable ((⟨p, u⟩ : Pair) ∈ Table.pairs t))

theorem opposes_iff_pressing {t : τ} {p u : Key} :
    Opposes t p u ↔ ∃ q ∈ Table.pressing t p, q.unpress = u := by
  constructor
  · intro h
    exact ⟨⟨p, u⟩, Table.mem_pressing.mpr ⟨h, rfl⟩, rfl⟩
  · rintro ⟨q, hq, rfl⟩
    obtain ⟨hmem, rfl⟩ := Table.mem_pressing.mp hq
    exact hmem

theorem cancels_of_opposes {t : τ} {p u : Key} (h : Opposes t p u) : Table.cancels t p = true :=
  Table.cancels_iff.mpr ⟨⟨p, u⟩, h, rfl⟩

/-- `a` stands before `b` in the list. -/
def Before (keys : List Key) (a b : Key) : Prop :=
  ∃ i j : Nat, i < j ∧ keys[i]? = some a ∧ keys[j]? = some b

section Order
variable {keys later : List Key} {k a b : Key}

theorem Before.mem_left (h : Before keys a b) : a ∈ keys := by
  obtain ⟨i, j, _, ha, _⟩ := h
  exact List.mem_of_getElem? ha

theorem Before.mem_right (h : Before keys a b) : b ∈ keys := by
  obtain ⟨i, j, _, _, hb⟩ := h
  exact List.mem_of_getElem? hb

theorem before_cons_self (hb : b ∈ later) : Before (k :: later) k b := by
  obtain ⟨j, hj⟩ := List.mem_iff_getElem?.mp hb
  exact ⟨0, j + 1, by omega, rfl, hj⟩

theorem Before.cons (h : Before later a b) : Before (k :: later) a b := by
  obtain ⟨i, j, hij, ha, hb⟩ := h
  exact ⟨i + 1, j + 1, by omega, ha, hb⟩

theorem Before.mem_tail (h : Before (k :: later) a b) : b ∈ later := by
  obtain ⟨i, j, hij, _, hb⟩ := h
  obtain ⟨j, rfl⟩ : ∃ n, j = n + 1 := ⟨j - 1, by omega⟩
  exact List.mem_of_getElem? hb

theorem Before.of_cons (h : Before (k :: later) a b) (hne : a ≠ k) : Before later a b := by
  obtain ⟨i, j, hij, ha, hb⟩ := h
  obtain ⟨j, rfl⟩ : ∃ n, j = n + 1 := ⟨j - 1, by omega⟩
  cases i with
  | zero => exact absurd (Option.some.inj ha).symm hne
  | succ i => exact ⟨i, j, by omega, ha, hb⟩

/-- What holds of every two places in order holds of keys in order. -/
theorem Before.rel {R : Key → Key → Prop} (hR : keys.Pairwise R) (h : Before keys a b) : R a b := by
  obtain ⟨i, j, hij, ha, hb⟩ := h
  obtain ⟨hi, rfl⟩ := List.getElem?_eq_some_iff.mp ha
  obtain ⟨hj, rfl⟩ := List.getElem?_eq_some_iff.mp hb
  exact List.pairwise_iff_getElem.mp hR i j hi hj hij

/-- In a list that a strict order sorts, keys that it orders stand in that order. -/
theorem before_of_rel {R : Key → Key → Prop} (hR : keys.Pairwise R)
    (hasymm : ∀ a b, R a b → ¬ R b a) (ha : a ∈ keys) (hb : b ∈ keys) (hab : R a b) :
    Before keys a b := by
  obtain ⟨i, hi, rfl⟩ := List.getElem_of_mem ha
  obtain ⟨j, hj, rfl⟩ := List.getElem_of_mem hb
  rcases Nat.lt_trichotomy i j with hij | rfl | hij
  · exact ⟨i, j, hij, List.getElem?_eq_getElem hi, List.getElem?_eq_getElem hj⟩
  · exact absurd hab (hasymm _ _ hab)
  · exact absurd (List.pairwise_iff_getElem.mp hR j i hj hi hij) (hasymm _ _ hab)

theorem before_iff_of_getElem? (hnodup : keys.Nodup) {i : Nat} (ha : keys[i]? = some a) :
    Before keys a b ↔ ∃ j, i < j ∧ keys[j]? = some b := by
  constructor
  · rintro ⟨i', j, hij, ha', hb⟩
    obtain ⟨hi, hia⟩ := List.getElem?_eq_some_iff.mp ha
    obtain ⟨hi', hia'⟩ := List.getElem?_eq_some_iff.mp ha'
    obtain rfl : i' = i := hnodup.getElem_inj_iff.mp (hia'.trans hia.symm)
    exact ⟨j, hij, hb⟩
  · rintro ⟨j, hij, hb⟩
    exact ⟨i, j, hij, ha, hb⟩

theorem Before.of_sublist {keys' : List Key} (hsub : keys'.Sublist keys) (h : Before keys' a b) :
    Before keys a b := by
  obtain ⟨f, hf⟩ := List.sublist_iff_exists_orderEmbedding_getElem?_eq.mp hsub
  obtain ⟨i, j, hij, ha, hb⟩ := h
  exact ⟨f i, f j, f.lt_iff_lt.mpr hij, (hf i).symm.trans ha, (hf j).symm.trans hb⟩

theorem before_append_singleton_iff :
    Before (keys ++ [k]) a b ↔ Before keys a b ∨ (a ∈ keys ∧ b = k) := by
  constructor
  · rintro ⟨i, j, hij, ha, hb⟩
    have hj : j < keys.length + 1 := by simpa using (List.getElem?_eq_some_iff.mp hb).1
    rw [List.getElem?_append_left (by omega)] at ha
    by_cases hlast : j = keys.length
    · subst hlast
      rw [List.getElem?_concat_length] at hb
      exact Or.inr ⟨List.mem_of_getElem? ha, (Option.some.inj hb).symm⟩
    · rw [List.getElem?_append_left (by omega)] at hb
      exact Or.inl ⟨i, j, hij, ha, hb⟩
  · rintro (h | ⟨ha, rfl⟩)
    · exact h.of_sublist (List.sublist_append_left keys [k])
    · obtain ⟨i, hi⟩ := List.mem_iff_getElem?.mp ha
      have hlt := (List.getElem?_eq_some_iff.mp hi).1
      exact ⟨i, keys.length, hlt, (List.getElem?_append_left hlt).trans hi,
        List.getElem?_concat_length⟩

theorem Before.ne (hnodup : keys.Nodup) (h : Before keys a b) : a ≠ b :=
  h.rel hnodup

theorem Before.trans {c : Key} (hnodup : keys.Nodup) (hab : Before keys a b)
    (hbc : Before keys b c) : Before keys a c := by
  obtain ⟨i, j, hij, ha, hb⟩ := hab
  obtain ⟨n, hjn, hc⟩ := (before_iff_of_getElem? hnodup hb).mp hbc
  exact ⟨i, n, by omega, ha, hc⟩

theorem pairwise_before (keys : List Key) : keys.Pairwise (Before keys) := by
  apply List.pairwise_iff_getElem.mpr
  intro i j hi hj hij
  exact ⟨i, j, hij, List.getElem?_eq_getElem hi, List.getElem?_eq_getElem hj⟩

/-- Taking other keys out disturbs no order. -/
theorem Before.sublist {keys' : List Key} (hnodup : keys.Nodup) (hsub : keys'.Sublist keys)
    (ha : a ∈ keys') (hb : b ∈ keys') (h : Before keys a b) : Before keys' a b := by
  apply before_of_rel ((pairwise_before keys).sublist hsub) _ ha hb h
  intro c d hcd hdc
  exact (hcd.trans hnodup hdc).ne hnodup rfl

end Order

/-- The keys of a list that no later key of the result opposes, in order. -/
def survivors (t : τ) : List Key → List Key
  | [] => []
  | k :: later =>
    if (survivors t later).any fun p => Opposes t p k then survivors t later
    else k :: survivors t later

section Kernels
variable {t : τ} {keys later : List Key} {k a b : Key}

theorem survivors_cons_of_opposed (hb : b ∈ survivors t later) (h : Opposes t b k) :
    survivors t (k :: later) = survivors t later := by
  have hany : (survivors t later).any (fun p => Opposes t p k) = true :=
    List.any_eq_true.mpr ⟨b, hb, decide_eq_true h⟩
  simp only [survivors, hany, if_true]

theorem survivors_cons_of_unopposed (h : ∀ b ∈ survivors t later, ¬ Opposes t b k) :
    survivors t (k :: later) = k :: survivors t later := by
  have hany : ¬ (survivors t later).any (fun p => Opposes t p k) = true := by
    rintro hany
    obtain ⟨b, hb, hopposes⟩ := List.any_eq_true.mp hany
    exact h b hb (of_decide_eq_true hopposes)
  simp only [survivors, if_neg hany]

theorem survivors_cons (t : τ) (k : Key) (later : List Key) :
    (∃ b ∈ survivors t later, Opposes t b k ∧ survivors t (k :: later) = survivors t later) ∨
    ((∀ b ∈ survivors t later, ¬ Opposes t b k) ∧
      survivors t (k :: later) = k :: survivors t later) := by
  by_cases h : ∃ b ∈ survivors t later, Opposes t b k
  · obtain ⟨b, hb, hopposes⟩ := h
    exact Or.inl ⟨b, hb, hopposes, survivors_cons_of_opposed hb hopposes⟩
  · have hfree : ∀ b ∈ survivors t later, ¬ Opposes t b k :=
      fun b hb hopposes => h ⟨b, hb, hopposes⟩
    exact Or.inr ⟨hfree, survivors_cons_of_unopposed hfree⟩

theorem survivors_sublist (t : τ) (keys : List Key) : (survivors t keys).Sublist keys := by
  induction keys with
  | nil => exact .slnil
  | cons k later ih =>
    rcases survivors_cons t k later with ⟨_, _, _, h⟩ | ⟨_, h⟩
    · rw [h]
      exact ih.cons k
    · rw [h]
      exact ih.cons_cons k

theorem mem_of_mem_survivors (h : k ∈ survivors t keys) : k ∈ keys :=
  (survivors_sublist t keys).subset h

/-- A key that does not survive is opposed by a later survivor. -/
theorem exists_opposing_survivor (hk : k ∈ keys) (hout : k ∉ survivors t keys) :
    ∃ b ∈ survivors t keys, Before keys k b ∧ Opposes t b k := by
  induction keys with
  | nil => exact absurd hk List.not_mem_nil
  | cons a later ih =>
    rcases survivors_cons t a later with ⟨b, hb, hopposes, h⟩ | ⟨_, h⟩
    · rw [h] at hout ⊢
      rcases List.mem_cons.mp hk with rfl | hk
      · exact ⟨b, hb, before_cons_self (mem_of_mem_survivors hb), hopposes⟩
      · obtain ⟨c, hc, hbefore, hopposes⟩ := ih hk hout
        exact ⟨c, hc, hbefore.cons, hopposes⟩
    · rw [h] at hout ⊢
      rcases List.mem_cons.mp hk with rfl | hk
      · exact absurd List.mem_cons_self hout
      · obtain ⟨c, hc, hbefore, hopposes⟩ := ih hk fun hin => hout (List.mem_cons_of_mem a hin)
        exact ⟨c, List.mem_cons_of_mem a hc, hbefore.cons, hopposes⟩

/-- No member of `kept` opposes an earlier one, and a later member opposes each key left out. -/
structure IsKernel (t : τ) (keys : List Key) (kept : Set Key) : Prop where
  subset : ∀ k ∈ kept, k ∈ keys
  independent : ∀ a b, Before keys a b → a ∈ kept → b ∈ kept → ¬ Opposes t b a
  absorbing : ∀ k ∈ keys, k ∉ kept → ∃ b ∈ kept, Before keys k b ∧ Opposes t b k

theorem survivors_independent (hnodup : keys.Nodup) (hab : Before keys a b)
    (ha : a ∈ survivors t keys) (hb : b ∈ survivors t keys) : ¬ Opposes t b a := by
  induction keys with
  | nil => exact absurd ha List.not_mem_nil
  | cons k later ih =>
    obtain ⟨hk, hlater⟩ := List.nodup_cons.mp hnodup
    have hbk : b ≠ k := fun e => hk (e ▸ hab.mem_tail)
    rcases survivors_cons t k later with ⟨_, _, _, h⟩ | ⟨hfree, h⟩
    · rw [h] at ha hb
      exact ih hlater (hab.of_cons fun e => hk (e ▸ mem_of_mem_survivors ha)) ha hb
    · rw [h] at ha hb
      replace hb : b ∈ survivors t later := (List.mem_cons.mp hb).resolve_left hbk
      rcases List.mem_cons.mp ha with rfl | ha
      · exact hfree b hb
      · exact ih hlater (hab.of_cons fun e => hk (e ▸ mem_of_mem_survivors ha)) ha hb

theorem isKernel_survivors (hnodup : keys.Nodup) :
    IsKernel t keys {k | k ∈ survivors t keys} where
  subset _ hk := mem_of_mem_survivors hk
  independent _ _ hab ha hb := survivors_independent hnodup hab ha hb
  absorbing _ hk hout := exists_opposing_survivor hk hout

theorem IsKernel.tail {kept : Set Key} (hk : k ∉ later) (h : IsKernel t (k :: later) kept) :
    IsKernel t later {a | a ∈ kept ∧ a ∈ later} where
  subset _ ha := ha.2
  independent a b hab ha hb := h.independent a b hab.cons ha.1 hb.1
  absorbing a ha hout := by
    have hak : a ≠ k := fun e => hk (e ▸ ha)
    obtain ⟨b, hb, hbefore, hopposes⟩ :=
      h.absorbing a (List.mem_cons_of_mem k ha) fun hkept => hout ⟨hkept, ha⟩
    exact ⟨b, ⟨hb, hbefore.mem_tail⟩, hbefore.of_cons hak, hopposes⟩

theorem IsKernel.eq_survivors {kept : Set Key} (hnodup : keys.Nodup) (h : IsKernel t keys kept) :
    ∀ a, a ∈ kept ↔ a ∈ survivors t keys := by
  induction keys generalizing kept with
  | nil =>
    intro a
    exact ⟨fun ha => absurd (h.subset a ha) List.not_mem_nil, fun ha => absurd ha List.not_mem_nil⟩
  | cons k later ih =>
    obtain ⟨hk, hlater⟩ := List.nodup_cons.mp hnodup
    have htail : ∀ a, a ∈ kept ∧ a ∈ later ↔ a ∈ survivors t later := ih hlater (h.tail hk)
    intro a
    by_cases hak : a = k
    · -- the front key is kept exactly if no survivor behind it opposes it
      subst hak
      have ha : a ∉ survivors t later := fun ha => hk (mem_of_mem_survivors ha)
      rcases survivors_cons t a later with ⟨b, hb, hopposes, hs⟩ | ⟨hfree, hs⟩
      · rw [hs]
        have hb' := (htail b).mpr hb
        exact ⟨fun hkept => absurd hopposes
          (h.independent a b (before_cons_self hb'.2) hkept hb'.1), fun hin => absurd hin ha⟩
      · rw [hs]
        refine ⟨fun _ => List.mem_cons_self, fun _ => ?_⟩
        by_contra hout
        obtain ⟨b, hb, hbefore, hopposes⟩ := h.absorbing a List.mem_cons_self hout
        exact hfree b ((htail b).mp ⟨hb, hbefore.mem_tail⟩) hopposes
    · have hs : a ∈ survivors t (k :: later) ↔ a ∈ survivors t later := by
        rcases survivors_cons t k later with ⟨_, _, _, hs⟩ | ⟨_, hs⟩
        · rw [hs]
        · rw [hs, List.mem_cons]
          exact or_iff_right hak
      rw [hs, ← htail a]
      exact ⟨fun ha => ⟨ha, (List.mem_cons.mp (h.subset a ha)).resolve_left hak⟩, fun ha => ha.1⟩

theorem isKernel_iff {kept : Set Key} (hnodup : keys.Nodup) :
    IsKernel t keys kept ↔ kept = {k | k ∈ survivors t keys} := by
  constructor
  · intro h
    exact Set.ext (h.eq_survivors hnodup)
  · rintro rfl
    exact isKernel_survivors hnodup

/-- A key of a list survives exactly if no later survivor opposes it. -/
theorem mem_survivors_iff (hnodup : keys.Nodup) (hk : k ∈ keys) :
    k ∈ survivors t keys ↔
      ∀ b ∈ survivors t keys, Before keys k b → ¬ Opposes t b k := by
  constructor
  · intro hin b hb hbefore
    exact survivors_independent hnodup hbefore hin hb
  · intro hfree
    by_contra hout
    obtain ⟨b, hb, hbefore, hopposes⟩ := exists_opposing_survivor hk hout
    exact hfree b hb hbefore hopposes

end Kernels

end OpposingKeys
