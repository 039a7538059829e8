import OpposingKeys.Proofs.Survivors

/-!
# Groups of keys

Some tables are made of disjoint groups of basic keys that all cancel each other. Duplicates and keys
that cancel themselves do no harm. Being in one group is then an equivalence, and the survivors of a
list are the last keys of their groups (`mem_survivors_iff`).
-/

namespace OpposingKeys

set_option autoImplicit false

variable {τ : Type} [Table τ]

/-- `p` cancels `u`, which is another key. -/
def Rival (t : τ) (p u : Key) : Prop := Opposes t p u ∧ p ≠ u

/-- All keys are basic, and different keys cancel each other in disjoint groups. -/
structure Grouped (t : τ) : Prop where
  basic : ∀ p u, Opposes t p u → p.isBasic = true ∧ u.isBasic = true
  symm : ∀ p u, Rival t p u → Rival t u p
  trans : ∀ p q r, Rival t p q → Rival t q r → p ≠ r → Rival t p r

/-- The conditions said of the pairs. -/
theorem grouped_iff {t : τ} :
    Grouped t ↔
      (∀ p ∈ Table.pairs t, p.press.isBasic = true ∧ p.unpress.isBasic = true) ∧
      (∀ p ∈ Table.pairs t, p.press ≠ p.unpress → Opposes t p.unpress p.press) ∧
      (∀ p ∈ Table.pairs t, ∀ q ∈ Table.pairs t, p.unpress = q.press → p.press ≠ q.unpress →
        Opposes t p.press q.unpress) := by
  constructor
  · intro h
    refine ⟨fun p hp => h.basic _ _ hp, fun p hp hne => (h.symm _ _ ⟨hp, hne⟩).1, ?_⟩
    rintro ⟨a, b⟩ hp ⟨c, d⟩ hq hbc hne
    obtain rfl : b = c := hbc
    by_cases hab : a = b
    · exact hab ▸ hq
    · by_cases hbd : b = d
      · exact hbd ▸ hp
      · exact (h.trans a b d ⟨hp, hab⟩ ⟨hq, hbd⟩ hne).1
  · rintro ⟨hbasic, hsymm, htrans⟩
    exact {
      basic := fun p u h => hbasic ⟨p, u⟩ h
      symm := fun p u h => ⟨hsymm ⟨p, u⟩ h.1 h.2, h.2.symm⟩
      trans := fun p q r hpq hqr hne => ⟨htrans ⟨p, q⟩ hpq.1 ⟨q, r⟩ hqr.1 rfl hne, hne⟩ }

instance (t : τ) : Decidable (Grouped t) := decidable_of_iff _ grouped_iff.symm

theorem grouped_wasd : Grouped wasd := by decide

/-- `a` and `b` are one key or cancel each other. -/
def SameGroup (t : τ) (a b : Key) : Prop := a = b ∨ Rival t a b

section Groups
variable {t : τ} {keys : List Key} {a b k : Key}

theorem sameGroup_of_opposes (h : Opposes t a b) : SameGroup t a b := by
  by_cases hab : a = b
  · exact Or.inl hab
  · exact Or.inr ⟨h, hab⟩

theorem SameGroup.opposes (h : SameGroup t a b) (hne : a ≠ b) : Opposes t a b :=
  (h.resolve_left hne).1

theorem Grouped.sameGroup (h : Grouped t) : Equivalence (SameGroup t) where
  refl a := Or.inl rfl
  symm := by
    rintro a b (rfl | hab)
    · exact Or.inl rfl
    · exact Or.inr (h.symm _ _ hab)
  trans := by
    rintro a b c (rfl | hab) (rfl | hbc)
    · exact Or.inl rfl
    · exact Or.inr hbc
    · exact Or.inr hab
    · by_cases hac : a = c
      · exact Or.inl hac
      · exact Or.inr (h.trans a b c hab hbc hac)

/-- A key that is not basic is alone in its group. -/
theorem Grouped.eq_of_not_basic (h : Grouped t) (hk : k.isBasic = false)
    (hgroup : SameGroup t k a) : k = a := by
  rcases hgroup with hka | hrival
  · exact hka
  · exact absurd rfl (Key.ne_of_isBasic (h.basic k a hrival.1).1 hk)

theorem Grouped.mem_survivors_iff (h : Grouped t) (hnodup : keys.Nodup) (ha : a ∈ keys) :
    a ∈ survivors t keys ↔ ∀ b, Before keys a b → ¬ SameGroup t b a := by
  constructor
  · intro hsurvives b hab hgroup
    -- a later key of the group that is taken away is so by one that is later still
    obtain ⟨c, hc, hac, hca⟩ : ∃ c ∈ survivors t keys, Before keys a c ∧ SameGroup t c a := by
      by_cases hb : b ∈ survivors t keys
      · exact ⟨b, hb, hab, hgroup⟩
      · obtain ⟨c, hc, hbc, hopposes⟩ := exists_opposing_survivor hab.mem_right hb
        exact ⟨c, hc, hab.trans hnodup hbc,
          h.sameGroup.trans (sameGroup_of_opposes hopposes) hgroup⟩
    exact survivors_independent hnodup hac hsurvives hc (hca.opposes (hac.ne hnodup).symm)
  · intro hlast
    by_contra hout
    obtain ⟨b, _, hab, hopposes⟩ := exists_opposing_survivor ha hout
    exact hlast b hab (sameGroup_of_opposes hopposes)

end Groups

end OpposingKeys
