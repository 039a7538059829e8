import OpposingKeys.Event

/-!
# The host's view

The host believes certain keys to be held. The view is kept as the list of these keys in strictly
ascending order, so two views with the same members are equal.
-/

namespace OpposingKeys

set_option autoImplicit false

/-- Puts `k` at its place in an ascending list, unless it is there. -/
def insertAscending (k : Key) : List Key → List Key
  | [] => [k]
  | x :: xs =>
    if k < x then k :: x :: xs
    else if k = x then x :: xs
    else x :: insertAscending k xs

theorem mem_insertAscending {k a : Key} {xs : List Key} :
    a ∈ insertAscending k xs ↔ a = k ∨ a ∈ xs := by
  induction xs with
  | nil => simp [insertAscending]
  | cons x xs ih =>
    simp only [insertAscending]
    split
    · simp
    · split
      · next h => subst h; simp
      · simp only [List.mem_cons, ih]
        exact or_left_comm

theorem ascending_insertAscending {k : Key} {xs : List Key} (h : xs.Pairwise (· < ·)) :
    (insertAscending k xs).Pairwise (· < ·) := by
  induction xs with
  | nil => simp [insertAscending]
  | cons x xs ih =>
    obtain ⟨hx, hxs⟩ := List.pairwise_cons.mp h
    simp only [insertAscending]
    split
    · next hk =>
      refine List.pairwise_cons.mpr ⟨?_, h⟩
      intro a ha
      rcases List.mem_cons.mp ha with rfl | ha
      · exact hk
      · exact Key.lt_trans hk (hx a ha)
    · split
      · exact h
      · next hk hne =>
        refine List.pairwise_cons.mpr ⟨?_, ih hxs⟩
        intro a ha
        rcases mem_insertAscending.mp ha with rfl | ha
        · exact Key.lt_of_not_lt_of_ne hk hne
        · exact hx a ha

structure Host where
  held : List Key
  ascending : held.Pairwise (· < ·)
deriving DecidableEq

namespace Host

def empty : Host := ⟨[], .nil⟩

instance : Membership Key Host := ⟨fun host k => k ∈ host.held⟩

instance (k : Key) (host : Host) : Decidable (k ∈ host) :=
  inferInstanceAs (Decidable (k ∈ host.held))

theorem mem_held {k : Key} {host : Host} : k ∈ host.held ↔ k ∈ host := Iff.rfl

@[simp] theorem not_mem_empty (k : Key) : ¬ k ∈ empty := List.not_mem_nil

def register (host : Host) (k : Key) : Host :=
  ⟨insertAscending k host.held, ascending_insertAscending host.ascending⟩

def release (host : Host) (k : Key) : Host :=
  ⟨host.held.filter (· ≠ k), host.ascending.filter _⟩

@[simp] theorem mem_register {host : Host} {k a : Key} : a ∈ host.register k ↔ a = k ∨ a ∈ host :=
  mem_insertAscending

@[simp] theorem mem_release {host : Host} {k a : Key} : a ∈ host.release k ↔ a ∈ host ∧ a ≠ k := by
  simp [release, ← mem_held]

def correct (host : Host) : Correction → Host
  | .release k => host.release k
  | .register k => host.register k

def apply (host : Host) (corrections : List Correction) : Host := corrections.foldl correct host

@[simp] theorem apply_nil (host : Host) : host.apply [] = host := rfl

@[simp] theorem apply_cons (host : Host) (c : Correction) (cs : List Correction) :
    host.apply (c :: cs) = (host.correct c).apply cs := rfl

theorem apply_append (host : Host) (cs ds : List Correction) :
    host.apply (cs ++ ds) = (host.apply cs).apply ds := List.foldl_append

/-- Lets the transition itself reach the host, if it may pass. -/
def deliver (host : Host) (k : Key) (edge : Edge) : Action → Host
  | .block => host
  | .pass =>
    match edge with
    | .down => host.register k
    | .up => host.release k

theorem mem_deliver_of_ne {host : Host} {k a : Key} (edge : Edge) (action : Action) (h : a ≠ k) :
    a ∈ host.deliver k edge action ↔ a ∈ host := by
  cases action with
  | block => exact Iff.rfl
  | pass =>
    cases edge with
    | down => exact mem_register.trans (or_iff_right h)
    | up => exact mem_release.trans (and_iff_left h)

theorem mem_deliver_self {host : Host} {k : Key} {edge : Edge} :
    k ∈ host.deliver k edge .pass ↔ edge = .down := by
  cases edge with
  | down => exact mem_register.trans (by simp)
  | up => exact mem_release.trans (by simp)

/-- Strictly ascending lists with the same members are the same list. -/
theorem eq_of_ascending {xs ys : List Key} (hx : xs.Pairwise (· < ·)) (hy : ys.Pairwise (· < ·))
    (h : ∀ k, k ∈ xs ↔ k ∈ ys) : xs = ys := by
  induction xs generalizing ys with
  | nil =>
    cases ys with
    | nil => rfl
    | cons y ys => exact absurd ((h y).mpr List.mem_cons_self) List.not_mem_nil
  | cons x xs ih =>
    cases ys with
    | nil => exact absurd ((h x).mp List.mem_cons_self) List.not_mem_nil
    | cons y ys =>
      obtain ⟨hx1, hx2⟩ := List.pairwise_cons.mp hx
      obtain ⟨hy1, hy2⟩ := List.pairwise_cons.mp hy
      have hxy : x = y := by
        rcases List.mem_cons.mp ((h x).mp List.mem_cons_self) with e | hxy
        · exact e
        rcases List.mem_cons.mp ((h y).mpr List.mem_cons_self) with e | hyx
        · exact e.symm
        exact absurd (Key.lt_trans (hy1 x hxy) (hx1 y hyx)) (Key.lt_irrefl y)
      subst hxy
      refine congrArg (x :: ·) (ih hx2 hy2 fun k => ?_)
      constructor
      · intro hk
        rcases List.mem_cons.mp ((h k).mp (List.mem_cons_of_mem x hk)) with rfl | hk'
        · exact absurd (hx1 k hk) (Key.lt_irrefl k)
        · exact hk'
      · intro hk
        rcases List.mem_cons.mp ((h k).mpr (List.mem_cons_of_mem x hk)) with rfl | hk'
        · exact absurd (hy1 k hk) (Key.lt_irrefl k)
        · exact hk'

theorem ext_mem {a b : Host} (h : ∀ k, k ∈ a ↔ k ∈ b) : a = b := by
  obtain ⟨as, ha⟩ := a
  obtain ⟨bs, hb⟩ := b
  obtain rfl : as = bs := eq_of_ascending ha hb h
  rfl

end Host

end OpposingKeys
