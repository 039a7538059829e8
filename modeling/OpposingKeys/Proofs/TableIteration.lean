import OpposingKeys.Table

/-!
# Walking a table

A cursor is known by the pairs that are still ahead of it: the next request is answered by the first
of them and leaves the others. So the requests from the start on are answered by the entries of the
table one after another, each once and in order, and from then on by none. A cursor for some pairs
only gives the same as the cursor for all pairs that is asked until one of them comes.
-/

namespace OpposingKeys.Table

set_option autoImplicit false

variable {τ : Type} [Table τ]

/-- What a table has at the indices below its count. -/
def entries (t : τ) : List Pair := (List.range (count t)).filterMap (get? t)

namespace Cursor

/-- The place after so many requests. -/
def advance : Nat → Cursor τ → Cursor τ
  | 0, c => c
  | n + 1, c => advance n c.next.2

/-- The same place, with every pair wanted. -/
def unselective (c : Cursor τ) : Cursor τ := { c with wanted := fun _ => true }

/-- A cursor is asked until it gives a pair of a certain kind or none: the last answer, and the place
after it. -/
inductive Finds (kind : Pair → Bool) : Cursor τ → Option Pair → Cursor τ → Prop where
  | found {c after : Cursor τ} {p : Pair} :
      c.next = (some p, after) → kind p = true → Finds kind c (some p) after
  | passed {c mid after : Cursor τ} {p : Pair} {answer : Option Pair} :
      c.next = (some p, mid) → kind p = false → Finds kind mid answer after →
        Finds kind c answer after
  | exhausted {c after : Cursor τ} : c.next = (none, after) → Finds kind c none after

theorem Finds.of_next_eq {kind : Pair → Bool} {c c' after : Cursor τ} {answer : Option Pair}
    (h : Finds kind c answer after) (hnext : c'.next = c.next) : Finds kind c' answer after := by
  cases h with
  | found hp hkind => exact .found (hnext.trans hp) hkind
  | passed hp hkind hrest => exact .passed (hnext.trans hp) hkind hrest
  | exhausted hnone => exact .exhausted (hnext.trans hnone)

end Cursor

namespace Cursor
variable (c : Cursor τ) (n : Nat)

theorem finds_next : Finds c.wanted c.unselective c.next.1 c.next.2.unselective := by
  induction c using induction_onward with
  | atEnd c h =>
    rw [c.next_at_end h]
    exact .exhausted (c.unselective.next_at_end h)
  | before c h ih =>
    cases hget : get? c.table c.index with
    | none =>
      rw [c.next_of_hole h hget]
      exact ih.of_next_eq (c.unselective.next_of_hole h hget)
    | some p =>
      have hnext := c.unselective.next_of_wanted h hget rfl
      cases hp : c.wanted p with
      | true =>
        rw [c.next_of_wanted h hget hp]
        exact .found hnext hp
      | false =>
        rw [c.next_of_unwanted h hget hp]
        exact .passed hnext hp ih

theorem wanted_next : c.next.2.wanted = c.wanted := by
  induction c using induction_onward with
  | atEnd c h => rw [c.next_at_end h]
  | before c h ih =>
    rw [c.next_eq, if_pos h]
    split
    · split
      · rfl
      · exact ih
    · exact ih

theorem ahead_advance : (c.advance n).ahead = c.ahead.drop n := by
  induction n generalizing c with
  | zero => rfl
  | succ n ih => rw [advance, ih, (next_ahead c).2, List.drop_tail]

/-- Every request is answered by the pair at its number, as long as there is one. -/
theorem next_advance : (c.advance n).next.1 = c.ahead[n]? := by
  rw [(next_ahead _).1, ahead_advance, List.head?_drop]

theorem wanted_advance : (c.advance n).wanted = c.wanted := by
  induction n generalizing c with
  | zero => rfl
  | succ n ih => exact (ih c.next.2).trans c.wanted_next

end Cursor

theorem next_of_start (t : τ) (wanted : Pair → Bool) (n : Nat) :
    ((start t wanted).advance n).next.1 = ((entries t).filter wanted)[n]? := by
  rw [Cursor.next_advance, ahead_start, entries]

/-- The requests are answered by the entries in order, with duplicates, and by none from then on. The
pairs of one key are those that a search through all pairs finds, one after another, and a key cancels
if it has any. -/
theorem walk_misses_nothing (t : τ) :
    (∀ n, ((start t fun _ => true).advance n).next.1 = (entries t)[n]?) ∧
    pairs t = entries t ∧
    (∀ k, let chosen := (entries t).filter fun p => p.press = k
      (∀ n, let c := (start t fun p => p.press = k).advance n
        c.next.1 = chosen[n]? ∧
        Cursor.Finds (fun p => p.press = k) c.unselective c.next.1 c.next.2.unselective) ∧
      pressing t k = chosen ∧ (cancels t k = true ↔ chosen ≠ [])) ∧
    ∀ wanted n,
      ((start t wanted).advance (((entries t).filter wanted).length + n)).next.1 = none := by
  refine ⟨?_, pairs_eq t, ?_, ?_⟩
  · intro n
    rw [next_of_start, List.filter_eq_self.mpr fun _ _ => rfl]
  · intro k chosen
    have hpressing : pressing t k = chosen := by rw [pressing_eq, pairs_eq]; rfl
    refine ⟨?_, hpressing, ?_⟩
    · intro n c
      have hfinds := c.finds_next
      rw [Cursor.wanted_advance] at hfinds
      exact ⟨next_of_start t _ n, hfinds⟩
    · rw [cancels_iff, ← hpressing]
      constructor
      · rintro ⟨p, hp⟩
        exact List.ne_nil_of_mem (mem_pressing.mpr hp)
      · intro hne
        obtain ⟨p, hp⟩ := List.exists_mem_of_ne_nil _ hne
        exact ⟨p, mem_pressing.mp hp⟩
  · intro wanted n
    rw [next_of_start]
    exact List.getElem?_eq_none (Nat.le_add_right _ n)

/-- A hole in front, one between and one behind. -/
example :
    let a : Key := ⟨4⟩
    let d : Key := ⟨7⟩
    let t : List (Option Pair) := [none, some ⟨a, d⟩, none, some ⟨d, a⟩, some ⟨a, d⟩, none]
    pressing t a = [⟨a, d⟩, ⟨a, d⟩] ∧ ((start t fun p => p.press = a).advance 2).next.1 = none := by
  decide

end OpposingKeys.Table
