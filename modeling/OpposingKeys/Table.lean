import OpposingKeys.Key

/-!
# Cancellation tables

A pair lets its first key cancel its second: the host is not to see both of them down. A table
answers, for each index below its count, with a pair or with a hole. A cursor walks a table: it
skips holes and unwanted pairs, gives each wanted pair once and in order, and stays at the end once
it is there. `Table.pairs` and `Table.pressing` are what the cursor gives.
-/

namespace OpposingKeys

set_option autoImplicit false

/-- When `press` goes down it takes `unpress` away. -/
structure Pair where
  press : Key
  unpress : Key
deriving DecidableEq

class Table (τ : Type) where
  count : τ → Nat
  get? : τ → Nat → Option Pair

namespace Table

variable {τ : Type} [Table τ]

/-- A place in a table. -/
structure Cursor (τ : Type) where
  table : τ
  wanted : Pair → Bool
  index : Nat

def start (t : τ) (wanted : Pair → Bool) : Cursor τ := ⟨t, wanted, 0⟩

namespace Cursor

def onward (c : Cursor τ) : Cursor τ := { c with index := c.index + 1 }

/-- The first wanted pair among the next `steps` indices, and the place after it. -/
def scan : (steps : Nat) → Cursor τ → Option Pair × Cursor τ
  | 0, c => (none, c)
  | steps + 1, c =>
    match get? c.table c.index with
    | some p => if c.wanted p then (some p, c.onward) else c.onward.scan steps
    | none => c.onward.scan steps

/-- How many indices are left. -/
def remaining (c : Cursor τ) : Nat := count c.table - c.index

/-- The next wanted pair, if there is one among the indices that are left. -/
def next (c : Cursor τ) : Option Pair × Cursor τ := c.scan c.remaining

/-- At most `steps` further pairs, up to the first time that there is none. -/
def drain : (steps : Nat) → Cursor τ → List Pair
  | 0, _ => []
  | steps + 1, c =>
    match c.next with
    | (some p, after) => p :: drain steps after
    | (none, _) => []

/-- All pairs that the cursor has still to give. -/
def toList (c : Cursor τ) : List Pair := c.drain c.remaining

end Cursor

/-- All pairs in table order, holes left out. -/
def pairs (t : τ) : List Pair := (start t fun _ => true).toList

/-- The pairs whose first key is `k`, in table order. -/
def pressing (t : τ) (k : Key) : List Pair := (start t fun p => p.press = k).toList

/-- Whether `k` is the first key of some pair. -/
def cancels (t : τ) (k : Key) : Bool := (pairs t).any fun p => p.press = k

namespace Cursor
variable (c : Cursor τ) {p : Pair}

theorem remaining_eq (h : c.index < count c.table) : c.remaining = c.onward.remaining + 1 := by
  show count c.table - c.index = count c.table - (c.index + 1) + 1
  omega

theorem next_at_end (h : ¬ c.index < count c.table) : c.next = (none, c) := by
  have hzero : c.remaining = 0 := Nat.sub_eq_zero_of_le (Nat.le_of_not_lt h)
  rw [next, hzero, scan]

theorem next_of_hole (h : c.index < count c.table) (hget : get? c.table c.index = none) :
    c.next = c.onward.next := by
  rw [next, c.remaining_eq h, scan, hget]
  rfl

theorem next_of_wanted (h : c.index < count c.table) (hget : get? c.table c.index = some p)
    (hp : c.wanted p = true) : c.next = (some p, c.onward) := by
  rw [next, c.remaining_eq h, scan, hget]
  exact if_pos hp

theorem next_of_unwanted (h : c.index < count c.table) (hget : get? c.table c.index = some p)
    (hp : c.wanted p = false) : c.next = c.onward.next := by
  rw [next, c.remaining_eq h, scan, hget]
  exact if_neg (Bool.eq_false_iff.mp hp)

/-- One turn of the search: it goes on as long as the index is below the count. -/
theorem next_eq : c.next =
    if c.index < count c.table then
      match get? c.table c.index with
      | some p => if c.wanted p then (some p, c.onward) else c.onward.next
      | none => c.onward.next
    else (none, c) := by
  split
  · next h =>
    cases hget : get? c.table c.index with
    | none => exact c.next_of_hole h hget
    | some p =>
      dsimp only
      split
      · next hp => exact c.next_of_wanted h hget hp
      · next hp => exact c.next_of_unwanted h hget (Bool.eq_false_iff.mpr hp)
  · next h => exact c.next_at_end h

/-- The wanted pairs at the indices that are left. -/
def ahead : List Pair :=
  ((List.range' c.index c.remaining).filterMap (get? c.table)).filter c.wanted

theorem ahead_at_end (h : ¬ c.index < count c.table) : c.ahead = [] := by
  have hzero : c.remaining = 0 := Nat.sub_eq_zero_of_le (Nat.le_of_not_lt h)
  rw [ahead, hzero]
  rfl

theorem ahead_eq (h : c.index < count c.table) :
    c.ahead = (get? c.table c.index).toList.filter c.wanted ++ c.onward.ahead := by
  rw [ahead, c.remaining_eq h, List.range'_succ, List.filterMap_cons]
  cases get? c.table c.index with
  | none => rfl
  | some p => exact List.filter_append [p] _

/-- Places of a table from its end towards its start. -/
theorem induction_onward {motive : Cursor τ → Prop}
    (atEnd : ∀ c : Cursor τ, ¬ c.index < count c.table → motive c)
    (before : ∀ c : Cursor τ, c.index < count c.table → motive c.onward → motive c) :
    motive c := by
  induction h : c.remaining generalizing c with
  | zero => exact atEnd c (Nat.not_lt_of_le (Nat.le_of_sub_eq_zero h))
  | succ n ih =>
    have hindex : c.index < count c.table := Nat.lt_of_sub_eq_succ h
    exact before c hindex (ih c.onward (Nat.succ.inj ((c.remaining_eq hindex).symm.trans h)))

/-- A request takes the first of the pairs that are ahead and leaves the others. -/
theorem next_ahead : c.next.1 = c.ahead.head? ∧ c.next.2.ahead = c.ahead.tail := by
  induction c using induction_onward with
  | atEnd c h =>
    rw [c.next_at_end h]
    dsimp only
    rw [c.ahead_at_end h]
    exact ⟨rfl, rfl⟩
  | before c h ih =>
    rw [c.ahead_eq h]
    cases hget : get? c.table c.index with
    | none =>
      rw [c.next_of_hole h hget]
      exact ih
    | some p =>
      cases hp : c.wanted p with
      | true =>
        rw [c.next_of_wanted h hget hp, Option.toList_some, List.filter_cons_of_pos hp]
        exact ⟨rfl, rfl⟩
      | false =>
        rw [c.next_of_unwanted h hget hp, Option.toList_some,
          List.filter_cons_of_neg (Bool.eq_false_iff.mp hp)]
        exact ih

theorem drain_eq (steps : Nat) : c.drain steps = c.ahead.take steps := by
  induction steps generalizing c with
  | zero => rfl
  | succ steps ih =>
    obtain ⟨hhead, htail⟩ := c.next_ahead
    rw [drain]
    split
    · next p after hnext =>
      rw [hnext] at hhead htail
      obtain ⟨rest, hahead⟩ := List.head?_eq_some_iff.mp hhead.symm
      rw [ih, htail, hahead]
      rfl
    · next after hnext =>
      rw [hnext] at hhead
      rw [List.head?_eq_none_iff.mp hhead.symm, List.take_nil]

theorem toList_eq : c.toList = c.ahead := by
  have hlength : c.ahead.length ≤ c.remaining := by
    calc c.ahead.length
      _ ≤ ((List.range' c.index c.remaining).filterMap (get? c.table)).length :=
        List.length_filter_le _ _
      _ ≤ (List.range' c.index c.remaining).length := List.length_filterMap_le _ _
      _ = c.remaining := List.length_range'
  rw [toList, drain_eq, List.take_of_length_le hlength]

end Cursor

theorem ahead_start (t : τ) (wanted : Pair → Bool) :
    (start t wanted).ahead = ((List.range (count t)).filterMap (get? t)).filter wanted := by
  rw [List.range_eq_range']
  rfl

theorem pairs_eq (t : τ) : pairs t = (List.range (count t)).filterMap (get? t) := by
  rw [pairs, Cursor.toList_eq, ahead_start]
  exact List.filter_eq_self.mpr fun _ _ => rfl

theorem pressing_eq (t : τ) (k : Key) : pressing t k = (pairs t).filter fun p => p.press = k := by
  rw [pairs_eq, pressing, Cursor.toList_eq, ahead_start]

theorem mem_pressing {t : τ} {k : Key} {p : Pair} :
    p ∈ pressing t k ↔ p ∈ pairs t ∧ p.press = k := by
  simp [pressing_eq]

theorem cancels_iff {t : τ} {k : Key} :
    cancels t k = true ↔ ∃ p ∈ pairs t, p.press = k := by
  simp [cancels]

end Table

/-- A plain list of pairs has no holes. -/
instance : Table (List Pair) where
  count := List.length
  get? ps index := ps[index]?

/-- A list with holes counts them. -/
instance : Table (List (Option Pair)) where
  count := List.length
  get? ps index := ps[index]?.join

@[simp] theorem Table.pairs_list (ps : List Pair) : Table.pairs ps = ps := by
  rw [Table.pairs_eq]
  show (List.range ps.length).filterMap (fun index => ps[index]?) = ps
  induction ps with
  | nil => rfl
  | cons p ps ih =>
    rw [List.length_cons, List.range_succ_eq_map]
    simpa [List.filterMap_map, Function.comp_def] using ih

/-- Left and right, and up and down, on the keys W A S D cancel each other. -/
def wasd : List Pair :=
  let a : Key := ⟨0x04⟩
  let d : Key := ⟨0x07⟩
  let w : Key := ⟨0x1A⟩
  let s : Key := ⟨0x16⟩
  [⟨a, d⟩, ⟨d, a⟩, ⟨w, s⟩, ⟨s, w⟩]

end OpposingKeys
