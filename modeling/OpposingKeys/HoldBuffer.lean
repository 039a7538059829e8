import OpposingKeys.KeyNames

/-!
# Hold buffers

A hold buffer remembers which keys are down, in the order of their presses. It has a fixed number
of slots, the first `size` of which are in use; the others hold `Key.no`, which is also a key that
may be held, so only `size` tells the two apart. `toList` is the view in which everything else is
said. A full buffer takes no further key.
-/

namespace OpposingKeys

set_option autoImplicit false

structure HoldBuffer (capacity : Nat) where
  slots : Vector Key capacity
  size : Nat
  size_le : size ≤ capacity

namespace HoldBuffer

variable {capacity : Nat}

/-- The keys in use, first pressed first. -/
def toList (b : HoldBuffer capacity) : List Key := b.slots.toList.take b.size

@[simp] theorem length_toList (b : HoldBuffer capacity) : b.toList.length = b.size := by
  simp [toList, b.size_le]

def empty : HoldBuffer capacity := ⟨Vector.replicate capacity Key.no, 0, Nat.zero_le capacity⟩

@[simp] theorem toList_empty : (empty : HoldBuffer capacity).toList = [] := rfl

def isEmpty (b : HoldBuffer capacity) : Bool := b.size == 0

def isFull (b : HoldBuffer capacity) : Bool := capacity ≤ b.size

def contains (b : HoldBuffer capacity) (k : Key) : Bool := b.toList.contains k

@[simp] theorem contains_iff {b : HoldBuffer capacity} {k : Key} :
    b.contains k = true ↔ k ∈ b.toList := by
  simp [contains]

theorem contains_eq_false_iff {b : HoldBuffer capacity} {k : Key} :
    b.contains k = false ↔ k ∉ b.toList := by
  rw [← Bool.not_eq_true, contains_iff]

theorem isEmpty_iff {b : HoldBuffer capacity} : b.isEmpty = true ↔ b.toList = [] := by
  rw [← List.length_eq_zero_iff, length_toList]
  simp [isEmpty]

theorem isFull_iff {b : HoldBuffer capacity} : b.isFull = true ↔ b.toList.length = capacity := by
  have := b.size_le
  simp only [isFull, length_toList, decide_eq_true_eq]
  omega

/-- Puts `k` into the next slot, unless it is there already or no slot is left. -/
def insert (b : HoldBuffer capacity) (k : Key) : HoldBuffer capacity :=
  if h : b.contains k = false ∧ b.size < capacity then
    ⟨b.slots.set b.size k h.2, b.size + 1, h.2⟩
  else b

/-- Whether `insert` would take `k` in. -/
def accepts (b : HoldBuffer capacity) (k : Key) : Bool := !b.contains k && !b.isFull

theorem accepts_iff {b : HoldBuffer capacity} {k : Key} :
    b.accepts k = true ↔ k ∉ b.toList ∧ b.toList.length < capacity := by
  have := b.size_le
  simp [accepts, isFull, contains]

theorem accepts_eq_false_iff {b : HoldBuffer capacity} {k : Key} :
    b.accepts k = false ↔ k ∈ b.toList ∨ capacity ≤ b.toList.length := by
  rw [← Bool.not_eq_true, accepts_iff, Decidable.not_and_iff_not_or_not, Decidable.not_not, Nat.not_lt]

/-- A key that is not taken in changes nothing, not even an unused slot. -/
theorem insert_of_not_accepts {b : HoldBuffer capacity} {k : Key} (h : b.accepts k = false) :
    b.insert k = b := by
  rw [insert, dif_neg]
  rintro ⟨hout, hroom⟩
  rw [accepts, hout, isFull, decide_eq_false (Nat.not_le.mpr hroom)] at h
  exact Bool.noConfusion h

theorem toList_insert (b : HoldBuffer capacity) (k : Key) :
    (b.insert k).toList = if b.accepts k then b.toList ++ [k] else b.toList := by
  by_cases h : b.contains k = false ∧ b.size < capacity
  · have ha : b.accepts k = true := by simp [accepts, isFull, h]
    have hs := h.2
    simp only [insert, h, and_self, dite_true, ha, if_true]
    apply List.ext_getElem?
    intro i
    simp only [toList, Vector.toList_set, List.getElem?_take, List.getElem?_append,
      List.length_take, Vector.length_toList, List.getElem?_set]
    rcases Nat.lt_trichotomy i b.size with hi | hi | hi
    · have h1 : ¬ b.size = i := by omega
      have h2 : i < min b.size capacity := by omega
      simp [h1, h2, hi, show i < b.size + 1 by omega, show i < capacity by omega]
    · subst hi
      simp [hs, Nat.min_eq_left b.size_le]
    · have h0 : ¬ i < b.size + 1 := by omega
      have h1 : ¬ i < min b.size capacity := by omega
      have h2 : i - min b.size capacity = i - b.size := by omega
      simp only [h0, if_false, h1, h2]
      rw [List.getElem?_eq_none]
      simp
      omega
  · have ha : b.accepts k = false := by
      simp only [accepts, isFull, Bool.and_eq_false_iff, Bool.not_eq_false', decide_eq_true_eq]
      by_cases hc : b.contains k = true
      · exact .inl hc
      · exact .inr (by simp_all)
    simp [insert, h, ha]

/-- Takes `k` out and moves the later keys one slot forward. -/
def erase (b : HoldBuffer capacity) (k : Key) : HoldBuffer capacity :=
  if h : k ∈ b.toList then
    have hi : b.toList.idxOf k < b.slots.toList.length := by
      have := List.idxOf_lt_length_iff.mpr h
      have := b.size_le
      simp at *
      omega
    ⟨⟨(b.slots.toList.eraseIdx (b.toList.idxOf k) ++ [Key.no]).toArray, by
        rw [List.size_toArray, List.length_append, List.length_eraseIdx_of_lt hi]
        simp at *
        omega⟩,
      b.size - 1, Nat.le_trans (Nat.sub_le _ _) b.size_le⟩
  else b

theorem toList_erase (b : HoldBuffer capacity) (k : Key) :
    (b.erase k).toList = b.toList.erase k := by
  by_cases h : k ∈ b.toList
  · have hi : b.toList.idxOf k < b.toList.length := List.idxOf_lt_length_iff.mpr h
    have hsplit : b.slots.toList = b.toList ++ b.slots.toList.drop b.size :=
      (List.take_append_drop b.size b.slots.toList).symm
    have hlen : (b.toList.eraseIdx (b.toList.idxOf k)).length = b.size - 1 := by
      rw [List.length_eraseIdx_of_lt hi, length_toList]
    rw [List.erase_eq_eraseIdx_of_idxOf rfl]
    simp only [erase, h, dite_true]
    show List.take (b.size - 1) (b.slots.toList.eraseIdx (b.toList.idxOf k) ++ [Key.no]) = _
    conv => lhs; rw [hsplit]
    rw [List.eraseIdx_append_of_lt_length hi, List.append_assoc, ← hlen, List.take_left]
  · rw [List.erase_of_not_mem h]
    simp [erase, h]

def clear (_ : HoldBuffer capacity) : HoldBuffer capacity := empty

@[simp] theorem toList_clear (b : HoldBuffer capacity) : b.clear.toList = [] := rfl

def display (b : HoldBuffer capacity) : String := Key.displayList b.toList

end HoldBuffer

end OpposingKeys
