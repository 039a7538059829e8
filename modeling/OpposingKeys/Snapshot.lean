import OpposingKeys.HoldBuffer

/-!
# Snapshots of a hold buffer

A snapshot copies the keys of a hold buffer into positions that can be emptied one by one. Its
length never changes, so a key keeps its position.
-/

namespace OpposingKeys

set_option autoImplicit false

structure Snapshot (capacity : Nat) where
  slots : Vector (Option Key) capacity
  size : Nat
  size_le : size ≤ capacity
deriving DecidableEq

namespace Snapshot

variable {capacity : Nat}

/-- The positions up to the length, emptied ones as `none`. -/
def toList (s : Snapshot capacity) : List (Option Key) := s.slots.toList.take s.size

@[simp] theorem length_toList (s : Snapshot capacity) : s.toList.length = s.size := by
  simp [toList, s.size_le]

def isEmpty (s : Snapshot capacity) : Bool := s.size == 0

/-- The key at a position; none where it was emptied, and none from the length on. -/
def get? (s : Snapshot capacity) (index : Nat) : Option Key := s.toList[index]?.join

/-- The first position before `limit` that holds `k`. -/
def position? (s : Snapshot capacity) (k : Key) (limit : Nat) : Option Nat :=
  (s.toList.take limit).findIdx? (· == some k)

/-- Empties the first position before `limit` that holds `k`, if there is one. -/
def vacateBefore (s : Snapshot capacity) (k : Key) (limit : Nat) : Snapshot capacity :=
  match s.position? k limit with
  | some i => { s with slots := s.slots.setIfInBounds i none }
  | none => s

@[simp] theorem size_vacateBefore (s : Snapshot capacity) (k : Key) (limit : Nat) :
    (s.vacateBefore k limit).size = s.size := by
  unfold vacateBefore
  split <;> rfl

theorem toList_vacateBefore (s : Snapshot capacity) (k : Key) (limit : Nat) :
    (s.vacateBefore k limit).toList =
      match s.position? k limit with
      | some i => s.toList.set i none
      | none => s.toList := by
  unfold vacateBefore
  split
  · simp [toList, List.take_set]
  · rfl

def display (s : Snapshot capacity) : String := Key.displaySlots s.toList

end Snapshot

namespace HoldBuffer

variable {capacity : Nat}

def snapshot (b : HoldBuffer capacity) : Snapshot capacity :=
  ⟨⟨(b.toList.map some ++ List.replicate (capacity - b.size) none).toArray, by
      have := b.size_le
      simp
      omega⟩,
    b.size, b.size_le⟩

@[simp] theorem toList_snapshot (b : HoldBuffer capacity) :
    b.snapshot.toList = b.toList.map some := by
  show List.take b.size (b.toList.map some ++ List.replicate (capacity - b.size) none) = _
  rw [← length_toList b]
  exact List.take_left' (by simp)

/-- Two fresh snapshots differ only if the keys in use do; the other slots do not count. -/
theorem snapshot_eq_iff {a b : HoldBuffer capacity} :
    a.snapshot = b.snapshot ↔ a.toList = b.toList := by
  constructor
  · intro h
    have := congrArg Snapshot.toList h
    rw [toList_snapshot, toList_snapshot] at this
    exact (List.map_inj_right fun _ _ => Option.some.inj).mp this
  · intro h
    have hs : a.size = b.size := by rw [← length_toList a, ← length_toList b, h]
    simp only [snapshot, h, hs]

end HoldBuffer

end OpposingKeys
