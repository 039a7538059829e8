import OpposingKeys.Snapshot

/-!
# Slots within bounds

Hold buffers and snapshots once more, as bare slots about which nothing is known: every access names the
slots that it needs, and `none` says that they are not there. On the slots of hold buffers and snapshots
no access fails, and what comes out are the slots of the result. For this the unused slots of a hold
buffer have to hold `Key.no`, as every operation leaves them (`HoldBuffer.Filled`).
-/

namespace OpposingKeys

set_option autoImplicit false

/-- Slots, and how many of them are said to be in use. -/
structure Cells (α : Type) where
  slots : List α
  used : Nat

namespace Cells

section Access
variable {α : Type} (slots : List α)

/-- The first `n` slots. -/
def front? (n : Nat) : Option (List α) := if n ≤ slots.length then some (slots.take n) else none

/-- Slot `i` is set to `a`. -/
def put? (i : Nat) (a : α) : Option (List α) :=
  if i < slots.length then some (slots.set i a) else none

/-- The slots from `first` up to `last` are copied to those from `target` on. -/
def copy? (first last target : Nat) : Option (List α) :=
  if first ≤ last ∧ last ≤ slots.length ∧ target + (last - first) ≤ slots.length then
    some (slots.take target ++ (slots.take last).drop first ++ slots.drop (target + (last - first)))
  else none

variable {slots}

theorem front?_of_le {n : Nat} (h : n ≤ slots.length) : front? slots n = some (slots.take n) := if_pos h

theorem put?_of_lt {i : Nat} {a : α} (h : i < slots.length) : put? slots i a = some (slots.set i a) :=
  if_pos h

/-- What stands behind `a` moves over it. The slot that is left keeps something until it is set. -/
theorem copy?_behind (before after tail : List α) (a : α) :
    ∃ rest, copy? (before ++ a :: (after ++ tail)) (before.length + 1)
      (before.length + after.length + 1) before.length = some (before ++ after ++ rest :: tail) := by
  have hcount : before.length + (before.length + after.length + 1 - (before.length + 1)) =
      before.length + after.length := by omega
  have hmoved : ((before ++ a :: (after ++ tail)).take (before.length + after.length + 1)).drop
      (before.length + 1) = after := by
    have hfront : before ++ a :: (after ++ tail) = (before ++ [a]) ++ (after ++ tail) := by simp
    have hlast : before.length + after.length + 1 = (before ++ [a]).length + after.length := by
      simp only [List.length_append, List.length_singleton]
      omega
    have hfirst : before.length + 1 = (before ++ [a]).length := by simp
    rw [hfront, hlast, hfirst, List.take_length_add_append, List.drop_left, List.take_left]
  obtain ⟨rest, hrest⟩ : ∃ rest, (a :: after).drop after.length = [rest] :=
    List.length_eq_one_iff.mp (by simp)
  have hbehind : (before ++ a :: (after ++ tail)).drop (before.length + after.length) =
      rest :: tail := by
    rw [List.drop_length_add_append, ← List.cons_append, List.drop_append_of_le_length (by simp), hrest,
      List.singleton_append]
  refine ⟨rest, ?_⟩
  rw [copy?, if_pos (by simp only [List.length_append, List.length_cons]; omega), hcount, hmoved,
    hbehind, List.take_left]

theorem findIdx?_of_not_mem [BEq α] [LawfulBEq α] {xs : List α} {a : α} (h : a ∉ xs) :
    xs.findIdx? (· == a) = none := by
  rw [List.findIdx?_eq_none_iff]
  exact fun x hx => beq_eq_false_iff_ne.mpr fun hxa => h (hxa ▸ hx)

theorem findIdx?_of_first [BEq α] [LawfulBEq α] {before after : List α} {a : α} (h : a ∉ before) :
    (before ++ a :: after).findIdx? (· == a) = some before.length := by
  rw [List.findIdx?_append, findIdx?_of_not_mem h, Option.none_or, List.findIdx?_cons, beq_self_eq_true]
  simp

end Access

section Operations

def insert? (c : Cells Key) (k : Key) : Option (Cells Key × Bool) :=
  (front? c.slots c.used).bind fun keys =>
    if k ∈ keys ∨ c.slots.length ≤ c.used then some (c, false)
    else (put? c.slots c.used k).map fun slots => (⟨slots, c.used + 1⟩, true)

/-- The later keys move one slot forward, and `Key.no` fills the slot that they leave. -/
def erase? (c : Cells Key) (k : Key) : Option (Cells Key × Bool) :=
  (front? c.slots c.used).bind fun keys =>
    match keys.findIdx? (· == k), c.used with
    | none, _ => some (c, false)
    | some _, 0 => none
    | some i, last + 1 =>
      (copy? c.slots (i + 1) (last + 1) i).bind fun moved =>
        (put? moved last Key.no).map fun slots => (⟨slots, last⟩, true)

def contains? (c : Cells Key) (k : Key) : Option Bool :=
  (front? c.slots c.used).map fun keys => decide (k ∈ keys)

def clear (c : Cells Key) : Cells Key := ⟨List.replicate c.slots.length Key.no, 0⟩

def snapshot? (c : Cells Key) : Option (Cells (Option Key)) :=
  (front? c.slots c.used).map fun keys =>
    ⟨keys.map some ++ List.replicate (c.slots.length - keys.length) none, c.used⟩

def vacateBefore? (c : Cells (Option Key)) (k : Key) (limit : Nat) :
    Option (Cells (Option Key) × Bool) :=
  (front? c.slots (min limit c.used)).bind fun slots =>
    match slots.findIdx? (· == some k) with
    | none => some (c, false)
    | some i => (put? c.slots i none).map fun slots => (⟨slots, c.used⟩, true)

def get? (c : Cells (Option Key)) (index : Nat) : Option (Option Key) :=
  (front? c.slots c.used).map fun slots => slots[index]?.join

end Operations

/-- The keys in the first slots and `Key.no` in all others. -/
def ofKeys (capacity : Nat) (keys : List Key) : Cells Key :=
  ⟨keys ++ List.replicate (capacity - keys.length) Key.no, keys.length⟩

section Keys
variable {capacity : Nat} {keys : List Key} {k : Key}

@[simp] theorem used_ofKeys : (ofKeys capacity keys).used = keys.length := rfl

theorem length_slots_ofKeys (h : keys.length ≤ capacity) :
    (ofKeys capacity keys).slots.length = capacity := by
  rw [ofKeys, List.length_append, List.length_replicate]
  omega

theorem front?_ofKeys (h : keys.length ≤ capacity) :
    front? (ofKeys capacity keys).slots keys.length = some keys := by
  rw [front?_of_le ((length_slots_ofKeys h).symm ▸ h)]
  exact congrArg some List.take_left

/-- The first unused slot takes the next key. -/
theorem set_ofKeys (hroom : keys.length < capacity) :
    (ofKeys capacity keys).slots.set keys.length k = (ofKeys capacity (keys ++ [k])).slots := by
  obtain ⟨m, hm⟩ : ∃ m, capacity - keys.length = m + 1 := ⟨capacity - keys.length - 1, by omega⟩
  have hm' : capacity - (keys ++ [k]).length = m := by
    rw [List.length_append, List.length_singleton]
    omega
  rw [ofKeys, ofKeys, hm, hm', List.set_append_right _ _ (Nat.le_refl _), Nat.sub_self,
    List.replicate_succ, List.set_cons_zero, List.append_assoc, List.singleton_append]

theorem insert?_ofKeys (h : keys.length ≤ capacity) :
    (ofKeys capacity keys).insert? k =
      if k ∉ keys ∧ keys.length < capacity then some (ofKeys capacity (keys ++ [k]), true)
      else some (ofKeys capacity keys, false) := by
  rw [insert?, length_slots_ofKeys h, used_ofKeys, front?_ofKeys h, Option.bind_some]
  by_cases hin : k ∉ keys ∧ keys.length < capacity
  · obtain ⟨hout, hroom⟩ := hin
    rw [if_neg (not_or.mpr ⟨hout, Nat.not_le.mpr hroom⟩),
      put?_of_lt ((length_slots_ofKeys h).symm ▸ hroom), set_ofKeys hroom, if_pos ⟨hout, hroom⟩,
      Option.map_some, ofKeys, List.length_append, List.length_singleton]
  · have hrefused : k ∈ keys ∨ capacity ≤ keys.length := by
      by_cases hk : k ∈ keys
      · exact Or.inl hk
      · exact Or.inr (Nat.le_of_not_lt fun hroom => hin ⟨hk, hroom⟩)
    rw [if_pos hrefused, if_neg hin]

theorem erase?_ofKeys (h : keys.length ≤ capacity) :
    (ofKeys capacity keys).erase? k =
      some (ofKeys capacity (keys.erase k), decide (k ∈ keys)) := by
  rw [erase?, used_ofKeys, front?_ofKeys h, Option.bind_some]
  by_cases hk : k ∈ keys
  · obtain ⟨before, after, rfl, hfirst⟩ := List.eq_append_cons_of_mem hk
    have hlength : (before ++ k :: after).length = before.length + after.length + 1 := by
      rw [List.length_append, List.length_cons, Nat.add_assoc]
    rw [hlength] at h
    -- one more slot holds `Key.no` afterwards
    obtain ⟨m, hm⟩ : ∃ m, capacity = before.length + after.length + 1 + m := ⟨_, (Nat.add_sub_of_le h).symm⟩
    have hslots : (ofKeys capacity (before ++ k :: after)).slots =
        before ++ k :: (after ++ List.replicate m Key.no) := by
      rw [ofKeys, hlength, hm, Nat.add_sub_cancel_left, List.append_assoc, List.cons_append]
    have hfilled : ofKeys capacity (before ++ after) =
        ⟨before ++ after ++ Key.no :: List.replicate m Key.no, before.length + after.length⟩ := by
      rw [ofKeys, List.length_append, hm, Nat.add_assoc, Nat.add_sub_cancel_left, Nat.add_comm 1,
        List.replicate_succ]
    obtain ⟨rest, hmoved⟩ := copy?_behind before after (List.replicate m Key.no) k
    have hput : put? (before ++ after ++ rest :: List.replicate m Key.no)
        (before.length + after.length) Key.no =
        some (before ++ after ++ Key.no :: List.replicate m Key.no) := by
      rw [← List.length_append, put?_of_lt (by simp), List.set_append_right _ _ (Nat.le_refl _),
        Nat.sub_self, List.set_cons_zero]
    rw [findIdx?_of_first hfirst, hslots, decide_eq_true hk, List.erase_append_right _ hfirst,
      List.erase_cons_head, hfilled]
    simp only [hlength, hmoved, Option.bind_some, hput, Option.map_some]
  · rw [findIdx?_of_not_mem hk, List.erase_of_not_mem hk, decide_eq_false hk]

theorem contains?_ofKeys (h : keys.length ≤ capacity) :
    (ofKeys capacity keys).contains? k = some (decide (k ∈ keys)) := by
  rw [contains?, used_ofKeys, front?_ofKeys h, Option.map_some]

theorem clear_ofKeys (h : keys.length ≤ capacity) :
    (ofKeys capacity keys).clear = ofKeys capacity [] := by
  rw [clear, length_slots_ofKeys h, ofKeys]
  rfl

theorem snapshot?_ofKeys (h : keys.length ≤ capacity) :
    (ofKeys capacity keys).snapshot? =
      some ⟨keys.map some ++ List.replicate (capacity - keys.length) none, keys.length⟩ := by
  rw [snapshot?, used_ofKeys, front?_ofKeys h, Option.map_some, length_slots_ofKeys h]

end Keys

end Cells

variable {capacity : Nat}

namespace HoldBuffer
variable {b : HoldBuffer capacity} {k : Key}

def cells (b : HoldBuffer capacity) : Cells Key := ⟨b.slots.toList, b.size⟩

/-- The slots that are not in use hold `Key.no`. -/
def Filled (b : HoldBuffer capacity) : Prop := b.cells = .ofKeys capacity b.toList

theorem length_toList_le (b : HoldBuffer capacity) : b.toList.length ≤ capacity := by
  rw [length_toList]
  exact b.size_le

theorem filled_empty : (empty : HoldBuffer capacity).Filled := by
  rw [Filled, cells, empty, Vector.toList_replicate]
  rfl

namespace Filled

theorem insert (h : b.Filled) (k : Key) : (b.insert k).Filled := by
  cases haccepts : b.accepts k with
  | false => rwa [insert_of_not_accepts haccepts]
  | true =>
    obtain ⟨hout, hroom⟩ := accepts_iff.mp haccepts
    have hslots : b.slots.toList = (Cells.ofKeys capacity b.toList).slots := congrArg Cells.slots h
    have hsize : b.size < capacity := b.length_toList ▸ hroom
    have hfree : b.contains k = false ∧ b.size < capacity :=
      ⟨contains_eq_false_iff.mpr hout, hsize⟩
    rw [Filled, toList_insert, if_pos haccepts, cells, HoldBuffer.insert, dif_pos hfree]
    simp only [Vector.toList_set, hslots, ← b.length_toList, Cells.set_ofKeys hroom]
    rw [Cells.ofKeys, List.length_append, List.length_singleton]

theorem erase (h : b.Filled) (k : Key) : (b.erase k).Filled := by
  rw [Filled, toList_erase]
  by_cases hk : k ∈ b.toList
  · have hslots : b.slots.toList = (Cells.ofKeys capacity b.toList).slots := congrArg Cells.slots h
    have hidx : b.toList.idxOf k < b.toList.length := List.idxOf_lt_length_iff.mpr hk
    have hlength : (b.toList.erase k).length + 1 = b.size := by
      rw [List.length_erase_of_mem hk, length_toList]
      rw [length_toList] at hidx
      omega
    have hmore : capacity - (b.toList.erase k).length = capacity - b.toList.length + 1 := by
      have := b.size_le
      rw [length_toList]
      omega
    rw [HoldBuffer.erase, dif_pos hk]
    show (⟨b.slots.toList.eraseIdx (b.toList.idxOf k) ++ [Key.no], b.size - 1⟩ : Cells Key) = _
    rw [hslots, Cells.ofKeys, Cells.ofKeys, List.eraseIdx_append_of_lt_length hidx,
      ← List.erase_eq_eraseIdx_of_idxOf rfl, hmore, List.replicate_succ', List.append_assoc, ← hlength,
      Nat.add_sub_cancel]
  · rwa [List.erase_of_not_mem hk, HoldBuffer.erase, dif_neg hk]

theorem clear (b : HoldBuffer capacity) : b.clear.Filled := filled_empty

/-- No slot is looked for in vain, and the slots that come out are those of the operation. -/
theorem insert?_cells (h : b.Filled) :
    b.cells.insert? k = some ((b.insert k).cells, b.accepts k) := by
  have hnext : (b.insert k).cells = _ := h.insert k
  rw [hnext, toList_insert, show b.cells = _ from h, Cells.insert?_ofKeys b.length_toList_le]
  by_cases haccepts : b.accepts k = true
  · rw [if_pos (accepts_iff.mp haccepts), if_pos haccepts, haccepts]
  · rw [if_neg fun hin => haccepts (accepts_iff.mpr hin), if_neg haccepts, Bool.eq_false_iff.mpr haccepts]

theorem erase?_cells (h : b.Filled) : b.cells.erase? k = some ((b.erase k).cells, b.contains k) := by
  have hnext : (b.erase k).cells = _ := h.erase k
  rw [hnext, toList_erase, show b.cells = _ from h, Cells.erase?_ofKeys b.length_toList_le, contains,
    List.contains_eq_mem]

theorem contains?_cells (h : b.Filled) : b.cells.contains? k = some (b.contains k) := by
  rw [show b.cells = _ from h, Cells.contains?_ofKeys b.length_toList_le, contains,
    List.contains_eq_mem]

theorem clear_cells (h : b.Filled) : b.cells.clear = b.clear.cells := by
  rw [show b.cells = _ from h, Cells.clear_ofKeys b.length_toList_le]
  exact (clear b).symm

end Filled

end HoldBuffer

namespace Snapshot
variable {s : Snapshot capacity} {k : Key} {limit index : Nat}

def cells (s : Snapshot capacity) : Cells (Option Key) := ⟨s.slots.toList, s.size⟩

theorem front?_cells (s : Snapshot capacity) (limit : Nat) :
    Cells.front? s.slots.toList (min limit s.size) = some (s.toList.take limit) := by
  have hle : min limit s.size ≤ s.slots.toList.length := by
    rw [Vector.length_toList]
    exact Nat.le_trans (Nat.min_le_right limit s.size) s.size_le
  rw [Cells.front?_of_le hle, toList, List.take_take]

theorem get?_cells : s.cells.get? index = some (s.get? index) := by
  have hin : s.size ≤ s.slots.toList.length := by
    rw [Vector.length_toList]
    exact s.size_le
  rw [Cells.get?, cells, Cells.front?_of_le hin, Option.map_some, get?, toList]

theorem vacateBefore?_cells :
    s.cells.vacateBefore? k limit =
      some ((s.vacateBefore k limit).cells, (s.position? k limit).isSome) := by
  rw [Cells.vacateBefore?, cells, front?_cells, Option.bind_some, vacateBefore, position?]
  cases hfind : (s.toList.take limit).findIdx? (· == some k) with
  | none => rfl
  | some i =>
    have hlimit := (List.findIdx?_eq_some_iff_findIdx_eq.mp hfind).1
    have hin : i < s.slots.toList.length := by
      rw [List.length_take, length_toList] at hlimit
      have := s.size_le
      rw [Vector.length_toList]
      omega
    rw [cells, Vector.toList_setIfInBounds]
    simp only [Cells.put?_of_lt hin, Option.map_some, Option.isSome_some]

end Snapshot

theorem HoldBuffer.Filled.snapshot?_cells {b : HoldBuffer capacity} (h : b.Filled) :
    b.cells.snapshot? = some b.snapshot.cells := by
  rw [show b.cells = _ from h, Cells.snapshot?_ofKeys b.length_toList_le, length_toList]
  rfl

end OpposingKeys
