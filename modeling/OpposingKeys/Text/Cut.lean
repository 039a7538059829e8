/-!
# Cutting a text at a mark

`cut mark cs` divides `cs` at the leftmost occurrence of `mark` into what comes before and what
comes after it.
-/

namespace OpposingKeys.Text

set_option autoImplicit false

/-- What follows `mark` when the text starts with it. -/
def after? : List Char → List Char → Option (List Char)
  | [], cs => some cs
  | _ :: _, [] => none
  | m :: ms, c :: cs => if m = c then after? ms cs else none

theorem after?_eq_some_iff {mark cs rest : List Char} :
    after? mark cs = some rest ↔ cs = mark ++ rest := by
  induction mark generalizing cs with
  | nil => simp [after?]
  | cons m ms ih =>
    cases cs with
    | nil => simp [after?]
    | cons c cs =>
      by_cases h : m = c
      · simp [after?, h, ih]
      · have hc : ¬ c = m := fun e => h e.symm
        simp [after?, h, hc]

theorem after?_eq_none_iff {mark cs : List Char} : after? mark cs = none ↔ ¬ mark <+: cs := by
  rw [Option.eq_none_iff_forall_ne_some]
  constructor
  · rintro h ⟨rest, hrest⟩
    exact h rest (after?_eq_some_iff.mpr hrest.symm)
  · intro h rest hrest
    exact h ⟨rest, (after?_eq_some_iff.mp hrest).symm⟩

def cut (mark : List Char) : List Char → Option (List Char × List Char)
  | [] => (after? mark []).map fun rest => ([], rest)
  | c :: cs =>
    match after? mark (c :: cs) with
    | some rest => some ([], rest)
    | none => (cut mark cs).map fun halves => (c :: halves.1, halves.2)

theorem eq_append_of_cut {mark cs left right : List Char}
    (h : cut mark cs = some (left, right)) : cs = left ++ mark ++ right := by
  induction cs generalizing left with
  | nil =>
    simp only [cut, Option.map_eq_some_iff, Prod.mk.injEq] at h
    obtain ⟨rest, hrest, rfl, rfl⟩ := h
    simpa using after?_eq_some_iff.mp hrest
  | cons c cs ih =>
    simp only [cut] at h
    split at h
    · next rest hrest =>
      obtain ⟨rfl, rfl⟩ : [] = left ∧ rest = right := by simpa using h
      simpa using after?_eq_some_iff.mp hrest
    · obtain ⟨halves, hcut, he⟩ := Option.map_eq_some_iff.mp h
      obtain ⟨rfl, rfl⟩ : c :: halves.1 = left ∧ halves.2 = right := by simpa using he
      simp [ih hcut]

/-- The leftmost `mark` in the text stands between `left` and `right`. -/
def FirstAt (mark cs left right : List Char) : Prop :=
  cs = left ++ mark ++ right ∧
    ∀ left' right', cs = left' ++ mark ++ right' → left.length ≤ left'.length

theorem cut_eq_none_iff {mark cs : List Char} : cut mark cs = none ↔ ¬ mark <:+: cs := by
  induction cs with
  | nil => simp [cut, after?_eq_none_iff]
  | cons c cs ih =>
    rw [List.infix_cons_iff, not_or, ← after?_eq_none_iff, ← ih, cut]
    split
    · next rest hrest => simp [hrest]
    · next hnone => simp [hnone]

theorem length_le_of_cut {mark cs left right left' right' : List Char}
    (h : cut mark cs = some (left, right)) (h' : cs = left' ++ mark ++ right') :
    left.length ≤ left'.length := by
  induction cs generalizing left left' with
  | nil =>
    simp only [cut, Option.map_eq_some_iff, Prod.mk.injEq] at h
    obtain ⟨_, _, rfl, _⟩ := h
    exact Nat.zero_le _
  | cons c cs ih =>
    simp only [cut] at h
    split at h
    · obtain ⟨rfl, _⟩ : [] = left ∧ _ = right := by simpa using h
      exact Nat.zero_le _
    · next hnone =>
      obtain ⟨halves, hcut, he⟩ := Option.map_eq_some_iff.mp h
      obtain ⟨rfl, rfl⟩ : c :: halves.1 = left ∧ halves.2 = right := by simpa using he
      cases left' with
      | nil => exact absurd ⟨right', h'.symm⟩ (after?_eq_none_iff.mp hnone)
      | cons c' left' =>
        have htail : cs = left' ++ mark ++ right' := (List.cons.inj h').2
        exact Nat.succ_le_succ (ih hcut htail)

theorem cut_eq_some_iff {mark cs left right : List Char} :
    cut mark cs = some (left, right) ↔ FirstAt mark cs left right := by
  constructor
  · intro h
    exact ⟨eq_append_of_cut h, fun _ _ h' => length_le_of_cut h h'⟩
  · rintro ⟨h, hfirst⟩
    cases hcut : cut mark cs with
    | none => exact absurd ⟨left, right, h.symm⟩ (cut_eq_none_iff.mp hcut)
    | some halves =>
      obtain ⟨left', right'⟩ := halves
      have h' := eq_append_of_cut hcut
      have hlength : left'.length = left.length :=
        Nat.le_antisymm (length_le_of_cut hcut h) (hfirst left' right' h')
      have hsame : left' ++ (mark ++ right') = left ++ (mark ++ right) := by
        simpa only [List.append_assoc] using h'.symm.trans h
      obtain ⟨rfl, hrest⟩ := List.append_inj hsame hlength
      rw [List.append_cancel_left hrest]

/-- A mark whose first character does not occur before it is the leftmost one. -/
theorem firstAt_of_not_mem {m : Char} {ms left : List Char} (h : m ∉ left) (right : List Char) :
    FirstAt (m :: ms) (left ++ (m :: ms) ++ right) left right := by
  refine ⟨rfl, ?_⟩
  intro left' right' h'
  rw [List.append_assoc, List.append_assoc, List.append_eq_append_iff] at h'
  obtain ⟨more, rfl, _⟩ | ⟨more, rfl, hmore⟩ := h'
  · simp
  · cases more with
    | nil => simp
    | cons c more =>
      obtain rfl : m = c := (List.cons.inj hmore).1
      exact absurd (List.mem_append_right left' List.mem_cons_self) h

/-- The text before the first `mark`, all of it when there is none. -/
def before (mark : Char) (cs : List Char) : List Char := cs.takeWhile (· != mark)

theorem not_mem_before (mark : Char) (cs : List Char) : mark ∉ before mark cs := by
  intro h
  have := List.all_takeWhile (p := (· != mark)) (l := cs)
  rw [List.all_eq_true] at this
  simpa using this mark h

theorem before_append {mark : Char} {cs : List Char} (h : mark ∉ cs) (rest : List Char) :
    before mark (cs ++ rest) = cs ++ before mark rest := by
  refine List.takeWhile_append_of_pos ?_
  intro c hc
  exact bne_iff_ne.mpr fun e => h (e ▸ hc)

@[simp] theorem before_nil (mark : Char) : before mark [] = [] := rfl

@[simp] theorem before_cons_self (mark : Char) (cs : List Char) : before mark (mark :: cs) = [] := by
  simp [before]

/-- A text is over at its first `mark` or goes on behind it. -/
theorem eq_before_or_exists (mark : Char) (cs : List Char) :
    cs = before mark cs ∨ ∃ rest, cs = before mark cs ++ mark :: rest := by
  have hsplit : cs = before mark cs ++ cs.dropWhile (· != mark) :=
    List.takeWhile_append_dropWhile.symm
  cases hrest : cs.dropWhile (· != mark) with
  | nil =>
    rw [hrest, List.append_nil] at hsplit
    exact Or.inl hsplit
  | cons c rest =>
    have hc := List.head?_dropWhile_not (· != mark) cs
    rw [hrest] at hc
    obtain rfl : c = mark := by simpa using hc
    rw [hrest] at hsplit
    exact Or.inr ⟨rest, hsplit⟩

end OpposingKeys.Text
