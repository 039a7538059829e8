/-!
# Blank characters

The characters of the Unicode property White_Space, trimming by them, and the words they
separate. The control characters U+001C to U+001F, the zero width space and the byte order
mark do not have the property.
-/

namespace OpposingKeys.Text

set_option autoImplicit false

def isBlank (c : Char) : Bool :=
  (0x09 ≤ c.val && c.val ≤ 0x0D) || c.val == 0x20 || c.val == 0x85 || c.val == 0xA0 ||
  c.val == 0x1680 || (0x2000 ≤ c.val && c.val ≤ 0x200A) || c.val == 0x2028 ||
  c.val == 0x2029 || c.val == 0x202F || c.val == 0x205F || c.val == 0x3000

def trimLeft (cs : List Char) : List Char := cs.dropWhile isBlank

def trimRight (cs : List Char) : List Char := (cs.reverse.dropWhile isBlank).reverse

/-- The text without the blanks at both of its ends. -/
def trim (cs : List Char) : List Char := trimRight (trimLeft cs)

/-- The longest pieces without a blank. `word` holds the piece being read, last character first. -/
def wordsFrom (word : List Char) : List Char → List (List Char)
  | [] => if word.isEmpty then [] else [word.reverse]
  | c :: cs =>
    if isBlank c then
      if word.isEmpty then wordsFrom [] cs else word.reverse :: wordsFrom [] cs
    else wordsFrom (c :: word) cs

def words (cs : List Char) : List (List Char) := wordsFrom [] cs

@[simp] theorem trim_nil : trim [] = [] := rfl

@[simp] theorem words_nil : words [] = [] := rfl

/-- Nothing but blanks. -/
def Blank (cs : List Char) : Prop := ∀ c ∈ cs, isBlank c = true

/-- The core of a text has blanks around it, but none at its own ends. -/
structure Trims (cs core : List Char) : Prop where
  around : ∃ front back, Blank front ∧ Blank back ∧ cs = front ++ core ++ back
  first : ∀ c rest, core = c :: rest → isBlank c = false
  last : ∀ rest c, core = rest ++ [c] → isBlank c = false

section Trimming
variable {cs blanks : List Char} {c : Char}

theorem blank_nil : Blank [] := fun _ h => nomatch h

theorem blank_singleton (h : isBlank c = true) : Blank [c] :=
  fun _ hd => List.mem_singleton.mp hd ▸ h

theorem Blank.reverse (h : Blank cs) : Blank cs.reverse :=
  fun c hc => h c (List.mem_reverse.mp hc)

theorem trimLeft_append (h : Blank blanks) : trimLeft (blanks ++ cs) = trimLeft cs :=
  List.dropWhile_append_of_pos h

theorem trimRight_append (h : Blank blanks) : trimRight (cs ++ blanks) = trimRight cs := by
  rw [trimRight, List.reverse_append, List.dropWhile_append_of_pos h.reverse, trimRight]

theorem exists_blank_append_trimLeft (cs : List Char) :
    ∃ blanks, Blank blanks ∧ cs = blanks ++ trimLeft cs :=
  ⟨cs.takeWhile isBlank, List.all_eq_true.mp List.all_takeWhile,
    List.takeWhile_append_dropWhile.symm⟩

theorem exists_trimRight_append_blank (cs : List Char) :
    ∃ blanks, Blank blanks ∧ cs = trimRight cs ++ blanks := by
  obtain ⟨blanks, hblanks, hcs⟩ := exists_blank_append_trimLeft cs.reverse
  refine ⟨blanks.reverse, hblanks.reverse, ?_⟩
  simpa [trimRight, trimLeft] using congrArg List.reverse hcs

theorem trimLeft_eq_nil_iff : trimLeft cs = [] ↔ Blank cs := by
  constructor
  · intro h
    obtain ⟨blanks, hblanks, hcs⟩ := exists_blank_append_trimLeft cs
    rw [hcs, h, List.append_nil]
    exact hblanks
  · intro h
    have hdropped : trimLeft (cs ++ []) = trimLeft [] := trimLeft_append h
    rwa [List.append_nil] at hdropped

theorem trimLeft_append_of_not_blank (h : ¬ Blank cs) (rest : List Char) :
    trimLeft (cs ++ rest) = trimLeft cs ++ rest := by
  rw [trimLeft, List.dropWhile_append, if_neg]
  · rfl
  · rw [List.isEmpty_iff]
    exact fun hnil => h (trimLeft_eq_nil_iff.mp hnil)

theorem trimLeft_append_cons (hc : isBlank c = false) (xs ys : List Char) :
    trimLeft (xs ++ c :: ys) = trimLeft xs ++ c :: ys := by
  by_cases hxs : Blank xs
  · rw [trimLeft_append hxs, trimLeft_eq_nil_iff.mpr hxs]
    exact List.dropWhile_cons_of_neg (by simp [hc])
  · exact trimLeft_append_of_not_blank hxs (c :: ys)

theorem trimRight_append_cons (hc : isBlank c = false) (xs ys : List Char) :
    trimRight (xs ++ c :: ys) = xs ++ c :: trimRight ys := by
  rw [trimRight, trimRight, List.reverse_append, List.reverse_cons, List.append_assoc,
    List.dropWhile_append]
  split
  · next hys => simp [List.isEmpty_iff.mp hys, hc]
  · simp

theorem trim_append_left (h : Blank blanks) : trim (blanks ++ cs) = trim cs := by
  rw [trim, trimLeft_append h, trim]

theorem trim_append_right (h : Blank blanks) : trim (cs ++ blanks) = trim cs := by
  by_cases hcs : Blank cs
  · have hboth : Blank (cs ++ blanks) := by
      intro c hc
      exact (List.mem_append.mp hc).elim (hcs c) (h c)
    rw [trim, trim, trimLeft_eq_nil_iff.mpr hboth, trimLeft_eq_nil_iff.mpr hcs]
  · rw [trim, trimLeft_append_of_not_blank hcs, trimRight_append h, trim]

theorem trim_trimLeft (cs : List Char) : trim (trimLeft cs) = trim cs := by
  obtain ⟨blanks, hblanks, hcs⟩ := exists_blank_append_trimLeft cs
  calc trim (trimLeft cs)
    _ = trim (blanks ++ trimLeft cs) := (trim_append_left hblanks).symm
    _ = trim cs := by rw [← hcs]

theorem trim_trimRight (cs : List Char) : trim (trimRight cs) = trim cs := by
  obtain ⟨blanks, hblanks, hcs⟩ := exists_trimRight_append_blank cs
  calc trim (trimRight cs)
    _ = trim (trimRight cs ++ blanks) := (trim_append_right hblanks).symm
    _ = trim cs := by rw [← hcs]

theorem trim_trim (cs : List Char) : trim (trim cs) = trim cs := by
  calc trim (trim cs)
    _ = trim (trimLeft cs) := trim_trimRight (trimLeft cs)
    _ = trim cs := trim_trimLeft cs

theorem exists_eq_append_trim (cs : List Char) :
    ∃ front back, Blank front ∧ Blank back ∧ cs = front ++ trim cs ++ back := by
  obtain ⟨front, hfront, hcs⟩ := exists_blank_append_trimLeft cs
  obtain ⟨back, hback, hrest⟩ := exists_trimRight_append_blank (trimLeft cs)
  refine ⟨front, back, hfront, hback, ?_⟩
  rwa [hrest, ← List.append_assoc] at hcs

theorem mem_of_mem_trim (h : c ∈ trim cs) : c ∈ cs := by
  obtain ⟨front, back, _, _, hcs⟩ := exists_eq_append_trim cs
  rw [hcs]
  exact List.mem_append_left back (List.mem_append_right front h)

theorem mem_of_mem_trimLeft (h : c ∈ trimLeft cs) : c ∈ cs := by
  obtain ⟨blanks, _, hcs⟩ := exists_blank_append_trimLeft cs
  rw [hcs]
  exact List.mem_append_right blanks h

theorem trim_eq_nil_iff : trim cs = [] ↔ Blank cs := by
  constructor
  · intro h
    obtain ⟨front, back, hfront, hback, hcs⟩ := exists_eq_append_trim cs
    rw [hcs, h, List.append_nil]
    intro c hc
    exact (List.mem_append.mp hc).elim (hfront c) (hback c)
  · intro h
    rw [trim, trimLeft_eq_nil_iff.mpr h]
    rfl

theorem trim_of_no_blank (h : ∀ c ∈ cs, isBlank c = false) : trim cs = cs := by
  obtain ⟨front, back, hfront, hback, hcs⟩ := exists_eq_append_trim cs
  have hnil {blanks : List Char} (hblank : Blank blanks) (hsub : blanks ⊆ cs) : blanks = [] := by
    rw [List.eq_nil_iff_forall_not_mem]
    intro c hc
    exact Bool.noConfusion ((hblank c hc).symm.trans (h c (hsub hc)))
  have hf : front = [] := hnil hfront fun c hc => by rw [hcs]; simp [hc]
  have hb : back = [] := hnil hback fun c hc => by rw [hcs]; simp [hc]
  rw [hf, hb, List.nil_append, List.append_nil] at hcs
  exact hcs.symm

theorem not_blank_of_trimLeft_eq_cons {rest : List Char} (h : trimLeft cs = c :: rest) :
    isBlank c = false := by
  have hfirst := List.head?_dropWhile_not isBlank cs
  rw [show cs.dropWhile isBlank = c :: rest from h] at hfirst
  exact hfirst

theorem trims_trim (cs : List Char) : Trims cs (trim cs) := by
  refine ⟨exists_eq_append_trim cs, ?_, ?_⟩
  · intro c rest h
    obtain ⟨back, _, hleft⟩ := exists_trimRight_append_blank (trimLeft cs)
    rw [show trimRight (trimLeft cs) = c :: rest from h] at hleft
    exact not_blank_of_trimLeft_eq_cons hleft
  · intro rest c h
    have hreverse : trimLeft (trimLeft cs).reverse = c :: rest.reverse := by
      simpa [trim, trimRight, trimLeft] using congrArg List.reverse h
    exact not_blank_of_trimLeft_eq_cons hreverse

theorem Trims.eq {core : List Char} (h : Trims cs core) : core = trim cs := by
  obtain ⟨⟨front, back, hfront, hback, rfl⟩, hfirst, hlast⟩ := h
  rw [trim_append_right hback, trim_append_left hfront]
  obtain rfl | ⟨rest, last, hcore⟩ := List.eq_nil_or_concat core
  · rfl
  · obtain rfl : core = rest ++ [last] := hcore.trans List.concat_eq_append
    have hstart : trimLeft (rest ++ [last]) = rest ++ [last] := by
      cases hcore : rest ++ [last] with
      | nil => rfl
      | cons c cs => exact List.dropWhile_cons_of_neg (Bool.eq_false_iff.mp (hfirst c cs hcore))
    have hend := trimRight_append_cons (hlast rest last rfl) rest []
    rw [trim, hstart, hend]
    rfl

end Trimming

section Words
variable {word cs : List Char} {c : Char}

end Words

end OpposingKeys.Text
