/-!
# Lines

A line ends at a line feed, and a carriage return right before that line feed belongs to the
ending. A carriage return anywhere else is an ordinary character. What follows the last line
feed is a line of its own, empty or not.
-/

namespace OpposingKeys.Text

set_option autoImplicit false

/-- The pieces between the occurrences of `sep`; one more of them than there are occurrences. -/
def pieces (sep : Char) : List Char → List (List Char)
  | [] => [[]]
  | c :: cs =>
    if c = sep then [] :: pieces sep cs
    else match pieces sep cs with
      | [] => [[c]]
      | p :: ps => (c :: p) :: ps

theorem pieces_ne_nil (sep : Char) (cs : List Char) : pieces sep cs ≠ [] := by
  cases cs with
  | nil => simp [pieces]
  | cons c cs =>
    simp only [pieces]
    split
    · simp
    · split <;> simp

theorem length_pieces (sep : Char) (cs : List Char) :
    (pieces sep cs).length = cs.count sep + 1 := by
  induction cs with
  | nil => simp [pieces]
  | cons c cs ih =>
    by_cases h : c = sep
    · simp [pieces, h, ih]
    · cases hp : pieces sep cs with
      | nil => exact absurd hp (pieces_ne_nil sep cs)
      | cons p ps =>
        rw [hp] at ih
        simpa [pieces, h, hp] using ih

theorem pieces_append_sep (sep : Char) (xs ys : List Char) :
    pieces sep (xs ++ sep :: ys) = pieces sep xs ++ pieces sep ys := by
  induction xs with
  | nil => simp [pieces]
  | cons c cs ih =>
    by_cases h : c = sep
    · simp [pieces, h, ih]
    · cases hp : pieces sep cs with
      | nil => exact absurd hp (pieces_ne_nil sep cs)
      | cons p ps => simp [pieces, h, ih, hp]

theorem pieces_of_not_mem {sep : Char} {cs : List Char} (h : sep ∉ cs) : pieces sep cs = [cs] := by
  induction cs with
  | nil => rfl
  | cons c cs ih =>
    have hc : c ≠ sep := fun e => h (e ▸ List.mem_cons_self)
    have hcs : sep ∉ cs := fun m => h (List.mem_cons_of_mem c m)
    simp [pieces, hc, ih hcs]

/-- Pieces that each end at a separator are found again, with nothing behind the last one. -/
theorem pieces_flatMap {sep : Char} {ps : List (List Char)} (h : ∀ p ∈ ps, sep ∉ p) :
    pieces sep (ps.flatMap fun p => p ++ [sep]) = ps ++ [[]] := by
  induction ps with
  | nil => rfl
  | cons p ps ih =>
    have hp : sep ∉ p := h p List.mem_cons_self
    have hps : ∀ p ∈ ps, sep ∉ p := fun q hq => h q (List.mem_cons_of_mem p hq)
    rw [List.flatMap_cons, List.append_assoc, List.singleton_append, pieces_append_sep,
      pieces_of_not_mem hp, ih hps]
    rfl

/-- What follows without a separator goes on with the last piece. -/
theorem exists_pieces_append (sep : Char) (xs : List Char) :
    ∃ front last, ∀ ys, sep ∉ ys → pieces sep (xs ++ ys) = front ++ [last ++ ys] := by
  by_cases h : sep ∈ xs
  · obtain ⟨tail, front, hreverse, htail⟩ := List.eq_append_cons_of_mem (List.mem_reverse.mpr h)
    have hxs : xs = front.reverse ++ sep :: tail.reverse := by
      simpa using congrArg List.reverse hreverse
    refine ⟨pieces sep front.reverse, tail.reverse, fun ys hys => ?_⟩
    have hlast : sep ∉ tail.reverse ++ ys := by simp [htail, hys]
    rw [hxs, List.append_assoc, List.cons_append, pieces_append_sep, pieces_of_not_mem hlast]
  · refine ⟨[], xs, fun ys hys => ?_⟩
    have hlast : sep ∉ xs ++ ys := by simp [h, hys]
    rw [pieces_of_not_mem hlast, List.nil_append]

def dropReturn (line : List Char) : List Char :=
  if line.getLast? = some '\r' then line.dropLast else line

theorem eq_dropReturn_or (line : List Char) :
    line = dropReturn line ∨ line = dropReturn line ++ ['\r'] := by
  rw [dropReturn]
  split
  · next h =>
    obtain ⟨front, rfl⟩ := List.getLast?_eq_some_iff.mp h
    exact Or.inr (by rw [List.dropLast_concat])
  · exact Or.inl rfl

/-- All but the last piece ended at a line feed, so only those lose a carriage return. -/
def endLines : List (List Char) → List (List Char)
  | [] => []
  | [last] => [last]
  | piece :: rest => dropReturn piece :: endLines rest

def lines (cs : List Char) : List (List Char) := endLines (pieces '\n' cs)

/-- A text made up of lines. A line feed ends all of them but the last, with a carriage return before
it or not. -/
inductive InLines : List Char → List (List Char) → Prop where
  | last {line : List Char} : '\n' ∉ line → InLines line [line]
  | feed {line text : List Char} {rest : List (List Char)} : '\n' ∉ line →
      (∀ front, line ≠ front ++ ['\r']) → InLines text rest →
        InLines (line ++ '\n' :: text) (line :: rest)
  | returnFeed {line text : List Char} {rest : List (List Char)} : '\n' ∉ line →
      InLines text rest → InLines (line ++ '\r' :: '\n' :: text) (line :: rest)

section Lines
variable {line text : List Char} {found : List (List Char)}

theorem lines_of_not_mem (h : '\n' ∉ line) : lines line = [line] := by
  rw [lines, pieces_of_not_mem h, endLines]

theorem lines_append_feed (h : '\n' ∉ line) (text : List Char) :
    lines (line ++ '\n' :: text) = dropReturn line :: lines text := by
  rw [lines, pieces_append_sep, pieces_of_not_mem h, lines]
  cases hpieces : pieces '\n' text with
  | nil => exact absurd hpieces (pieces_ne_nil '\n' text)
  | cons piece rest => rfl

theorem dropReturn_append_return (line : List Char) : dropReturn (line ++ ['\r']) = line := by
  rw [dropReturn, if_pos (List.getLast?_concat ..), List.dropLast_concat]

theorem InLines.eq (h : InLines text found) : found = lines text := by
  induction h with
  | last hline => exact (lines_of_not_mem hline).symm
  | @feed line text rest hline hplain _ ih =>
    have hdrop : dropReturn line = line :=
      ((eq_dropReturn_or line).resolve_right (hplain _)).symm
    rw [lines_append_feed hline, hdrop, ih]
  | @returnFeed line text rest hline _ ih =>
    have hfree : '\n' ∉ line ++ ['\r'] := by simp [hline]
    have htext : line ++ '\r' :: '\n' :: text = line ++ ['\r'] ++ '\n' :: text := by simp
    rw [htext, lines_append_feed hfree, dropReturn_append_return, ih]

theorem inLines_lines (text : List Char) : InLines text (lines text) := by
  induction hlength : text.length using Nat.strongRecOn generalizing text with
  | ind n ih =>
    by_cases hfeed : '\n' ∈ text
    · obtain ⟨line, rest, rfl, hline⟩ := List.eq_append_cons_of_mem hfeed
      have hshorter : rest.length < n := by
        rw [← hlength, List.length_append, List.length_cons]
        omega
      have hrest := ih rest.length hshorter rest rfl
      rw [lines_append_feed hline]
      obtain hdrop | hdrop := eq_dropReturn_or line
      · rw [← hdrop]
        refine .feed hline ?_ hrest
        intro front hfront
        rw [hfront, dropReturn_append_return] at hdrop
        simp at hdrop
      · have htext : line ++ '\n' :: rest = dropReturn line ++ '\r' :: '\n' :: rest := by
          rw [hdrop, dropReturn_append_return, List.append_assoc]
          rfl
        rw [htext]
        refine .returnFeed ?_ hrest
        rw [hdrop] at hline
        exact fun hmem => hline (List.mem_append_left _ hmem)
    · rw [lines_of_not_mem hfeed]
      exact .last hfeed

/-- There is one way to take a text for lines. -/
theorem inLines_iff : InLines text found ↔ found = lines text := by
  constructor
  · exact InLines.eq
  · rintro rfl
    exact inLines_lines text

end Lines

end OpposingKeys.Text
