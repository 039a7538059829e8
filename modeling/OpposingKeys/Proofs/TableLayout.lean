import OpposingKeys.Proofs.JoinedTables
import OpposingKeys.Proofs.KeyRules

/-!
# The layout of a table does not matter

Two texts are compared line by line, whatever breaks stand behind their lines. A line says the same, or
is wrong in the same way, with blanks at its ends and with a comment behind its rule (`Relaid`). Blanks
beside the arrow of a rule (`Spaced`) change what is blamed when the rule is wrong, but not what a right
rule says. The main statement is that any number of such changes leaves the table as it is.
-/

namespace OpposingKeys

set_option autoImplicit false

/-- What ends a line that another one follows. -/
inductive LineBreak where
  | feed
  | returnFeed
deriving DecidableEq

def LineBreak.text : LineBreak → List Char
  | feed => ['\n']
  | returnFeed => ['\r', '\n']

/-- Two texts of equally many lines, of which those at the same place are related. -/
inductive LineByLine (related : List Char → List Char → Prop) : List Char → List Char → Prop where
  | last {line line' : List Char} : '\n' ∉ line → '\n' ∉ line' → related line line' →
      LineByLine related line line'
  | cons {line line' text text' : List Char} (stop stop' : LineBreak) : '\n' ∉ line → '\n' ∉ line' →
      related line line' → LineByLine related text text' →
        LineByLine related (line ++ stop.text ++ text) (line' ++ stop'.text ++ text')

/-- Blanks put at the ends of a line, and comments put behind its rule, one after another. -/
inductive Relaid : List Char → List Char → Prop where
  | same (line : List Char) : Relaid line line
  | indented {line line' blanks : List Char} : Relaid line line' → Text.Blank blanks →
      Relaid line (blanks ++ line')
  | trailed {line line' blanks : List Char} : Relaid line line' → Text.Blank blanks →
      Relaid line (line' ++ blanks)
  | commented {line line' rule : List Char} (comment : List Char) : Relaid line line' →
      HasRule line' rule → Relaid line (line' ++ ';' :: comment)

/-- Blanks put on either side of the arrow of a rule, which may have a comment behind it. -/
inductive Spaced : List Char → List Char → Prop where
  | same (line : List Char) : Spaced line line
  | arrow {left right front back tail : List Char} {arrow : Arrow} :
      ';' ∉ left ++ arrow.mark ++ right → Divided (left ++ arrow.mark ++ right) arrow left right →
      (tail = [] ∨ ∃ comment, tail = ';' :: comment) → Text.Blank front → Text.Blank back →
        Spaced (left ++ arrow.mark ++ right ++ tail)
          (left ++ front ++ arrow.mark ++ (back ++ right) ++ tail)

/-- The text with a carriage return before every line feed. -/
def withReturns (text : List Char) : List Char :=
  text.flatMap fun c => if c = '\n' then ['\r', '\n'] else [c]

section Lines
variable {related : List Char → List Char → Prop} {line line' text text' : List Char} {c : Char}

theorem LineByLine.cons_char (hc : c ≠ '\n') (h : LineByLine Eq text text') :
    LineByLine Eq (c :: text) (c :: text') := by
  have hfree {line : List Char} (hline : '\n' ∉ line) : '\n' ∉ c :: line := by
    rw [List.mem_cons, not_or]
    exact ⟨hc.symm, hline⟩
  cases h with
  | last hline hline' heq => exact .last (hfree hline) (hfree hline') (congrArg (c :: ·) heq)
  | cons stop stop' hline hline' heq hrest =>
    exact .cons stop stop' (hfree hline) (hfree hline') (congrArg (c :: ·) heq) hrest

theorem lineByLine_withReturns (text : List Char) : LineByLine Eq text (withReturns text) := by
  induction text with
  | nil => exact .last List.not_mem_nil List.not_mem_nil rfl
  | cons c text ih =>
    by_cases hc : c = '\n'
    · subst hc
      exact .cons .feed .returnFeed List.not_mem_nil List.not_mem_nil rfl ih
    · have hwith : withReturns (c :: text) = c :: withReturns text := by
        rw [withReturns, List.flatMap_cons, if_neg hc, withReturns, List.singleton_append]
      rw [hwith]
      exact ih.cons_char hc

theorem shape_indented {blanks : List Char} (h : Text.Blank blanks) (line : List Char) :
    LineShape.of (blanks ++ line) = LineShape.of line := by
  rw [LineShape.of, Text.trim_append_left h, LineShape.of]

theorem shape_trailed {blanks : List Char} (h : Text.Blank blanks) (line : List Char) :
    LineShape.of (line ++ blanks) = LineShape.of line := by
  rw [LineShape.of, Text.trim_append_right h, LineShape.of]

/-- The pieces of a text have the shapes of its lines. -/
theorem exists_pieces_break (stop : LineBreak) (hline : '\n' ∉ line) (text : List Char) :
    ∃ piece, LineShape.of piece = LineShape.of line ∧
      Text.pieces '\n' (line ++ stop.text ++ text) = piece :: Text.pieces '\n' text := by
  cases stop with
  | feed =>
    refine ⟨line, rfl, ?_⟩
    rw [LineBreak.text, List.append_assoc, List.singleton_append, Text.pieces_append_sep,
      Text.pieces_of_not_mem hline, List.singleton_append]
  | returnFeed =>
    have hfree : '\n' ∉ line ++ ['\r'] := by simp [hline]
    refine ⟨line ++ ['\r'], shape_trailed (Text.blank_singleton rfl) line, ?_⟩
    have htext : line ++ LineBreak.returnFeed.text ++ text = line ++ ['\r'] ++ '\n' :: text := by
      simp [LineBreak.text]
    rw [htext, Text.pieces_append_sep, Text.pieces_of_not_mem hfree, List.singleton_append]

theorem LineByLine.pieces (h : LineByLine related text text') :
    List.Forall₂ (fun piece piece' => ∃ line line', related line line' ∧
        LineShape.of piece = LineShape.of line ∧ LineShape.of piece' = LineShape.of line')
      (Text.pieces '\n' text) (Text.pieces '\n' text') := by
  induction h with
  | @last line line' hline hline' hrelated =>
    rw [Text.pieces_of_not_mem hline, Text.pieces_of_not_mem hline']
    exact .cons ⟨line, line', hrelated, rfl, rfl⟩ .nil
  | @cons line line' text text' stop stop' hline hline' hrelated _ ih =>
    obtain ⟨piece, hshape, hpieces⟩ := exists_pieces_break stop hline text
    obtain ⟨piece', hshape', hpieces'⟩ := exists_pieces_break stop' hline' text'
    rw [hpieces, hpieces']
    exact .cons ⟨line, line', hrelated, hshape, hshape'⟩ ih

end Lines

section Reading
variable {related : List Char → List Char → Prop} {piece piece' line line' text text' : List Char}
  {lines lines' : List (List Char)} {t : NamedTable}

namespace NamedTable

theorem addLine_of_shape (h : LineShape.of piece = LineShape.of line) (t : NamedTable) :
    t.addLine piece = t.addLine line := by
  rw [addLine, h, addLine]

/-- Whatever a table is so far, both lines do the same to it. -/
def Alike (line line' : List Char) : Prop := ∀ t, addLine t line' = addLine t line

theorem Alike.of_shapes (h : Alike line line') (hshape : LineShape.of piece = LineShape.of line)
    (hshape' : LineShape.of piece' = LineShape.of line') : Alike piece piece' := by
  intro t
  calc t.addLine piece'
    _ = t.addLine line' := addLine_of_shape hshape' t
    _ = t.addLine line := h t
    _ = t.addLine piece := (addLine_of_shape hshape t).symm

theorem addLines_of_alike (h : List.Forall₂ Alike lines lines') (t : NamedTable) (number : Nat) :
    t.addLines number lines' = t.addLines number lines := by
  induction h generalizing t number with
  | nil => rfl
  | cons hline _ ih =>
    rw [addLines, addLines, hline]
    split
    · rfl
    · exact ih _ _

/-- Lines of one shape are in form or at fault together. -/
theorem exists_form_of_shape (h : LineShape.of piece = LineShape.of line)
    (hform : ∃ form, HasForm piece form) : ∃ form, HasForm line form := by
  obtain ⟨form, hform⟩ := hform
  obtain hline | ⟨fault, hfault⟩ := hasForm_or_hasFault line
  · exact hline
  · have hread := addLine_of_hasForm {} hform
    rw [addLine_of_shape h, addLine_of_hasFault {} hfault] at hread
    cases hread

theorem parse_of_alike (h : LineByLine related text text')
    (halike : ∀ line line', related line line' → Alike line line') : parse text' = parse text := by
  rw [parse_eq_addLines, parse_eq_addLines]
  refine addLines_of_alike (h.pieces.imp ?_) {} 1
  rintro piece piece' ⟨line, line', hrelated, hshape, hshape'⟩
  exact (halike line line' hrelated).of_shapes hshape hshape'

/-- Where a text is read, only lines in form need to be alike. -/
theorem parse_of_alike_forms (h : LineByLine related text text') (ht : parse text = .ok t)
    (halike : ∀ line line', related line line' → (∃ form, HasForm line form) → Alike line line') :
    parse text' = .ok t := by
  rw [parse_eq_addLines] at ht ⊢
  obtain ⟨forms, hforms, _⟩ := addLines_eq_ok_iff.mp ht
  have hboth := (List.forall₂_and_left _ _).mpr
    ⟨fun piece hpiece => exists_form_of_mem hforms hpiece, h.pieces⟩
  rw [addLines_of_alike (hboth.imp ?_) {} 1, ht]
  rintro piece piece' ⟨hform, line, line', hrelated, hshape, hshape'⟩
  exact (halike line line' hrelated (exists_form_of_shape hshape hform)).of_shapes hshape hshape'

end NamedTable

end Reading

section Changes
variable {line line' rule left right comment tail : List Char} {arrow : Arrow} {a b : Key}

theorem HasRule.commented_again (h : HasRule line rule) (comment : List Char) :
    HasRule (line ++ ';' :: comment) rule := by
  cases h with
  | alone hcode hblank htrims => exact .commented comment hcode hblank htrims
  | commented first hcode hblank htrims =>
    rw [List.append_assoc, List.cons_append]
    exact .commented _ hcode hblank htrims

theorem Relaid.shape (h : Relaid line line') : LineShape.of line' = LineShape.of line := by
  induction h with
  | same => rfl
  | indented _ hblank ih => rw [shape_indented hblank, ih]
  | trailed _ hblank ih => rw [shape_trailed hblank, ih]
  | commented comment _ hrule ih =>
    rw [shape_of_rule (hrule.commented_again comment), ← ih, shape_of_rule hrule]

theorem Relaid.alike (h : Relaid line line') : NamedTable.Alike line line' :=
  NamedTable.addLine_of_shape h.shape

/-- A line in form that has an arrow in its code has a key on either side of it. -/
theorem HasForm.keys_of_divided {form : LineForm} (hform : HasForm (left ++ arrow.mark ++ right ++ tail) form)
    (hcode : ';' ∉ left ++ arrow.mark ++ right)
    (hdivided : Divided (left ++ arrow.mark ++ right) arrow left right)
    (htail : tail = [] ∨ ∃ comment, tail = ';' :: comment) :
    ∃ a b, form = .rule arrow a b ∧ Key.parse? left = some a ∧ Key.parse? right = some b := by
  have hrule := hasRule_of_code hcode (not_blank_of_arrow left right arrow) htail
  have hshape := shape_of_rule hrule
  generalize hline : left ++ arrow.mark ++ right ++ tail = line at hform hrule hshape
  cases hform with
  | blank hblank =>
    rw [shape_of_blank hblank] at hshape
    exact absurd (LineShape.rule.inj hshape).symm hrule.ne_nil
  | comment hindent _ =>
    rw [shape_of_comment hindent] at hshape
    cases hshape
  | @rule _ rule left' right' arrow' a b hrule' hdivided' hleft hright =>
    obtain rfl := LineShape.rule.inj ((shape_of_rule hrule').symm.trans hshape)
    obtain ⟨front, back, hfront, hback, hsplit⟩ := Text.exists_eq_append_trim (left ++ arrow.mark ++ right)
    have hleft' : Key.parse? (front ++ left') = some a := (Key.parse?_append_left hfront _).trans hleft
    have hright' : Key.parse? (right' ++ back) = some b := (Key.parse?_append_right hback _).trans hright
    have hsame := divided_of_keys hleft' hright' arrow'
    have hcode' : front ++ left' ++ arrow'.mark ++ (right' ++ back) = left ++ arrow.mark ++ right := by
      rw [hsplit, hdivided'.eq_append]
      simp only [List.append_assoc]
    rw [hcode', ← divide_eq_some_iff, divide_eq_some_iff.mpr hdivided] at hsame
    cases hsame
    exact ⟨a, b, rfl, hleft', hright'⟩

theorem Spaced.alike (h : Spaced line line') (hform : ∃ form, HasForm line form) :
    NamedTable.Alike line line' := by
  cases h with
  | same => exact fun _ => rfl
  | @arrow left right front back _ arrow hcode hdivided htail hfront hback =>
    obtain ⟨form, hform⟩ := hform
    obtain ⟨a, b, rfl, hleft, hright⟩ := hform.keys_of_divided hcode hdivided htail
    have hleft' : Key.parse? (left ++ front) = some a := (Key.parse?_append_right hfront _).trans hleft
    have hright' : Key.parse? (back ++ right) = some b := (Key.parse?_append_left hback _).trans hright
    have hform' := hasForm_of_keys hleft' hright' arrow htail
    intro t
    rw [NamedTable.addLine_of_hasForm t hform, NamedTable.addLine_of_hasForm t hform']

end Changes

/-- Line feeds may have carriage returns before them, lines may be relaid, and in a text that is read
arrows may be spaced, in any number of places at once. -/
theorem layout_does_not_matter (text : List Char) :
    NamedTable.parse (withReturns text) = NamedTable.parse text ∧
    (∀ text', LineByLine Relaid text text' → NamedTable.parse text' = NamedTable.parse text) ∧
    ∀ t text', NamedTable.parse text = .ok t → LineByLine Spaced text text' →
      NamedTable.parse text' = .ok t := by
  refine ⟨?_, ?_, ?_⟩
  · refine NamedTable.parse_of_alike (lineByLine_withReturns text) ?_
    rintro line _ rfl t
    rfl
  · intro text' h
    exact NamedTable.parse_of_alike h fun _ _ hrelaid => hrelaid.alike
  · intro t text' ht h
    exact NamedTable.parse_of_alike_forms h ht fun _ _ hspaced => hspaced.alike

/-- A table of two lines, and the same with a key that is not known. -/
theorem layout_does_not_matter_between_blanks :
    let title := "; Pad".toList
    let right := "UP<->DOWN".toList
    let wrong := "UP -> DWN".toList
    let title' := ['\u2003'] ++ title ++ ['\t']
    let right' := [' '] ++ (right ++ ';' :: "LEFT -> RIGHT ; too".toList)
    let wrong' := wrong ++ [' ', '\r'] ++ [';']
    let spaced := "UP \u3000<->\tDOWN".toList
    let table : NamedTable := ⟨some "Pad", [⟨⟨0x52⟩, ⟨0x51⟩⟩, ⟨⟨0x51⟩, ⟨0x52⟩⟩]⟩
    NamedTable.parse (title ++ ['\n'] ++ right) = .ok table ∧
    NamedTable.parse (withReturns (title ++ ['\n'] ++ right)) = .ok table ∧
    NamedTable.parse (title' ++ ['\r', '\n'] ++ right') = .ok table ∧
    NamedTable.parse (title' ++ ['\n'] ++ wrong') = .error ⟨2, .unknownKey "DWN"⟩ ∧
    NamedTable.parse (title ++ ['\n'] ++ spaced) = .ok table := by
  intro title right wrong title' right' wrong' spaced table
  have hread : NamedTable.parse (title ++ ['\n'] ++ right) = .ok table := by rfl
  have hfault : NamedTable.parse (title ++ ['\n'] ++ wrong) = .error ⟨2, .unknownKey "DWN"⟩ := by rfl
  have hblank (c : Char) (hc : Text.isBlank c = true) : Text.Blank [c] := Text.blank_singleton hc
  have htitle : Relaid title title' := .trailed (.indented (.same title) (hblank _ rfl)) (hblank _ rfl)
  have hright : Relaid right right' := by
    have hrule : HasRule right (Text.trim right) :=
      .alone (by decide) (fun h => absurd (h 'U' (by decide)) (by decide)) (Text.trims_trim _)
    exact .indented (.commented _ (.same right) hrule) (hblank _ rfl)
  have hwrong : Relaid wrong wrong' := by
    have hends : Text.Blank [' ', '\r'] := by simp [Text.Blank, Text.isBlank]
    have hrule : HasRule (wrong ++ [' ', '\r']) (Text.trim (wrong ++ [' ', '\r'])) :=
      .alone (by decide) (fun h => absurd (h 'U' (by decide)) (by decide)) (Text.trims_trim _)
    exact .commented [] (.trailed (.same wrong) hends) hrule
  have hspaced : Spaced right spaced := by
    have hdivided : Divided ("UP".toList ++ Arrow.both.mark ++ "DOWN".toList) .both "UP".toList
        "DOWN".toList := divided_of_keys (a := ⟨0x52⟩) (b := ⟨0x51⟩) (by rfl) (by rfl) .both
    have hfront : Text.Blank [' ', '\u3000'] := by simp [Text.Blank, Text.isBlank]
    exact Spaced.arrow (by decide) hdivided (Or.inl rfl) hfront (hblank '\t' rfl)
  obtain ⟨hreturns, hrelaid, _⟩ := layout_does_not_matter (title ++ ['\n'] ++ right)
  obtain ⟨_, hrelaid', _⟩ := layout_does_not_matter (title ++ ['\n'] ++ wrong)
  refine ⟨hread, hreturns.trans hread, (hrelaid _ ?_).trans hread, (hrelaid' _ ?_).trans hfault, ?_⟩
  · exact .cons .feed .returnFeed (by decide) (by decide) htitle (.last (by decide) (by decide) hright)
  · exact .cons .feed .feed (by decide) (by decide) htitle (.last (by decide) (by decide) hwrong)
  · refine (layout_does_not_matter _).2.2 table _ hread ?_
    exact .cons .feed .feed (by decide) (by decide) (.same title)
      (.last (by decide) (by decide) hspaced)

end OpposingKeys
