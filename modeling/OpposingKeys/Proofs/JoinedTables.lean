import OpposingKeys.Proofs.TableGrammar

/-!
# Joining the texts of two tables

The text of a table is read piece by piece, where a piece ends at a line feed, and a carriage return
at the end of a piece does not matter. The main statement is that two texts with a line feed between
them are read as one table followed by the other.
-/

namespace OpposingKeys

set_option autoImplicit false

theorem shape_dropReturn (line : List Char) :
    LineShape.of (Text.dropReturn line) = LineShape.of line := by
  have htrim : Text.trim (Text.dropReturn line) = Text.trim line := by
    obtain hline | hline := Text.eq_dropReturn_or line
    · rw [← hline]
    · have hreturn : Text.Blank ['\r'] := Text.blank_singleton rfl
      calc Text.trim (Text.dropReturn line)
        _ = Text.trim (Text.dropReturn line ++ ['\r']) := (Text.trim_append_right hreturn).symm
        _ = Text.trim line := by rw [← hline]
  rw [LineShape.of, htrim, LineShape.of]

namespace NamedTable

theorem addLines_endLines (pieces : List (List Char)) (t : NamedTable) (number : Nat) :
    t.addLines number (Text.endLines pieces) = t.addLines number pieces := by
  induction pieces generalizing t number with
  | nil => rfl
  | cons piece rest ih =>
    cases rest with
    | nil => rfl
    | cons next rest =>
      have hline : t.addLine (Text.dropReturn piece) = t.addLine piece := by
        rw [addLine, shape_dropReturn, addLine]
      rw [Text.endLines, addLines, hline, addLines]
      split
      · rfl
      · exact ih _ _
      · simp

theorem parse_eq_addLines (text : List Char) :
    parse text = addLines {} 1 (Text.pieces '\n' text) :=
  addLines_endLines _ _ _

/-- An empty line at the end says nothing. -/
theorem addLines_concat_nil (lines : List (List Char)) :
    addLines {} 1 (lines ++ [[]]) = addLines {} 1 lines := by
  obtain ⟨forms, hforms⟩ | ⟨fault, hfault⟩ := forms_or_firstFault lines
  · have hblank : HasForm [] .blank := .blank Text.blank_nil
    have hboth := List.rel_append hforms (.cons hblank .nil)
    rw [addLines_eq_ok_iff.mpr ⟨_, hforms, rfl⟩, addLines_eq_ok_iff.mpr ⟨_, hboth, rfl⟩,
      ofForms_append]
    exact congrArg Except.ok (followedBy_empty _)
  · rw [addLines_eq_error_iff.mpr hfault, addLines_eq_error_iff.mpr (hfault.append _)]

theorem parse_append_newline (text : List Char) : parse (text ++ ['\n']) = parse text := by
  rw [parse_eq_addLines, Text.pieces_append_sep, parse_eq_addLines]
  exact addLines_concat_nil _

end NamedTable

open NamedTable in
/-- The faults of the second text are counted from its place in the whole. -/
theorem parse_joined (s t : List Char) :
    parse (s ++ '\n' :: t) =
      match parse s with
      | .error fault => .error fault
      | .ok first =>
        match parse t with
        | .error fault => .error ⟨fault.line + (1 + s.count '\n'), fault.fault⟩
        | .ok second => .ok (first.followedBy second) := by
  rw [parse_eq_addLines, parse_eq_addLines s, parse_eq_addLines t, Text.pieces_append_sep]
  -- the pieces of either text are in form, or a first one of them is not
  obtain ⟨forms, hforms⟩ | ⟨fault, hfault⟩ := forms_or_firstFault (Text.pieces '\n' s)
  · rw [addLines_eq_ok_iff.mpr ⟨forms, hforms, rfl⟩]
    obtain ⟨forms', hforms'⟩ | ⟨fault, hfault⟩ := forms_or_firstFault (Text.pieces '\n' t)
    · have hboth := List.rel_append hforms hforms'
      rw [addLines_eq_ok_iff.mpr ⟨forms', hforms', rfl⟩, addLines_eq_ok_iff.mpr ⟨_, hboth, rfl⟩,
        ofForms_append]
    · rw [addLines_eq_error_iff.mpr hfault, addLines_eq_error_iff.mpr (hfault.behind hforms),
        Text.length_pieces, Nat.add_comm 1]
  · rw [addLines_eq_error_iff.mpr hfault, addLines_eq_error_iff.mpr (hfault.append _)]

/-- A text that has no name because its comment comes late, with a text that has one before it or behind
it, and with the same text when its third line is wrong. -/
theorem parse_joined_with_fault_behind :
    let first := "A -> D\n; late\r".toList
    let second := "; Arrows\nUP <-> DOWN".toList
    let wrong := second ++ "\n\tA -> DWN ; no key".toList
    NamedTable.parse first = .ok ⟨none, [⟨⟨4⟩, ⟨7⟩⟩]⟩ ∧
      NamedTable.parse wrong = .error ⟨3, .unknownKey "DWN"⟩ ∧
      NamedTable.parse (first ++ '\n' :: second) =
        .ok ⟨none, [⟨⟨4⟩, ⟨7⟩⟩, ⟨⟨0x52⟩, ⟨0x51⟩⟩, ⟨⟨0x51⟩, ⟨0x52⟩⟩]⟩ ∧
      NamedTable.parse (second ++ '\n' :: first) =
        .ok ⟨some "Arrows", [⟨⟨0x52⟩, ⟨0x51⟩⟩, ⟨⟨0x51⟩, ⟨0x52⟩⟩, ⟨⟨4⟩, ⟨7⟩⟩]⟩ ∧
      NamedTable.parse (first ++ '\n' :: wrong) = .error ⟨5, .unknownKey "DWN"⟩ ∧
      NamedTable.parse (wrong ++ '\n' :: first) = .error ⟨3, .unknownKey "DWN"⟩ := by
  intro first second wrong
  have hfirst : NamedTable.parse first = .ok ⟨none, [⟨⟨4⟩, ⟨7⟩⟩]⟩ := by rfl
  have hsecond : NamedTable.parse second =
      .ok ⟨some "Arrows", [⟨⟨0x52⟩, ⟨0x51⟩⟩, ⟨⟨0x51⟩, ⟨0x52⟩⟩]⟩ := by rfl
  have hwrong : NamedTable.parse wrong = .error ⟨3, .unknownKey "DWN"⟩ := by rfl
  refine ⟨hfirst, hwrong, ?_, ?_, ?_, ?_⟩
  · rw [parse_joined, hfirst, hsecond]
    rfl
  · rw [parse_joined, hfirst, hsecond]
    rfl
  · rw [parse_joined, hfirst, hwrong]
    rfl
  · rw [parse_joined, hwrong]

end OpposingKeys
