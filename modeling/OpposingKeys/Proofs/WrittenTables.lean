import OpposingKeys.Proofs.JoinedTables
import OpposingKeys.Proofs.KeyRules
import OpposingKeys.TablePrinter

/-!
# Written tables are read back

A written table is a list of lines, and the form of each of them is known: the name is a comment and
every pair a rule with the short arrow. The main statement is that reading these lines gives the
table back, whatever its keys are and however much its name looks like a rule or a comment.
-/

namespace OpposingKeys

set_option autoImplicit false

theorem blank_space : Text.Blank [' '] := Text.blank_singleton rfl

theorem newline_not_mem_rule (p : Pair) : '\n' ∉ p.rule := by
  have hshown (k : Key) : '\n' ∉ k.display.toList := fun h => by cases Key.isPlain_of_mem_display h
  simp [Pair.rule, Arrow.mark, hshown]

theorem hasForm_rule (p : Pair) : HasForm p.rule (.rule .onward p.press p.unpress) := by
  have hpress : Key.parse? (p.press.display.toList ++ [' ']) = some p.press := by
    rw [Key.parse?_append_right blank_space, Key.parse?_display]
  have hunpress : Key.parse? ([' '] ++ p.unpress.display.toList) = some p.unpress := by
    rw [Key.parse?_append_left blank_space, Key.parse?_display]
  have hform := hasForm_of_keys hpress hunpress .onward (.inl rfl)
  rw [List.append_nil] at hform
  simpa [Pair.rule, Arrow.mark] using hform

theorem hasForm_nameLine {name : String} (h : Text.trim name.toList = name.toList) :
    HasForm (';' :: ' ' :: name.toList) (.comment name.toList) := by
  have htext : Text.trim (' ' :: name.toList) = name.toList := by
    rw [← List.singleton_append, Text.trim_append_left blank_space, h]
  have hline : HasForm ([] ++ ';' :: ' ' :: name.toList) (.comment (Text.trim (' ' :: name.toList))) :=
    .comment Text.blank_nil (Text.trims_trim _)
  rwa [htext] at hline

namespace NamedTable
variable {t : NamedTable}

/-- The lines that are written for a table, and what they say. -/
def written (t : NamedTable) : List (List Char) :=
  (t.name.elim [] fun name => [';' :: ' ' :: name.toList]) ++ t.pairs.map Pair.rule

def forms (t : NamedTable) : List LineForm :=
  (t.name.elim [] fun name => [.comment name.toList]) ++
    t.pairs.map fun p => .rule .onward p.press p.unpress

/-- A name that its line gives back: not empty, without a line feed and without outer blanks. -/
def HasPlainName (t : NamedTable) : Prop :=
  ∀ name, t.name = some name →
    name ≠ "" ∧ Text.trim name.toList = name.toList ∧ '\n' ∉ name.toList

theorem print_eq (t : NamedTable) : t.print = t.written.flatMap fun line => line ++ ['\n'] := by
  cases hname : t.name <;>
    simp [print, written, nameLine, hname, List.flatMap_map]

theorem newline_not_mem_written (h : t.HasPlainName) : ∀ line ∈ t.written, '\n' ∉ line := by
  intro line hline
  obtain hline | hline := List.mem_append.mp hline
  · cases hname : t.name with
    | none =>
      rw [hname] at hline
      cases hline
    | some name =>
      rw [hname] at hline
      obtain rfl := List.mem_singleton.mp hline
      simpa using (h name hname).2.2
  · obtain ⟨p, _, rfl⟩ := List.mem_map.mp hline
    exact newline_not_mem_rule p

theorem hasForm_written (h : t.HasPlainName) : List.Forall₂ HasForm t.written t.forms := by
  refine List.rel_append ?_ ?_
  · cases hname : t.name with
    | none => exact .nil
    | some name => exact .cons (hasForm_nameLine (h name hname).2.1) .nil
  · rw [List.forall₂_map_left_iff, List.forall₂_map_right_iff, List.forall₂_same]
    exact fun p _ => hasForm_rule p

theorem ofForms_forms (h : t.HasPlainName) : ofForms t.forms = t := by
  obtain ⟨name, pairs⟩ := t
  have hpairs : ofForms (pairs.map fun p => .rule .onward p.press p.unpress) = { pairs := pairs } := by
    have htitle : LineForm.title (pairs.map fun p => .rule .onward p.press p.unpress) = none := by
      cases pairs <;> rfl
    simp [ofForms, htitle, List.flatMap_map, LineForm.pairs]
  cases name with
  | none => exact hpairs
  | some name =>
    have hname : name.toList ≠ [] := by simpa using (h name rfl).1
    simp only [forms, Option.elim_some, List.singleton_append]
    rw [ofForms_cons, hpairs, followedBy_unnamed]
    simp [ofForms, hname, LineForm.pairs]

end NamedTable

/-- The table is read from its lines, and the last line needs no line feed. -/
theorem written_table_reads_back (t : NamedTable) (h : t.HasPlainName) :
    NamedTable.parse t.print = .ok t ∧
      ∀ text, t.print = text ++ ['\n'] → NamedTable.parse text = .ok t := by
  have hlines : Text.pieces '\n' t.print = t.written ++ [[]] := by
    rw [NamedTable.print_eq, Text.pieces_flatMap (NamedTable.newline_not_mem_written h)]
  have hwhole : NamedTable.parse t.print = .ok t := by
    rw [NamedTable.parse_eq_addLines, hlines, NamedTable.addLines_concat_nil]
    exact NamedTable.addLines_eq_ok_iff.mpr
      ⟨_, NamedTable.hasForm_written h, (NamedTable.ofForms_forms h).symm⟩
  refine ⟨hwhole, ?_⟩
  intro text htext
  rw [← NamedTable.parse_append_newline, ← htext, hwhole]

/-- The name looks like a rule with a comment behind it, and the keys are shown in both ways. -/
theorem written_table_reads_back_with_rule_as_name :
    let t : NamedTable := ⟨some "; A -> B ;", [⟨⟨0⟩, ⟨0x7E40⟩⟩, ⟨⟨0x2D⟩, ⟨4⟩⟩, ⟨⟨0⟩, ⟨0x7E40⟩⟩]⟩
    t.HasPlainName ∧
    t.print = "; ; A -> B ;\nKC_NO -> 0x7E40\nKC_MINUS -> KC_A\nKC_NO -> 0x7E40\n".toList ∧
    NamedTable.parse t.print = .ok t := by
  intro t
  have hname : t.HasPlainName := by
    intro name h
    obtain rfl : "; A -> B ;" = name := Option.some.inj h
    decide
  exact ⟨hname, by decide, (written_table_reads_back t hname).1⟩

end OpposingKeys
