import OpposingKeys.Proofs.AsciiBytes
import OpposingKeys.Proofs.JoinedTables
import OpposingKeys.Proofs.TableEncodings

/-!
# Comments do not matter

What a line says apart from a comment stands before its first semicolon, and the pairs of a table
depend on nothing else. In a file the semicolon is an ASCII byte, and so is the line feed that ends
the comment, so no bytes between them reach any other part of the text. The main statement is that two
files which differ in such bytes only have the same fault or the same pairs.
-/

namespace OpposingKeys

set_option autoImplicit false

section Lines
variable {line line' : List Char} {lines lines' : List (List Char)}

/-- What a line says apart from its comment. -/
def LineShape.code : LineShape → List Char
  | comment _ => []
  | rule text => text

theorem before_of_not_mem {code : List Char} (h : ';' ∉ code) : Text.before ';' code = code := by
  have hwhole := Text.before_append h []
  rwa [Text.before_nil, List.append_nil] at hwhole

theorem before_semicolon {code : List Char} (h : ';' ∉ code) (text : List Char) :
    Text.before ';' (code ++ ';' :: text) = code := by
  rw [Text.before_append h, Text.before_cons_self, List.append_nil]

theorem code_shape (line : List Char) :
    (LineShape.of line).code = Text.trim (Text.before ';' line) := by
  have hfree {blanks : List Char} (hblank : Text.Blank blanks) : ';' ∉ blanks :=
    fun hmem => Bool.noConfusion (hblank ';' hmem)
  obtain hblank | ⟨indent, text, hindent, rfl⟩ | ⟨rule, hrule⟩ := line_cases line
  · rw [shape_of_blank hblank, before_of_not_mem (hfree hblank), Text.trim_eq_nil_iff.mpr hblank]
    rfl
  · rw [shape_of_comment hindent, before_semicolon (hfree hindent), Text.trim_eq_nil_iff.mpr hindent]
    rfl
  · rw [shape_of_rule hrule]
    cases hrule with
    | alone hcode _ htrims =>
      rw [before_of_not_mem hcode]
      exact htrims.eq
    | commented comment hcode _ htrims =>
      rw [before_semicolon hcode]
      exact htrims.eq

/-- Nothing behind a semicolon is code. -/
theorem code_append_comment (front comment comment' : List Char) :
    (LineShape.of (front ++ ';' :: comment)).code =
      (LineShape.of (front ++ ';' :: comment')).code := by
  have hbefore (text : List Char) :
      Text.before ';' (front ++ ';' :: text) = Text.before ';' front := by
    obtain hfront | ⟨rest, hfront⟩ := Text.eq_before_or_exists ';' front
    · have hcode : ';' ∉ front := hfront ▸ Text.not_mem_before ';' front
      rw [before_semicolon hcode, before_of_not_mem hcode]
    · have hcode := Text.not_mem_before ';' front
      calc Text.before ';' (front ++ ';' :: text)
        _ = Text.before ';' (Text.before ';' front ++ ';' :: (rest ++ ';' :: text)) := by
          rw [← List.cons_append, ← List.append_assoc, ← hfront]
        _ = Text.before ';' front := before_semicolon hcode _
  rw [code_shape, code_shape, hbefore, hbefore]

namespace NamedTable
variable {t t' : NamedTable}

/-- The pairs that the code of a line says. -/
def codePairs : List Char → Except LineFault (List Pair)
  | [] => .ok []
  | rule => readRule rule

theorem pairs_addComment (t : NamedTable) (text : List Char) : (t.addComment text).pairs = t.pairs := by
  unfold addComment
  split <;> rfl

theorem pairs_addLine (t : NamedTable) (line : List Char) :
    (t.addLine line).map pairs = (codePairs (LineShape.of line).code).map (t.pairs ++ ·) := by
  unfold addLine
  cases hshape : LineShape.of line with
  | comment text =>
    show Except.ok (t.addComment text).pairs = Except.ok (t.pairs ++ [])
    rw [pairs_addComment, List.append_nil]
  | rule rule =>
    cases rule with
    | nil => exact congrArg Except.ok (List.append_nil t.pairs).symm
    | cons c rest =>
      simp only [LineShape.code, codePairs]
      cases readRule (c :: rest) <;> rfl

/-- Both fail alike, or both succeed with the same pairs. -/
theorem cases_of_pairs_eq {ε : Type} {read read' : Except ε NamedTable}
    (h : read.map pairs = read'.map pairs) :
    (∃ fault, read = .error fault ∧ read' = .error fault) ∨
      ∃ t t', read = .ok t ∧ read' = .ok t' ∧ t.pairs = t'.pairs := by
  cases read with
  | error fault =>
    cases read' with
    | error fault' => exact Or.inl ⟨fault, rfl, congrArg Except.error (Except.error.inj h).symm⟩
    | ok t' => cases h
  | ok t =>
    cases read' with
    | error fault' => cases h
    | ok t' => exact Or.inr ⟨t, t', rfl, rfl, Except.ok.inj h⟩

theorem pairs_addLines (number : Nat) (ht : t.pairs = t'.pairs)
    (h : List.Forall₂ (fun l l' => (LineShape.of l).code = (LineShape.of l').code) lines lines') :
    (t.addLines number lines).map pairs = (t'.addLines number lines').map pairs := by
  induction h generalizing t t' number with
  | nil => exact congrArg Except.ok ht
  | @cons line line' _ _ hcode _ ih =>
    have hline : (t.addLine line).map pairs = (t'.addLine line').map pairs := by
      rw [pairs_addLine, pairs_addLine, hcode, ht]
    obtain ⟨fault, hread, hread'⟩ | ⟨u, u', hread, hread', hpairs⟩ := cases_of_pairs_eq hline
    · rw [addLines, addLines, hread, hread']
    · rw [addLines, addLines, hread, hread']
      exact ih (number + 1) hpairs

/-- Where a comment ends at its line, its text is not in any other. -/
theorem exists_pieces_comment (front : List Char) {back : List Char}
    (hback : back = [] ∨ ∃ rest, back = '\n' :: rest) :
    ∃ before line after, ∀ comment, '\n' ∉ comment →
      Text.pieces '\n' (front ++ ';' :: comment ++ back) =
        before ++ (line ++ ';' :: comment) :: after := by
  obtain ⟨before, line, hfront⟩ := Text.exists_pieces_append '\n' front
  have hline (comment : List Char) (hcomment : '\n' ∉ comment) :
      Text.pieces '\n' (front ++ ';' :: comment) = before ++ [line ++ ';' :: comment] :=
    hfront _ (by simp [hcomment])
  obtain rfl | ⟨rest, rfl⟩ := hback
  · refine ⟨before, line, [], fun comment hcomment => ?_⟩
    rw [List.append_nil, hline comment hcomment]
  · refine ⟨before, line, Text.pieces '\n' rest, fun comment hcomment => ?_⟩
    rw [Text.pieces_append_sep, hline comment hcomment, List.append_assoc, List.singleton_append]

theorem pairs_parse_comment (front : List Char) {comment comment' back : List Char}
    (hcomment : '\n' ∉ comment) (hcomment' : '\n' ∉ comment')
    (hback : back = [] ∨ ∃ rest, back = '\n' :: rest) :
    (parse (front ++ ';' :: comment ++ back)).map pairs =
      (parse (front ++ ';' :: comment' ++ back)).map pairs := by
  obtain ⟨before, line, after, hpieces⟩ := exists_pieces_comment front hback
  rw [parse_eq_addLines, parse_eq_addLines, hpieces comment hcomment, hpieces comment' hcomment']
  refine pairs_addLines 1 rfl (List.rel_append ?_ (.cons (code_append_comment line _ _) ?_))
  · exact List.forall₂_same.mpr fun _ _ => rfl
  · exact List.forall₂_same.mpr fun _ _ => rfl

end NamedTable

end Lines

section Files
variable {x y : List UInt8}

theorem ofMark?_semicolon (hstart : ∀ other : Encoding, ¬ other.mark <+: x ++ [0x3B])
    (rest : List UInt8) : Encoding.ofMark? (x ++ 0x3B :: rest) = none := by
  rw [Encoding.ofMark?_eq_none_iff]
  intro other hmark
  rw [List.append_cons] at hmark
  obtain hshort | hlong := List.prefix_or_prefix_of_prefix hmark (List.prefix_append _ rest)
  · exact hstart other hshort
  · have hmem : (0x3B : UInt8) ∈ other.mark := hlong.subset (by simp)
    cases other <;> exact absurd hmem (by decide)

theorem not_mem_lenient_decode {c : List UInt8} (hc : 0x0A ∉ c) :
    '\n' ∉ Encoding.lenient (Encoding.Utf8.decode c) := by
  intro h
  obtain ⟨d, hd, hvalue⟩ := List.mem_map.mp h
  cases d with
  | none => exact absurd hvalue (by decide)
  | some d =>
    obtain rfl : d = '\n' := hvalue
    exact hc (Encoding.Utf8.newline_of_mem_decode hd)

/-- The text of a file, around a comment in it. -/
theorem exists_decodeText_comment (hstart : ∀ other : Encoding, ¬ other.mark <+: x ++ [0x3B])
    (hy : y = [] ∨ ∃ rest, y = 0x0A :: rest) :
    ∃ front back, (back = [] ∨ ∃ rest, back = '\n' :: rest) ∧ ∀ c, 0x0A ∉ c →
      ∃ comment, '\n' ∉ comment ∧
        NamedTable.decodeText (x ++ 0x3B :: c ++ y) = front ++ ';' :: comment ++ back := by
  have htext (c : List UInt8) : NamedTable.decodeText (x ++ 0x3B :: c ++ y) =
      Encoding.lenient (Encoding.Utf8.decode x) ++
        ';' :: Encoding.lenient (Encoding.Utf8.decode (c ++ y)) := by
    have hnone := ofMark?_semicolon hstart (c ++ y)
    rw [List.append_assoc, List.cons_append, NamedTable.decodeText_eq, TableBytes.of, hnone]
    exact Encoding.Utf8.lenient_decode_append_ascii (by decide) x (c ++ y)
  obtain rfl | ⟨rest, rfl⟩ := hy
  · refine ⟨Encoding.lenient (Encoding.Utf8.decode x), [], Or.inl rfl, ?_⟩
    refine fun c hc => ⟨_, not_mem_lenient_decode hc, ?_⟩
    rw [htext, List.append_nil, List.append_nil]
  · refine ⟨Encoding.lenient (Encoding.Utf8.decode x),
      '\n' :: Encoding.lenient (Encoding.Utf8.decode rest), Or.inr ⟨_, rfl⟩, ?_⟩
    refine fun c hc => ⟨_, not_mem_lenient_decode hc, ?_⟩
    rw [htext, Encoding.Utf8.lenient_decode_append_ascii (by decide), List.append_assoc]
    rfl

theorem NamedTable.load_file {files : FileSystem} {path : Path} {bytes : List UInt8}
    (h : files.find path = .ok (.file bytes)) :
    load (files.read path) = (parse (decodeText bytes)).mapError .table := by
  rw [FileSystem.read, h, load]
  cases parse (decodeText bytes) <;> rfl

end Files

/-- Whatever bytes a comment holds, the file has the same fault or the same pairs. -/
theorem comments_do_not_matter (x y c c' : List UInt8) (files files' : FileSystem)
    (path path' : Path) (hstart : ∀ other : Encoding, ¬ other.mark <+: x ++ [0x3B])
    (hy : y = [] ∨ ∃ rest, y = 0x0A :: rest) (hc : 0x0A ∉ c) (hc' : 0x0A ∉ c')
    (hfile : files.find path = .ok (.file (x ++ 0x3B :: c ++ y)))
    (hfile' : files'.find path' = .ok (.file (x ++ 0x3B :: c' ++ y))) :
    (∃ fault, NamedTable.load (files.read path) = .error fault ∧
      NamedTable.load (files'.read path') = .error fault) ∨
    ∃ t t', NamedTable.load (files.read path) = .ok t ∧
      NamedTable.load (files'.read path') = .ok t' ∧ t.pairs = t'.pairs := by
  obtain ⟨front, back, hback, htext⟩ := exists_decodeText_comment hstart hy
  obtain ⟨comment, hcomment, hread⟩ := htext c hc
  obtain ⟨comment', hcomment', hread'⟩ := htext c' hc'
  rw [NamedTable.load_file hfile, NamedTable.load_file hfile', hread, hread']
  have hpairs := NamedTable.pairs_parse_comment front hcomment hcomment' hback
  obtain ⟨fault, hparse, hparse'⟩ | ⟨t, t', hparse, hparse', heq⟩ :=
    NamedTable.cases_of_pairs_eq hpairs
  · exact Or.inl ⟨.table fault, by rw [hparse]; rfl, by rw [hparse']; rfl⟩
  · exact Or.inr ⟨t, t', by rw [hparse]; rfl, by rw [hparse']; rfl, heq⟩

/-- The first comment ends within a character, which its line feed cuts short; the second one looks like
a rule. -/
theorem comments_do_not_matter_when_broken :
    let x : List UInt8 := Encoding.Utf8.encode "\nA -> D ".toList
    let c : List UInt8 := [0xFF, 0x41, 0xE2, 0x82]
    let c' : List UInt8 := Encoding.Utf8.encode "S -> W".toList
    let y : List UInt8 := Encoding.Utf8.encode "\nW -> S".toList
    let files (bytes : List UInt8) : FileSystem := ⟨[(⟨.above 0, ["keys"]⟩, .file bytes)]⟩
    let read (c : List UInt8) := NamedTable.load ((files (x ++ 0x3B :: c ++ y)).read ⟨"keys"⟩)
    let pairs : List Pair := [⟨⟨4⟩, ⟨7⟩⟩, ⟨⟨0x1A⟩, ⟨0x16⟩⟩]
    (∀ other : Encoding, ¬ other.mark <+: x ++ [0x3B]) ∧ 0x0A ∉ c ∧ 0x0A ∉ c' ∧
    Encoding.hasMalformed (Encoding.Utf8.decode (c ++ y)) = true ∧
    read c = .ok ⟨none, pairs⟩ ∧ ∃ t, read c' = .ok t ∧ pairs = t.pairs := by
  intro x c c' y files read pairs
  have hstart : ∀ other : Encoding, ¬ other.mark <+: x ++ [0x3B] := by
    intro other
    cases other <;> decide
  have hc : 0x0A ∉ c := by decide
  have hc' : 0x0A ∉ c' := by decide
  have hread : read c = .ok ⟨none, pairs⟩ := by rfl
  refine ⟨hstart, hc, hc', by decide, hread, ?_⟩
  obtain ⟨fault, hfault, _⟩ | ⟨t, t', ht, ht', heq⟩ :=
    comments_do_not_matter x y c c' (files _) (files _) ⟨"keys"⟩ ⟨"keys"⟩ hstart
      (Or.inr ⟨_, rfl⟩) hc hc' rfl rfl
  · exact absurd (hread.symm.trans hfault) (by simp)
  · obtain rfl := Except.ok.inj (hread.symm.trans ht)
    exact ⟨t', ht', heq⟩

end OpposingKeys
