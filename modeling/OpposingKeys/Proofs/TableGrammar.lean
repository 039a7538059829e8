import Mathlib.Data.List.Forall2
import OpposingKeys.TableText

/-!
# The grammar of a table

What the lines of a table may look like and what each of them says, and what is wrong with a line
that looks otherwise. Nothing of it speaks of the reader. The main statement is that the reader
takes exactly the texts that the grammar allows, makes of them what the lines say, and blames the
first other line for what is wrong with it.
-/

namespace OpposingKeys

set_option autoImplicit false

/-- What a line says. -/
inductive LineForm where
  | blank
  | comment (text : List Char)
  | rule (arrow : Arrow) (a b : Key)
deriving DecidableEq

namespace LineForm

def isRule : LineForm → Bool
  | rule _ _ _ => true
  | _ => false

/-- Only a comment that says something can be a title. -/
def title? : LineForm → Option (List Char)
  | comment text => if text = [] then none else some text
  | _ => none

/-- The first title before any rule. -/
def title (forms : List LineForm) : Option (List Char) :=
  (forms.takeWhile fun form => !form.isRule).findSome? title?

/-- The short arrow makes one pair, and the long one makes that pair and then its reverse. -/
def pairs : LineForm → List Pair
  | rule .onward a b => [⟨a, b⟩]
  | rule .both a b => [⟨a, b⟩, ⟨b, a⟩]
  | blank | comment _ => []

theorem pairs_rule (arrow : Arrow) (a b : Key) : (rule arrow a b).pairs = arrow.pairs a b := by
  cases arrow <;> rfl

section Titles
variable (forms : List LineForm)

@[simp] theorem title_nil : title [] = none := rfl

@[simp] theorem title_blank_cons : title (blank :: forms) = title forms := rfl

@[simp] theorem title_comment_cons (text : List Char) :
    title (comment text :: forms) = if text = [] then title forms else some text := by
  by_cases h : text = [] <;> simp [title, isRule, title?, h]

@[simp] theorem title_rule_cons (arrow : Arrow) (a b : Key) :
    title (rule arrow a b :: forms) = none := rfl

end Titles

end LineForm

/-- The rule of a line stands alone or has a comment behind it. -/
inductive HasRule : List Char → List Char → Prop where
  | alone {code rule : List Char} : ';' ∉ code → ¬ Text.Blank code → Text.Trims code rule →
      HasRule code rule
  | commented {code rule : List Char} (comment : List Char) : ';' ∉ code → ¬ Text.Blank code →
      Text.Trims code rule → HasRule (code ++ ';' :: comment) rule

/-- The arrow of a rule and its two sides. The short arrow counts only where there is no long one. -/
inductive Divided : List Char → Arrow → List Char → List Char → Prop where
  | both {rule left right : List Char} : Text.FirstAt ['<', '-', '>'] rule left right →
      Divided rule .both left right
  | onward {rule left right : List Char} : ¬ ['<', '-', '>'] <:+: rule →
      Text.FirstAt ['-', '>'] rule left right → Divided rule .onward left right

inductive HasForm : List Char → LineForm → Prop where
  | blank {line : List Char} : Text.Blank line → HasForm line .blank
  | comment {indent text said : List Char} : Text.Blank indent → Text.Trims text said →
      HasForm (indent ++ ';' :: text) (.comment said)
  | rule {line rule left right : List Char} {arrow : Arrow} {a b : Key} : HasRule line rule →
      Divided rule arrow left right → Key.parse? left = some a → Key.parse? right = some b →
      HasForm line (.rule arrow a b)

/-- What is wrong with a line that is neither blank nor a comment nor a rule between two keys. -/
inductive HasFault : List Char → LineFault → Prop where
  | noArrow {line rule : List Char} : HasRule line rule →
      ¬ ['<', '-', '>'] <:+: rule → ¬ ['-', '>'] <:+: rule →
      HasFault line (.malformedPair (String.ofList rule))
  | leftBlank {line rule left right : List Char} {arrow : Arrow} : HasRule line rule →
      Divided rule arrow left right → Text.Blank left →
      HasFault line (.malformedPair (String.ofList rule))
  | rightBlank {line rule left right : List Char} {arrow : Arrow} {a : Key} : HasRule line rule →
      Divided rule arrow left right → Key.parse? left = some a → Text.Blank right →
      HasFault line (.malformedPair (String.ofList rule))
  | leftUnknown {line rule left right name : List Char} {arrow : Arrow} : HasRule line rule →
      Divided rule arrow left right → ¬ Text.Blank left → Key.parse? left = none →
      Text.Trims left name → HasFault line (.unknownKey (String.ofList name))
  | rightUnknown {line rule left right name : List Char} {arrow : Arrow} {a : Key} :
      HasRule line rule → Divided rule arrow left right → Key.parse? left = some a →
      ¬ Text.Blank right → Key.parse? right = none → Text.Trims right name →
      HasFault line (.unknownKey (String.ofList name))

/-- The table that lines of these forms describe. -/
def NamedTable.ofForms (forms : List LineForm) : NamedTable where
  name := (LineForm.title forms).map String.ofList
  pairs := forms.flatMap LineForm.pairs

section Shapes
variable {line rule : List Char}

theorem shape_of_blank (h : Text.Blank line) : LineShape.of line = .rule [] := by
  rw [LineShape.of, Text.trim_eq_nil_iff.mpr h]
  rfl

theorem shape_of_comment {indent : List Char} (h : Text.Blank indent) (text : List Char) :
    LineShape.of (indent ++ ';' :: text) = .comment (Text.trim text) := by
  have htrim : Text.trim (indent ++ ';' :: text) = ';' :: Text.trimRight text := by
    rw [Text.trim_append_left h]
    exact Text.trimRight_append_cons (c := ';') rfl [] text
  rw [LineShape.of, htrim]
  exact congrArg LineShape.comment (Text.trim_trimRight text)

theorem HasRule.ne_nil (h : HasRule line rule) : rule ≠ [] := by
  cases h with
  | alone _ hblank htrims =>
    exact fun hnil => hblank (Text.trim_eq_nil_iff.mp (htrims.eq.symm.trans hnil))
  | commented _ _ hblank htrims =>
    exact fun hnil => hblank (Text.trim_eq_nil_iff.mp (htrims.eq.symm.trans hnil))

theorem shape_of_code {code tail : List Char} (h : Text.trim line = code ++ tail)
    (hcode : code ≠ []) (hfree : ';' ∉ code) :
    LineShape.of line = .rule (Text.trim (code ++ Text.before ';' tail)) := by
  obtain ⟨c, rest, rfl⟩ := List.exists_cons_of_ne_nil hcode
  have hc : c ≠ ';' := fun e => hfree (e ▸ List.mem_cons_self)
  rw [LineShape.of, h, ← Text.before_append hfree]
  split
  · next hcomment => exact absurd (List.cons.inj hcomment).1 hc
  · rfl

theorem shape_of_rule (h : HasRule line rule) : LineShape.of line = .rule rule := by
  have hne := h.ne_nil
  cases h with
  | alone hcode _ htrims =>
    obtain rfl := htrims.eq
    have hfree : ';' ∉ Text.trim line := fun hmem => hcode (Text.mem_of_mem_trim hmem)
    rw [shape_of_code (List.append_nil _).symm hne hfree, Text.before_nil, List.append_nil,
      Text.trim_trim]
  | @commented code rule comment hcode hblank htrims =>
    obtain rfl := htrims.eq
    have hfree : ';' ∉ Text.trimLeft code := fun hmem => hcode (Text.mem_of_mem_trimLeft hmem)
    have hfront : Text.trimLeft code ≠ [] := fun hnil => hblank (Text.trimLeft_eq_nil_iff.mp hnil)
    have hcut : Text.trim (code ++ ';' :: comment) =
        Text.trimLeft code ++ ';' :: Text.trimRight comment := by
      rw [Text.trim, Text.trimLeft_append_of_not_blank hblank]
      exact Text.trimRight_append_cons rfl (Text.trimLeft code) comment
    rw [shape_of_code hcut hfront hfree, Text.before_cons_self, List.append_nil,
      Text.trim_trimLeft]

theorem line_cases (line : List Char) :
    Text.Blank line ∨ (∃ indent text, Text.Blank indent ∧ line = indent ++ ';' :: text) ∨
      ∃ rule, HasRule line rule := by
  -- what stands before the first `;` decides, or the whole line when there is none
  have hcode := Text.not_mem_before ';' line
  by_cases hblank : Text.Blank (Text.before ';' line)
  · obtain hline | ⟨text, hline⟩ := Text.eq_before_or_exists ';' line
    · exact Or.inl (hline ▸ hblank)
    · exact Or.inr (Or.inl ⟨_, text, hblank, hline⟩)
  · obtain hline | ⟨comment, hline⟩ := Text.eq_before_or_exists ';' line
    · have hrule := HasRule.alone hcode hblank (Text.trims_trim _)
      rw [← hline] at hrule
      exact Or.inr (Or.inr ⟨_, hrule⟩)
    · have hrule := HasRule.commented comment hcode hblank (Text.trims_trim _)
      rw [← hline] at hrule
      exact Or.inr (Or.inr ⟨_, hrule⟩)

end Shapes

section Rules
variable {rule left right side : List Char} {arrow : Arrow} {a b k : Key}

theorem divide_of_no_both (h : ¬ ['<', '-', '>'] <:+: rule) :
    divide rule = (Text.cut ['-', '>'] rule).map fun sides => (.onward, sides) := by
  have hlong : Text.cut Arrow.both.mark rule = none := Text.cut_eq_none_iff.mpr h
  rw [divide, hlong]
  rfl

theorem divide_eq_some_iff : divide rule = some (arrow, left, right) ↔ Divided rule arrow left right := by
  constructor
  · intro h
    rw [divide] at h
    split at h
    · next sides hboth =>
      cases h
      exact .both (Text.cut_eq_some_iff.mp hboth)
    · next hnone =>
      obtain ⟨sides, honward, he⟩ := Option.map_eq_some_iff.mp h
      cases he
      exact .onward (Text.cut_eq_none_iff.mp hnone) (Text.cut_eq_some_iff.mp honward)
  · intro h
    cases h with
    | both hboth =>
      have hlong : Text.cut Arrow.both.mark rule = some (left, right) :=
        Text.cut_eq_some_iff.mpr hboth
      rw [divide, hlong]
    | onward hnone honward =>
      rw [divide_of_no_both hnone, Text.cut_eq_some_iff.mpr honward, Option.map_some]

theorem divide_eq_none_iff :
    divide rule = none ↔ ¬ ['<', '-', '>'] <:+: rule ∧ ¬ ['-', '>'] <:+: rule := by
  constructor
  · intro h
    rw [divide] at h
    split at h
    · cases h
    · next hboth =>
      exact ⟨Text.cut_eq_none_iff.mp hboth, Text.cut_eq_none_iff.mp (Option.map_eq_none_iff.mp h)⟩
  · rintro ⟨hboth, honward⟩
    rw [divide_of_no_both hboth, Text.cut_eq_none_iff.mpr honward, Option.map_none]

theorem readSide_of_blank (h : Text.Blank side) :
    readSide rule side = .error (.malformedPair (String.ofList rule)) := by
  rw [readSide, Text.trim_eq_nil_iff.mpr h]

theorem readSide_of_key (h : Key.parse? side = some k) : readSide rule side = .ok k := by
  cases htrim : Text.trim side with
  | nil =>
    rw [Key.parse?_of_blank (Text.trim_eq_nil_iff.mp htrim)] at h
    cases h
  | cons c rest =>
    rw [← Key.parse?_trim, htrim] at h
    simp only [readSide, htrim, h]

theorem readSide_of_unknown (hblank : ¬ Text.Blank side) (h : Key.parse? side = none) :
    readSide rule side = .error (.unknownKey (String.ofList (Text.trim side))) := by
  cases htrim : Text.trim side with
  | nil => exact absurd (Text.trim_eq_nil_iff.mp htrim) hblank
  | cons c rest =>
    rw [← Key.parse?_trim, htrim] at h
    simp only [readSide, htrim, h]

theorem readRule_of_keys (h : Divided rule arrow left right) (hleft : Key.parse? left = some a)
    (hright : Key.parse? right = some b) : readRule rule = .ok (arrow.pairs a b) := by
  simp only [readRule, divide_eq_some_iff.mpr h, readSide_of_key hleft, readSide_of_key hright]

theorem readRule_of_left {fault : LineFault} (h : Divided rule arrow left right)
    (hleft : readSide rule left = .error fault) : readRule rule = .error fault := by
  simp only [readRule, divide_eq_some_iff.mpr h, hleft]

theorem readRule_of_right {fault : LineFault} (h : Divided rule arrow left right)
    (hleft : Key.parse? left = some a) (hright : readSide rule right = .error fault) :
    readRule rule = .error fault := by
  simp only [readRule, divide_eq_some_iff.mpr h, readSide_of_key hleft, hright]

end Rules

namespace NamedTable
variable {line rule : List Char} {form : LineForm} {fault : LineFault}

theorem addLine_of_pairs (t : NamedTable) {pairs : List Pair} (h : HasRule line rule)
    (hpairs : readRule rule = .ok pairs) : t.addLine line = .ok { t with pairs := t.pairs ++ pairs } := by
  cases rule with
  | nil => exact absurd rfl h.ne_nil
  | cons c rest => simp only [addLine, shape_of_rule h, hpairs]

theorem addLine_of_fault (t : NamedTable) (h : HasRule line rule) (hfault : readRule rule = .error fault) :
    t.addLine line = .error fault := by
  cases rule with
  | nil => exact absurd rfl h.ne_nil
  | cons c rest => simp only [addLine, shape_of_rule h, hfault]

/-- One table after the other. The second gives the name only if the first has neither a name nor
pairs. -/
def followedBy (t u : NamedTable) : NamedTable where
  name := if t.name = none ∧ t.pairs = [] then u.name else t.name
  pairs := t.pairs ++ u.pairs

theorem empty_followedBy (t : NamedTable) : followedBy {} t = t := rfl

theorem followedBy_assoc (t u v : NamedTable) :
    (t.followedBy u).followedBy v = t.followedBy (u.followedBy v) := by
  by_cases ht : t.name = none ∧ t.pairs = []
  · simp [followedBy, ht.1, ht.2]
  · have htu : ¬ ((t.followedBy u).name = none ∧ (t.followedBy u).pairs = []) := by
      rintro ⟨hname, hpairs⟩
      rw [followedBy, if_neg ht] at hname
      exact ht ⟨hname, (List.append_eq_nil_iff.mp hpairs).1⟩
    rw [followedBy, if_neg htu]
    simp [followedBy, ht, List.append_assoc]

theorem ofForms_cons (form : LineForm) (forms : List LineForm) :
    ofForms (form :: forms) = (ofForms [form]).followedBy (ofForms forms) := by
  cases form with
  | blank => simp [ofForms, followedBy, LineForm.pairs]
  | comment text =>
    by_cases htext : text = []
    · simp [ofForms, followedBy, LineForm.pairs, htext]
    · simp [ofForms, followedBy, LineForm.pairs, htext]
  | rule arrow a b =>
    have hpairs : (LineForm.rule arrow a b).pairs ≠ [] := by cases arrow <;> simp [LineForm.pairs]
    simp [ofForms, followedBy, hpairs]

theorem ofForms_append (forms forms' : List LineForm) :
    ofForms (forms ++ forms') = (ofForms forms).followedBy (ofForms forms') := by
  induction forms with
  | nil => exact (empty_followedBy _).symm
  | cons form forms ih =>
    rw [List.cons_append, ofForms_cons, ih, ← followedBy_assoc, ← ofForms_cons]

/-- A table without a name only adds its pairs. -/
theorem followedBy_unnamed (t : NamedTable) (pairs : List Pair) :
    t.followedBy { pairs := pairs } = { t with pairs := t.pairs ++ pairs } := by
  obtain ⟨name, pairs⟩ := t
  simp only [followedBy, mk.injEq, and_true]
  split
  · next h => exact h.1.symm
  · rfl

theorem followedBy_empty (t : NamedTable) : t.followedBy {} = t := by
  rw [followedBy_unnamed, List.append_nil]

theorem addComment_eq (t : NamedTable) (text : List Char) :
    t.addComment text = t.followedBy (ofForms [.comment text]) := by
  by_cases htext : text = []
  · subst htext
    have hkept : t.addComment [] = t := if_neg fun h => h.2.2 rfl
    rw [hkept]
    exact (followedBy_empty t).symm
  · obtain ⟨name, pairs⟩ := t
    by_cases ht : name = none ∧ pairs = []
    · simp [addComment, followedBy, ofForms, LineForm.pairs, ht.1, ht.2, htext]
    · have hkept : ¬ (name = none ∧ pairs = [] ∧ text ≠ []) := fun h => ht ⟨h.1, h.2.1⟩
      simp only [addComment, followedBy, ofForms, if_neg ht, if_neg hkept]
      simp [LineForm.pairs]

theorem addLine_of_hasForm (t : NamedTable) (h : HasForm line form) :
    t.addLine line = .ok (t.followedBy (ofForms [form])) := by
  cases h with
  | blank hblank =>
    rw [addLine, shape_of_blank hblank]
    exact congrArg Except.ok (followedBy_empty t).symm
  | comment hindent htrims =>
    rw [addLine, shape_of_comment hindent, ← htrims.eq]
    exact congrArg Except.ok (addComment_eq t _)
  | @rule _ _ _ _ arrow a b hrule hdivided hleft hright =>
    have hform : ofForms [.rule arrow a b] = { pairs := arrow.pairs a b } := by
      simp [ofForms, LineForm.pairs_rule]
    rw [addLine_of_pairs t hrule (readRule_of_keys hdivided hleft hright), hform]
    exact congrArg Except.ok (followedBy_unnamed t _).symm

theorem addLine_of_hasFault (t : NamedTable) (h : HasFault line fault) :
    t.addLine line = .error fault := by
  cases h with
  | noArrow hrule hboth honward =>
    refine addLine_of_fault t hrule ?_
    rw [readRule, divide_eq_none_iff.mpr ⟨hboth, honward⟩]
  | leftBlank hrule hdivided hleft =>
    exact addLine_of_fault t hrule (readRule_of_left hdivided (readSide_of_blank hleft))
  | rightBlank hrule hdivided hleft hright =>
    exact addLine_of_fault t hrule (readRule_of_right hdivided hleft (readSide_of_blank hright))
  | leftUnknown hrule hdivided hblank hleft htrims =>
    obtain rfl := htrims.eq
    exact addLine_of_fault t hrule (readRule_of_left hdivided (readSide_of_unknown hblank hleft))
  | rightUnknown hrule hdivided hleft hblank hright htrims =>
    obtain rfl := htrims.eq
    exact addLine_of_fault t hrule
      (readRule_of_right hdivided hleft (readSide_of_unknown hblank hright))

end NamedTable

theorem hasForm_or_hasFault (line : List Char) :
    (∃ form, HasForm line form) ∨ ∃ fault, HasFault line fault := by
  obtain hblank | ⟨indent, text, hindent, rfl⟩ | ⟨rule, hrule⟩ := line_cases line
  · exact Or.inl ⟨_, .blank hblank⟩
  · exact Or.inl ⟨_, .comment hindent (Text.trims_trim text)⟩
  · cases hdivide : divide rule with
    | none =>
      obtain ⟨hboth, honward⟩ := divide_eq_none_iff.mp hdivide
      exact Or.inr ⟨_, .noArrow hrule hboth honward⟩
    | some division =>
      obtain ⟨arrow, left, right⟩ := division
      have hdivided := divide_eq_some_iff.mp hdivide
      -- the left side is looked at first, and of each side whether it is there at all
      by_cases hleft : Text.Blank left
      · exact Or.inr ⟨_, .leftBlank hrule hdivided hleft⟩
      cases ha : Key.parse? left with
      | none => exact Or.inr ⟨_, .leftUnknown hrule hdivided hleft ha (Text.trims_trim left)⟩
      | some a =>
        by_cases hright : Text.Blank right
        · exact Or.inr ⟨_, .rightBlank hrule hdivided ha hright⟩
        cases hb : Key.parse? right with
        | none =>
          exact Or.inr ⟨_, .rightUnknown hrule hdivided ha hright hb (Text.trims_trim right)⟩
        | some b => exact Or.inl ⟨_, .rule hrule hdivided ha hb⟩

theorem HasFault.not_hasForm {line : List Char} {fault : LineFault} (h : HasFault line fault) :
    ¬ ∃ form, HasForm line form := by
  rintro ⟨form, hform⟩
  have hline := NamedTable.addLine_of_hasFault {} h
  rw [NamedTable.addLine_of_hasForm {} hform] at hline
  cases hline

/-- The first line that has no form, counted from one, and what is wrong with it. -/
def FirstFault (lines : List (List Char)) (fault : TableFault) : Prop :=
  ∃ before line after, lines = before ++ line :: after ∧ fault.line = before.length + 1 ∧
    (∀ earlier ∈ before, ∃ form, HasForm earlier form) ∧ (¬ ∃ form, HasForm line form) ∧
    HasFault line fault.fault

section Lines
variable {lines : List (List Char)} {forms : List LineForm} {fault : TableFault}

theorem forms_or_firstFault (lines : List (List Char)) :
    (∃ forms, List.Forall₂ HasForm lines forms) ∨ ∃ fault, FirstFault lines fault := by
  induction lines with
  | nil => exact Or.inl ⟨[], .nil⟩
  | cons line rest ih =>
    obtain ⟨form, hform⟩ | ⟨fault, hfault⟩ := hasForm_or_hasFault line
    · obtain ⟨forms, hforms⟩ | ⟨⟨number, fault⟩, before, line', after, rfl, hnumber, hbefore, hrest⟩ := ih
      · exact Or.inl ⟨form :: forms, .cons hform hforms⟩
      · refine Or.inr ⟨⟨number + 1, fault⟩, line :: before, line', after, rfl, ?_, ?_, hrest⟩
        · exact congrArg (· + 1) hnumber
        · intro earlier hearlier
          obtain rfl | hearlier := List.mem_cons.mp hearlier
          · exact ⟨form, hform⟩
          · exact hbefore earlier hearlier
    · exact Or.inr ⟨⟨1, fault⟩, [], line, rest, rfl, rfl, by simp, hfault.not_hasForm, hfault⟩

theorem exists_form_of_mem {line : List Char} (h : List.Forall₂ HasForm lines forms)
    (hline : line ∈ lines) : ∃ form, HasForm line form := by
  induction h with
  | nil => cases hline
  | cons hform _ ih =>
    obtain rfl | hrest := List.mem_cons.mp hline
    · exact ⟨_, hform⟩
    · exact ih hrest

namespace NamedTable

/-- Lines in form add the table that they describe. -/
theorem addLines_of_forms (h : List.Forall₂ HasForm lines forms) (t : NamedTable) (number : Nat) :
    t.addLines number lines = .ok (t.followedBy (ofForms forms)) := by
  induction h generalizing t number with
  | nil => exact congrArg Except.ok (followedBy_empty t).symm
  | cons hform _ ih =>
    rw [addLines, addLine_of_hasForm t hform]
    dsimp only
    rw [ih, followedBy_assoc, ← ofForms_cons]

theorem addLines_of_firstFault (h : FirstFault lines fault) (t : NamedTable) (number : Nat) :
    t.addLines (number + 1) lines = .error ⟨number + fault.line, fault.fault⟩ := by
  obtain ⟨before, line, after, rfl, hline, hbefore, _, hfault⟩ := h
  rw [hline]
  clear hline
  induction before generalizing t number with
  | nil =>
    rw [List.nil_append, addLines, addLine_of_hasFault t hfault]
    rfl
  | cons earlier before ih =>
    obtain ⟨form, hform⟩ := hbefore earlier List.mem_cons_self
    rw [List.cons_append, addLines, addLine_of_hasForm t hform]
    dsimp only
    rw [ih _ _ fun line hline => hbefore line (List.mem_cons_of_mem earlier hline),
      List.length_cons, Nat.add_right_comm number, Nat.add_assoc number]

theorem addLines_eq_ok_iff {t : NamedTable} :
    addLines {} 1 lines = .ok t ↔ ∃ forms, List.Forall₂ HasForm lines forms ∧ t = ofForms forms := by
  constructor
  · intro h
    obtain ⟨forms, hforms⟩ | ⟨fault, hfault⟩ := forms_or_firstFault lines
    · rw [addLines_of_forms hforms] at h
      exact ⟨forms, hforms, (Except.ok.inj h).symm⟩
    · rw [addLines_of_firstFault hfault] at h
      cases h
  · rintro ⟨forms, hforms, rfl⟩
    exact addLines_of_forms hforms {} 1

theorem addLines_eq_error_iff : addLines {} 1 lines = .error fault ↔ FirstFault lines fault := by
  constructor
  · intro h
    obtain ⟨forms, hforms⟩ | ⟨found, hfound⟩ := forms_or_firstFault lines
    · rw [addLines_of_forms hforms] at h
      cases h
    · rw [addLines_of_firstFault hfound, Nat.zero_add] at h
      exact Except.error.inj h ▸ hfound
  · intro h
    rw [addLines_of_firstFault h, Nat.zero_add]

end NamedTable

theorem FirstFault.append (h : FirstFault lines fault) (rest : List (List Char)) :
    FirstFault (lines ++ rest) fault := by
  obtain ⟨before, line, after, rfl, hnumber, hfault⟩ := h
  refine ⟨before, line, after ++ rest, ?_, hnumber, hfault⟩
  rw [List.append_assoc, List.cons_append]

theorem FirstFault.behind {front : List (List Char)} (h : FirstFault lines fault)
    (hfront : List.Forall₂ HasForm front forms) :
    FirstFault (front ++ lines) ⟨fault.line + front.length, fault.fault⟩ := by
  obtain ⟨before, line, after, rfl, hnumber, hbefore, hfault⟩ := h
  refine ⟨front ++ before, line, after, (List.append_assoc _ _ _).symm, ?_, ?_, hfault⟩
  · show fault.line + front.length = (front ++ before).length + 1
    rw [hnumber, List.length_append]
    omega
  · intro earlier hearlier
    exact (List.mem_append.mp hearlier).elim (exists_form_of_mem hfront) (hbefore earlier)

end Lines

/-- A text is made up of lines in one way. The reader takes the texts whose lines all have a form and
makes of them what these say. Of any other text it blames the first line without a form. -/
theorem reads_by_grammar (text : List Char) :
    ∃ lines, (∀ other, Text.InLines text other ↔ other = lines) ∧
      ((∃ t, NamedTable.parse text = .ok t) ↔ ∀ line ∈ lines, ∃ form, HasForm line form) ∧
      (∀ t, NamedTable.parse text = .ok t ↔
        ∃ forms, List.Forall₂ HasForm lines forms ∧ t = NamedTable.ofForms forms) ∧
      ∀ fault, NamedTable.parse text = .error fault ↔ FirstFault lines fault := by
  refine ⟨Text.lines text, fun _ => Text.inLines_iff, ?_, fun t => NamedTable.addLines_eq_ok_iff,
    fun fault => NamedTable.addLines_eq_error_iff⟩
  constructor
  · rintro ⟨t, ht⟩ line hline
    obtain ⟨forms, hforms, _⟩ := NamedTable.addLines_eq_ok_iff.mp ht
    exact exists_form_of_mem hforms hline
  · intro hlines
    obtain ⟨forms, hforms⟩ | ⟨fault, before, line, after, hsplit, _, _, hnone, _⟩ :=
      forms_or_firstFault (Text.lines text)
    · exact ⟨_, NamedTable.addLines_eq_ok_iff.mpr ⟨forms, hforms, rfl⟩⟩
    · exact absurd (hlines line (hsplit ▸ by simp)) hnone

/-- Both arrows, a name between blanks and both endings of lines; then a line without a right side comes
behind. -/
theorem reads_by_grammar_with_both_arrows :
    let text := ";\r\n;\u00A0Arrows\u2003\r\nLEFT<->RIGHT; <- both\n UP -> DOWN".toList
    let faulty := text ++ "\r\n A <-> \nDWN".toList
    let lines := [[';'], ";\u00A0Arrows\u2003".toList, "LEFT<->RIGHT; <- both".toList,
      " UP -> DOWN".toList]
    let t : NamedTable := ⟨some "Arrows", [⟨⟨0x50⟩, ⟨0x4F⟩⟩, ⟨⟨0x4F⟩, ⟨0x50⟩⟩, ⟨⟨0x52⟩, ⟨0x51⟩⟩]⟩
    let fault : TableFault := ⟨5, .malformedPair "A <->"⟩
    NamedTable.parse text = .ok t ∧
      (∃ forms, List.Forall₂ HasForm lines forms ∧ t = NamedTable.ofForms forms) ∧
      NamedTable.parse faulty = .error fault ∧
      FirstFault (lines ++ [" A <-> ".toList, "DWN".toList]) fault := by
  intro text faulty lines t fault
  have hread : NamedTable.parse text = .ok t := by decide +kernel
  have hfault : NamedTable.parse faulty = .error fault := by decide +kernel
  obtain ⟨found, hlines, _, hok, _⟩ := reads_by_grammar text
  obtain rfl := (hlines lines).mp (Text.inLines_iff.mpr (by decide +kernel))
  obtain ⟨found, hlines, _, _, herror⟩ := reads_by_grammar faulty
  obtain rfl := (hlines (lines ++ [" A <-> ".toList, "DWN".toList])).mp
    (Text.inLines_iff.mpr (by decide +kernel))
  exact ⟨hread, (hok t).mp hread, hfault, (herror fault).mp hfault⟩

end OpposingKeys
