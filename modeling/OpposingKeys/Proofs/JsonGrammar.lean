import OpposingKeys.Proofs.JsonTokens

/-!
# The grammar of JSON

Which texts write which values (`Writes`), and that exactly these are read (`parse?_eq_some_iff`). That a
text is read is shown by induction on the grammar, and that what is read is written by induction on the
fuel, which the three readers of values count down together.

The text of a value is never empty, so its length is enough fuel: a step that takes no character
goes into an array or an object, whose opening bracket was taken before.
-/

namespace OpposingKeys.Json

set_option autoImplicit false

/-- A member of an object as it is written: the text up to the colon and the one behind it. -/
structure WrittenMember where
  nameText : List Char
  name : List Element
  valueText : List Char
  value : Json

namespace WrittenMember
variable (m : WrittenMember)

def text : List Char := m.nameText ++ ':' :: m.valueText

def member : List Element × Json := (m.name, m.value)

end WrittenMember

/-- The name of a member, with any blanks around its quotes. -/
def WritesName (text : List Char) (name : List Element) : Prop :=
  ∃ front quoted back, Blanks front ∧ WritesString quoted name ∧ Blanks back ∧
    text = front ++ quoted ++ back

def separated (texts : List (List Char)) : List Char := List.intercalate [','] texts

/-- The text writes the value, with any blanks around it. -/
inductive Writes : List Char → Json → Prop where
  | null : Writes ['n', 'u', 'l', 'l'] .null
  | boolTrue : Writes ['t', 'r', 'u', 'e'] (.bool true)
  | boolFalse : Writes ['f', 'a', 'l', 's', 'e'] (.bool false)
  | number {spelling : List Char} (h : IsNumber spelling) : Writes spelling (.number spelling)
  | string {text : List Char} {elements : List Element} (h : WritesString text elements) :
      Writes text (.string elements)
  | padded {front text back : List Char} {json : Json} (hfront : Blanks front) (h : Writes text json)
      (hback : Blanks back) : Writes (front ++ text ++ back) json
  | emptyArray {blanks : List Char} (h : Blanks blanks) : Writes ('[' :: (blanks ++ [']'])) (.array [])
  | array {items : List (List Char × Json)} (hne : items ≠ [])
      (hitems : ∀ item ∈ items, Writes item.1 item.2) :
      Writes ('[' :: (separated (items.map Prod.fst) ++ [']'])) (.array (items.map Prod.snd))
  | emptyObject {blanks : List Char} (h : Blanks blanks) :
      Writes ('\x7b' :: (blanks ++ ['\x7d'])) (.object [])
  | object {members : List WrittenMember} (hne : members ≠ [])
      (hnames : ∀ m ∈ members, WritesName m.nameText m.name)
      (hvalues : ∀ m ∈ members, Writes m.valueText m.value) :
      Writes ('\x7b' :: (separated (members.map WrittenMember.text) ++ ['\x7d']))
        (.object (members.map WrittenMember.member))

section Separated
variable {text next : List Char} {texts : List (List Char)}

@[simp] theorem separated_singleton (text : List Char) : separated [text] = text :=
  List.intercalate_singleton

theorem separated_cons (text : List Char) (hne : texts ≠ []) :
    separated (text :: texts) = text ++ ',' :: separated texts := by
  obtain ⟨next, texts, rfl⟩ := List.exists_cons_of_ne_nil hne
  rw [separated, List.intercalate_cons_cons, List.append_assoc]
  rfl

theorem exists_separated_cons (text : List Char) (texts : List (List Char)) :
    ∃ more, separated (text :: texts) = text ++ more := by
  by_cases hne : texts = []
  · exact ⟨[], by rw [hne, separated_singleton, List.append_nil]⟩
  · exact ⟨_, separated_cons text hne⟩

end Separated

section Values
variable {text cs rest : List Char} {json : Json}

/-- Behind any blanks, a value starts with a character that does not end an array. -/
theorem Writes.exists_cons (h : Writes text json) :
    ∃ blanks c cs, Blanks blanks ∧ text = blanks ++ c :: cs ∧ isBlank c = false ∧ c ≠ ']' := by
  induction h with
  | null => exact ⟨[], _, _, blanks_nil, rfl, rfl, by decide⟩
  | boolTrue => exact ⟨[], _, _, blanks_nil, rfl, rfl, by decide⟩
  | boolFalse => exact ⟨[], _, _, blanks_nil, rfl, rfl, by decide⟩
  | number h =>
    obtain ⟨c, cs, rfl, rfl | hc⟩ := h.exists_cons
    · exact ⟨[], _, _, blanks_nil, rfl, rfl, by decide⟩
    · exact ⟨[], c, cs, blanks_nil, rfl, isBlank_of_isDigit hc, ne_of_isDigit hc rfl⟩
  | string h =>
    obtain ⟨body, -, rfl⟩ := h
    exact ⟨[], _, _, blanks_nil, rfl, rfl, by decide⟩
  | @padded front text back json hfront _ _ ih =>
    obtain ⟨blanks, c, cs, hblanks, rfl, hc, hend⟩ := ih
    refine ⟨front ++ blanks, c, cs ++ back, ?_, by simp, hc, hend⟩
    exact List.forall_mem_append.mpr ⟨hfront, hblanks⟩
  | emptyArray _ => exact ⟨[], _, _, blanks_nil, rfl, rfl, by decide⟩
  | array _ _ _ => exact ⟨[], _, _, blanks_nil, rfl, rfl, by decide⟩
  | emptyObject _ => exact ⟨[], _, _, blanks_nil, rfl, rfl, by decide⟩
  | object _ _ _ _ => exact ⟨[], _, _, blanks_nil, rfl, rfl, by decide⟩

theorem Writes.length_pos (h : Writes text json) : 0 < text.length := by
  obtain ⟨blanks, c, cs, _, rfl, _, _⟩ := h.exists_cons
  simp

end Values

section Skipping
variable (fuel : Nat) (cs : List Char)

theorem readValue?_skipBlanks : readValue? fuel (skipBlanks cs) = readValue? fuel cs := by
  cases fuel with
  | zero => rfl
  | succ fuel => rw [readValue?, readValue?, skipBlanks_skipBlanks]

theorem readItems?_skipBlanks : readItems? fuel (skipBlanks cs) = readItems? fuel cs := by
  cases fuel with
  | zero => rfl
  | succ fuel => rw [readItems?, readItems?, readValue?_skipBlanks]

theorem readMembers?_skipBlanks : readMembers? fuel (skipBlanks cs) = readMembers? fuel cs := by
  cases fuel with
  | zero => rfl
  | succ fuel => rw [readMembers?, readMembers?, readName?, skipBlanks_skipBlanks, readName?]

end Skipping

/-! ## What is written is read -/

section Reading
variable {text nameText cs rest : List Char} {name elements : List Element} {json : Json}

/-- With fuel for its length the text is read as the value, with anything behind it that ends an item.
Only blanks behind the value may be left over. -/
def Reads (text : List Char) (json : Json) : Prop :=
  ∀ fuel rest, text.length ≤ fuel → Ends rest →
    ∃ left, readValue? fuel (text ++ rest) = some (json, left) ∧ skipBlanks left = skipBlanks rest

/-- A text that is not empty leaves at least one step to take. -/
theorem reads_of_succ (hpos : 0 < text.length)
    (h : ∀ fuel rest, text.length ≤ fuel + 1 → Ends rest →
      readValue? (fuel + 1) (text ++ rest) = some (json, rest)) : Reads text json := by
  intro fuel rest hfuel hrest
  obtain ⟨fuel, rfl⟩ : ∃ left, fuel = left + 1 := ⟨fuel - 1, by omega⟩
  exact ⟨rest, h fuel rest hfuel hrest, rfl⟩

theorem readValue?_plain {c : Char} (hblank : isBlank c = false) (hquote : c ≠ '"')
    (hbracket : c ≠ '[') (hbrace : c ≠ '\x7b') (fuel : Nat) (cs : List Char) :
    readValue? (fuel + 1) (c :: cs) = readPlain? (c :: cs) := by
  rw [readValue?, skipBlanks_cons hblank]
  split
  · next h => exact absurd (List.cons.inj h).1 hquote
  · next h => exact absurd (List.cons.inj h).1 hbracket
  · next h => exact absurd (List.cons.inj h).1 hbrace
  · rfl

theorem readPlain?_number (h : IsNumber text) (hrest : Ends rest) :
    readPlain? (text ++ rest) = some (.number text, rest) := by
  have hread := readNumber?_append h hrest
  obtain ⟨c, cs, rfl, hc⟩ := h.exists_cons
  have hword : ∀ m ms, m ≠ '-' → m.isDigit = false →
      Text.after? (m :: ms) (c :: (cs ++ rest)) = none := by
    intro m ms hminus hdigit
    rw [Text.after?, if_neg]
    rintro rfl
    exact hc.elim hminus fun h => ne_of_isDigit h hdigit rfl
  rw [List.cons_append] at hread ⊢
  rw [readPlain?, hword 'n' _ (by decide) rfl, hword 't' _ (by decide) rfl,
    hword 'f' _ (by decide) rfl, hread]
  rfl

theorem reads_number (h : IsNumber text) : Reads text (.number text) := by
  refine reads_of_succ (Writes.number h).length_pos ?_
  intro fuel rest _ hrest
  have hread := readPlain?_number h hrest
  obtain ⟨c, cs, rfl, rfl | hc⟩ := h.exists_cons
  · rw [List.cons_append, readValue?_plain rfl (by decide) (by decide) (by decide)]
    exact hread
  · rw [List.cons_append, readValue?_plain (isBlank_of_isDigit hc) (ne_of_isDigit hc rfl)
      (ne_of_isDigit hc rfl) (ne_of_isDigit hc rfl)]
    exact hread

theorem reads_string (h : WritesString text elements) : Reads text (.string elements) := by
  refine reads_of_succ (Writes.string h).length_pos ?_
  obtain ⟨body, hbody, rfl⟩ := h
  intro fuel rest _ _
  rw [List.cons_append, List.append_assoc, List.singleton_append, readValue?, skipBlanks_cons rfl]
  simp only [readString?_append hbody, Option.map_some]

theorem Reads.padded {front back : List Char} (hfront : Blanks front) (h : Reads text json)
    (hback : Blanks back) : Reads (front ++ text ++ back) json := by
  intro fuel rest hfuel hrest
  rw [List.length_append, List.length_append] at hfuel
  obtain ⟨left, hread, hleft⟩ := h fuel (back ++ rest) (by omega) (ends_append hback hrest)
  refine ⟨left, ?_, hleft.trans (skipBlanks_append hback rest)⟩
  rw [List.append_assoc, List.append_assoc, ← readValue?_skipBlanks, skipBlanks_append hfront,
    readValue?_skipBlanks, hread]

theorem readName?_append (h : WritesName nameText name) (rest : List Char) :
    readName? (nameText ++ ':' :: rest) = some (name, rest) := by
  obtain ⟨front, quoted, back, hfront, ⟨body, hbody, rfl⟩, hback, rfl⟩ := h
  have hquote : front ++ '"' :: (body ++ ['"']) ++ back ++ ':' :: rest =
      front ++ '"' :: (body ++ '"' :: (back ++ ':' :: rest)) := by simp
  rw [hquote, readName?, skipBlanks_append hfront, skipBlanks_cons rfl]
  simp only [readString?_append hbody, skipBlanks_append hback, skipBlanks_cons (c := ':') rfl]

theorem WritesName.exists_quote (h : WritesName nameText name) :
    ∃ blanks cs, Blanks blanks ∧ nameText = blanks ++ '"' :: cs := by
  obtain ⟨front, quoted, back, hfront, ⟨body, _, rfl⟩, _, rfl⟩ := h
  exact ⟨front, body ++ ['"'] ++ back, hfront, by simp⟩

section Items
variable {items : List (List Char × Json)}

theorem readItems?_separated (hne : items ≠ []) (hreads : ∀ item ∈ items, Reads item.1 item.2)
    (rest : List Char) (fuel : Nat) (hfuel : (separated (items.map Prod.fst)).length < fuel) :
    readItems? fuel (separated (items.map Prod.fst) ++ ']' :: rest) =
      some (items.map Prod.snd, rest) := by
  induction items generalizing fuel with
  | nil => exact absurd rfl hne
  | cons item items ih =>
    obtain ⟨hread, hreads⟩ := List.forall_mem_cons.mp hreads
    obtain ⟨fuel, rfl⟩ : ∃ left, fuel = left + 1 := ⟨fuel - 1, by omega⟩
    rw [List.map_cons] at hfuel
    rw [List.map_cons, List.map_cons]
    by_cases hmore : items = []
    · subst hmore
      rw [List.map_nil, separated_singleton] at hfuel ⊢
      obtain ⟨left, hread, hleft⟩ := hread fuel (']' :: rest) (by omega) (ends_cons (by decide) rest)
      rw [readItems?, hread]
      simp only [hleft, skipBlanks_cons (c := ']') rfl, List.map_nil]
    · rw [separated_cons _ (by simpa using hmore)] at hfuel ⊢
      rw [List.length_append, List.length_cons] at hfuel
      rw [List.append_assoc, List.cons_append]
      obtain ⟨left, hread, hleft⟩ := hread fuel _ (by omega) (ends_cons (.inr (.inl rfl)) _)
      rw [readItems?, hread]
      simp only [hleft, skipBlanks_cons (c := ',') rfl, ih hmore hreads fuel (by omega),
        Option.map_some]

theorem readValue?_array {c : Char} {more : List Char} (hstart : skipBlanks cs = c :: more)
    (hend : c ≠ ']') (fuel : Nat) : readValue? (fuel + 1) ('[' :: cs) =
      (readItems? fuel cs).map fun read => (.array read.1, read.2) := by
  rw [readValue?, skipBlanks_cons rfl]
  simp only
  split
  · next heq => exact absurd (List.cons.inj (hstart.symm.trans heq)).1 hend
  · rw [readItems?_skipBlanks]

theorem reads_array (hne : items ≠ []) (hwrites : ∀ item ∈ items, Writes item.1 item.2)
    (hreads : ∀ item ∈ items, Reads item.1 item.2) :
    Reads ('[' :: (separated (items.map Prod.fst) ++ [']'])) (.array (items.map Prod.snd)) := by
  refine reads_of_succ (Nat.succ_pos _) ?_
  intro fuel rest hfuel _
  rw [List.length_cons, List.length_append, List.length_singleton] at hfuel
  rw [List.cons_append, List.append_assoc, List.singleton_append]
  have hread := readItems?_separated hne hreads rest fuel (by omega)
  obtain ⟨item, items, rfl⟩ := List.exists_cons_of_ne_nil hne
  obtain ⟨blanks, c, cs, hblanks, htext, hc, hend⟩ := (hwrites item List.mem_cons_self).exists_cons
  obtain ⟨more, hmore⟩ := exists_separated_cons item.1 (items.map Prod.fst)
  have hstart : skipBlanks (separated ((item :: items).map Prod.fst) ++ ']' :: rest) =
      c :: (cs ++ more ++ ']' :: rest) := by
    rw [List.map_cons, hmore, htext, List.append_assoc, List.append_assoc, skipBlanks_append hblanks,
      List.cons_append, skipBlanks_cons hc, List.append_assoc]
  rw [readValue?_array hstart hend, hread]
  rfl

theorem reads_emptyArray {blanks : List Char} (h : Blanks blanks) :
    Reads ('[' :: (blanks ++ [']'])) (.array []) := by
  refine reads_of_succ (Nat.succ_pos _) ?_
  intro fuel rest _ _
  rw [List.cons_append, List.append_assoc, List.singleton_append, readValue?, skipBlanks_cons rfl]
  simp only [skipBlanks_append h, skipBlanks_cons (c := ']') rfl]

end Items

section Members
variable {members : List WrittenMember}

theorem readMembers?_separated (hne : members ≠ [])
    (hnames : ∀ m ∈ members, WritesName m.nameText m.name)
    (hreads : ∀ m ∈ members, Reads m.valueText m.value) (rest : List Char) (fuel : Nat)
    (hfuel : (separated (members.map WrittenMember.text)).length < fuel) :
    readMembers? fuel (separated (members.map WrittenMember.text) ++ '\x7d' :: rest) =
      some (members.map WrittenMember.member, rest) := by
  induction members generalizing fuel with
  | nil => exact absurd rfl hne
  | cons m members ih =>
    obtain ⟨hname, hnames⟩ := List.forall_mem_cons.mp hnames
    obtain ⟨hread, hreads⟩ := List.forall_mem_cons.mp hreads
    obtain ⟨fuel, rfl⟩ : ∃ left, fuel = left + 1 := ⟨fuel - 1, by omega⟩
    have hlength : m.text.length = m.nameText.length + 1 + m.valueText.length := by
      rw [WrittenMember.text, List.length_append, List.length_cons]
      omega
    rw [List.map_cons] at hfuel
    rw [List.map_cons, List.map_cons]
    by_cases hmore : members = []
    · subst hmore
      rw [List.map_nil, separated_singleton] at hfuel ⊢
      obtain ⟨left, hread, hleft⟩ := hread fuel ('\x7d' :: rest) (by omega)
        (ends_cons (by decide) rest)
      rw [WrittenMember.text, List.append_assoc, List.cons_append, readMembers?, readName?_append hname]
      simp only [hread, hleft, skipBlanks_cons (c := '\x7d') rfl, WrittenMember.member, List.map_nil]
    · rw [separated_cons _ (by simpa using hmore)] at hfuel ⊢
      rw [List.length_append, List.length_cons] at hfuel
      obtain ⟨left, hread, hleft⟩ := hread fuel
        (',' :: (separated (members.map WrittenMember.text) ++ '\x7d' :: rest)) (by omega)
        (ends_cons (.inr (.inl rfl)) _)
      rw [WrittenMember.text, List.append_assoc, List.append_assoc, List.cons_append, List.cons_append,
        readMembers?, readName?_append hname]
      simp only [hread, hleft, skipBlanks_cons (c := ',') rfl, ih hmore hnames hreads fuel (by omega),
        WrittenMember.member, Option.map_some]

theorem readValue?_object {c : Char} {more : List Char} (hstart : skipBlanks cs = c :: more)
    (hend : c ≠ '\x7d') (fuel : Nat) : readValue? (fuel + 1) ('\x7b' :: cs) =
      (readMembers? fuel cs).map fun read => (.object read.1, read.2) := by
  rw [readValue?, skipBlanks_cons rfl]
  simp only
  split
  · next heq => exact absurd (List.cons.inj (hstart.symm.trans heq)).1 hend
  · rw [readMembers?_skipBlanks]

theorem reads_object (hne : members ≠ []) (hnames : ∀ m ∈ members, WritesName m.nameText m.name)
    (hreads : ∀ m ∈ members, Reads m.valueText m.value) :
    Reads ('\x7b' :: (separated (members.map WrittenMember.text) ++ ['\x7d']))
      (.object (members.map WrittenMember.member)) := by
  refine reads_of_succ (Nat.succ_pos _) ?_
  intro fuel rest hfuel _
  rw [List.length_cons, List.length_append, List.length_singleton] at hfuel
  rw [List.cons_append, List.append_assoc, List.singleton_append]
  have hread := readMembers?_separated hne hnames hreads rest fuel (by omega)
  obtain ⟨m, members, rfl⟩ := List.exists_cons_of_ne_nil hne
  obtain ⟨blanks, cs, hblanks, hname⟩ := (hnames m List.mem_cons_self).exists_quote
  obtain ⟨more, hmore⟩ := exists_separated_cons m.text (members.map WrittenMember.text)
  have hstart : skipBlanks (separated ((m :: members).map WrittenMember.text) ++ '\x7d' :: rest) =
      '"' :: (cs ++ ':' :: m.valueText ++ more ++ '\x7d' :: rest) := by
    rw [List.map_cons, hmore, WrittenMember.text, hname]
    simp only [List.append_assoc, skipBlanks_append hblanks, List.cons_append,
      skipBlanks_cons (c := '"') rfl]
  rw [readValue?_object hstart (by decide), hread]
  rfl

theorem reads_emptyObject {blanks : List Char} (h : Blanks blanks) :
    Reads ('\x7b' :: (blanks ++ ['\x7d'])) (.object []) := by
  refine reads_of_succ (Nat.succ_pos _) ?_
  intro fuel rest _ _
  rw [List.cons_append, List.append_assoc, List.singleton_append, readValue?, skipBlanks_cons rfl]
  simp only [skipBlanks_append h, skipBlanks_cons (c := '\x7d') rfl]

end Members

theorem Writes.reads (h : Writes text json) : Reads text json := by
  induction h with
  | null => exact reads_of_succ (Nat.succ_pos _) fun _ _ _ _ => rfl
  | boolTrue => exact reads_of_succ (Nat.succ_pos _) fun _ _ _ _ => rfl
  | boolFalse => exact reads_of_succ (Nat.succ_pos _) fun _ _ _ _ => rfl
  | number h => exact reads_number h
  | string h => exact reads_string h
  | padded hfront _ hback ih => exact ih.padded hfront hback
  | emptyArray h => exact reads_emptyArray h
  | array hne hitems ih => exact reads_array hne hitems ih
  | emptyObject h => exact reads_emptyObject h
  | object hne hnames _ ih => exact reads_object hne hnames ih

end Reading

/-! ## What is read is written -/

section Writing
variable {text cs rest : List Char} {json : Json}

/-- Texts of one item or more, with commas between them. -/
def WritesItems (text : List Char) (items : List Json) : Prop :=
  ∃ written : List (List Char × Json), written ≠ [] ∧ (∀ item ∈ written, Writes item.1 item.2) ∧
    text = separated (written.map Prod.fst) ∧ items = written.map Prod.snd

def WritesMembers (text : List Char) (members : List (List Element × Json)) : Prop :=
  ∃ written : List WrittenMember, written ≠ [] ∧ (∀ m ∈ written, WritesName m.nameText m.name) ∧
    (∀ m ∈ written, Writes m.valueText m.value) ∧
    text = separated (written.map WrittenMember.text) ∧ members = written.map WrittenMember.member

section Items
variable {more : List Char} {items : List Json}

theorem WritesItems.single (h : Writes text json) : WritesItems text [json] :=
  ⟨[(text, json)], List.cons_ne_nil _ _, by simpa using h, by simp, rfl⟩

theorem WritesItems.cons (h : Writes text json) (hmore : WritesItems more items) :
    WritesItems (text ++ ',' :: more) (json :: items) := by
  obtain ⟨written, hne, hwrites, rfl, rfl⟩ := hmore
  refine ⟨(text, json) :: written, List.cons_ne_nil _ _, List.forall_mem_cons.mpr ⟨h, hwrites⟩, ?_, rfl⟩
  rw [List.map_cons, separated_cons _ (by simpa using hne)]

theorem WritesItems.array (h : WritesItems text items) :
    Writes ('[' :: (text ++ [']'])) (.array items) := by
  obtain ⟨written, hne, hwrites, rfl, rfl⟩ := h
  exact .array hne hwrites

end Items

section Members
variable {nameText valueText more : List Char} {name : List Element} {value : Json}
variable {members : List (List Element × Json)}

theorem WritesMembers.single (hname : WritesName nameText name) (hvalue : Writes valueText value) :
    WritesMembers (nameText ++ ':' :: valueText) [(name, value)] :=
  ⟨[⟨nameText, name, valueText, value⟩], List.cons_ne_nil _ _, by simpa using hname,
    by simpa using hvalue, by simp [WrittenMember.text], rfl⟩

theorem WritesMembers.cons (hname : WritesName nameText name) (hvalue : Writes valueText value)
    (hmore : WritesMembers more members) :
    WritesMembers (nameText ++ ':' :: (valueText ++ ',' :: more)) ((name, value) :: members) := by
  obtain ⟨written, hne, hnames, hvalues, rfl, rfl⟩ := hmore
  refine ⟨⟨nameText, name, valueText, value⟩ :: written, List.cons_ne_nil _ _,
    List.forall_mem_cons.mpr ⟨hname, hnames⟩, List.forall_mem_cons.mpr ⟨hvalue, hvalues⟩, ?_, rfl⟩
  rw [List.map_cons, separated_cons _ (by simpa using hne), WrittenMember.text, List.append_assoc,
    List.cons_append]

theorem WritesMembers.object (h : WritesMembers text members) :
    Writes ('\x7b' :: (text ++ ['\x7d'])) (.object members) := by
  obtain ⟨written, hne, hnames, hvalues, rfl, rfl⟩ := h
  exact .object hne hnames hvalues

end Members

theorem exists_of_readName? {name : List Element} (h : readName? cs = some (name, rest)) :
    ∃ text, WritesName text name ∧ cs = text ++ ':' :: rest := by
  obtain ⟨front, hfront, hcs⟩ := exists_blanks cs
  rw [readName?] at h
  split at h
  · next quoted hquote =>
    split at h
    · next elements behind hread =>
      obtain ⟨back, hback, hbehind⟩ := exists_blanks behind
      split at h
      · next hcolon =>
        cases h
        obtain ⟨body, hbody, rfl⟩ := exists_of_readString? hread
        refine ⟨front ++ ('"' :: (body ++ ['"'])) ++ back, ?_, ?_⟩
        · exact ⟨front, _, back, hfront, ⟨body, hbody, rfl⟩, hback, rfl⟩
        · rw [hcs, hquote, hbehind, hcolon]
          simp
      · cases h
    · cases h
  · cases h

theorem exists_of_readPlain? (h : readPlain? cs = some (json, rest)) :
    ∃ text, Writes text json ∧ cs = text ++ rest := by
  rw [readPlain?] at h
  split at h
  · next hword =>
    cases h
    exact ⟨_, .null, Text.after?_eq_some_iff.mp hword⟩
  · split at h
    · next hword =>
      cases h
      exact ⟨_, .boolTrue, Text.after?_eq_some_iff.mp hword⟩
    · split at h
      · next hword =>
        cases h
        exact ⟨_, .boolFalse, Text.after?_eq_some_iff.mp hword⟩
      · obtain ⟨⟨spelling, left⟩, hread, heq⟩ := Option.map_eq_some_iff.mp h
        cases heq
        obtain ⟨hnumber, rfl⟩ := isNumber_of_readNumber? hread
        exact ⟨_, .number hnumber, rfl⟩

variable {fuel : Nat}

def ValueWritten (fuel : Nat) : Prop :=
  ∀ cs json rest, readValue? fuel cs = some (json, rest) → ∃ text, Writes text json ∧ cs = text ++ rest

def ItemsWritten (fuel : Nat) : Prop :=
  ∀ cs items rest, readItems? fuel cs = some (items, rest) →
    ∃ text, WritesItems text items ∧ cs = text ++ ']' :: rest

def MembersWritten (fuel : Nat) : Prop :=
  ∀ cs members rest, readMembers? fuel cs = some (members, rest) →
    ∃ text, WritesMembers text members ∧ cs = text ++ '\x7d' :: rest

theorem Writes.padRight {back : List Char} (h : Writes text json) (hback : Blanks back) :
    Writes (text ++ back) json := by
  have hpadded := Writes.padded blanks_nil h hback
  rwa [List.nil_append] at hpadded

theorem Writes.padLeft {front : List Char} (hfront : Blanks front) (h : Writes text json) :
    Writes (front ++ text) json := by
  have hpadded := Writes.padded hfront h blanks_nil
  rwa [List.append_nil] at hpadded

theorem itemsWritten_succ (hvalue : ValueWritten fuel) (hitems : ItemsWritten fuel) :
    ItemsWritten (fuel + 1) := by
  intro cs items rest h
  rw [readItems?] at h
  split at h
  · cases h
  · next item behind hread =>
    obtain ⟨text, hwrites, rfl⟩ := hvalue _ _ _ hread
    obtain ⟨back, hback, hbehind⟩ := exists_blanks behind
    split at h
    · next hcomma =>
      obtain ⟨⟨others, left⟩, hreads, heq⟩ := Option.map_eq_some_iff.mp h
      cases heq
      obtain ⟨more, hmore, rfl⟩ := hitems _ _ _ hreads
      refine ⟨_, .cons (hwrites.padRight hback) hmore, ?_⟩
      rw [hbehind, hcomma]
      simp
    · next hend =>
      cases h
      refine ⟨_, .single (hwrites.padRight hback), ?_⟩
      rw [hbehind, hend, List.append_assoc]
    · cases h

theorem membersWritten_succ (hvalue : ValueWritten fuel) (hmembers : MembersWritten fuel) :
    MembersWritten (fuel + 1) := by
  intro cs members rest h
  rw [readMembers?] at h
  split at h
  · cases h
  · next name value hreadName =>
    obtain ⟨nameText, hname, rfl⟩ := exists_of_readName? hreadName
    split at h
    · cases h
    · next json behind hread =>
      obtain ⟨text, hwrites, rfl⟩ := hvalue _ _ _ hread
      obtain ⟨back, hback, hbehind⟩ := exists_blanks behind
      split at h
      · next hcomma =>
        obtain ⟨⟨others, left⟩, hreads, heq⟩ := Option.map_eq_some_iff.mp h
        cases heq
        obtain ⟨more, hmore, rfl⟩ := hmembers _ _ _ hreads
        refine ⟨_, .cons hname (hwrites.padRight hback) hmore, ?_⟩
        rw [hbehind, hcomma]
        simp
      · next hend =>
        cases h
        refine ⟨_, .single hname (hwrites.padRight hback), ?_⟩
        rw [hbehind, hend]
        simp
      · cases h

theorem valueWritten_succ (hitems : ItemsWritten fuel) (hmembers : MembersWritten fuel) :
    ValueWritten (fuel + 1) := by
  intro cs json rest h
  obtain ⟨front, hfront, hcs⟩ := exists_blanks cs
  -- The blanks in front go with any text of what follows them.
  suffices hwritten : ∃ text, Writes text json ∧ skipBlanks cs = text ++ rest by
    obtain ⟨text, hwrites, htext⟩ := hwritten
    exact ⟨front ++ text, hwrites.padLeft hfront, by rw [hcs, htext, List.append_assoc]⟩
  rw [readValue?] at h
  split at h
  · next hquote =>
    obtain ⟨⟨elements, left⟩, hread, heq⟩ := Option.map_eq_some_iff.mp h
    cases heq
    obtain ⟨body, hbody, rfl⟩ := exists_of_readString? hread
    exact ⟨'"' :: (body ++ ['"']), .string ⟨body, hbody, rfl⟩, by rw [hquote]; simp⟩
  · next behind hbracket =>
    obtain ⟨blanks, hblanks, hbehind⟩ := exists_blanks behind
    split at h
    · next hend =>
      cases h
      exact ⟨'[' :: (blanks ++ [']']), .emptyArray hblanks, by rw [hbracket, hbehind, hend]; simp⟩
    · obtain ⟨⟨items, left⟩, hread, heq⟩ := Option.map_eq_some_iff.mp h
      cases heq
      rw [readItems?_skipBlanks] at hread
      obtain ⟨text, hwrites, rfl⟩ := hitems _ _ _ hread
      exact ⟨'[' :: (text ++ [']']), hwrites.array, by rw [hbracket]; simp⟩
  · next behind hbrace =>
    obtain ⟨blanks, hblanks, hbehind⟩ := exists_blanks behind
    split at h
    · next hend =>
      cases h
      exact ⟨'\x7b' :: (blanks ++ ['\x7d']), .emptyObject hblanks, by rw [hbrace, hbehind, hend]; simp⟩
    · obtain ⟨⟨members, left⟩, hread, heq⟩ := Option.map_eq_some_iff.mp h
      cases heq
      rw [readMembers?_skipBlanks] at hread
      obtain ⟨text, hwrites, rfl⟩ := hmembers _ _ _ hread
      exact ⟨'\x7b' :: (text ++ ['\x7d']), hwrites.object, by rw [hbrace]; simp⟩
  · exact exists_of_readPlain? h

theorem written (fuel : Nat) : ValueWritten fuel ∧ ItemsWritten fuel ∧ MembersWritten fuel := by
  induction fuel with
  | zero =>
    refine ⟨?_, ?_, ?_⟩ <;> intro _ _ _ h <;> cases h
  | succ fuel ih =>
    obtain ⟨hvalue, hitems, hmembers⟩ := ih
    exact ⟨valueWritten_succ hitems hmembers, itemsWritten_succ hvalue hitems,
      membersWritten_succ hvalue hmembers⟩

end Writing

/-- A text is read as a value exactly if it writes this value. -/
theorem parse?_eq_some_iff {text : List Char} {json : Json} :
    parse? text = some json ↔ Writes text json := by
  constructor
  · intro h
    rw [parse?] at h
    split at h
    · next value rest hread =>
      split at h
      · next hrest =>
        cases h
        obtain ⟨body, hwrites, rfl⟩ := (written _).1 _ _ _ hread
        exact hwrites.padRight (skipBlanks_eq_nil_iff.mp (List.isEmpty_iff.mp hrest))
      · cases h
    · cases h
  · intro h
    obtain ⟨left, hread, hleft⟩ := h.reads (2 * text.length + 2) [] (by omega) ends_nil
    rw [List.append_nil] at hread
    rw [parse?, hread]
    simp only [hleft]
    rfl

end OpposingKeys.Json
