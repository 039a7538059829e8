import OpposingKeys.Proofs.JsonGrammar
import OpposingKeys.Proofs.Utf16RoundTrip
import OpposingKeys.TableJson

/-!
# JSON gives a value back

The values written here are made of naturals and texts. The compact text of one writes it by the grammar
of JSON, so reading this text gives the value.
-/

namespace OpposingKeys

set_option autoImplicit false

namespace Json

section Strings
variable {cs : List Char} {elements : List Element}

theorem ofUnit_toUInt16 {c : Char} (h : c.toNat < 0xD800) :
    Element.ofUnit c.toNat.toUInt16 = .scalar c := by
  have hn : c.toNat < 0x10000 := by omega
  have hhigh : Encoding.isHigh c.toNat.toUInt16 = false := by
    rw [Encoding.Utf16.isHigh_toUInt16 hn]
    exact decide_eq_false (by omega)
  have hlow : Encoding.isLow c.toNat.toUInt16 = false := by
    rw [Encoding.Utf16.isLow_toUInt16 hn]
    exact decide_eq_false (by omega)
  rw [Element.ofUnit, hhigh, hlow, Encoding.Utf16.toNat_toUInt16 hn, Char.ofNat_toNat]
  rfl

theorem writesElements_numberEscape {n : Nat} (h : n < 0x10000) (hrest : WritesElements cs elements) :
    WritesElements (numberEscape n ++ cs) (.ofUnit n.toUInt16 :: elements) := by
  refine .unit (by rw [List.length_map, Text.length_fourHexDigits]) ?_ hrest
  rw [← Text.hexNumber?_eq_some_iff, Text.hexNumber?_map_toLower, Text.hexNumber?_fourHexDigits h]

theorem writesElements_escape (c : Char) (hrest : WritesElements cs elements) :
    WritesElements (escape c ++ cs) (.scalar c :: elements) := by
  unfold escape
  split
  · exact .letter (by decide) hrest
  · exact .letter (by decide) hrest
  · exact .letter (by decide) hrest
  · exact .letter (by decide) hrest
  · exact .letter (by decide) hrest
  · exact .letter (by decide) hrest
  · exact .letter (by decide) hrest
  · next hquote hslash _ _ _ _ _ =>
    split
    · next hspace =>
      have hc : c.toNat < 0x20 := UInt32.lt_iff_toNat_lt.mp hspace
      rw [← ofUnit_toUInt16 (by omega)]
      exact writesElements_numberEscape (by omega) hrest
    · next hspace => exact .plain hquote hslash hspace hrest

theorem writesElements_ofText (cs : List Char) :
    WritesElements ((ofText cs).flatMap Element.render) (ofText cs) := by
  induction cs with
  | nil => exact .nil
  | cons c cs ih => exact writesElements_escape c ih

example : readString? ['\\', '"', '\\', 'u', '0', '0', '1', 'f', '"', ','] =
    some (ofText ['"', '\x1F'], [',']) := by
  decide

theorem writesString_ofText (cs : List Char) : WritesString (renderString (ofText cs)) (ofText cs) :=
  ⟨_, writesElements_ofText cs, rfl⟩

theorem writesName_ofText (cs : List Char) : WritesName (renderString (ofText cs)) (ofText cs) :=
  ⟨[], _, [], blanks_nil, writesString_ofText cs, blanks_nil, by rw [List.nil_append, List.append_nil]⟩

end Strings

section Naturals
variable {n : Nat}

theorem isDigits_toDigits (n : Nat) : IsDigits (Nat.toDigits 10 n) :=
  ⟨Nat.toDigits_ne_nil, fun _ hc => Nat.isDigit_of_mem_toDigits (by decide) (by decide) hc⟩

/-- Only zero is written with a zero in front. -/
theorem eq_zero_of_toDigits {cs : List Char} (h : Nat.toDigits 10 n = '0' :: cs) : n = 0 := by
  induction n using Nat.strongRecOn generalizing cs with
  | ind n ih =>
    by_cases hn : n < 10
    · rw [Nat.toDigits_of_lt_base hn] at h
      exact Nat.digitChar_eq_zero.mp (List.cons.inj h).1
    · rw [Nat.toDigits_of_base_le (by decide) (by omega)] at h
      obtain ⟨c, front, hfront⟩ := List.exists_cons_of_ne_nil (isDigits_toDigits (n / 10)).1
      rw [hfront, List.cons_append] at h
      obtain rfl : c = '0' := (List.cons.inj h).1
      have hzero : n / 10 = 0 := ih (n / 10) (by omega) hfront
      omega

theorem isNumber_toDigits (n : Nat) : IsNumber (Nat.toDigits 10 n) := by
  refine .inl ⟨Nat.toDigits 10 n, [], [], ?_, .inl rfl, .inl rfl, by simp⟩
  by_cases hzero : (Nat.toDigits 10 n).head? = some '0'
  · obtain ⟨cs, hdigits⟩ := List.head?_eq_some_iff.mp hzero
    obtain rfl : n = 0 := eq_zero_of_toDigits hdigits
    exact .inl rfl
  · exact .inr ⟨isDigits_toDigits n, hzero⟩

end Naturals

/-- A value made of naturals and texts. -/
inductive Plain : Json → Prop where
  | null : Plain .null
  | bool (b : Bool) : Plain (.bool b)
  | natural (n : Nat) : Plain (.ofNat n)
  | text (cs : List Char) : Plain (.string (ofText cs))
  | array {items : List Json} (h : ∀ item ∈ items, Plain item) : Plain (.array items)
  | object {members : List (List Element × Json)}
      (hname : ∀ member ∈ members, ∃ cs, member.1 = ofText cs)
      (hvalue : ∀ member ∈ members, Plain member.2) : Plain (.object members)

/-- The items before the end of an array. -/
theorem exists_renderItems {items : List Json} (hne : items ≠ [])
    (hwrites : ∀ item ∈ items, Writes (render item) item) :
    ∃ text, renderItems items = text ++ [']'] ∧ WritesItems text items := by
  induction items with
  | nil => exact absurd rfl hne
  | cons item items ih =>
    obtain ⟨hitem, hitems⟩ := List.forall_mem_cons.mp hwrites
    by_cases hmore : items = []
    · subst hmore
      exact ⟨render item, by rw [renderItems], .single hitem⟩
    · obtain ⟨text, htext, hwrites⟩ := ih hmore hitems
      refine ⟨render item ++ ',' :: text, ?_, .cons hitem hwrites⟩
      rw [renderItems.eq_3 _ _ hmore, htext, List.append_assoc, List.cons_append]

/-- The members before the end of an object. -/
theorem exists_renderMembers {members : List (List Element × Json)} (hne : members ≠ [])
    (hname : ∀ member ∈ members, ∃ cs, member.1 = ofText cs)
    (hwrites : ∀ member ∈ members, Writes (render member.2) member.2) :
    ∃ text, renderMembers members = text ++ ['\x7d'] ∧ WritesMembers text members := by
  induction members with
  | nil => exact absurd rfl hne
  | cons member members ih =>
    obtain ⟨name, value⟩ := member
    obtain ⟨⟨cs, rfl⟩, hnames⟩ := List.forall_mem_cons.mp hname
    obtain ⟨hvalue, hvalues⟩ := List.forall_mem_cons.mp hwrites
    by_cases hmore : members = []
    · subst hmore
      refine ⟨_, ?_, .single (writesName_ofText cs) hvalue⟩
      rw [renderMembers, List.append_assoc, List.cons_append]
    · obtain ⟨text, htext, hwrites⟩ := ih hmore hnames hvalues
      refine ⟨_, ?_, .cons (writesName_ofText cs) hvalue hwrites⟩
      rw [renderMembers.eq_3 _ _ _ hmore, htext]
      simp

theorem Plain.writes {json : Json} (h : Plain json) : Writes (render json) json := by
  induction h with
  | null => exact .null
  | bool b =>
    cases b with
    | false => exact .boolFalse
    | true => exact .boolTrue
  | natural n => exact .number (isNumber_toDigits n)
  | text cs => exact .string (writesString_ofText cs)
  | @array items _ ih =>
    by_cases hne : items = []
    · subst hne
      exact .emptyArray blanks_nil
    · obtain ⟨text, htext, hwrites⟩ := exists_renderItems hne ih
      rw [render, htext]
      exact hwrites.array
  | @object members hname _ ih =>
    by_cases hne : members = []
    · subst hne
      exact .emptyObject blanks_nil
    · obtain ⟨text, htext, hwrites⟩ := exists_renderMembers hne hname ih
      rw [render, htext]
      exact hwrites.object

theorem parse?_render {json : Json} (h : Plain json) : parse? (render json) = some json :=
  parse?_eq_some_iff.mpr h.writes

theorem fields?_map_ofText (fields : List (List Char × Json)) :
    fields? (fields.map fun field => (ofText field.1, field.2)) = some fields := by
  induction fields with
  | nil => rfl
  | cons field fields ih => simp [fields?, ih]

/-- An object of plain values under any names is plain. -/
theorem Plain.ofFields (fields : List (List Char × Json)) (h : ∀ field ∈ fields, Plain field.2) :
    Plain (.object (fields.map fun field => (ofText field.1, field.2))) := by
  refine .object ?_ ?_
  · intro member hm
    obtain ⟨field, _, rfl⟩ := List.mem_map.mp hm
    exact ⟨field.1, rfl⟩
  · intro member hm
    obtain ⟨field, hf, rfl⟩ := List.mem_map.mp hm
    exact h field hf

end Json

@[simp] theorem Key.ofJson?_toJson (k : Key) : Key.ofJson? k.toJson = some k := by
  rw [Key.ofJson?, Key.toJson, Json.natural?_ofNat]
  exact Key.ofNat?_eq_some_iff.mpr rfl

namespace Pair
variable (p : Pair) (pairs : List Pair)

/-- What the object of a pair holds. -/
def jsonFields : List (List Char × Json) :=
  [("press".toList, p.press.toJson), ("unpress".toList, p.unpress.toJson)]

theorem toJson_eq :
    p.toJson = .object (p.jsonFields.map fun field => (Json.ofText field.1, field.2)) := rfl

theorem plain_toJson : p.toJson.Plain := by
  rw [toJson_eq]
  apply Json.Plain.ofFields
  intro field hf
  obtain rfl | rfl : field = _ ∨ field = _ := by simpa [jsonFields] using hf
  · exact .natural _
  · exact .natural _

@[simp] theorem ofJson?_toJson : ofJson? p.toJson = some p := by
  have hpress : Json.required? "press" p.jsonFields = some p.press.toJson := rfl
  have hunpress : Json.required? "unpress" p.jsonFields = some p.unpress.toJson := rfl
  simp only [toJson_eq, ofJson?, Json.fields?_map_ofText, hpress, hunpress, ofParts?,
    Key.ofJson?_toJson]

theorem listOfJson?_map_toJson : listOfJson? (.array (pairs.map toJson)) = some pairs := by
  rw [listOfJson?]
  induction pairs with
  | nil => rfl
  | cons p pairs ih =>
    rw [List.map_cons, List.mapM_cons, ofJson?_toJson, ih]
    rfl

end Pair

namespace NamedTable
variable (name : Option String) (t : NamedTable)

def nameToJson : Option String → Json
  | some name => .string (Json.ofText name.toList)
  | none => .null

theorem plain_nameToJson : (nameToJson name).Plain := by
  cases name with
  | none => exact .null
  | some name => exact .text _

theorem nameOfJson?_nameToJson : nameOfJson? (nameToJson name) = some name := by
  cases name with
  | none => rfl
  | some name => simp [nameOfJson?, nameToJson, Json.string?]

/-- What the object of a table holds. -/
def jsonFields : List (List Char × Json) :=
  [("name".toList, nameToJson t.name), ("pairs".toList, .array (t.pairs.map Pair.toJson))]

theorem toJson_eq :
    t.toJson = .object (t.jsonFields.map fun field => (Json.ofText field.1, field.2)) := by
  obtain ⟨name, pairs⟩ := t
  cases name <;> rfl

theorem plain_toJson : t.toJson.Plain := by
  rw [toJson_eq]
  apply Json.Plain.ofFields
  intro field hf
  obtain rfl | rfl : field = _ ∨ field = _ := by simpa [jsonFields] using hf
  · exact plain_nameToJson t.name
  · refine .array ?_
    intro item hi
    obtain ⟨p, _, rfl⟩ := List.mem_map.mp hi
    exact p.plain_toJson

theorem ofJson?_toJson : ofJson? t.toJson = some t := by
  have hname : Json.optional? "name" t.jsonFields = some (some (nameToJson t.name)) := rfl
  have hpairs : Json.required? "pairs" t.jsonFields = some (.array (t.pairs.map Pair.toJson)) := rfl
  simp only [toJson_eq, ofJson?, Json.fields?_map_ofText, hname, hpairs, Option.getD_some, ofParts?,
    nameOfJson?_nameToJson, Pair.listOfJson?_map_toJson]

/-- Whatever the name and the pairs of a table are, its JSON text stands for this table. -/
theorem ofJsonText?_jsonText : ofJsonText? t.jsonText = some t := by
  rw [ofJsonText?, jsonText, Json.parse?_render t.plain_toJson, Option.bind_some, ofJson?_toJson]

end NamedTable

end OpposingKeys
