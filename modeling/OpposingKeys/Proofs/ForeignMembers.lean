import OpposingKeys.Proofs.JsonGrammar
import OpposingKeys.Proofs.SettingsSave

/-!
# Settings among other members

A settings file may hold more than the two flags, or less. Whatever else the object of the file holds is
passed over, at any depth and in any order: the flags are what the members of their names say.
-/

namespace OpposingKeys

set_option autoImplicit false

namespace Json
variable {name : String} {members : List (List Element × Json)} {b : Bool}

/-- The member has this name, in whatever way it is escaped. -/
def Named (name : String) (member : List Element × Json) : Prop :=
  text? member.1 = some name.toList

instance (name : String) (member : List Element × Json) : Decidable (Named name member) :=
  inferInstanceAs (Decidable (text? member.1 = some name.toList))

/-- What an object says of a switch: the value of its one member of this name, or off without one. -/
inductive Switch (name : String) : List (List Element × Json) → Bool → Prop where
  | absent {members : List (List Element × Json)} (h : ∀ member ∈ members, ¬ Named name member) :
      Switch name members false
  | present (before : List (List Element × Json)) {member : List Element × Json} {b : Bool}
      (after : List (List Element × Json)) (hbefore : ∀ member ∈ before, ¬ Named name member)
      (hname : Named name member) (hvalue : member.2 = .bool b)
      (hafter : ∀ member ∈ after, ¬ Named name member) :
      Switch name (before ++ member :: after) b

/-- The member with the text of its name. -/
def field (member : List Element × Json) : List Char × Json :=
  ((text? member.1).getD [], member.2)

theorem fields?_eq_map (h : ∀ member ∈ members, (text? member.1).isSome = true) :
    fields? members = some (members.map field) := by
  induction members with
  | nil => rfl
  | cons member members ih =>
    obtain ⟨hmember, hmembers⟩ := List.forall_mem_cons.mp h
    obtain ⟨text, htext⟩ := Option.isSome_iff_exists.mp hmember
    simp [fields?, htext, ih hmembers, field]

theorem named_of_field {member : List Element × Json} (htext : (text? member.1).isSome = true)
    (h : (field member).1 = name.toList) : Named name member := by
  obtain ⟨text, htext⟩ := Option.isSome_iff_exists.mp htext
  rw [field, htext] at h
  exact htext.trans (congrArg some h)

theorem filter_unnamed (htexts : ∀ member ∈ members, (text? member.1).isSome = true)
    (h : ∀ member ∈ members, ¬ Named name member) :
    (members.map field).filter (fun field => field.1 = name.toList) = [] := by
  refine List.filter_eq_nil_iff.mpr ?_
  intro entry hentry
  obtain ⟨member, hm, rfl⟩ := List.mem_map.mp hentry
  rw [decide_eq_true_eq]
  exact fun hname => h member hm (named_of_field (htexts member hm) hname)

/-- The reader finds what the object says of the switch. -/
theorem Switch.exists_optional? (h : Switch name members b)
    (htexts : ∀ member ∈ members, (text? member.1).isSome = true) :
    ∃ value, optional? name (members.map field) = some value ∧
      Flags.switchOfJson? value = some b := by
  cases h with
  | absent h => exact ⟨none, by rw [optional?, filter_unnamed htexts h], rfl⟩
  | @present before member b after hbefore hname hvalue hafter =>
    obtain ⟨htextsBefore, htextsMember⟩ := List.forall_mem_append.mp htexts
    obtain ⟨_, htextsAfter⟩ := List.forall_mem_cons.mp htextsMember
    have hfield : field member = (name.toList, .bool b) := by
      rw [field, hname, hvalue]
      rfl
    refine ⟨some (.bool b), ?_, rfl⟩
    rw [optional?, List.map_append, List.map_cons, List.filter_append,
      filter_unnamed htextsBefore hbefore, hfield, List.filter_cons_of_pos (by simp),
      filter_unnamed htextsAfter hafter]
    rfl

end Json

theorem Flags.ofJson?_object {members : List (List Json.Element × Json)} {cancellation recovery : Bool}
    (hnames : ∀ member ∈ members, (Json.text? member.1).isSome = true)
    (hcancellation : Json.Switch cancellationField members cancellation)
    (hrecovery : Json.Switch recoveryField members recovery) :
    ofJson? (.object members) = some ⟨cancellation, recovery⟩ := by
  obtain ⟨c, hc, hcbool⟩ := hcancellation.exists_optional? hnames
  obtain ⟨r, hr, hrbool⟩ := hrecovery.exists_optional? hnames
  simp only [ofJson?, Json.fields?_eq_map hnames, hc, hr, ofParts?, hcbool, hrbool]

/-- A settings file loads whatever else its object holds, as long as each flag is there at most once with
a truth value and the names of all members are text. A flag that is not there is off. -/
theorem other_members_do_not_matter (s : SettingsFile) {text : List Char}
    {members : List (List Json.Element × Json)} {cancellation recovery : Bool}
    (hfile : s.files.find s.path = .ok (.file (Encoding.Utf8.encode text)))
    (htext : Json.Writes text (.object members))
    (hnames : ∀ member ∈ members, (Json.text? member.1).isSome = true)
    (hcancellation : Json.Switch Flags.cancellationField members cancellation)
    (hrecovery : Json.Switch Flags.recoveryField members recovery) :
    SettingsStore.load s = { flags := .ok ⟨cancellation, recovery⟩, store := s } := by
  have hparse := Json.parse?_eq_some_iff.mpr htext
  have hflags := Flags.ofJson?_object hnames hcancellation hrecovery
  have hbytes : SettingsFile.flagsOfBytes (Encoding.Utf8.encode text) =
      .ok ⟨cancellation, recovery⟩ := by
    simp only [SettingsFile.flagsOfBytes, Encoding.Utf8.decode_encode, Encoding.strict?_map_some,
      Flags.ofJsonText?, hparse, Option.bind_some, hflags]
  have hload := SettingsFile.load_of_find hfile
  rw [hbytes] at hload
  exact hload

/-- The one flag of this file is escaped, and the name of the other stands only further inside. -/
theorem other_members_do_not_matter_when_nested :
    let text := ("\x7b \"notes\" : [1e999, \x7b\"recovery_enabled\":true\x7d,\"\\ud800\"],\r\n" ++
      "\t\"\\u0063ancellation_enabled\":true \x7d").toList
    let files : FileSystem := ⟨[(⟨.above 0, ["keys"]⟩, .file (Encoding.Utf8.encode text))]⟩
    SettingsStore.load (⟨⟨"keys"⟩, files⟩ : SettingsFile) =
      { flags := .ok ⟨true, false⟩, store := ⟨⟨"keys"⟩, files⟩ } := by
  intro text files
  have htext : Json.Writes text (.object [(Json.ofText "notes".toList,
      .array [.number "1e999".toList,
        .object [(Json.ofText Flags.recoveryField.toList, .bool true)],
        .string [.surrogate 0xD800]]),
      (Json.ofText Flags.cancellationField.toList, .bool true)]) := by
    apply Json.parse?_eq_some_iff.mp
    simp [text, Json.parse?, Json.readValue?, Json.readItems?, Json.readMembers?, Json.readName?,
      Json.readString?, Json.skipBlanks, Json.isBlank, Json.readPlain?, Json.readNumber?,
      Json.readUnsigned?, Json.readInteger?, Json.readDigits?, Json.readFraction?, Json.readExponent?,
      Text.after?, Text.hexNumber?, Text.hexNumberFrom?, Text.hexValue?, Json.Element.ofUnit,
      Encoding.isHigh, Encoding.isLow, Json.ofText, Flags.recoveryField, Flags.cancellationField,
      Char.isDigit]
  clear_value text
  have hfile : files.find ⟨"keys"⟩ = .ok (.file (Encoding.Utf8.encode text)) := rfl
  refine other_members_do_not_matter ⟨⟨"keys"⟩, files⟩ hfile htext ?_ ?_ ?_
  · decide
  · exact .present [_] [] (by decide) (by decide) rfl (by decide)
  · exact .absent (by decide)

end OpposingKeys
