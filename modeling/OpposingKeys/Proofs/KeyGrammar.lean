import Mathlib.Data.Nat.Digits.Defs
import Mathlib.Tactic.Ring
import OpposingKeys.Proofs.ShownKeys

/-!
# The writing of keys

A key is read from exactly those texts that write its code in hexadecimal or one of its names
(`SpellsCode`, `SpellsName`), with any blanks around. Neither the letter case nor the blanks matter, and
no text can be taken in two ways.
-/

namespace OpposingKeys

set_option autoImplicit false

namespace Text

/-- At least one digit of either letter case, the first of which counts most. -/
def WritesHex (cs : List Char) (n : Nat) : Prop :=
  ∃ ds : List Nat, ds ≠ [] ∧ (∀ d ∈ ds, d < 16) ∧ cs.map Char.toLower = ds.map Nat.digitChar ∧
    n = Nat.ofDigits 16 ds.reverse

section LetterCase
variable {c d : Char}

theorem toUpper_toLower (c : Char) : c.toLower.toUpper = c.toUpper := by
  obtain hsame | ⟨n, hlow, hhigh, rfl⟩ := toLower_cases c
  · rw [hsame]
  · have hupper : ∀ n, n < 91 → 65 ≤ n → (Char.ofNat n).toLower.toUpper = (Char.ofNat n).toUpper := by
      decide
    exact hupper n hhigh hlow

/-- Only the small letters from a to z have another upper case. -/
theorem toUpper_cases (c : Char) : c.toUpper = c ∨ ∃ n, 97 ≤ n ∧ n < 123 ∧ c = Char.ofNat n := by
  by_cases hc : 'a'.val ≤ c.val ∧ c.val ≤ 'z'.val
  · have hlow : 97 ≤ c.toNat := UInt32.le_iff_toNat_le.mp hc.1
    have hhigh : c.toNat ≤ 122 := UInt32.le_iff_toNat_le.mp hc.2
    exact Or.inr ⟨c.toNat, hlow, by omega, (Char.ofNat_toNat c).symm⟩
  · exact Or.inl (dif_neg hc)

theorem isBlank_toLower (c : Char) : isBlank c.toLower = isBlank c := by
  obtain hsame | ⟨n, hlow, hhigh, rfl⟩ := toLower_cases c
  · rw [hsame]
  · have hupper : ∀ n, n < 91 → 65 ≤ n → isBlank (Char.ofNat n).toLower = isBlank (Char.ofNat n) := by
      decide
    exact hupper n hhigh hlow

theorem isPlain_toUpper (c : Char) : Key.isPlain c.toUpper = Key.isPlain c := by
  obtain hsame | ⟨n, hlow, hhigh, rfl⟩ := toUpper_cases c
  · rw [hsame]
  · have hsmall : ∀ n, n < 123 → 97 ≤ n →
        Key.isPlain (Char.ofNat n).toUpper = Key.isPlain (Char.ofNat n) := by decide
    exact hsmall n hhigh hlow

theorem isPlain_toLower (c : Char) : Key.isPlain c.toLower = Key.isPlain c := by
  obtain hsame | ⟨n, hlow, hhigh, rfl⟩ := toLower_cases c
  · rw [hsame]
  · have hupper : ∀ n, n < 91 → 65 ≤ n →
        Key.isPlain (Char.ofNat n).toLower = Key.isPlain (Char.ofNat n) := by decide
    exact hupper n hhigh hlow

theorem eq_or_eq_toUpper_of_toLower (h : c.toLower = d) : c = d ∨ c = d.toUpper := by
  obtain hsame | ⟨n, hlow, hhigh, rfl⟩ := toLower_cases c
  · exact Or.inl (hsame.symm.trans h)
  · have hupper : ∀ n, n < 91 → 65 ≤ n → Char.ofNat n = (Char.ofNat n).toLower.toUpper := by decide
    exact Or.inr (h ▸ hupper n hhigh hlow)

theorem map_toUpper_of_map_toLower {cs cs' : List Char}
    (h : cs.map Char.toLower = cs'.map Char.toLower) : cs.map Char.toUpper = cs'.map Char.toUpper := by
  have hboth (cs : List Char) : cs.map Char.toUpper = (cs.map Char.toLower).map Char.toUpper := by
    rw [List.map_map]
    exact List.map_congr_left fun c _ => (toUpper_toLower c).symm
  rw [hboth, h, ← hboth]

theorem blank_of_map_toLower {cs cs' : List Char} (h : cs.map Char.toLower = cs'.map Char.toLower)
    (hblank : Blank cs) : Blank cs' := by
  intro c hc
  have hlower : c.toLower ∈ cs.map Char.toLower := h ▸ List.mem_map_of_mem hc
  obtain ⟨d, hd, hsame⟩ := List.mem_map.mp hlower
  rw [← isBlank_toLower, ← hsame, isBlank_toLower]
  exact hblank d hd

end LetterCase

section Digits
variable {c : Char} {cs : List Char} {d n value : Nat}

theorem hexValue?_digitChar (h : d < 16) : hexValue? (Nat.digitChar d) = some d := by
  revert d
  decide

theorem toNat_le_of_hexValue? (h : hexValue? c = some d) : c.toNat ≤ 102 := by
  apply Nat.le_of_not_lt
  intro hbig
  have hout (a b : Char) (hb : b.toNat ≤ 102) : ¬ (a ≤ c ∧ c ≤ b) := by
    rintro ⟨_, hcb⟩
    have : c.toNat ≤ b.toNat := UInt32.le_iff_toNat_le.mp hcb
    omega
  rw [hexValue?, if_neg (hout '0' '9' (by decide)), if_neg (hout 'A' 'F' (by decide)),
    if_neg (hout 'a' 'f' (by decide))] at h
  cases h

theorem hexValue?_eq_some_iff : hexValue? c = some d ↔ d < 16 ∧ c.toLower = Nat.digitChar d := by
  constructor
  · intro h
    have hdigits : ∀ n, n < 103 → ∀ d ∈ hexValue? (Char.ofNat n),
        (Char.ofNat n).toLower = Nat.digitChar d := by decide
    have hc := hdigits c.toNat (Nat.lt_succ_of_le (toNat_le_of_hexValue? h)) d
    rw [Char.ofNat_toNat] at hc
    exact ⟨hexValue?_lt h, hc h⟩
  · rintro ⟨hd, hc⟩
    rw [← hexValue?_toLower, hc, hexValue?_digitChar hd]

theorem hexNumberFrom?_eq_some_iff :
    hexNumberFrom? value cs = some n ↔
      ∃ ds : List Nat, (∀ d ∈ ds, d < 16) ∧ cs.map Char.toLower = ds.map Nat.digitChar ∧
        n = value * 16 ^ ds.length + Nat.ofDigits 16 ds.reverse := by
  -- the digit that is read first counts `16 ^ ds.length`
  have hvalue (d : Nat) (ds : List Nat) (value : Nat) :
      value * 16 ^ (d :: ds).length + Nat.ofDigits 16 (d :: ds).reverse =
        (16 * value + d) * 16 ^ ds.length + Nat.ofDigits 16 ds.reverse := by
    rw [Nat.ofDigits_reverse_cons, List.length_cons]
    ring
  induction cs generalizing value with
  | nil =>
    constructor
    · rintro ⟨⟩
      exact ⟨[], by simp, rfl, by simp⟩
    · rintro ⟨ds, -, hcs, rfl⟩
      obtain rfl := List.map_eq_nil_iff.mp hcs.symm
      simp [hexNumberFrom?]
  | cons c cs ih =>
    rw [hexNumberFrom?, Option.bind_eq_some_iff]
    constructor
    · rintro ⟨d, hd, hrest⟩
      obtain ⟨hlt, hc⟩ := hexValue?_eq_some_iff.mp hd
      obtain ⟨ds, hds, hcs, rfl⟩ := ih.mp hrest
      refine ⟨d :: ds, List.forall_mem_cons.mpr ⟨hlt, hds⟩, ?_, (hvalue d ds value).symm⟩
      rw [List.map_cons, List.map_cons, hc, hcs]
    · rintro ⟨_ | ⟨d, ds⟩, hds, hcs, rfl⟩
      · exact absurd hcs (List.cons_ne_nil _ _)
      · obtain ⟨hc, hcs⟩ := List.cons.inj hcs
        obtain ⟨hlt, hds⟩ := List.forall_mem_cons.mp hds
        exact ⟨d, hexValue?_eq_some_iff.mpr ⟨hlt, hc⟩, ih.mpr ⟨ds, hds, hcs, hvalue d ds value⟩⟩

theorem hexNumber?_eq_some_iff : hexNumber? cs = some n ↔ WritesHex cs n := by
  cases cs with
  | nil =>
    constructor
    · intro h
      cases h
    · rintro ⟨ds, hne, -, hcs, -⟩
      exact absurd (List.map_eq_nil_iff.mp hcs.symm) hne
  | cons c cs =>
    rw [hexNumber?, List.isEmpty_cons, if_neg Bool.false_ne_true, hexNumberFrom?_eq_some_iff]
    constructor
    · rintro ⟨ds, hds, hcs, rfl⟩
      refine ⟨ds, ?_, hds, hcs, by rw [Nat.zero_mul, Nat.zero_add]⟩
      rintro rfl
      exact absurd hcs (List.cons_ne_nil _ _)
    · rintro ⟨ds, -, hds, hcs, rfl⟩
      exact ⟨ds, hds, hcs, by rw [Nat.zero_mul, Nat.zero_add]⟩

theorem isPlain_of_mem_digits (h : WritesHex cs n) (hc : c ∈ cs) : Key.isPlain c = true := by
  obtain ⟨ds, -, hds, hcs, -⟩ := h
  have hlower : c.toLower ∈ ds.map Nat.digitChar := hcs ▸ List.mem_map_of_mem hc
  obtain ⟨d, hd, hdigit⟩ := List.mem_map.mp hlower
  have hplain : ∀ d, d < 16 → Key.isPlain (Nat.digitChar d) = true := by decide
  rw [← isPlain_toLower, ← hdigit]
  exact hplain d (hds d hd)

end Digits

end Text

namespace Key

/-- The code of the key, in hexadecimal. -/
def SpellsCode (body : List Char) (k : Key) : Prop :=
  ∃ x digits, (x = 'x' ∨ x = 'X') ∧ Text.WritesHex digits k.code.toNat ∧
    (body = '0' :: x :: digits ∨ body = '0' :: x :: '+' :: digits)

/-- One of the names of the key, with or without `KC_`. -/
def SpellsName (body : List Char) (k : Key) : Prop :=
  ∃ name, (name, k) ∈ names ++ aliases ∧
    (body.map Char.toUpper = ("KC_" ++ name).toList ∨ body.map Char.toUpper = name.toList)

def Spells (body : List Char) (k : Key) : Prop := SpellsCode body k ∨ SpellsName body k

section Names
variable {body : List Char} {entry : String × Key} {k : Key}

/-- A name without `KC_` does not look like one with it, nor like a code. -/
theorem start_of_mem : ∀ entry ∈ names ++ aliases,
    Text.after? ['K', 'C', '_'] entry.1.toList = none ∧ ¬ ['0', 'X'] <+: entry.1.toList := by
  decide +kernel

theorem named?_eq_some_iff : named? body = some k ↔ SpellsName body k := by
  rw [named?]
  constructor
  · intro h
    obtain ⟨front, back, hentries, -⟩ := List.lookup_eq_some_iff.mp h
    have hmem : (String.ofList ((Text.after? ['K', 'C', '_'] (body.map Char.toUpper)).getD
        (body.map Char.toUpper)), k) ∈ names ++ aliases := by
      rw [hentries]
      exact List.mem_append_right front List.mem_cons_self
    refine ⟨_, hmem, ?_⟩
    cases hstart : Text.after? ['K', 'C', '_'] (body.map Char.toUpper) with
    | none => exact Or.inr (String.toList_ofList).symm
    | some rest =>
      rw [Option.getD_some, toList_canonical, String.toList_ofList]
      exact Or.inl (Text.after?_eq_some_iff.mp hstart)
  · rintro ⟨name, hmem, hbody | hbody⟩
    · have hstart : Text.after? ['K', 'C', '_'] ("KC_" ++ name).toList = some name.toList :=
        Text.after?_eq_some_iff.mpr (toList_canonical name)
      rw [hbody, hstart, Option.getD_some, String.ofList_toList]
      exact lookup_of_mem _ hmem
    · rw [hbody, (start_of_mem _ hmem).1, Option.getD_none, String.ofList_toList]
      exact lookup_of_mem _ hmem

theorem SpellsName.not_code (h : SpellsName body k) : ¬ ['0', 'X'] <+: body.map Char.toUpper := by
  obtain ⟨name, hmem, hbody | hbody⟩ := h
  · rw [hbody, toList_canonical, List.cons_prefix_cons]
    exact fun hstart => absurd hstart.1 (by decide)
  · rw [hbody]
    exact (start_of_mem _ hmem).2

theorem SpellsCode.start (h : SpellsCode body k) : ['0', 'X'] <+: body.map Char.toUpper := by
  obtain ⟨x, digits, rfl | rfl, -, rfl | rfl⟩ := h <;> exact ⟨_, rfl⟩

end Names

section Codes
variable {cs body : List Char} {k : Key}

theorem ofHex?_eq_some_iff :
    ofHex? cs = some k ↔
      ∃ digits, Text.WritesHex digits k.code.toNat ∧ (cs = digits ∨ cs = '+' :: digits) := by
  rw [ofHex?, Option.bind_eq_some_iff]
  constructor
  · rintro ⟨n, hn, hk⟩
    obtain rfl := ofNat?_eq_some_iff.mp hk
    refine ⟨dropPlus cs, Text.hexNumber?_eq_some_iff.mp hn, ?_⟩
    unfold dropPlus
    split
    · exact Or.inr rfl
    · exact Or.inl rfl
  · rintro ⟨digits, hdigits, hcs⟩
    have hnumber := Text.hexNumber?_eq_some_iff.mpr hdigits
    refine ⟨_, ?_, ofNat?_eq_some_iff.mpr rfl⟩
    obtain rfl | rfl := hcs
    · rw [dropPlus]
      · exact hnumber
      · rintro rest rfl
        have hplus : Text.hexNumber? ('+' :: rest) = none := rfl
        rw [hplus] at hnumber
        cases hnumber
    · exact hnumber

theorem denoted?_eq_some_iff : denoted? body = some k ↔ Spells body k := by
  have hcode (x : Char) (hx : x = 'x' ∨ x = 'X') (rest : List Char) :
      ofHex? rest = some k ↔ Spells ('0' :: x :: rest) k := by
    rw [ofHex?_eq_some_iff]
    constructor
    · rintro ⟨digits, hdigits, rfl | rfl⟩
      · exact Or.inl ⟨x, rest, hx, hdigits, Or.inl rfl⟩
      · exact Or.inl ⟨x, digits, hx, hdigits, Or.inr rfl⟩
    · rintro (⟨y, digits, -, hdigits, hbody | hbody⟩ | hname)
      · exact ⟨digits, hdigits, Or.inl (by grind)⟩
      · exact ⟨digits, hdigits, Or.inr (by grind)⟩
      · refine absurd ?_ hname.not_code
        obtain rfl | rfl := hx <;> exact ⟨_, rfl⟩
  unfold denoted?
  split
  · exact hcode 'x' (Or.inl rfl) _
  · exact hcode 'X' (Or.inr rfl) _
  · next hlower hcapital =>
    rw [named?_eq_some_iff]
    constructor
    · exact Or.inr
    · rintro (⟨x, digits, rfl | rfl, -, rfl | rfl⟩ | hname)
      · exact absurd rfl (hlower _)
      · exact absurd rfl (hlower _)
      · exact absurd rfl (hcapital _)
      · exact absurd rfl (hcapital _)
      · exact hname

end Codes

section LetterCase
variable {body body' : List Char} {k : Key}

theorem SpellsName.of_map_toLower (h : SpellsName body k)
    (hsame : body.map Char.toLower = body'.map Char.toLower) : SpellsName body' k := by
  obtain ⟨name, hmem, hbody⟩ := h
  rw [Text.map_toUpper_of_map_toLower hsame] at hbody
  exact ⟨name, hmem, hbody⟩

theorem SpellsCode.of_map_toLower (h : SpellsCode body k)
    (hsame : body.map Char.toLower = body'.map Char.toLower) : SpellsCode body' k := by
  obtain ⟨x, digits, hx, ⟨ds, hne, hlt, hdigits, hvalue⟩, hbody⟩ := h
  have hx : x.toLower = 'x' := by obtain rfl | rfl := hx <;> rfl
  obtain rfl | rfl := hbody
  · simp only [List.map_cons, hx] at hsame
    obtain ⟨zero, _, rfl, hzero, hrest⟩ := List.map_eq_cons_iff.mp hsame.symm
    obtain ⟨y, digits', rfl, hy, hdigits'⟩ := List.map_eq_cons_iff.mp hrest
    obtain rfl : zero = '0' := (Text.eq_or_eq_toUpper_of_toLower hzero).elim id id
    exact ⟨y, digits', Text.eq_or_eq_toUpper_of_toLower hy,
      ⟨ds, hne, hlt, hdigits'.trans hdigits, hvalue⟩, Or.inl rfl⟩
  · simp only [List.map_cons, hx] at hsame
    obtain ⟨zero, _, rfl, hzero, hrest⟩ := List.map_eq_cons_iff.mp hsame.symm
    obtain ⟨y, _, rfl, hy, hrest⟩ := List.map_eq_cons_iff.mp hrest
    obtain ⟨plus, digits', rfl, hplus, hdigits'⟩ := List.map_eq_cons_iff.mp hrest
    obtain rfl : zero = '0' := (Text.eq_or_eq_toUpper_of_toLower hzero).elim id id
    obtain rfl : plus = '+' := (Text.eq_or_eq_toUpper_of_toLower hplus).elim id id
    exact ⟨y, digits', Text.eq_or_eq_toUpper_of_toLower hy,
      ⟨ds, hne, hlt, hdigits'.trans hdigits, hvalue⟩, Or.inr rfl⟩

theorem Spells.of_map_toLower (h : Spells body k)
    (hsame : body.map Char.toLower = body'.map Char.toLower) : Spells body' k :=
  h.imp (·.of_map_toLower hsame) (·.of_map_toLower hsame)

end LetterCase

/-- The text is `body` with blanks around, and `body` writes the key. -/
def Reads (cs body : List Char) (k : Key) : Prop :=
  ∃ front back, cs = front ++ body ++ back ∧ Text.Blank front ∧ Text.Blank back ∧ Spells body k

section Blanks
variable {cs cs' body : List Char} {k : Key} {c : Char}

theorem SpellsCode.isPlain (h : SpellsCode body k) (hc : c ∈ body) : isPlain c = true := by
  obtain ⟨x, digits, hx, hdigits, rfl | rfl⟩ := h
  · simp only [List.mem_cons] at hc
    obtain rfl | rfl | hc := hc
    · rfl
    · obtain rfl | rfl := hx <;> rfl
    · exact Text.isPlain_of_mem_digits hdigits hc
  · simp only [List.mem_cons] at hc
    obtain rfl | rfl | rfl | hc := hc
    · rfl
    · obtain rfl | rfl := hx <;> rfl
    · rfl
    · exact Text.isPlain_of_mem_digits hdigits hc

theorem SpellsName.isPlain (h : SpellsName body k) (hc : c ∈ body) : isPlain c = true := by
  obtain ⟨name, hmem, hbody⟩ := h
  have hupper : c.toUpper ∈ body.map Char.toUpper := List.mem_map_of_mem hc
  rw [← Text.isPlain_toUpper]
  obtain hbody | hbody := hbody
  · rw [hbody] at hupper
    exact isPlain_of_mem_canonical hmem hupper
  · rw [hbody] at hupper
    exact (plain_of_mem_name hmem hupper).1

theorem Spells.isPlain (h : Spells body k) (hc : c ∈ body) : isPlain c = true :=
  h.elim (·.isPlain hc) (·.isPlain hc)

theorem Reads.trim (h : Reads cs body k) : Text.trim cs = body := by
  obtain ⟨front, back, rfl, hfront, hback, hbody⟩ := h
  rw [Text.trim_append_right hback, Text.trim_append_left hfront]
  exact Text.trim_of_no_blank fun c hc => isBlank_of_isPlain (hbody.isPlain hc)

theorem parse?_eq_some_iff : parse? cs = some k ↔ ∃ body, Reads cs body k := by
  rw [parse?, denoted?_eq_some_iff]
  constructor
  · intro h
    obtain ⟨front, back, hfront, hback, hcs⟩ := Text.exists_eq_append_trim cs
    exact ⟨Text.trim cs, front, back, hcs, hfront, hback, h⟩
  · rintro ⟨body, h⟩
    rw [h.trim]
    obtain ⟨_, _, _, _, _, hbody⟩ := h
    exact hbody

/-- A character that cannot stand in a key does not stand in what is read as one. -/
theorem not_mem_of_parse? (h : parse? cs = some k) (hblank : Text.isBlank c = false)
    (hplain : isPlain c = false) : c ∉ cs := by
  intro hc
  obtain ⟨body, front, back, rfl, hfront, hback, hbody⟩ := parse?_eq_some_iff.mp h
  obtain hc | hc := List.mem_append.mp hc
  · obtain hc | hc := List.mem_append.mp hc
    · exact Bool.noConfusion ((hfront c hc).symm.trans hblank)
    · exact Bool.noConfusion ((hbody.isPlain hc).symm.trans hplain)
  · exact Bool.noConfusion ((hback c hc).symm.trans hblank)

theorem parse?_of_map_toLower (hsame : cs.map Char.toLower = cs'.map Char.toLower)
    (h : parse? cs = some k) : parse? cs' = some k := by
  obtain ⟨body, front, back, rfl, hfront, hback, hbody⟩ := parse?_eq_some_iff.mp h
  rw [List.map_append, List.map_append] at hsame
  obtain ⟨_, back', rfl, hstart, hback'⟩ := List.map_eq_append_iff.mp hsame.symm
  obtain ⟨front', body', rfl, hfront', hbody'⟩ := List.map_eq_append_iff.mp hstart
  exact parse?_eq_some_iff.mpr ⟨body', front', back', rfl,
    Text.blank_of_map_toLower hfront'.symm hfront, Text.blank_of_map_toLower hback'.symm hback,
    hbody.of_map_toLower hbody'.symm⟩

end Blanks

/-- What is read from a text and what is not. A text has one reading at most, as a code or as a name but
not as both, and neither the letter case nor blanks at the ends change what is read. -/
theorem parse?_exactly (cs : List Char) :
    (∀ k, parse? cs = some k ↔ ∃ body, Reads cs body k) ∧
      (∀ body k body' k', Reads cs body k → Reads cs body' k' → body = body' ∧ k = k') ∧
      (∀ body k k', ¬ (SpellsCode body k ∧ SpellsName body k')) ∧
      (∀ cs', cs.map Char.toLower = cs'.map Char.toLower → parse? cs' = parse? cs) ∧
      ∀ front back, Text.Blank front → Text.Blank back → parse? (front ++ cs ++ back) = parse? cs := by
  refine ⟨fun _ => parse?_eq_some_iff, ?_, ?_, ?_, ?_⟩
  · intro body k body' k' h h'
    have hk : parse? cs = some k := parse?_eq_some_iff.mpr ⟨body, h⟩
    have hk' : parse? cs = some k' := parse?_eq_some_iff.mpr ⟨body', h'⟩
    exact ⟨h.trim.symm.trans h'.trim, Option.some.inj (hk.symm.trans hk')⟩
  · rintro body k k' ⟨hcode, hname⟩
    exact hname.not_code hcode.start
  · intro cs' hsame
    apply Option.ext
    intro k
    exact ⟨parse?_of_map_toLower hsame.symm, parse?_of_map_toLower hsame⟩
  · intro front back hfront hback
    rw [parse?, Text.trim_append_right hback, Text.trim_append_left hfront, parse?]

/-- A name in mixed letters between an em space and a no-break space, and a code with a sign and leading
zeros. -/
theorem parse?_exactly_between_blanks :
    let name := ['\u2003'] ++ "kc_Rght".toList ++ ['\u00A0']
    let code := ['\u2003'] ++ "0X+0004f".toList ++ ['\u00A0']
    parse? name = parse? "KC_RGHT".toList ∧ parse? name = some ⟨0x4F⟩ ∧ parse? code = some ⟨0x4F⟩ ∧
      (∃ body, Reads name body ⟨0x4F⟩) ∧ ∃ body, Reads code body ⟨0x4F⟩ := by
  intro name code
  have hblanks (cs : List Char) : parse? (['\u2003'] ++ cs ++ ['\u00A0']) = parse? cs :=
    (parse?_exactly cs).2.2.2.2 _ _ (Text.blank_singleton rfl) (Text.blank_singleton rfl)
  have hcase : "KC_RGHT".toList.map Char.toLower = "kc_Rght".toList.map Char.toLower := by decide +kernel
  have hupper : parse? name = parse? "KC_RGHT".toList :=
    (hblanks _).trans ((parse?_exactly _).2.2.2.1 _ hcase)
  have hname : parse? name = some ⟨0x4F⟩ := hupper.trans (by decide +kernel)
  have hcode : parse? code = some ⟨0x4F⟩ := (hblanks _).trans (by decide +kernel)
  exact ⟨hupper, hname, hcode, ((parse?_exactly name).1 _).mp hname, ((parse?_exactly code).1 _).mp hcode⟩

end Key

end OpposingKeys
