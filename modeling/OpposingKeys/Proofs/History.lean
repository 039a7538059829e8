import Mathlib.Data.List.Induction
import OpposingKeys.Session

/-!
# The history of a run

The inputs of a run say which keys are physically down and in which order they were pressed,
whatever the engine made of them. A key is down if the latest of its events is a press. Presses are
compared by the number of inputs before them. Conditions on a run are said input by input:
`Throughout P inputs` is `P past input` for each input and the inputs before it, and `Always P` asks
`P` of each state on the way.
-/

namespace OpposingKeys

set_option autoImplicit false

section Conditions
variable {α : Type} {P : List α → α → Prop} {past : List α} {input : α}

/-- `P` holds of each input together with the inputs before it. -/
def Throughout (P : List α → α → Prop) (inputs : List α) : Prop :=
  ∀ n (h : n < inputs.length), P (inputs.take n) inputs[n]

instance {inputs : List α} [∀ past input, Decidable (P past input)] :
    Decidable (Throughout P inputs) :=
  inferInstanceAs (Decidable (∀ n (h : n < inputs.length), P (inputs.take n) inputs[n]))

theorem throughout_append_singleton :
    Throughout P (past ++ [input]) ↔ Throughout P past ∧ P past input := by
  constructor
  · intro h
    refine ⟨fun n hn => ?_, ?_⟩
    · have hearlier := h n (by simp; omega)
      rwa [List.take_append_of_le_length (Nat.le_of_lt hn), List.getElem_append_left hn]
        at hearlier
    · simpa using h past.length (by simp)
  · rintro ⟨hpast, hlast⟩ n hn
    by_cases hlt : n < past.length
    · rw [List.take_append_of_le_length (Nat.le_of_lt hlt), List.getElem_append_left hlt]
      exact hpast n hlt
    · obtain rfl : n = past.length := by simp at hn; omega
      simpa using hlast

end Conditions

variable {σ : Type}

namespace Input

/-- The edge of an input that is an event of `k`. -/
def edgeOf? (k : Key) : Input σ → Option Edge
  | .key a event => if a = k then some event.edge else none
  | _ => none

/-- The key that an input presses. -/
def pressed? : Input σ → Option Key
  | .key k ⟨.down, _⟩ => some k
  | _ => none

@[simp] theorem edgeOf?_key_self (k : Key) (event : Transition) :
    (Input.key k event : Input σ).edgeOf? k = some event.edge := if_pos rfl

theorem edgeOf?_key_of_ne {k a : Key} (event : Transition) (h : a ≠ k) :
    (Input.key k event : Input σ).edgeOf? a = none := if_neg (Ne.symm h)

theorem pressed?_key {k : Key} {event : Transition} (hdown : event.edge = .down) :
    (Input.key k event : Input σ).pressed? = some k := by
  obtain ⟨edge, place⟩ := event
  obtain rfl : edge = .down := hdown
  rfl

end Input

/-- The edge of the latest event of `k`. -/
def latestEdge? (inputs : List (Input σ)) (k : Key) : Option Edge :=
  inputs.reverse.findSome? (Input.edgeOf? k)

/-- `k` is physically down: the latest of its events is a press. -/
def IsDown (inputs : List (Input σ)) (k : Key) : Prop := latestEdge? inputs k = some .down

instance (inputs : List (Input σ)) (k : Key) : Decidable (IsDown inputs k) :=
  inferInstanceAs (Decidable (latestEdge? inputs k = some .down))

/-- How many inputs came before the latest press of `k`. -/
def latestPress? (inputs : List (Input σ)) (k : Key) : Option Nat :=
  inputs.zipIdx.reverse.findSome? fun entry =>
    if entry.1.edgeOf? k = some .down then some entry.2 else none

/-- The latest press of `a` came before the latest press of `b`. -/
def PressedBefore (inputs : List (Input σ)) (a b : Key) : Prop :=
  ∃ m n, latestPress? inputs a = some m ∧ latestPress? inputs b = some n ∧ m < n

section Down
variable {past : List (Input σ)} {input : Input σ} {k a : Key} {event : Transition}

theorem latestEdge?_append_singleton :
    latestEdge? (past ++ [input]) k = (input.edgeOf? k).or (latestEdge? past k) := by
  rw [latestEdge?, latestEdge?, List.reverse_append, List.findSome?_append,
    List.reverse_singleton, List.findSome?_singleton]

@[simp] theorem not_isDown_nil : ¬ IsDown ([] : List (Input σ)) k := by simp [IsDown, latestEdge?]

theorem IsDown.exists_pressed (h : IsDown past k) : ∃ input ∈ past, input.pressed? = some k := by
  obtain ⟨input, hmem, hedge⟩ := List.exists_of_findSome?_eq_some h
  refine ⟨input, List.mem_reverse.mp hmem, ?_⟩
  cases input with
  | key a event =>
    obtain ⟨rfl, hdown⟩ := (Option.ite_none_right_eq_some ..).mp hedge
    exact Input.pressed?_key (Option.some.inj hdown)
  | _ => cases hedge

theorem isDown_append_of_none (h : input.edgeOf? k = none) :
    IsDown (past ++ [input]) k ↔ IsDown past k := by
  rw [IsDown, latestEdge?_append_singleton, h, Option.none_or, IsDown]

theorem isDown_append_of_some {edge : Edge} (h : input.edgeOf? k = some edge) :
    IsDown (past ++ [input]) k ↔ edge = .down := by
  rw [IsDown, latestEdge?_append_singleton, h, Option.some_or, Option.some.injEq]

theorem isDown_key_self :
    IsDown (past ++ [.key k event]) k ↔ event.edge = .down :=
  isDown_append_of_some (Input.edgeOf?_key_self k event)

theorem isDown_key_of_ne (h : a ≠ k) :
    IsDown (past ++ [.key k event]) a ↔ IsDown past a :=
  isDown_append_of_none (Input.edgeOf?_key_of_ne event h)

theorem isDown_key_of_down (hdown : event.edge = .down) (ha : IsDown past a) :
    IsDown (past ++ [.key k event]) a := by
  by_cases hak : a = k
  · exact hak ▸ isDown_key_self.mpr hdown
  · exact (isDown_key_of_ne hak).mpr ha

end Down

section Order
variable {past : List (Input σ)} {input : Input σ} {a b c : Key} {m n : Nat}

theorem latestPress?_append_singleton :
    latestPress? (past ++ [input]) a =
      if input.edgeOf? a = some .down then some past.length else latestPress? past a := by
  simp only [latestPress?, List.zipIdx_append, List.zipIdx_singleton, List.reverse_append,
    List.reverse_singleton, List.singleton_append, List.findSome?_cons, Nat.zero_add]
  split
  · next hsome =>
    split at hsome
    · next h => rw [if_pos h, ← hsome]
    · cases hsome
  · next hnone =>
    split at hnone
    · cases hnone
    · next h => rw [if_neg h]

theorem latestPress?_lt (h : latestPress? past a = some n) : n < past.length := by
  induction past using List.reverseRecOn with
  | nil => cases h
  | append_singleton past input ih =>
    rw [latestPress?_append_singleton] at h
    rw [List.length_append, List.length_singleton]
    split at h
    · have := Option.some.inj h
      omega
    · have := ih h
      omega

theorem Input.eq_of_edgeOf? {edge edge' : Edge} (ha : input.edgeOf? a = some edge)
    (hb : input.edgeOf? b = some edge') : a = b := by
  cases input with
  | key k event =>
    simp only [Input.edgeOf?, Option.ite_none_right_eq_some] at ha hb
    exact ha.1.symm.trans hb.1
  | _ => cases ha

theorem latestPress?_injective (ha : latestPress? past a = some n)
    (hb : latestPress? past b = some n) : a = b := by
  induction past using List.reverseRecOn with
  | nil => cases ha
  | append_singleton past input ih =>
    rw [latestPress?_append_singleton] at ha hb
    split at ha <;> split at hb
    · next hea heb => exact Input.eq_of_edgeOf? hea heb
    · have := latestPress?_lt hb
      have := Option.some.inj ha
      omega
    · have := latestPress?_lt ha
      have := Option.some.inj hb
      omega
    · exact ih ha hb

theorem IsDown.latestPress? (h : IsDown past a) : ∃ n, latestPress? past a = some n := by
  induction past using List.reverseRecOn with
  | nil => exact absurd h not_isDown_nil
  | append_singleton past input ih =>
    rw [latestPress?_append_singleton]
    cases hedge : input.edgeOf? a with
    | none =>
      obtain ⟨n, hn⟩ := ih ((isDown_append_of_none hedge).mp h)
      exact ⟨n, by rw [if_neg (by simp), hn]⟩
    | some edge =>
      obtain rfl := (isDown_append_of_some hedge).mp h
      exact ⟨past.length, if_pos rfl⟩

theorem earlier_asymm {place : Key → Option Nat}
    (h : ∃ m n, place a = some m ∧ place b = some n ∧ m < n) :
    ¬ ∃ m n, place b = some m ∧ place a = some n ∧ m < n := by
  rintro ⟨n', m', hb, ha, hlt'⟩
  obtain ⟨m, n, ha', hb', hlt⟩ := h
  have := Option.some.inj (ha'.symm.trans ha)
  have := Option.some.inj (hb'.symm.trans hb)
  omega

theorem PressedBefore.asymm (h : PressedBefore past a b) : ¬ PressedBefore past b a :=
  earlier_asymm h

theorem PressedBefore.ne (h : PressedBefore past a b) : a ≠ b := by
  rintro rfl
  exact h.asymm h

/-- Of two keys that are down one was pressed before the other. -/
theorem pressedBefore_total (ha : IsDown past a) (hb : IsDown past b) (hne : a ≠ b) :
    PressedBefore past a b ∨ PressedBefore past b a := by
  obtain ⟨m, hm⟩ := ha.latestPress?
  obtain ⟨n, hn⟩ := hb.latestPress?
  rcases Nat.lt_trichotomy m n with h | rfl | h
  · exact Or.inl ⟨m, n, hm, hn, h⟩
  · exact absurd (latestPress?_injective hm hn) hne
  · exact Or.inr ⟨n, m, hn, hm, h⟩

/-- The way from a key to one pressed later ends. -/
theorem wellFounded_pressedBefore (past : List (Input σ)) :
    WellFounded fun b a => PressedBefore past a b := by
  refine Subrelation.wf ?_ (measure fun k => past.length - (latestPress? past k).getD 0).wf
  rintro b a ⟨m, n, hm, hn, hlt⟩
  have := latestPress?_lt hn
  change past.length - (latestPress? past b).getD 0 < past.length - (latestPress? past a).getD 0
  rw [hm, hn, Option.getD_some, Option.getD_some]
  omega

theorem pressedBefore_append_of_ne (ha : input.edgeOf? a ≠ some .down)
    (hb : input.edgeOf? b ≠ some .down) :
    PressedBefore (past ++ [input]) a b ↔ PressedBefore past a b := by
  rw [PressedBefore, latestPress?_append_singleton, latestPress?_append_singleton, if_neg ha,
    if_neg hb, PressedBefore]

theorem pressedBefore_append_of_none (ha : input.edgeOf? a = none) (hb : input.edgeOf? b = none) :
    PressedBefore (past ++ [input]) a b ↔ PressedBefore past a b :=
  pressedBefore_append_of_ne (by simp [ha]) (by simp [hb])

theorem pressedBefore_key_of_ne {k : Key} {event : Transition} (ha : a ≠ k) (hb : b ≠ k) :
    PressedBefore (past ++ [.key k event]) a b ↔ PressedBefore past a b :=
  pressedBefore_append_of_none (Input.edgeOf?_key_of_ne event ha)
    (Input.edgeOf?_key_of_ne event hb)

theorem pressedBefore_key_of_up {k : Key} {event : Transition} (hup : event.edge = .up) :
    PressedBefore (past ++ [.key k event]) a b ↔ PressedBefore past a b := by
  have hedge : ∀ c, (Input.key k event : Input σ).edgeOf? c ≠ some .down := by
    intro c
    simp [Input.edgeOf?, hup]
  exact pressedBefore_append_of_ne (hedge a) (hedge b)

theorem not_pressedBefore_of_pressed (ha : input.edgeOf? a = some .down) :
    ¬ PressedBefore (past ++ [input]) a b := by
  rintro ⟨m, n, hm, hn, hlt⟩
  rw [latestPress?_append_singleton, if_pos ha] at hm
  have := Option.some.inj hm
  have := latestPress?_lt hn
  rw [List.length_append, List.length_singleton] at this
  omega

theorem pressedBefore_of_pressed (ha : IsDown past a) (hane : input.edgeOf? a ≠ some .down)
    (hb : input.edgeOf? b = some .down) : PressedBefore (past ++ [input]) a b := by
  obtain ⟨m, hm⟩ := ha.latestPress?
  refine ⟨m, past.length, ?_, ?_, latestPress?_lt hm⟩
  · rw [latestPress?_append_singleton, if_neg hane, hm]
  · rw [latestPress?_append_singleton, if_pos hb]

end Order

section States
variable {τ : Type} [Table τ] [SettingsStore σ] {P : Session τ σ → Prop} {s : Session τ σ}
  {past : List (Input σ)} {input : Input σ}

/-- `P` holds of every state of a run, the first and the last included. -/
def Session.Always (P : Session τ σ → Prop) (s : Session τ σ) (inputs : List (Input σ)) : Prop :=
  ∀ n ≤ inputs.length, P (s.run (inputs.take n))

instance [DecidablePred P] {inputs : List (Input σ)} : Decidable (s.Always P inputs) :=
  decidable_of_iff (∀ n < inputs.length + 1, P (s.run (inputs.take n)))
    (forall_congr' fun _ => imp_congr_left Nat.lt_succ_iff)

theorem Session.always_append_singleton :
    s.Always P (past ++ [input]) ↔ s.Always P past ∧ P (s.run (past ++ [input])) := by
  constructor
  · intro h
    refine ⟨fun n hn => ?_, ?_⟩
    · have := h n (by simp; omega)
      rwa [List.take_append_of_le_length hn] at this
    · have := h (past ++ [input]).length (Nat.le_refl _)
      rwa [List.take_length] at this
  · rintro ⟨hpast, hlast⟩ n hn
    by_cases hle : n ≤ past.length
    · rw [List.take_append_of_le_length hle]
      exact hpast n hle
    · rw [List.take_of_length_le (by simp; omega)]
      exact hlast

theorem Session.Always.last {inputs : List (Input σ)} (h : s.Always P inputs) :
    P (s.run inputs) := by
  have := h inputs.length (Nat.le_refl _)
  rwa [List.take_length] at this

end States

end OpposingKeys
