import OpposingKeys.Host

/-!
# The last word on each key

What corrections make of the host's view is said key by key: the last of them that names a key decides
whether it is held, and a key that none of them names stays as it was. Whatever else is done to a view
comes down to corrections. A view is listed in one way only, so the last words on the keys fix the
listing as well.
-/

namespace OpposingKeys

set_option autoImplicit false

/-- The last of the corrections that names `k`. -/
def Correction.last? (k : Key) (corrections : List Correction) : Option Correction :=
  corrections.reverse.find? fun c => c.key = k

theorem Correction.last?_cons (k : Key) (c : Correction) (cs : List Correction) :
    last? k (c :: cs) = (last? k cs).or (if c.key = k then some c else none) := by
  rw [last?, List.reverse_cons, List.find?_append, List.find?_singleton, last?]
  simp only [decide_eq_true_eq]

/-- What may be done to a view. -/
inductive HostChange where
  | register (k : Key)
  | release (k : Key)
  | apply (corrections : List Correction)
  | deliver (k : Key) (edge : Edge) (action : Action)

/-- The corrections that a change comes down to. -/
def HostChange.written : HostChange → List Correction
  | register k => [.register k]
  | release k => [.release k]
  | apply corrections => corrections
  | deliver k .down .pass => [.register k]
  | deliver k .up .pass => [.release k]
  | deliver _ _ .block => []

namespace Host

def change (host : Host) : HostChange → Host
  | .register k => host.register k
  | .release k => host.release k
  | .apply corrections => host.apply corrections
  | .deliver k edge action => host.deliver k edge action

def changeAll (host : Host) (changes : List HostChange) : Host := changes.foldl change host

/-- The view leaves `k` held if the last word on it is that it be, or if there is no word on it and it
was held before. -/
def LeavesHeld (host : Host) (corrections : List Correction) (k : Key) : Prop :=
  Correction.last? k corrections = some (.register k) ∨
    Correction.last? k corrections = none ∧ k ∈ host

variable {host : Host} {k : Key} {c : Correction} {cs ds : List Correction}

theorem mem_correct : k ∈ host.correct c ↔ c = .register k ∨ c.key ≠ k ∧ k ∈ host := by
  cases c with
  | register a =>
    show k ∈ host.register a ↔ _
    rw [mem_register, Correction.register.injEq, eq_comm]
    constructor
    · rintro (rfl | hheld)
      · exact Or.inl rfl
      · by_cases ha : a = k
        · exact Or.inl ha
        · exact Or.inr ⟨ha, hheld⟩
    · exact Or.imp_right And.right
  | release a =>
    show k ∈ host.release a ↔ _
    rw [mem_release, and_comm]
    simp [Correction.key, eq_comm]

theorem mem_apply : k ∈ host.apply cs ↔ host.LeavesHeld cs k := by
  induction cs generalizing host with
  | nil => simp [LeavesHeld, Correction.last?]
  | cons c cs ih =>
    rw [apply_cons, ih, LeavesHeld, LeavesHeld, Correction.last?_cons, mem_correct]
    cases Correction.last? k cs with
    | some d => simp
    | none =>
      by_cases hkey : c.key = k
      · simp [hkey]
      · have hc : c ≠ .register k := fun h => hkey (congrArg Correction.key h)
        simp [hkey, hc]

theorem apply_eq_of_last (h : ∀ k, Correction.last? k cs = Correction.last? k ds) :
    host.apply cs = host.apply ds := by
  apply ext_mem
  intro k
  rw [mem_apply, mem_apply, LeavesHeld, LeavesHeld, h]

theorem change_eq (host : Host) (change : HostChange) : host.change change = host.apply change.written := by
  cases change with
  | deliver k edge action => cases edge <;> cases action <;> rfl
  | _ => rfl

theorem changeAll_eq (host : Host) (changes : List HostChange) :
    host.changeAll changes = host.apply (changes.flatMap HostChange.written) := by
  induction changes generalizing host with
  | nil => rfl
  | cons change changes ih =>
    rw [List.flatMap_cons, apply_append, ← change_eq]
    exact ih (host.change change)

/-- No other list lists the same view. -/
theorem eq_held_iff {keys : List Key} :
    keys = host.held ↔ keys.Pairwise (· < ·) ∧ ∀ k, k ∈ keys ↔ k ∈ host := by
  constructor
  · rintro rfl
    exact ⟨host.ascending, fun _ => Iff.rfl⟩
  · rintro ⟨hascending, hmem⟩
    exact eq_of_ascending hascending host.ascending hmem

theorem nodup_held (host : Host) : host.held.Nodup := by
  refine host.ascending.imp ?_
  rintro a _ hlt rfl
  exact Key.lt_irrefl a hlt

end Host

/-- Corrections leave held what the last words on the keys say, wherever the list of them is cut and
whatever else it holds. So does every sequence of changes; what it leaves is listed in ascending order
and without duplicates, and a blocked delivery has no part in it. -/
theorem last_writer_wins (host : Host) :
    (∀ cs k, k ∈ host.apply cs ↔ host.LeavesHeld cs k) ∧
    (∀ cs ds, host.apply (cs ++ ds) = (host.apply cs).apply ds) ∧
    (∀ cs ds, (∀ k, Correction.last? k cs = Correction.last? k ds) → host.apply cs = host.apply ds) ∧
    ∀ changes,
      (∀ keys, keys = (host.changeAll changes).held ↔
        keys.Pairwise (· < ·) ∧
          ∀ k, k ∈ keys ↔ host.LeavesHeld (changes.flatMap HostChange.written) k) ∧
      (host.changeAll changes).held.Nodup ∧
      ∀ k edge more,
        host.changeAll (changes ++ .deliver k edge .block :: more) = host.changeAll (changes ++ more) := by
  refine ⟨fun _ _ => Host.mem_apply, host.apply_append, fun _ _ => Host.apply_eq_of_last, ?_⟩
  intro changes
  refine ⟨?_, Host.nodup_held _, ?_⟩
  · intro keys
    rw [Host.eq_held_iff, Host.changeAll_eq]
    simp only [Host.mem_apply]
  · intro k edge more
    rw [Host.changeAll, Host.changeAll, List.foldl_append, List.foldl_append]
    rfl

/-- The left key is taken away before it is put down for good, and the up and down keys come in between. -/
theorem last_writer_wins_in_either_order :
    let left : Key := ⟨0x50⟩
    let up : Key := ⟨0x52⟩
    let down : Key := ⟨0x51⟩
    let host := Host.empty.register up
    let cs : List Correction := [.release left, .register down, .register left, .release up]
    let ds : List Correction := [.release up, .register down, .release down, .register left, .register down]
    (∀ k, Correction.last? k cs = Correction.last? k ds) ∧ host.apply cs = host.apply ds ∧
      (host.apply cs).held = [left, down] := by
  intro left up down host cs ds
  have hlast : ∀ k, Correction.last? k cs = Correction.last? k ds := by
    intro k
    by_cases hleft : left = k
    · subst hleft; decide
    by_cases hup : up = k
    · subst hup; decide
    by_cases hdown : down = k
    · subst hdown; decide
    simp [Correction.last?, cs, ds, Correction.key, hleft, hup, hdown]
  obtain ⟨_, _, hsame, _⟩ := last_writer_wins host
  exact ⟨hlast, hsame cs ds hlast, by decide⟩

end OpposingKeys
