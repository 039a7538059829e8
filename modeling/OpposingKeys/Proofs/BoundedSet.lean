import OpposingKeys.Proofs.SlotAccess

/-!
# Hold buffers as duplicate-free lists

Whatever is asked of a hold buffer and of the snapshot taken of it last, in whatever order, the replies are
those that a list of keys and a list of slots give (`Serves`). That relation says what each request does to
the lists without saying how it is found out. A list without duplicates leaves it one reply and one
outcome, and no request puts a key in twice.
-/

namespace OpposingKeys

set_option autoImplicit false

inductive HoldRequest where
  | insert (k : Key)
  | erase (k : Key)
  | contains (k : Key)
  | clear
  | snapshot
  | vacateBefore (k : Key) (limit : Nat)
  | get (index : Nat)

inductive HoldReply where
  | done
  | flag (b : Bool)
  | slot (k : Option Key)

/-- The keys held, and the slots of the snapshot taken last. -/
structure Ledger where
  keys : List Key
  slots : List (Option Key)

/-- How lists serve a request where no more than `capacity` keys may be held. -/
inductive Serves (capacity : Nat) : Ledger → HoldRequest → HoldReply → Ledger → Prop where
  | inserted {keys : List Key} {slots : List (Option Key)} {k : Key} :
      k ∉ keys → keys.length < capacity →
        Serves capacity ⟨keys, slots⟩ (.insert k) (.flag true) ⟨keys ++ [k], slots⟩
  | present {l : Ledger} {k : Key} : k ∈ l.keys → Serves capacity l (.insert k) (.flag false) l
  | full {l : Ledger} {k : Key} :
      capacity ≤ l.keys.length → Serves capacity l (.insert k) (.flag false) l
  | erased {before after : List Key} {slots : List (Option Key)} {k : Key} :
      k ∉ before → k ∉ after →
        Serves capacity ⟨before ++ k :: after, slots⟩ (.erase k) (.flag true) ⟨before ++ after, slots⟩
  | missed {l : Ledger} {k : Key} : k ∉ l.keys → Serves capacity l (.erase k) (.flag false) l
  | found {l : Ledger} {k : Key} : k ∈ l.keys → Serves capacity l (.contains k) (.flag true) l
  | absent {l : Ledger} {k : Key} : k ∉ l.keys → Serves capacity l (.contains k) (.flag false) l
  | cleared {keys : List Key} {slots : List (Option Key)} :
      Serves capacity ⟨keys, slots⟩ .clear .done ⟨[], slots⟩
  | copied {keys : List Key} {slots : List (Option Key)} :
      Serves capacity ⟨keys, slots⟩ .snapshot .done ⟨keys, keys.map some⟩
  | vacated {keys : List Key} {before after : List (Option Key)} {k : Key} {limit : Nat} :
      some k ∉ before → before.length < limit →
        Serves capacity ⟨keys, before ++ some k :: after⟩ (.vacateBefore k limit) (.flag true)
          ⟨keys, before ++ none :: after⟩
  | kept {l : Ledger} {k : Key} {limit : Nat} :
      some k ∉ l.slots.take limit → Serves capacity l (.vacateBefore k limit) (.flag false) l
  | got {l : Ledger} {index : Nat} {slot : Option Key} :
      l.slots[index]? = some slot → Serves capacity l (.get index) (.slot slot) l
  | beyond {l : Ledger} {index : Nat} :
      l.slots.length ≤ index → Serves capacity l (.get index) (.slot none) l

/-- How lists serve requests one after another. -/
inductive Served (capacity : Nat) : Ledger → List HoldRequest → List HoldReply → Ledger → Prop where
  | nil (l : Ledger) : Served capacity l [] [] l
  | cons {l mid next : Ledger} {request : HoldRequest} {requests : List HoldRequest} {reply : HoldReply}
      {replies : List HoldReply} :
      Serves capacity l request reply mid → Served capacity mid requests replies next →
        Served capacity l (request :: requests) (reply :: replies) next

variable {capacity : Nat}

theorem Serves.nodup {l next : Ledger} {request : HoldRequest} {reply : HoldReply}
    (h : Serves capacity l request reply next) (hnodup : l.keys.Nodup) : next.keys.Nodup := by
  cases h with
  | inserted hout _ =>
    refine List.nodup_append.mpr ⟨hnodup, List.pairwise_singleton _ _, ?_⟩
    rintro a ha b hb rfl
    exact hout (List.mem_singleton.mp hb ▸ ha)
  | erased _ _ => exact hnodup.sublist ((List.sublist_cons_self _ _).append_left _)
  | cleared => exact List.nodup_nil
  | _ => exact hnodup

/-- Without duplicates every request has an answer. -/
theorem exists_serves (capacity : Nat) {l : Ledger} (hnodup : l.keys.Nodup) (request : HoldRequest) :
    ∃ reply next, Serves capacity l request reply next := by
  obtain ⟨keys, slots⟩ := l
  cases request with
  | insert k =>
    by_cases hk : k ∈ keys
    · exact ⟨_, _, .present hk⟩
    · rcases Nat.lt_or_ge keys.length capacity with hroom | hfull
      · exact ⟨_, _, .inserted hk hroom⟩
      · exact ⟨_, _, .full hfull⟩
  | erase k =>
    by_cases hk : k ∈ keys
    · obtain ⟨before, after, rfl, hbefore⟩ := List.eq_append_cons_of_mem hk
      have hafter : k ∉ after := (List.nodup_cons.mp (List.nodup_append.mp hnodup).2.1).1
      exact ⟨_, _, .erased hbefore hafter⟩
    · exact ⟨_, _, .missed hk⟩
  | contains k =>
    by_cases hk : k ∈ keys
    · exact ⟨_, _, .found hk⟩
    · exact ⟨_, _, .absent hk⟩
  | clear => exact ⟨_, _, .cleared⟩
  | snapshot => exact ⟨_, _, .copied⟩
  | vacateBefore k limit =>
    by_cases hk : some k ∈ slots.take limit
    · obtain ⟨before, after, htake, hbefore⟩ := List.eq_append_cons_of_mem hk
      have hlimit : before.length < limit := by
        have := congrArg List.length htake
        rw [List.length_take, List.length_append, List.length_cons] at this
        omega
      have hslots : slots = before ++ some k :: (after ++ slots.drop limit) := by
        rw [← List.cons_append, ← List.append_assoc, ← htake, List.take_append_drop]
      rw [hslots]
      exact ⟨_, _, .vacated hbefore hlimit⟩
    · exact ⟨_, _, .kept hk⟩
  | get index =>
    cases hslot : slots[index]? with
    | some slot => exact ⟨_, _, .got hslot⟩
    | none => exact ⟨_, _, .beyond (List.getElem?_eq_none_iff.mp hslot)⟩

namespace Snapshot
variable {s : Snapshot capacity} {k : Key} {limit : Nat}

theorem position?_of_first {before after : List (Option Key)} (hslots : s.toList = before ++ some k :: after)
    (hbefore : some k ∉ before) (hlimit : before.length < limit) :
    s.position? k limit = some before.length := by
  obtain ⟨n, rfl⟩ : ∃ n, limit = before.length + (n + 1) := ⟨limit - before.length - 1, by omega⟩
  rw [position?, hslots, List.take_length_add_append, List.take_succ_cons,
    Cells.findIdx?_of_first hbefore]

theorem position?_of_not_mem (h : some k ∉ s.toList.take limit) : s.position? k limit = none :=
  Cells.findIdx?_of_not_mem h

end Snapshot

/-- A hold buffer and the snapshot taken of it last. -/
structure Keeper (capacity : Nat) where
  buffer : HoldBuffer capacity
  taken : Snapshot capacity

namespace Keeper

def start (capacity : Nat) : Keeper capacity := ⟨.empty, HoldBuffer.empty.snapshot⟩

def serve (s : Keeper capacity) : HoldRequest → HoldReply × Keeper capacity
  | .insert k => (.flag (s.buffer.accepts k), ⟨s.buffer.insert k, s.taken⟩)
  | .erase k => (.flag (s.buffer.contains k), ⟨s.buffer.erase k, s.taken⟩)
  | .contains k => (.flag (s.buffer.contains k), s)
  | .clear => (.done, ⟨s.buffer.clear, s.taken⟩)
  | .snapshot => (.done, ⟨s.buffer, s.buffer.snapshot⟩)
  | .vacateBefore k limit =>
    (.flag (s.taken.position? k limit).isSome, ⟨s.buffer, s.taken.vacateBefore k limit⟩)
  | .get index => (.slot (s.taken.get? index), s)

def serveAll (s : Keeper capacity) : List HoldRequest → List HoldReply × Keeper capacity
  | [] => ([], s)
  | request :: requests =>
    ((s.serve request).1 :: ((s.serve request).2.serveAll requests).1,
      ((s.serve request).2.serveAll requests).2)

def ledger (s : Keeper capacity) : Ledger := ⟨s.buffer.toList, s.taken.toList⟩

variable {s : Keeper capacity}

/-- What the lists answer is what is answered. -/
theorem serve_of_serves {request : HoldRequest} {reply : HoldReply} {next : Ledger}
    (h : Serves capacity s.ledger request reply next) :
    reply = (s.serve request).1 ∧ next = (s.serve request).2.ledger := by
  generalize hl : s.ledger = l at h
  cases h with
  | @inserted keys slots k hout hroom =>
    obtain ⟨rfl, rfl⟩ := Ledger.mk.inj hl
    have haccepts : s.buffer.accepts k = true := HoldBuffer.accepts_iff.mpr ⟨hout, hroom⟩
    rw [serve, ledger, haccepts, HoldBuffer.toList_insert, if_pos haccepts]
    exact ⟨rfl, rfl⟩
  | @present _ k hin =>
    subst hl
    have haccepts : s.buffer.accepts k = false := HoldBuffer.accepts_eq_false_iff.mpr (Or.inl hin)
    rw [serve, haccepts, HoldBuffer.insert_of_not_accepts haccepts]
    exact ⟨rfl, rfl⟩
  | @full _ k hfull =>
    subst hl
    have haccepts : s.buffer.accepts k = false := HoldBuffer.accepts_eq_false_iff.mpr (Or.inr hfull)
    rw [serve, haccepts, HoldBuffer.insert_of_not_accepts haccepts]
    exact ⟨rfl, rfl⟩
  | @erased before after slots k hbefore hafter =>
    obtain ⟨hkeys, rfl⟩ := Ledger.mk.inj hl
    have hin : s.buffer.contains k = true := HoldBuffer.contains_iff.mpr (by rw [hkeys]; simp)
    rw [serve, ledger, hin, HoldBuffer.toList_erase, hkeys, List.erase_append_right _ hbefore,
      List.erase_cons_head]
    exact ⟨rfl, rfl⟩
  | @missed _ k hout =>
    subst hl
    rw [serve, HoldBuffer.contains_eq_false_iff.mpr hout]
    exact ⟨rfl, congrArg (Ledger.mk · _) ((s.buffer.toList_erase k).trans (List.erase_of_not_mem hout)).symm⟩
  | found hin =>
    subst hl
    exact ⟨congrArg HoldReply.flag (HoldBuffer.contains_iff.mpr hin).symm, rfl⟩
  | absent hout =>
    subst hl
    exact ⟨congrArg HoldReply.flag (HoldBuffer.contains_eq_false_iff.mpr hout).symm, rfl⟩
  | cleared =>
    obtain ⟨rfl, rfl⟩ := Ledger.mk.inj hl
    exact ⟨rfl, rfl⟩
  | copied =>
    obtain ⟨rfl, rfl⟩ := Ledger.mk.inj hl
    rw [serve, ledger, HoldBuffer.toList_snapshot]
    exact ⟨rfl, rfl⟩
  | @vacated keys before after k limit hbefore hlimit =>
    obtain ⟨rfl, hslots⟩ := Ledger.mk.inj hl
    rw [serve, ledger, Snapshot.toList_vacateBefore, Snapshot.position?_of_first hslots hbefore hlimit,
      hslots]
    refine ⟨rfl, congrArg (Ledger.mk _) ?_⟩
    show before ++ none :: after = (before ++ some k :: after).set before.length none
    rw [List.set_append_right _ _ (Nat.le_refl _), Nat.sub_self, List.set_cons_zero]
  | kept hout =>
    subst hl
    rw [serve, ledger, ledger, Snapshot.toList_vacateBefore, Snapshot.position?_of_not_mem hout]
    exact ⟨rfl, rfl⟩
  | got hslot =>
    subst hl
    exact ⟨congrArg HoldReply.slot (congrArg Option.join hslot).symm, rfl⟩
  | beyond hlength =>
    subst hl
    exact ⟨congrArg HoldReply.slot (congrArg Option.join (List.getElem?_eq_none hlength)).symm, rfl⟩

theorem serves_iff (hnodup : s.ledger.keys.Nodup) {request : HoldRequest} {reply : HoldReply}
    {next : Ledger} :
    Serves capacity s.ledger request reply next ↔
      reply = (s.serve request).1 ∧ next = (s.serve request).2.ledger := by
  constructor
  · exact serve_of_serves
  · rintro ⟨rfl, rfl⟩
    obtain ⟨reply, next, h⟩ := exists_serves capacity hnodup request
    obtain ⟨rfl, rfl⟩ := serve_of_serves h
    exact h

theorem nodup_serve (hnodup : s.ledger.keys.Nodup) (request : HoldRequest) :
    (s.serve request).2.ledger.keys.Nodup :=
  ((serves_iff hnodup).mpr ⟨rfl, rfl⟩).nodup hnodup

theorem nodup_serveAll (hnodup : s.ledger.keys.Nodup) (requests : List HoldRequest) :
    (s.serveAll requests).2.ledger.keys.Nodup := by
  induction requests generalizing s with
  | nil => exact hnodup
  | cons request requests ih => exact ih (nodup_serve hnodup request)

theorem served_iff (hnodup : s.ledger.keys.Nodup) {requests : List HoldRequest}
    {replies : List HoldReply} {next : Ledger} :
    Served capacity s.ledger requests replies next ↔
      replies = (s.serveAll requests).1 ∧ next = (s.serveAll requests).2.ledger := by
  induction requests generalizing s replies next with
  | nil =>
    constructor
    · rintro ⟨⟩
      exact ⟨rfl, rfl⟩
    · rintro ⟨rfl, rfl⟩
      exact .nil _
  | cons request requests ih =>
    constructor
    · rintro (_ | ⟨hfirst, hrest⟩)
      obtain ⟨rfl, rfl⟩ := (serves_iff hnodup).mp hfirst
      obtain ⟨rfl, rfl⟩ := (ih (nodup_serve hnodup request)).mp hrest
      exact ⟨rfl, rfl⟩
    · rintro ⟨rfl, rfl⟩
      exact .cons ((serves_iff hnodup).mpr ⟨rfl, rfl⟩)
        ((ih (nodup_serve hnodup request)).mpr ⟨rfl, rfl⟩)

end Keeper

/-- The slots of a hold buffer and of the snapshot taken of it last. -/
structure KeeperCells where
  buffer : Cells Key
  taken : Cells (Option Key)

namespace KeeperCells

/-- Serves a request by checked accesses alone; `none` where one of them leaves the slots. -/
def serve? (c : KeeperCells) : HoldRequest → Option (HoldReply × KeeperCells)
  | .insert k => (c.buffer.insert? k).map fun (buffer, took) => (.flag took, ⟨buffer, c.taken⟩)
  | .erase k => (c.buffer.erase? k).map fun (buffer, was) => (.flag was, ⟨buffer, c.taken⟩)
  | .contains k => (c.buffer.contains? k).map fun is => (.flag is, c)
  | .clear => some (.done, ⟨c.buffer.clear, c.taken⟩)
  | .snapshot => c.buffer.snapshot?.map fun taken => (.done, ⟨c.buffer, taken⟩)
  | .vacateBefore k limit =>
    (c.taken.vacateBefore? k limit).map fun (taken, was) => (.flag was, ⟨c.buffer, taken⟩)
  | .get index => (c.taken.get? index).map fun k => (.slot k, c)

def serveAll? (c : KeeperCells) : List HoldRequest → Option (List HoldReply × KeeperCells)
  | [] => some ([], c)
  | request :: requests =>
    (c.serve? request).bind fun served =>
      (served.2.serveAll? requests).map fun rest => (served.1 :: rest.1, rest.2)

end KeeperCells

namespace Keeper
variable {s : Keeper capacity}

def cells (s : Keeper capacity) : KeeperCells := ⟨s.buffer.cells, s.taken.cells⟩

theorem filled_serve (h : s.buffer.Filled) (request : HoldRequest) : (s.serve request).2.buffer.Filled := by
  cases request with
  | insert k => exact h.insert k
  | erase k => exact h.erase k
  | clear => exact .clear s.buffer
  | _ => exact h

theorem serve?_cells (h : s.buffer.Filled) (request : HoldRequest) :
    s.cells.serve? request = some ((s.serve request).1, (s.serve request).2.cells) := by
  cases request with
  | insert k => rw [KeeperCells.serve?, cells, h.insert?_cells]; rfl
  | erase k => rw [KeeperCells.serve?, cells, h.erase?_cells]; rfl
  | contains k => rw [KeeperCells.serve?, cells, h.contains?_cells]; rfl
  | clear => rw [KeeperCells.serve?, cells, h.clear_cells]; rfl
  | snapshot => rw [KeeperCells.serve?, cells, h.snapshot?_cells]; rfl
  | vacateBefore k limit => rw [KeeperCells.serve?, cells, Snapshot.vacateBefore?_cells]; rfl
  | get index => rw [KeeperCells.serve?, cells, Snapshot.get?_cells]; rfl

theorem serveAll?_cells (h : s.buffer.Filled) (requests : List HoldRequest) :
    s.cells.serveAll? requests = some ((s.serveAll requests).1, (s.serveAll requests).2.cells) := by
  induction requests generalizing s with
  | nil => rfl
  | cons request requests ih =>
    rw [KeeperCells.serveAll?, serve?_cells h, Option.bind_some, ih (filled_serve h request),
      Option.map_some, serveAll]

end Keeper

/-- From the empty hold buffer on, the replies and the keys held are those of the lists and of no other
outcome, no access leaves the slots, and the snapshots that two runs end with are equal exactly when the
keys held are. -/
theorem keeper_serves_as_lists (capacity : Nat) (requests : List HoldRequest) :
    (∀ replies next, Served capacity ⟨[], []⟩ requests replies next ↔
        replies = ((Keeper.start capacity).serveAll requests).1 ∧
          next = ((Keeper.start capacity).serveAll requests).2.ledger) ∧
      ((Keeper.start capacity).serveAll requests).2.ledger.keys.Nodup ∧
      ((Keeper.start capacity).serveAll requests).2.ledger.keys.length ≤ capacity ∧
      (Keeper.start capacity).cells.serveAll? requests =
        some (((Keeper.start capacity).serveAll requests).1,
          ((Keeper.start capacity).serveAll requests).2.cells) ∧
      ∀ others, ((Keeper.start capacity).serveAll requests).2.buffer.snapshot =
          ((Keeper.start capacity).serveAll others).2.buffer.snapshot ↔
        ((Keeper.start capacity).serveAll requests).2.ledger.keys =
          ((Keeper.start capacity).serveAll others).2.ledger.keys := by
  have hnodup : (Keeper.start capacity).ledger.keys.Nodup := List.nodup_nil
  refine ⟨?_, Keeper.nodup_serveAll hnodup requests, HoldBuffer.length_toList_le _,
    Keeper.serveAll?_cells HoldBuffer.filled_empty requests, fun _ => HoldBuffer.snapshot_eq_iff⟩
  intro replies next
  exact Keeper.served_iff hnodup

end OpposingKeys
