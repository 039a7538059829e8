import OpposingKeys.FileSystem

/-!
# What a write leaves alone

Where a path leads is fixed by its text; the files only decide whether the way there is open. Making
directories adds some where nothing was, on the way of the path, and a file that is written is read
back through the same path, since no directory on the way is lost. All of this holds of any list of
entries.
-/

namespace OpposingKeys

set_option autoImplicit false

/-- The location stands on the way that the parts lead, at its start, in between or at its end. -/
def Location.OnWay (start : Location) (parts : List String) (location : Location) : Prop :=
  ∃ front, front <+: parts ∧ location = front.foldl Location.move start

/-- Where the path leads, if the way is open. -/
def Path.target (path : Path) : Location := path.parts.foldl Location.move path.start

namespace FileSystem
variable {fs fs' fs'' : FileSystem} {start location : Location} {parts : List String}
  {way : Location → Prop}

/-- What is at the location is as it was, or a directory on the way where nothing was. -/
def Kept (way : Location → Prop) (fs fs' : FileSystem) (location : Location) : Prop :=
  fs'.at? location = fs.at? location ∨
    fs.at? location = none ∧ fs'.at? location = some .directory ∧ way location

/-- Nothing but directories on the way was added, and nothing was lost. -/
def AddsDirectories (way : Location → Prop) (fs fs' : FileSystem) : Prop :=
  ∀ location, Kept way fs fs' location

/-- No directory is lost. -/
def KeepsDirectories (fs fs' : FileSystem) : Prop :=
  ∀ location, fs.at? location = some .directory → fs'.at? location = some .directory

theorem Kept.mono {way' : Location → Prop} (h : Kept way fs fs' location)
    (hway : ∀ location, way location → way' location) : Kept way' fs fs' location :=
  h.imp_right fun ⟨hfree, hmade, hon⟩ => ⟨hfree, hmade, hway location hon⟩

theorem Kept.trans (h : Kept way fs fs' location) (h' : Kept way fs' fs'' location) :
    Kept way fs fs'' location := by
  obtain hsame' | ⟨hfree', hmade', hon'⟩ := h'
  · rwa [Kept, hsame']
  · obtain hsame | ⟨_, hmade, _⟩ := h
    · exact Or.inr ⟨hsame ▸ hfree', hmade', hon'⟩
    · rw [hmade] at hfree'
      exact absurd hfree' (Option.some_ne_none _)

theorem Kept.file {bytes : List UInt8} (h : Kept way fs fs' location)
    (hfile : fs.at? location = some (.file bytes)) : fs'.at? location = some (.file bytes) := by
  obtain hsame | ⟨hfree, _⟩ := h
  · exact hsame.trans hfile
  · rw [hfree] at hfile
    cases hfile

namespace AddsDirectories

theorem refl (way : Location → Prop) (fs : FileSystem) : AddsDirectories way fs fs :=
  fun _ => Or.inl rfl

theorem mono {way' : Location → Prop} (h : AddsDirectories way fs fs')
    (hway : ∀ location, way location → way' location) : AddsDirectories way' fs fs' :=
  fun location => (h location).mono hway

theorem trans (h : AddsDirectories way fs fs') (h' : AddsDirectories way fs' fs'') :
    AddsDirectories way fs fs'' :=
  fun location => (h location).trans (h' location)

end AddsDirectories

/-- The bases are directories, so what is no directory has a name. -/
theorem names_ne_nil (h : fs.at? location ≠ some .directory) : location.names ≠ [] :=
  fun hbase => h (if_pos hbase)

section Ways

theorem eq_foldl_of_enter (h : fs.enter start parts = .ok location) :
    location = parts.foldl Location.move start := by
  induction parts generalizing start with
  | nil => exact (Except.ok.inj h).symm
  | cons part rest ih =>
    rw [enter] at h
    split at h
    · cases h
    · cases h
    · exact ih h

theorem enter_of_keepsDirectories (hkeeps : KeepsDirectories fs fs')
    (h : fs.enter start parts = .ok location) : fs'.enter start parts = .ok location := by
  induction parts generalizing start with
  | nil => exact h
  | cons part rest ih =>
    rw [enter] at h
    split at h
    · cases h
    · cases h
    · next hdirectory =>
      rw [enter, hkeeps _ hdirectory]
      exact ih h

theorem eq_foldl_of_locate (h : fs.locate start parts = .ok location) :
    location = parts.foldl Location.move start := by
  rw [locate] at h
  split at h
  · cases h
  · next above henter =>
    obtain rfl := eq_foldl_of_enter henter
    obtain rfl := Except.ok.inj h
    obtain rfl | ⟨front, last, rfl⟩ := parts.eq_nil_or_concat
    · rfl
    · simp

theorem locate_of_keepsDirectories (hkeeps : KeepsDirectories fs fs')
    (h : fs.locate start parts = .ok location) : fs'.locate start parts = .ok location := by
  rw [locate] at h
  split at h
  · cases h
  · next above henter =>
    rw [locate, enter_of_keepsDirectories hkeeps henter]
    exact h

end Ways

section Directories

theorem addsDirectories_set (hfree : fs.at? location = none) :
    AddsDirectories (· = location) fs (fs.set location .directory) := by
  intro other
  have hnot : fs.at? location ≠ some .directory := by simp [hfree]
  have hset := at?_set fs location other .directory (names_ne_nil hnot)
  by_cases hother : other = location
  · subst hother
    exact Or.inr ⟨hfree, hset.trans (if_pos rfl), rfl⟩
  · exact Or.inl (hset.trans (if_neg hother))

theorem addsDirectories_of_makeDirectory (h : fs.makeDirectory start parts = .ok fs') :
    AddsDirectories (· = parts.foldl Location.move start) fs fs' := by
  rw [makeDirectory] at h
  split at h
  · cases h
  · next location hlocate =>
    split at h
    · cases h
    · next hfree =>
      obtain rfl := Except.ok.inj h
      rw [← eq_foldl_of_locate hlocate]
      exact addsDirectories_set hfree

theorem addsDirectories_of_ensureDirectory (h : fs.ensureDirectory start parts = .ok fs') :
    AddsDirectories (· = parts.foldl Location.move start) fs fs' := by
  rw [ensureDirectory] at h
  split at h
  · next hmade =>
    obtain rfl := Except.ok.inj h
    exact addsDirectories_of_makeDirectory hmade
  · split at h
    · obtain rfl := Except.ok.inj h
      exact AddsDirectories.refl _ fs
    · cases h

/-- By induction on the parts, the last one first: the way to what is above is a front of the way. -/
theorem addsDirectories_makeAbove (fs : FileSystem) (start : Location) (parts : List String) :
    AddsDirectories (start.OnWay parts.reverse) fs (fs.makeAbove start parts).2 := by
  have hend {parts : List String} {fs fs' : FileSystem}
      (h : fs.ensureDirectory start parts = .ok fs') : AddsDirectories (start.OnWay parts) fs fs' :=
    (addsDirectories_of_ensureDirectory h).mono fun _ hlocation =>
      ⟨parts, List.prefix_rfl, hlocation⟩
  induction parts with
  | nil => exact AddsDirectories.refl _ fs
  | cons part above ih =>
    have habove : AddsDirectories (start.OnWay (part :: above).reverse) fs
        (fs.makeAbove start above).2 :=
      ih.mono fun _ ⟨front, hfront, hlocation⟩ =>
        ⟨front, List.reverse_cons ▸ hfront.trans (List.prefix_append _ _), hlocation⟩
    rw [makeAbove]
    split
    · next hmade => exact hend hmade
    · split
      · next hfailed => rwa [hfailed] at habove
      · next hdone =>
        rw [hdone] at habove
        split
        · next hmade => exact habove.trans (hend hmade)
        -- what was made above stays, though the last directory cannot be made
        · exact habove
    · exact AddsDirectories.refl _ fs

theorem addsDirectories_makeDirectories (fs : FileSystem) (start : Location) (parts : List String) :
    AddsDirectories (start.OnWay parts) fs (fs.makeDirectories start parts).2 := by
  have h := addsDirectories_makeAbove fs start parts.reverse
  rwa [List.reverse_reverse] at h

end Directories

section Files
variable {path : Path} {bytes : List UInt8}

theorem keepsDirectories_set (hfree : fs.at? location ≠ some .directory) (entry : Entry) :
    KeepsDirectories fs (fs.set location entry) := by
  intro other hother
  rw [at?_set fs location other entry (names_ne_nil hfree), if_neg, hother]
  rintro rfl
  exact hfree hother

theorem write_ok (h : fs.write path bytes = .ok fs') :
    path.isEmpty = false ∧ path.endsInSlash = false ∧
      fs.locate path.start path.parts = .ok path.target ∧ fs.at? path.target ≠ some .directory ∧
      fs' = fs.set path.target (.file bytes) := by
  rw [write] at h
  split at h
  · cases h
  · next hnonempty =>
    split at h
    · cases h
    · next location hlocate =>
      obtain rfl : location = path.target := eq_foldl_of_locate hlocate
      split at h
      · cases h
      · next hslash =>
        split at h
        · cases h
        · next hfree =>
          obtain rfl := Except.ok.inj h
          exact ⟨eq_false_of_ne_true hnonempty, eq_false_of_ne_true hslash, hlocate, hfree, rfl⟩

theorem at?_of_write (h : fs.write path bytes = .ok fs') (other : Location) :
    fs'.at? other = if other = path.target then some (.file bytes) else fs.at? other := by
  obtain ⟨_, _, _, hfree, rfl⟩ := write_ok h
  exact at?_set fs path.target other (.file bytes) (names_ne_nil hfree)

theorem find_of_write (h : fs.write path bytes = .ok fs') : fs'.find path = .ok (.file bytes) := by
  have hfile : fs'.at? path.target = some (.file bytes) := (at?_of_write h _).trans (if_pos rfl)
  obtain ⟨hnonempty, hslash, hlocate, hfree, hset⟩ := write_ok h
  have hkeeps : KeepsDirectories fs fs' := hset ▸ keepsDirectories_set hfree (.file bytes)
  rw [find, hnonempty, locate_of_keepsDirectories hkeeps hlocate]
  dsimp only
  rw [hfile, hslash]
  rfl

/-- What writing a file below directories that may be missing can come to. -/
inductive Written (fs : FileSystem) (path : Path) (bytes : List UInt8) :
    Except StorageFault Unit × FileSystem → Prop
  | failed (fault : StorageFault) (fs' : FileSystem)
      (hadds : AddsDirectories (path.start.OnWay path.parentParts) fs fs') :
      Written fs path bytes (.error fault, fs')
  | done (made fs' : FileSystem)
      (hadds : AddsDirectories (path.start.OnWay path.parentParts) fs made)
      (hwrite : made.write path bytes = .ok fs') : Written fs path bytes (.ok (), fs')

theorem written_writeBelow (fs : FileSystem) (path : Path) (bytes : List UInt8) :
    Written fs path bytes (fs.writeBelow path bytes) := by
  have hadds := addsDirectories_makeDirectories fs path.start path.parentParts
  rw [writeBelow]
  split
  · next fault fs' hfailed =>
    rw [hfailed] at hadds
    exact .failed fault fs' hadds
  · next made hmade =>
    rw [hmade] at hadds
    split
    · next fault _ => exact .failed fault made hadds
    · next fs' hwrite => exact .done made fs' hadds hwrite

end Files

end FileSystem

end OpposingKeys
