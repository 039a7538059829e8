import OpposingKeys.Fault
import OpposingKeys.Text.Lines

/-!
# Files and directories

A small file system: a tree of directories that hold files of bytes, without links or rights and
without limits on the length of a name or on the characters in it. A path starts at the root or at
the working directory and is read part by part. Every part but the last has to be a directory; which
fault arises first on the way is the one that is reported. The directories above the working
directory are there, but nothing tells their names, so a way up never comes down to the working
directory again.

Assumed is that reading and writing fail only by the path: a write that fails does so before the file
is touched, and one that succeeds has put all of its bytes there. A device that is full or breaks off
in the middle of a file is left out.
-/

namespace OpposingKeys

set_option autoImplicit false

structure Path where
  text : String
deriving DecidableEq

/-- Where a way down starts: at the root, or so many levels above the working directory. -/
inductive Base where
  | root
  | above (levels : Nat)
deriving DecidableEq

/-- A base and the names on the way down from it. -/
structure Location where
  base : Base
  names : List String
deriving DecidableEq

namespace Location

def child (location : Location) (name : String) : Location :=
  { location with names := location.names ++ [name] }

/-- Above the root is the root. -/
def parent (location : Location) : Location :=
  match location.names, location.base with
  | [], .root => location
  | [], .above levels => ⟨.above (levels + 1), []⟩
  | names, base => ⟨base, names.dropLast⟩

/-- The location that one part of a path leads to. -/
def move (location : Location) (part : String) : Location :=
  if part = "." then location
  else if part = ".." then location.parent
  else location.child part

/-- Whether names alone lead down to the other location, or none are needed. -/
def covers (location other : Location) : Bool :=
  location.base = other.base && location.names.isPrefixOf other.names

end Location

namespace Path

/-- The names between the slashes. -/
def parts (path : Path) : List String :=
  ((Text.pieces '/' path.text.toList).filter fun part => !part.isEmpty).map String.ofList

/-- A slash at the front leads to the root. -/
def start (path : Path) : Location :=
  ⟨if path.text.toList.head? = some '/' then .root else .above 0, []⟩

/-- A slash at the end asks for a directory. -/
def endsInSlash (path : Path) : Bool := path.text.toList.getLast? == some '/'

def isEmpty (path : Path) : Bool := path.text.isEmpty

/-- The parts of the directory that the path lies in. -/
def parentParts (path : Path) : List String := (path.parts.filter (· ≠ ".")).dropLast

end Path

inductive Entry where
  | file (bytes : List UInt8)
  | directory
deriving DecidableEq

structure FileSystem where
  entries : List (Location × Entry) := []

namespace FileSystem

/-- What is at a location. The bases are always there. -/
def at? (fs : FileSystem) (location : Location) : Option Entry :=
  if location.names = [] then some .directory else fs.entries.lookup location

def set (fs : FileSystem) (location : Location) (entry : Entry) : FileSystem :=
  ⟨(location, entry) :: fs.entries⟩

theorem at?_set (fs : FileSystem) (location other : Location) (entry : Entry)
    (h : location.names ≠ []) :
    (fs.set location entry).at? other = if other = location then some entry else fs.at? other := by
  by_cases ho : other = location
  · subst ho
    simp [at?, set, h]
  · have hb : (other == location) = false := by simpa using ho
    simp [at?, set, List.lookup_cons, hb, ho]

/-- The location without the entries below it. -/
def emptied (fs : FileSystem) (location : Location) : FileSystem :=
  ⟨fs.entries.filter fun entry => !location.covers entry.1 || entry.1 = location⟩

/-- The location without the entries at it and below it. -/
def remove (fs : FileSystem) (location : Location) : FileSystem :=
  ⟨fs.entries.filter fun entry => !location.covers entry.1⟩

def enter (fs : FileSystem) (location : Location) : List String → Except StorageFault Location
  | [] => .ok location
  | part :: rest =>
    match fs.at? (location.move part) with
    | none => .error .notFound
    | some (.file _) => .error .notADirectory
    | some .directory => fs.enter (location.move part) rest

/-- Where the parts lead to, whether or not anything is there. -/
def locate (fs : FileSystem) (start : Location) (parts : List String) :
    Except StorageFault Location :=
  match fs.enter start parts.dropLast with
  | .error fault => .error fault
  | .ok location => .ok (parts.getLast?.elim location location.move)

def find (fs : FileSystem) (path : Path) : Except StorageFault Entry :=
  if path.isEmpty then .error .notFound
  else
    match fs.locate path.start path.parts with
    | .error fault => .error fault
    | .ok location =>
      match fs.at? location with
      | none => .error .notFound
      | some .directory => .ok .directory
      | some (.file bytes) =>
        if path.endsInSlash then .error .notADirectory else .ok (.file bytes)

def isPresent (fs : FileSystem) (path : Path) : Bool := (fs.find path).isOk

def read (fs : FileSystem) (path : Path) : Except StorageFault (List UInt8) :=
  match fs.find path with
  | .error fault => .error fault
  | .ok .directory => .error .isADirectory
  | .ok (.file bytes) => .ok bytes

/-- Puts the bytes into the file of a path, in place of what it held. -/
def write (fs : FileSystem) (path : Path) (bytes : List UInt8) : Except StorageFault FileSystem :=
  if path.isEmpty then .error .notFound
  else
    match fs.locate path.start path.parts with
    | .error fault => .error fault
    | .ok location =>
      if path.endsInSlash then .error .isADirectory
      else
        match fs.at? location with
        | some .directory => .error .isADirectory
        | _ => .ok (fs.set location (.file bytes))

/-- Makes one directory in a directory that is there. -/
def makeDirectory (fs : FileSystem) (start : Location) (parts : List String) :
    Except StorageFault FileSystem :=
  match fs.locate start parts with
  | .error fault => .error fault
  | .ok location =>
    match fs.at? location with
    | some _ => .error .alreadyExists
    | none => .ok (fs.set location .directory)

def isDirectory (fs : FileSystem) (start : Location) (parts : List String) : Bool :=
  match fs.locate start parts with
  | .error _ => false
  | .ok location => fs.at? location == some .directory

/-- Makes a directory, or is content with one that is there. -/
def ensureDirectory (fs : FileSystem) (start : Location) (parts : List String) :
    Except StorageFault FileSystem :=
  match fs.makeDirectory start parts with
  | .ok fs => .ok fs
  | .error fault => if fs.isDirectory start parts then .ok fs else .error fault

/-- Makes a directory and those above it that are missing. The parts come last one first. What was
made stays, even if something further down fails. -/
def makeAbove (fs : FileSystem) (start : Location) :
    List String → Except StorageFault Unit × FileSystem
  | [] => (.ok (), fs)
  | part :: above =>
    let parts := (part :: above).reverse
    match fs.ensureDirectory start parts with
    | .ok fs => (.ok (), fs)
    | .error .notFound =>
      match fs.makeAbove start above with
      | (.error fault, fs) => (.error fault, fs)
      | (.ok (), fs) =>
        match fs.ensureDirectory start parts with
        | .ok fs => (.ok (), fs)
        | .error fault => (.error fault, fs)
    | .error fault => (.error fault, fs)

def makeDirectories (fs : FileSystem) (start : Location) (parts : List String) :
    Except StorageFault Unit × FileSystem :=
  fs.makeAbove start parts.reverse

/-- Writes a file and makes the directories above it that are missing. -/
def writeBelow (fs : FileSystem) (path : Path) (bytes : List UInt8) :
    Except StorageFault Unit × FileSystem :=
  match fs.makeDirectories path.start path.parentParts with
  | (.error fault, fs) => (.error fault, fs)
  | (.ok (), fs) =>
    match fs.write path bytes with
    | .error fault => (.error fault, fs)
    | .ok fs => (.ok (), fs)

/-- Removes a file or a whole directory, if it is there. A directory that is named by `.` or `..` at
the end of the path is only emptied. -/
def delete (fs : FileSystem) (path : Path) : FileSystem :=
  match fs.find path, fs.locate path.start path.parts with
  | .ok _, .ok location =>
    match path.parts.getLast? with
    | some "." | some ".." => fs.emptied location
    | _ => fs.remove location
  | _, _ => fs

end FileSystem

end OpposingKeys
