/-!
# Faults

What can go wrong, each cause a constructor, and the wording of each in one place.
-/

namespace OpposingKeys

set_option autoImplicit false

inductive StorageFault where
  | notFound
  | alreadyExists
  | notADirectory
  | isADirectory
  | notUtf8
  /-- The settings memory does not answer. -/
  | offline
deriving DecidableEq

/-- The cause alone. -/
def StorageFault.cause : StorageFault → String
  | notFound => "No such file or directory (os error 2)"
  | alreadyExists => "File exists (os error 17)"
  | notADirectory => "Not a directory (os error 20)"
  | isADirectory => "Is a directory (os error 21)"
  | notUtf8 => "stream did not contain valid UTF-8"
  | offline => "eeprom offline"

def StorageFault.message (fault : StorageFault) : String := "IO error: " ++ fault.cause

inductive LineFault where
  | unknownKey (name : String)
  | malformedPair (text : String)
deriving DecidableEq

/-- The first faulty line of a table, counted from one. -/
structure TableFault where
  line : Nat
  fault : LineFault
deriving DecidableEq

def TableFault.message (t : TableFault) : String :=
  "line " ++ toString t.line ++ ": " ++
    match t.fault with
    | .unknownKey name => "unknown keycode `" ++ name ++ "`"
    | .malformedPair text => "expected `PRESS -> UNPRESS` or `A <-> B`, got `" ++ text ++ "`"

inductive LoadFault where
  | storage (fault : StorageFault)
  | table (fault : TableFault)
deriving DecidableEq

def LoadFault.message : LoadFault → String
  | storage fault => fault.message
  | table fault => fault.message

inductive SettingsFault where
  | storage (fault : StorageFault)
  /-- What was read does not describe settings. -/
  | malformed
deriving DecidableEq

def SettingsFault.message : SettingsFault → String
  | storage fault => fault.message
  | malformed => "config error"

end OpposingKeys
