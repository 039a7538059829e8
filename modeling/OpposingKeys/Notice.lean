import OpposingKeys.Control
import OpposingKeys.Fault
import OpposingKeys.Text.Quoted

/-!
# Notices

What the library reports about its work while it does it. A notice carries the facts; `render`
gives its level and its wording.
-/

namespace OpposingKeys

set_option autoImplicit false

inductive Notice where
  /-- A table was decoded as its byte order mark says. -/
  | decodedByMark (encoding : String)
  | decodedWithReplacements
  | notUtf8
  | utf8WithReplacements
  /-- A table line names a key that events are never checked for. -/
  | neverCancels (line : Nat) (key : Key)
  | tableLoaded (name : Option String) (count : Nat)
  | noSettings (path : String)
  | flags (now : Flags)
  | loadFailed (fault : SettingsFault)
  | persistFailed (fault : SettingsFault)
  | staleDropped (keys : List Key)
  | notBasic (key : Key)
  | vetoed (key : Key)
  | bufferFull (key : Key)
  | cancels (press unpress : Key)
  | held (keys : List Key)
  | snapshot (slots : List (Option Key))
  | keptReleased (key : Key)
  | recovered (key : Key)
deriving DecidableEq

namespace Notice

inductive Level where
  | trace
  | debug
  | info
  | warn
deriving DecidableEq

def Level.name : Level → String
  | trace => "TRACE"
  | debug => "DEBUG"
  | info => "INFO"
  | warn => "WARN"

def level : Notice → Level
  | notBasic _ | vetoed _ => .trace
  | decodedByMark _ | noSettings _ | staleDropped _ | cancels _ _ | held _ | snapshot _
  | keptReleased _ | recovered _ => .debug
  | tableLoaded _ _ | flags _ => .info
  | decodedWithReplacements | notUtf8 | utf8WithReplacements | neverCancels _ _ | loadFailed _
  | persistFailed _ | bufferFull _ => .warn

def text : Notice → String
  | decodedByMark encoding => "Decoded using BOM: " ++ encoding
  | decodedWithReplacements => "Decode had errors (replacement characters used)"
  | notUtf8 => "Table file is not valid UTF-8, decoding lossily"
  | utf8WithReplacements => "UTF-8 decode had errors"
  | neverCancels line key =>
    "line " ++ toString line ++ ": " ++ key.display ++
      " is not a basic keycode and will never cancel"
  | tableLoaded name count =>
    "Loaded cancellation table " ++ Text.quoted (name.getD "<unnamed>") ++ " with " ++
      toString count ++ " pairs"
  | noSettings path => "No settings at " ++ Text.quoted path ++ ", using defaults"
  | flags now =>
    "Key cancellation: enabled=" ++ toString now.cancellation ++ " recovery=" ++
      toString now.recovery
  | loadFailed fault => "Failed to load key cancellation config: " ++ fault.message
  | persistFailed fault => "Failed to persist key cancellation config: " ++ fault.message
  | staleDropped keys => "Dropping stale hold buffer " ++ Key.displayList keys
  | notBasic key => key.display ++ " is not a basic keycode, passing"
  | vetoed key => key.display ++ " vetoed by filter, passing"
  | bufferFull key => "Hold buffer full, " ++ key.display ++ " will not be recovered"
  | cancels press unpress => press.display ++ " cancels " ++ unpress.display
  | held keys => "hold buffer: " ++ Key.displayList keys
  | snapshot slots => "snapshot:    " ++ Key.displaySlots slots
  | keptReleased key => "keep " ++ key.display ++ " released"
  | recovered key => "recover " ++ key.display

def render (notice : Notice) : String := notice.level.name ++ " " ++ notice.text

end Notice

end OpposingKeys
