import OpposingKeys.Key

/-!
# Key events and corrections

What a keyboard hands over (a key going down or up, at a place of the key matrix if that is known)
and what comes back: whether the event may go on to the host, and the corrections that are to be
made to the host's view before it does.
-/

namespace OpposingKeys

set_option autoImplicit false

inductive Edge where
  | down
  | up
deriving DecidableEq

/-- A place in the key matrix. -/
structure Place where
  row : UInt8
  column : UInt8
deriving DecidableEq

/-- One transition of a key; which key it is comes beside it. -/
structure Transition where
  edge : Edge
  place : Option Place := none
deriving DecidableEq

inductive Action where
  | pass
  | block
deriving DecidableEq

namespace Action

def display : Action → String
  | pass => "Pass"
  | block => "Block"

end Action

/-- A change to the host's view that no key event of its own stands for. -/
inductive Correction where
  | release (k : Key)
  | register (k : Key)
deriving DecidableEq

namespace Correction

def key : Correction → Key
  | release k => k
  | register k => k

def isRegister : Correction → Bool
  | release _ => false
  | register _ => true

/-- The change with the plain code of its key. -/
def display : Correction → String
  | release k => "Release(KeyCode(" ++ toString k.code.toNat ++ "))"
  | register k => "Register(KeyCode(" ++ toString k.code.toNat ++ "))"

end Correction

end OpposingKeys
