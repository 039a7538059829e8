import OpposingKeys.TableText

/-!
# Writing a table as text

The name is written as a comment on the first line, and each pair as a rule of its own. Keys are
written as they are shown, so a pair with a key that has no name is written with its code.
-/

namespace OpposingKeys

set_option autoImplicit false

def Pair.rule (p : Pair) : List Char :=
  p.press.display.toList ++ [' '] ++ Arrow.onward.mark ++ [' '] ++ p.unpress.display.toList

namespace NamedTable

def nameLine (name : String) : List Char := ';' :: ' ' :: (name.toList ++ ['\n'])

def print (t : NamedTable) : List Char :=
  (t.name.elim [] nameLine) ++ t.pairs.flatMap fun p => p.rule ++ ['\n']

end NamedTable

end OpposingKeys
