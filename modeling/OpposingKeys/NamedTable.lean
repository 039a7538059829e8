import OpposingKeys.Table

/-!
# Named tables of pairs
-/

namespace OpposingKeys

set_option autoImplicit false

structure NamedTable where
  name : Option String := none
  pairs : List Pair := []
deriving DecidableEq, Inhabited

namespace NamedTable

instance : Table NamedTable where
  count t := t.pairs.length
  get? t index := t.pairs[index]?

@[simp] theorem pairs_table (t : NamedTable) : Table.pairs t = t.pairs :=
  (Table.pairs_eq t).trans ((Table.pairs_eq t.pairs).symm.trans (Table.pairs_list t.pairs))

def add (t : NamedTable) (press unpress : Key) : NamedTable :=
  { t with pairs := t.pairs ++ [⟨press, unpress⟩] }

/-- Lets either key cancel the other. -/
def addBoth (t : NamedTable) (a b : Key) : NamedTable := (t.add a b).add b a

end NamedTable

end OpposingKeys
