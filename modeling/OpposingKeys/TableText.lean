import OpposingKeys.KeySyntax
import OpposingKeys.Notice
import OpposingKeys.NamedTable
import OpposingKeys.Text.Lines

/-!
# The text of a table

A table is written line by line. A line is blank, or a comment that `;` starts, or a rule with a
comment behind it or not. The rule `A -> B` lets A cancel B, and `A <-> B` lets either cancel the
other. The first comment that says anything, before any rule, names the table. The first line that
is none of these spoils the whole table.
-/

namespace OpposingKeys

set_option autoImplicit false

inductive Arrow where
  | both
  | onward
deriving DecidableEq

namespace Arrow

def mark : Arrow → List Char
  | both => ['<', '-', '>']
  | onward => ['-', '>']

def pairs : Arrow → Key → Key → List Pair
  | both, a, b => [⟨a, b⟩, ⟨b, a⟩]
  | onward, a, b => [⟨a, b⟩]

end Arrow

/-- A rule and what its arrow stands between. The long arrow is looked for first, so the short one
inside it does not divide the rule. -/
def divide (rule : List Char) : Option (Arrow × List Char × List Char) :=
  match Text.cut Arrow.both.mark rule with
  | some sides => some (.both, sides)
  | none => (Text.cut Arrow.onward.mark rule).map fun sides => (.onward, sides)

/-- The key on one side of a rule. An empty side spoils the rule, an unknown key only itself. -/
def readSide (rule side : List Char) : Except LineFault Key :=
  match Text.trim side with
  | [] => .error (.malformedPair (String.ofList rule))
  | name =>
    match Key.parse? name with
    | some k => .ok k
    | none => .error (.unknownKey (String.ofList name))

/-- The pairs of a rule. Of two faulty sides the left one is blamed. -/
def readRule (rule : List Char) : Except LineFault (List Pair) :=
  match divide rule with
  | none => .error (.malformedPair (String.ofList rule))
  | some (arrow, left, right) =>
    match readSide rule left with
    | .error fault => .error fault
    | .ok a =>
      match readSide rule right with
      | .error fault => .error fault
      | .ok b => .ok (arrow.pairs a b)

/-- A line by its place in the layout: its comment, or its rule, which is empty on a blank line. -/
inductive LineShape where
  | comment (text : List Char)
  | rule (text : List Char)
deriving DecidableEq

def LineShape.of (line : List Char) : LineShape :=
  match Text.trim line with
  | ';' :: text => .comment (Text.trim text)
  | line => .rule (Text.trim (Text.before ';' line))

namespace NamedTable

/-- A comment names the table if it says anything, and no name or pair came before it. -/
def addComment (t : NamedTable) (text : List Char) : NamedTable :=
  if t.name = none ∧ t.pairs = [] ∧ text ≠ [] then { t with name := some (String.ofList text) }
  else t

def addLine (t : NamedTable) (line : List Char) : Except LineFault NamedTable :=
  match LineShape.of line with
  | .comment text => .ok (t.addComment text)
  | .rule [] => .ok t
  | .rule rule =>
    match readRule rule with
    | .error fault => .error fault
    | .ok pairs => .ok { t with pairs := t.pairs ++ pairs }

/-- What lines add to a table; `number` is that of the first of them. -/
def addLines (t : NamedTable) (number : Nat) : List (List Char) → Except TableFault NamedTable
  | [] => .ok t
  | line :: rest =>
    match t.addLine line with
    | .error fault => .error ⟨number, fault⟩
    | .ok t => t.addLines (number + 1) rest

def parse (text : List Char) : Except TableFault NamedTable := addLines {} 1 (Text.lines text)

/-- The keys that a line names, up to its first side that names none. -/
def namedKeys (line : List Char) : List Key :=
  match LineShape.of line with
  | .comment _ => []
  | .rule rule =>
    match divide rule with
    | none => []
    | some (_, left, right) =>
      match Key.parse? left, Key.parse? right with
      | some a, some b => [a, b]
      | some a, none => [a]
      | none, _ => []

/-- Each key outside the basic range is reported, up to the first faulty line and on it. -/
def lineNotices (number : Nat) : List (List Char) → List Notice
  | [] => []
  | line :: rest =>
    ((namedKeys line).filter fun k => !k.isBasic).map (Notice.neverCancels number) ++
      match addLine {} line with
      | .error _ => []
      | .ok _ => lineNotices (number + 1) rest

def parseNotices (text : List Char) : List Notice := lineNotices 1 (Text.lines text)

end NamedTable

end OpposingKeys
