import OpposingKeys.Session
import OpposingKeys.TableFile

/-!
# Replaying a script of key events

A script is a list of steps between blanks: `+` and a key for a key that goes down, `-` and a key
for one that goes up. The steps are played one by one, from both flags on and an empty host; each
gives a line with the step, the action, the corrections and what the host then holds. The first
step that cannot be read ends the replay.

The output takes printed lines and what a log writes of the notices that are reported between them.
Of that log only this is assumed, that what it writes of a notice depends on the notice alone: which
levels it lets through and how it words them is left open, and the time of a notice is left out. The
log `off` writes nothing.
-/

namespace OpposingKeys.Replay

set_option autoImplicit false

inductive StepFault where
  | noSign (step : String)
  | unknownKey (name : String)
deriving DecidableEq

def StepFault.message : StepFault → String
  | noSign step => "step `" ++ step ++ "` must start with + or -"
  | unknownKey name => "unknown key `" ++ name ++ "`"

/-- A step names a control or anything that denotes a key. -/
def keyOf? (name : List Char) : Option Key :=
  match Control.named? name with
  | some control => some control.key
  | none => Key.parse? name

def withEdge (edge : Edge) (name : List Char) : Except StepFault (Key × Edge) :=
  match keyOf? name with
  | some k => .ok (k, edge)
  | none => .error (.unknownKey (String.ofList name))

def readStep : List Char → Except StepFault (Key × Edge)
  | '+' :: name => withEdge .down name
  | '-' :: name => withEdge .up name
  | step => .error (.noSign (String.ofList step))

abbrev State := Session NamedTable ByteStore

def start (table : NamedTable) : State := .start table (.ofFlags ⟨true, true⟩)

/-- The step stands right-aligned in at least twenty columns. -/
def line (step : List Char) (response : Response) (host : Host) : String :=
  String.ofList (step.leftpad 20 ' ') ++ "  " ++ (response.action.elim "" Action.display) ++
    "  corrections=[" ++ ", ".intercalate (response.corrections.map Correction.display) ++
    "]  host=" ++ Key.displayList host.held

/-- What a replay puts out, or reports to a log. -/
inductive Entry where
  | printed (line : String)
  | reported (notice : Notice)
deriving DecidableEq

/-- The engine reports before the line of its step is printed. -/
def stepEntries (step : List Char) (response : Response) (host : Host) : List Entry :=
  response.notices.map .reported ++ [.printed (line step response host)]

/-- What the steps up to the first that cannot be read give, and what is wrong with that one. -/
def play (s : State) : List (List Char) → List Entry × Option StepFault
  | [] => ([], none)
  | step :: rest =>
    match readStep step with
    | .error fault => ([], some fault)
    | .ok (k, edge) =>
      let after := s.key k { edge }
      let played := play after.1 rest
      (stepEntries step after.2 after.1.host ++ played.1, played.2)

inductive Fault where
  | load (fault : LoadFault)
  | step (fault : StepFault)
deriving DecidableEq

/-- A storage fault is told twice, the second time as its own cause. -/
def Fault.report : Fault → String
  | load (.storage fault) =>
    "Error: " ++ fault.message ++ "\n\nCaused by:\n    " ++ fault.cause ++ "\n"
  | load fault => "Error: " ++ fault.message ++ "\n"
  | step fault => "Error: " ++ fault.message ++ "\n"

/-- What is written into the output of each notice. -/
abbrev Log := Notice → String

def Log.off : Log := fun _ => ""

namespace Entry

def text (log : Log) : Entry → String
  | printed line => line ++ "\n"
  | reported notice => log notice

def line? : Entry → Option String
  | printed line => some line
  | reported _ => none

end Entry

structure Transcript where
  entries : List Entry
  fault : Option Fault
deriving DecidableEq

namespace Transcript

def lines (t : Transcript) : List String := t.entries.filterMap Entry.line?

/-- The output with what a log writes into it. -/
def outputWith (t : Transcript) (log : Log) : String := String.join (t.entries.map (Entry.text log))

def output (t : Transcript) : String := t.outputWith .off

def errors (t : Transcript) : String := t.fault.elim "" Fault.report

def exitCode (t : Transcript) : UInt32 := if t.fault.isSome then 1 else 0

end Transcript

/-- The line on the table, which comes before the engine starts. -/
def header (table : NamedTable) : String := "Table: " ++ toString table.pairs.length ++ " pairs"

def opening (table : NamedTable) : List Entry :=
  .printed (header table) :: (Modes.startNotices (ByteStore.ofFlags ⟨true, true⟩)).map .reported

/-- The replay of a script over a table file, of which reading gave the bytes or failed. -/
def replay (content : Except StorageFault (List UInt8)) (script : List Char) : Transcript :=
  let loading := (NamedTable.loadNotices content).map Entry.reported
  match NamedTable.load content with
  | .error fault => ⟨loading, some (.load fault)⟩
  | .ok table =>
    let played := play (start table) (Text.words script)
    ⟨loading ++ opening table ++ played.1, played.2.map Fault.step⟩

structure Arguments where
  tablePath : String := "tables/wasd-socd.kct"
  script : String := "+A +D -D -A +W +S +KC_CANCEL_TOGG -S +S -S -W"
deriving DecidableEq

/-- Arguments after the second do not count. -/
def Arguments.of : List String → Arguments
  | [] => {}
  | [tablePath] => { tablePath }
  | tablePath :: script :: _ => { tablePath, script }

end OpposingKeys.Replay
