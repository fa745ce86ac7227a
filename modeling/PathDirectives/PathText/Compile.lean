import PathDirectives.Calendar.Layout
import PathDirectives.Calendar.TimeUnit
import PathDirectives.PathText.Line
import PathDirectives.TaskRange.Resolve

/-!
Path text turned into path elements. The code of a line is blank, `delay` and a span, `until` and a
date, or a task range; a range gives one step for each of its source tasks, all of them to its first
destination task, and no element if it has no source task.
-/

namespace PathDirectives

open Calendar

inductive LineFault where
  | delay (text : String)
  | date (text : String)
  | range (error : RangeError)
  | lookup (error : LookupError)
  deriving DecidableEq

def LineFault.message : LineFault → String
  | .delay text => "invalid delay " ++ Text.quoted text
  | .date text => "invalid date " ++ Text.quoted text
  | .range error => error.message
  | .lookup error => error.message

structure CompileError where
  line : Nat
  fault : LineFault
  deriving DecidableEq

def CompileError.message (error : CompileError) : String :=
  "path line " ++ Nat.repr error.line ++ ": " ++ error.fault.message

def Scenario.roleOf? (scenario : Scenario) (id : TaskId) : Option TaskRole :=
  (scenario.tasks.get? id).map (·.role)

/-- One planned step for each source task of a set, to the first destination task of the set. -/
def plannedSteps (scenario : Scenario) (tasks : TaskSet) : List Step :=
  let destination := tasks.ids.find? fun id => scenario.roleOf? id == some .destination
  let sources := tasks.ids.filter fun id => scenario.roleOf? id == some .source
  sources.map fun source => { source, destination }

/-- The first word of a line and what follows the white space after it. -/
def splitKeyword (code : List Char) : String × String :=
  match Text.cutAt Text.isBlank code with
  | some (keyword, rest) => (String.ofList keyword, String.ofList rest)
  | none => (String.ofList code, "")

def compileRange (scenario : Scenario) (code : List Char) :
    Except LineFault (Option ElementKind) :=
  match scenario.tasksNamed (String.ofList code) with
  | .error (.malformed error) => .error (.range error)
  | .error (.lookup error) => .error (.lookup error)
  | .ok tasks =>
      let steps := plannedSteps scenario tasks
      .ok (if steps.isEmpty then none else some (.steps steps))

def compileCode (scenario : Scenario) (code : List Char) : Except LineFault (Option ElementKind) :=
  let (keyword, rest) := splitKeyword code
  if Text.sameWord keyword "delay" then
    match parseSpan? rest with
    | some duration => .ok (some (.delay duration))
    | none => .error (.delay rest)
  else if Text.sameWord keyword "until" then
    match parseDate? rest with
    | some date => .ok (some (.until date))
    | none => .error (.date rest)
  else compileRange scenario code

def compileLine (scenario : Scenario) (line : List Char) : Except LineFault (Option ElementKind) :=
  let code := Text.trim (splitComment line).1
  if code.isEmpty then .ok none else compileCode scenario code

def compileFrom (scenario : Scenario) (number : Nat) (path : Path) :
    List (List Char) → Except CompileError Path
  | [] => .ok path
  | line :: more =>
      match compileLine scenario line with
      | .error fault => .error ⟨number, fault⟩
      | .ok none => compileFrom scenario (number + 1) path more
      | .ok (some kind) => compileFrom scenario (number + 1) (path.push number kind) more

def compilePath (scenario : Scenario) (text : String) : Except CompileError Path :=
  compileFrom scenario 1 {} (Text.lines text.toList)

end PathDirectives
