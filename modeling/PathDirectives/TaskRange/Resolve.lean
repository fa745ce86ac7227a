import PathDirectives.Scenario.Basic
import PathDirectives.TaskRange.Basic

/-!
The tasks of a scenario that a range names.
-/

namespace PathDirectives

def RoleFilter.admits : RoleFilter → TaskRole → Bool
  | .any, _ => true
  | .source, role => role == .source
  | .destination, role => role == .destination

/-- The processes that a filter lets through, or nothing where it lets all through. The first name
that no process has is an error. -/
def ProcessFilter.resolve (scenario : Scenario) :
    ProcessFilter → Except LookupError (Option (List ProcessId))
  | .all => .ok none
  | .named names => (names.mapM scenario.processByName).map some

namespace RangeTerm

def admits (term : RangeTerm) (processes : Option (List ProcessId)) (task : Task) : Bool :=
  term.role.admits task.role &&
    (match processes with
      | none => true
      | some ids => ids.contains task.process) &&
    let name := Text.lower task.name.toList
    term.patterns.any fun pattern => Glob.isMatch pattern name

def resolve (scenario : Scenario) (term : RangeTerm) : Except LookupError (List TaskId) :=
  (term.processes.resolve scenario).map fun processes =>
    scenario.tasks.ids.filter fun id =>
      match scenario.tasks.get? id with
      | some task => term.admits processes task
      | none => false

end RangeTerm

def TaskRange.resolve (range : TaskRange) (scenario : Scenario) : Except LookupError TaskSet :=
  (range.terms.mapM (RangeTerm.resolve scenario)).map fun found => TaskSet.ofList found.flatten

inductive TaskRangeError where
  | malformed (error : RangeError)
  | lookup (error : LookupError)
  deriving DecidableEq

def TaskRangeError.message : TaskRangeError → String
  | .malformed error => "invalid task range: " ++ error.message
  | .lookup error => error.message

def Scenario.tasksNamed (scenario : Scenario) (text : String) : Except TaskRangeError TaskSet :=
  match TaskRange.parse text with
  | .error error => .error (.malformed error)
  | .ok range =>
      match range.resolve scenario with
      | .error error => .error (.lookup error)
      | .ok tasks => .ok tasks

end PathDirectives
