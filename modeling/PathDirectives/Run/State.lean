import PathDirectives.Run.Interpret
import PathDirectives.Run.Site

/-!
A run in progress, and how it is built from a scenario: its settings are checked first, and then the
path texts of all equipment without elements are compiled.
-/

namespace PathDirectives

open Calendar

structure CompletionWatch where
  waiting : TaskSet
  delay : Span
  action : Option Action

/-- An action that waits for its equipment to take up one of the elements, which arms it, and then
to release its work; it is gone once it has been applied. -/
structure SelectionWatch where
  equipment : EquipmentId
  elements : List ElementId
  armed : Bool := false
  action : Option Action

structure Run where
  config : Config
  library : ScheduleLibrary
  site : Site
  agenda : Agenda Action := {}
  /-- The latest instant that the run has been advanced to. -/
  now : Instant
  parsed : List EquipmentId := []
  completions : List CompletionWatch := []
  watchers : List (TaskId × List Nat) := []
  selections : List SelectionWatch := []
  setupDone : Bool := false

structure SetupSummary where
  equipment : Nat
  waitCounters : Nat
  timeConstraints : Nat
  pendingEffects : Nat
  deriving DecidableEq

namespace Run

def needsPath (equipment : Equipment) : Bool :=
  equipment.path.isEmpty && !(Text.trimmed equipment.pathText).isEmpty

def compileEquipment (scenario : Scenario) (equipment : Equipment) :
    Except CompileError Equipment :=
  if needsPath equipment then
    (compilePath scenario equipment.pathText).map fun path => { equipment with path }
  else .ok equipment

def compileAll (scenario : Scenario) : Except CompileError Scenario :=
  (scenario.equipment.mapM (compileEquipment scenario)).map fun equipment =>
    { scenario with equipment }

def start (config : Config) (scenario : Scenario) (library : ScheduleLibrary) : Run :=
  { config, library, site := { scenario }, now := config.runStart }

def build (config : Config) (scenario : Scenario) (library : ScheduleLibrary) (compiles : Bool) :
    Except RunError Run :=
  match config.validate with
  | .error error => .error (.config error)
  | .ok () =>
      if compiles then
        match compileAll scenario with
        | .error error => .error (.compile error)
        | .ok scenario => .ok (start config scenario library)
      else .ok (start config scenario library)

def scenario (run : Run) : Scenario := run.site.scenario

def holds (run : Run) : HoldRegister := run.site.holds

def isParsed (run : Run) (equipment : EquipmentId) : Bool := run.parsed.contains equipment

def watchersOf (run : Run) (task : TaskId) : List Nat :=
  (Keyed.find? task run.watchers).getD []

def isAvailable (run : Run) (equipment : EquipmentId) (task : TaskId) (date : Instant) : Bool :=
  run.holds.isAvailable equipment task date

def summary (run : Run) : SetupSummary :=
  { equipment := run.parsed.length
    waitCounters := run.holds.counterCount
    timeConstraints := run.holds.windowCount
    pendingEffects :=
      run.agenda.size + run.completions.countP (·.action.isSome) +
        run.selections.countP (·.action.isSome) }

/-- An agenda with an action due a delay after a date; an action beyond the end of the calendar is
dropped. -/
def pushAfter (agenda : Agenda Action) (date : Instant) (delay : Span) (action : Action) :
    Agenda Action :=
  match date.add? delay with
  | some due => agenda.push due action
  | none => agenda

end Run

end PathDirectives
