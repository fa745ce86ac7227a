import PathDirectives.Config
import PathDirectives.PathText.Compile
import PathDirectives.Run.Agenda
import PathDirectives.Run.Effect
import PathDirectives.Run.Gate

/-!
What actions work on: the scenario and the register of holds. An action neither reads the clock nor
puts anything on an agenda. One that fails may have done a part of its work, which stays done.
-/

namespace PathDirectives

open Calendar

inductive RunError where
  | onLine (equipment : String) (line : Nat) (error : DirectiveError)
  | config (error : ConfigError)
  | lookup (error : LookupError)
  | compile (error : CompileError)
  | hold (error : HoldError)
  deriving DecidableEq

def RunError.message : RunError → String
  | .onLine equipment line error =>
      "equipment `" ++ equipment ++ "`, line " ++ Nat.repr line ++ ": " ++ error.message
  | .config error => "configuration error: " ++ error.message
  | .lookup error => error.message
  | .compile error => error.message
  | .hold error => error.message

def RunError.graph (error : GraphError) : RunError := .lookup (.graph error)

structure Site where
  scenario : Scenario
  holds : HoldRegister := {}

namespace Site

def withGraph (site : Site) (graph : TaskGraph) : Site :=
  { site with scenario := { site.scenario with tasks := graph } }

def editGraph (site : Site) (edit : TaskGraph × Except GraphError Unit) :
    Site × Except RunError Unit :=
  (site.withGraph edit.1, edit.2.mapError RunError.graph)

def editPath (site : Site) (equipment : EquipmentId) (change : Path → Path) :
    Site × Except RunError Unit :=
  match site.scenario.changePath equipment change with
  | .ok scenario => ({ site with scenario }, .ok ())
  | .error error => (site, .error (.lookup error))

def editHolds (site : Site) (edit : Except HoldError HoldRegister) : Site × Except RunError Unit :=
  match edit with
  | .ok holds => ({ site with holds }, .ok ())
  | .error error => (site, .error (.hold error))

def openSteps (site : Site) (steps : List Step) (ignoreConstraints : Bool) : List Step :=
  (steps.filter fun step => !site.scenario.tasks.isComplete step.source).map fun step =>
    { step with quantity := none, duration := none, rate := .instant, ignoreConstraints }

def apply (site : Site) : Action → Site × Except RunError Unit
  | .addDependencies tasks predecessors delay rule =>
      site.editGraph (site.scenario.tasks.addEdges delay rule (TaskGraph.pairs tasks predecessors))
  | .removeDependencies tasks only =>
      site.editGraph (site.scenario.tasks.dropEdges only tasks.ids)
  | .removeElements equipment elements => site.editPath equipment (·.removeAll elements)
  | .insertIdle equipment line process duration =>
      site.editPath equipment (·.pushFirst line (.idle process duration))
  | .forceComplete equipment line steps ignoreConstraints =>
      let steps := site.openSteps steps ignoreConstraints
      if steps.isEmpty then (site, .ok ())
      else site.editPath equipment (·.pushFirst line (.steps steps))
  | .moveToFront equipment elements => site.editPath equipment (·.moveToFront elements)
  | .insertSteps equipment line anchor steps =>
      site.editPath equipment (·.insertSteps line anchor steps)
  | .activateWindow handle => site.editHolds (site.holds.activate handle)
  | .deactivateWindow handle => site.editHolds (site.holds.deactivate handle)

def applyAll (site : Site) : List Action → Site × Except RunError Unit
  | [] => (site, .ok ())
  | action :: rest =>
      match site.apply action with
      | (next, .ok ()) => next.applyAll rest
      | (next, .error error) => (next, .error error)

/-- Applies everything on an agenda that is due, batch after batch. A batch is off the agenda once
its first action is applied, so that those behind a failing action in it are gone. -/
def drain (site : Site) (agenda : Agenda Action) (now : Instant) :
    Site × Agenda Action × Except RunError Unit :=
  match _popped : agenda.popDue now with
  | none => (site, agenda, .ok ())
  | some (batch, rest) =>
      match site.applyAll batch.2 with
      | (next, .ok ()) => next.drain rest now
      | (next, .error error) => (next, rest, .error error)
termination_by agenda.dateCount
decreasing_by exact Agenda.popDue_shorter _popped

end Site

end PathDirectives
