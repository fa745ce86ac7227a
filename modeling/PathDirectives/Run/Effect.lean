import PathDirectives.Hold.Register
import PathDirectives.Scenario.Path

/-!
What a directive asks for: records for the register, and actions that wait for something.
-/

namespace PathDirectives

open Calendar

inductive Action where
  | addDependencies (tasks predecessors : TaskSet) (delay : Span) (rule : String)
  | removeDependencies (tasks : TaskSet) (only : Option TaskSet)
  | removeElements (equipment : EquipmentId) (elements : List ElementId)
  | insertIdle (equipment : EquipmentId) (line : Nat) (process : ProcessId) (duration : Span)
  | forceComplete (equipment : EquipmentId) (line : Nat) (steps : List Step)
      (ignoreConstraints : Bool)
  | moveToFront (equipment : EquipmentId) (elements : List ElementId)
  | insertSteps (equipment : EquipmentId) (line : Nat) (anchor : ElementId) (steps : List Step)
  | activateWindow (handle : WindowHandle)
  | deactivateWindow (handle : WindowHandle)

def Action.label : Action → String
  | .addDependencies .. => "add-dependencies"
  | .removeDependencies .. => "remove-dependencies"
  | .removeElements .. => "remove-elements"
  | .insertIdle .. => "insert-idle"
  | .forceComplete .. => "force-complete"
  | .moveToFront .. => "move-to-front"
  | .insertSteps .. => "insert-steps"
  | .activateWindow .. => "activate-window"
  | .deactivateWindow .. => "deactivate-window"

inductive Effect where
  | now (action : Action)
  | onDate (date : Instant) (action : Action)
  /-- The delay runs from the last completion among the tasks. -/
  | onCompletion (tasks : TaskSet) (delay : Span) (action : Action)
  /-- The equipment has to take up one of the elements and then release its work. -/
  | onSelection (equipment : EquipmentId) (elements : List ElementId) (action : Action)

inductive Registration where
  | wait (key : HoldKey) (counter : WaitCounter)
  | window (key : HoldKey) (window : TimeWindow)

structure LineOutcome where
  registrations : List Registration := []
  effects : List Effect := []

namespace LineOutcome

def isEmpty (outcome : LineOutcome) : Bool :=
  outcome.registrations.isEmpty && outcome.effects.isEmpty

def append (first second : LineOutcome) : LineOutcome :=
  ⟨first.registrations ++ second.registrations, first.effects ++ second.effects⟩

end LineOutcome

end PathDirectives
