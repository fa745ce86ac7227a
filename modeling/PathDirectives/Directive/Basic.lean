import PathDirectives.Directive.Argument
import PathDirectives.Directive.Command

/-!
Directives: commands of a known kind with their arguments read and looked up in a scenario.
-/

namespace PathDirectives

open Calendar

inductive RemoveWhen where
  | date (date : Instant)
  | tasks (tasks : TaskSet) (trigger : RemoveTrigger)
  deriving DecidableEq

inductive Directive where
  | enable
  | disable
  | waitFree (delay : Span)
  | waitOn (predecessors : TaskSet) (delay : Span)
  | dependFree (delay : Span)
  | dependOn (predecessors : TaskSet) (delay : Span)
  | dependClear (date : Instant) (only : Option TaskSet)
  | deadhead (duration : Span) (process : Option ProcessId)
  | timeConstrain (start stop : Instant) (mode : TimeMode)
  | remove (trigger : RemoveWhen) (delay : Span)
  | forceComplete (date : Instant) (ignoreConstraints : Bool)
  | reprioritise
  | injectSchedulePath (scenario equipment : String) (start stop : Instant) (kind : ScheduleKind)
  deriving DecidableEq

namespace Directive

def kind : Directive → DirectiveKind
  | .enable => .enable
  | .disable => .disable
  | .waitFree .. => .waitFree
  | .waitOn .. => .waitOn
  | .dependFree .. => .dependFree
  | .dependOn .. => .dependOn
  | .dependClear .. => .dependClear
  | .deadhead .. => .deadhead
  | .timeConstrain .. => .timeConstrain
  | .remove .. => .remove
  | .forceComplete .. => .forceComplete
  | .reprioritise => .reprioritise
  | .injectSchedulePath .. => .injectSchedulePath

def releaseDelay (config : Config) (command : Command) : Except ArgumentError Span :=
  Argument.spanOr "delay" (command.argument? "delay") config.releaseDelay config.runEnd

def requiredTasks (scenario : Scenario) (command : Command) : Except ArgumentError TaskSet := do
  let value ← Argument.required "tasks" (command.argumentOrPositional? "tasks")
  Argument.tasks "tasks" value scenario

def window (config : Config) (command : Command) : Except ArgumentError (Instant × Instant) := do
  let start ← Argument.dateOr "start" (command.argument? "start") config.runStart
  let stop ← Argument.dateOr "end" (command.argument? "end") config.runEnd
  if stop ≤ start then .error (.emptyWindow start stop) else .ok (start, stop)

def removeWhen (config : Config) (scenario : Scenario) (command : Command) :
    Except ArgumentError RemoveWhen :=
  match command.argument? "date", command.argumentOrPositional? "tasks" with
  | some _, some _ => .error (.conflict "date" "tasks")
  | some date, none => do
      let date ← Argument.date "date" date
      return .date date
  | none, some tasks => do
      let tasks ← Argument.tasks "tasks" tasks scenario
      let trigger ← Argument.choiceOr RemoveTrigger.wording "on" (command.argument? "on")
        config.removeTrigger
      return .tasks tasks trigger
  | none, none => .error (.missing "date|tasks")

/-- The directive of a command whose word names `kind`. Arguments are read one after the other, and
the first at fault is reported. -/
def resolve (config : Config) (scenario : Scenario) (kind : DirectiveKind) (command : Command) :
    Except ArgumentError Directive :=
  match kind with
  | .enable => .ok .enable
  | .disable => .ok .disable
  | .waitFree => do
      let delay ← releaseDelay config command
      return .waitFree delay
  | .waitOn => do
      let predecessors ← requiredTasks scenario command
      let delay ← releaseDelay config command
      return .waitOn predecessors delay
  | .dependFree => do
      let delay ← releaseDelay config command
      return .dependFree delay
  | .dependOn => do
      let predecessors ← requiredTasks scenario command
      let delay ← releaseDelay config command
      return .dependOn predecessors delay
  | .dependClear => do
      let date ← Argument.dateOr "date" (command.argument? "date") config.runStart
      let only ← Argument.optional (Argument.tasks "tasks" · scenario)
        (command.argumentOrPositional? "tasks")
      return .dependClear date only
  | .deadhead => do
      let value ← Argument.required "duration" (command.argumentOrPositional? "duration")
      let duration ← Argument.span "duration" value config.runEnd
      let process ← Argument.optional (Argument.process "process" · scenario)
        (command.argument? "process")
      return .deadhead duration process
  | .timeConstrain => do
      let (start, stop) ← window config command
      let mode ← Argument.choiceOr TimeMode.wording "mode" (command.argument? "mode")
        config.timeMode
      return .timeConstrain start stop mode
  | .remove => do
      let trigger ← removeWhen config scenario command
      let delay ← Argument.spanOr "delay" (command.argument? "delay") Span.zero config.runEnd
      return .remove trigger delay
  | .forceComplete => do
      let date ← Argument.dateOr "date" (command.argumentOrPositional? "date") config.runStart
      let ignoreConstraints ← Argument.choiceOr switchWording "ignore" (command.argument? "ignore")
        false
      return .forceComplete date ignoreConstraints
  | .reprioritise => .ok .reprioritise
  | .injectSchedulePath => do
      let (start, stop) ← window config command
      let other ← Argument.required "case" (command.argument? "case")
      let equipment ← Argument.required "equipment" (command.argumentOrPositional? "equipment")
      let kind ← Argument.choiceOr ScheduleKind.wording "from" (command.argument? "from") .output
      return .injectSchedulePath other equipment start stop kind

end Directive

end PathDirectives
