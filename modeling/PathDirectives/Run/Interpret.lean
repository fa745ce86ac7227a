import PathDirectives.Calendar.Overlap
import PathDirectives.Directive.Scan
import PathDirectives.PathText.Line
import PathDirectives.Run.Effect
import PathDirectives.Run.Gate

/-!
The directives of a line, and what each of them asks for. Nothing is changed here: registrations and
effects are returned, and whoever reads the whole path installs them.
-/

namespace PathDirectives

open Calendar

/-- What directives may look at. `graph` holds the edges as of the line. -/
structure Interpreter where
  config : Config
  scenario : Scenario
  graph : TaskGraph
  library : ScheduleLibrary
  id : EquipmentId
  equipment : Equipment

structure LineScope where
  elements : List ElementId
  tasks : TaskSet
  steps : List Step

def WalkedLine.scope (line : WalkedLine) : LineScope :=
  { elements := line.elements.map (·.id)
    tasks := TaskSet.ofList (line.elements.flatMap Element.tasks)
    steps := line.elements.flatMap Element.steps }

namespace Interpreter

/-- The directives to be followed among commands, and the gate behind them. Unknown words are passed
over, as is everything but the gate's own directives on a line without elements. -/
def follow (interpreter : Interpreter) (hasElements : Bool) (gate : Gate) :
    List Command → Gate × Except DirectiveError (List Directive)
  | [] => (gate, .ok [])
  | command :: more =>
      match DirectiveKind.ofName? command.name with
      | none => interpreter.follow hasElements gate more
      | some kind =>
          if !kind.isGate && !hasElements then interpreter.follow hasElements gate more
          else
            match gate.pass kind with
            | .error error => (gate, .error error)
            | .ok (next, false) => interpreter.follow hasElements next more
            | .ok (next, true) =>
                match Directive.resolve interpreter.config interpreter.scenario kind command with
                | .error error => (next, .error (.argument kind error))
                | .ok directive =>
                    let (last, rest) := interpreter.follow hasElements next more
                    (last, rest.map (directive :: ·))

def directives (interpreter : Interpreter) (line : WalkedLine) (gate : Gate) :
    Gate × Except DirectiveError (List Directive) :=
  match line.comment with
  | none => (gate, .ok [])
  | some comment =>
      interpreter.follow (!line.elements.isEmpty) gate (scanComment comment)

/-! ### Interpretation -/

def waits (interpreter : Interpreter) (scope : LineScope) (predecessors : TaskSet) (delay : Span)
    (origin : Origin) : LineOutcome :=
  if predecessors.isEmpty then {}
  else
    { registrations := scope.tasks.ids.map fun task =>
        .wait ⟨interpreter.id, task⟩ (WaitCounter.new predecessors delay origin) }

def edges (scope : LineScope) (predecessors : TaskSet) (delay : Span) (rule : String) :
    LineOutcome :=
  if predecessors.isEmpty || scope.tasks.isEmpty then {}
  else { effects := [.now (.addDependencies scope.tasks predecessors delay rule)] }

/-- What makes a removal happen, unless nothing ever does. -/
def removal? (interpreter : Interpreter) (trigger : RemoveWhen) (delay : Span) (action : Action) :
    Option Effect :=
  match trigger with
  | .date date => (date.add? delay).map fun due => .onDate due action
  | .tasks tasks trigger =>
      if tasks.isEmpty then none
      else
        match trigger with
        | .completed => some (.onCompletion tasks delay action)
        | .available =>
            let predecessors := TaskSet.ofList (tasks.ids.flatMap interpreter.graph.predecessors)
            if predecessors.isEmpty then
              (interpreter.config.runStart.add? delay).map fun due => .onDate due action
            else some (.onCompletion predecessors delay action)

/-- A scheduled step as a step of this scenario, cut down to its share of a window; nothing if no
share of it lies there, or if the scenario lacks one of its tasks. -/
def scheduledStep? (scenario : Scenario) (start stop : Instant) (step : ScheduledStep) :
    Option Step :=
  let share := shareInside step.start step.stop start stop
  if share.isNothing then none
  else
    match scenario.findTask? step.source .source, step.destination with
    | none, _ => none
    | some source, none => some (planned source none share)
    | some source, some name =>
        (scenario.findTask? name .destination).map fun destination =>
          planned source (some destination) share
where
  planned (source : TaskId) (destination : Option TaskId) (share : Share) : Step :=
    { source
      destination
      quantity := some (step.quantity * share.toFloat)
      duration := some (overlap step.start step.stop start stop) }

def scheduledSteps (interpreter : Interpreter) (name equipment : String) (start stop : Instant)
    (kind : ScheduleKind) : Except DirectiveError (List Step) :=
  match interpreter.library.steps? name kind with
  | none => .error (.noSchedule name kind)
  | some schedule =>
      let worked := schedule.filter fun step =>
        Text.sameWord step.equipment (Text.trimmed equipment)
      .ok (worked.filterMap (scheduledStep? interpreter.scenario start stop))

def interpret (interpreter : Interpreter) (line : WalkedLine) (directive : Directive) :
    Except DirectiveError LineOutcome :=
  let scope := line.scope
  let origin : Origin := ⟨line.number, line.text, directive.kind.name⟩
  let id := interpreter.id
  match directive with
  | .enable => .ok {}
  | .disable => .ok {}
  | .waitFree delay =>
      .ok
        (interpreter.waits scope (interpreter.graph.externalPredecessors scope.tasks) delay origin)
  | .waitOn predecessors delay =>
      .ok (interpreter.waits scope (predecessors.diff scope.tasks) delay origin)
  | .dependFree delay =>
      .ok (edges scope (interpreter.graph.externalPredecessors scope.tasks) delay "dependfree")
  | .dependOn predecessors delay =>
      .ok (edges scope (predecessors.diff scope.tasks) delay "dependon")
  | .dependClear date only =>
      .ok
        (if scope.tasks.isEmpty then {}
        else { effects := [.onDate date (.removeDependencies scope.tasks only)] })
  | .deadhead duration process =>
      match process.or interpreter.equipment.inactiveProcess with
      | none => .error .noIdleProcess
      | some process =>
          .ok
            (if scope.tasks.isEmpty then {}
            else
              { effects :=
                  [.onCompletion scope.tasks Span.zero
                    (.insertIdle id line.number process duration)] })
  | .timeConstrain start stop mode =>
      .ok
        { registrations := scope.tasks.ids.map fun task =>
            .window ⟨id, task⟩ { mode, start, stop, origin } }
  | .remove trigger delay =>
      .ok
        { effects :=
            (interpreter.removal? trigger delay (.removeElements id scope.elements)).toList }
  | .forceComplete date ignoreConstraints =>
      .ok
        (if interpreter.config.runEnd < date || scope.steps.isEmpty then {}
        else
          { effects :=
              [.onDate date (.forceComplete id line.number scope.steps ignoreConstraints)] })
  | .reprioritise =>
      .ok { effects := [.onSelection id scope.elements (.moveToFront id scope.elements)] }
  | .injectSchedulePath name equipment start stop kind =>
      match interpreter.scheduledSteps name equipment start stop kind with
      | .error error => .error error
      | .ok steps =>
          match scope.elements.getLast? with
          | none => .ok {}
          | some anchor =>
              .ok
                (if steps.isEmpty then {}
                else { effects := [.now (.insertSteps id line.number anchor steps)] })

end Interpreter

end PathDirectives
