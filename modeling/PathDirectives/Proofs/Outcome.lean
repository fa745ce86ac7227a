import PathDirectives.Proofs.Instants
import PathDirectives.Proofs.Results

/-!
What a path can ask for. `Directive.Resolved` tells what a directive is read from, `Records` and
`Requests` what it asks for on its line. Each part of the outcome of a path was asked for by a
directive on one of its lines, so that what holds of every single directive holds of the path.
-/

namespace PathDirectives

open Calendar

def Action.window? : Action → Option WindowHandle
  | .activateWindow handle => some handle
  | .deactivateWindow handle => some handle
  | _ => none

def Effect.action : Effect → Action
  | .now action => action
  | .onDate _ action => action
  | .onCompletion _ _ action => action
  | .onSelection _ _ action => action

/-- A counter waits for something and has been told nothing yet; a window opens before it closes and
has done neither. -/
def Registration.Fresh : Registration → Prop
  | .wait _ counter => ∃ predecessors delay origin,
      predecessors.isEmpty = false ∧ counter = WaitCounter.new predecessors delay origin
  | .window _ dated =>
      dated.start < dated.stop ∧ dated.isActive = false ∧ dated.started = false

def Registration.Forward : Registration → Prop
  | .wait _ counter => 0 ≤ counter.releaseDelay.nanoseconds
  | .window .. => True

namespace LineOutcome

variable {ofRecord : Registration → Prop} {ofEffect : Effect → Prop}

structure All (ofRecord : Registration → Prop) (ofEffect : Effect → Prop)
    (outcome : LineOutcome) : Prop where
  records : ∀ registration ∈ outcome.registrations, ofRecord registration
  effects : ∀ effect ∈ outcome.effects, ofEffect effect

theorem all_empty : All ofRecord ofEffect {} := ⟨by simp, by simp⟩

theorem All.append {first second : LineOutcome} (left : first.All ofRecord ofEffect)
    (right : second.All ofRecord ofEffect) : (first.append second).All ofRecord ofEffect where
  records registration member :=
    (List.mem_append.mp member).elim (left.records registration) (right.records registration)
  effects effect member :=
    (List.mem_append.mp member).elim (left.effects effect) (right.effects effect)

theorem All.mono {alsoRecord : Registration → Prop} {alsoEffect : Effect → Prop}
    {outcome : LineOutcome} (all : outcome.All ofRecord ofEffect)
    (records : ∀ registration, ofRecord registration → alsoRecord registration)
    (effects : ∀ effect, ofEffect effect → alsoEffect effect) :
    outcome.All alsoRecord alsoEffect where
  records registration member := records registration (all.records registration member)
  effects effect member := effects effect (all.effects effect member)

theorem all_effect {effect : Effect} (holds : ofEffect effect) :
    All ofRecord ofEffect { effects := [effect] } :=
  ⟨by simp, by simpa using holds⟩

end LineOutcome

namespace Interpreter

variable {interpreter : Interpreter}

theorem follow_resolved {hasElements : Bool} {gate last : Gate} {commands : List Command}
    {directives : List Directive}
    (followed : interpreter.follow hasElements gate commands = (last, .ok directives)) :
    ∀ directive ∈ directives, ∃ kind command,
      Directive.resolve interpreter.config interpreter.scenario kind command = .ok directive := by
  induction commands generalizing gate last directives with
  | nil =>
      simp only [follow, Prod.mk.injEq, Except.ok.injEq] at followed
      simp [← followed.2]
  | cons command more ih =>
      simp only [follow] at followed
      split at followed
      · exact ih followed
      · split at followed
        · exact ih followed
        · split at followed
          · simp at followed
          · exact ih followed
          · split at followed
            · simp at followed
            · rename_i kind _ _ _ next _ _ first resolved
              simp only [Prod.mk.injEq] at followed
              obtain ⟨-, mapped⟩ := followed
              cases rest : (interpreter.follow hasElements next more).2 with
              | error error => simp [rest, Except.map] at mapped
              | ok others =>
                  simp only [rest, Except.map, Except.ok.injEq] at mapped
                  subst mapped
                  intro directive member
                  rcases List.mem_cons.mp member with same | later
                  · exact ⟨kind, command, same ▸ resolved⟩
                  · exact ih (Prod.ext rfl rest) directive later

theorem directives_resolved {line : WalkedLine} {gate last : Gate} {directives : List Directive}
    (followed : interpreter.directives line gate = (last, .ok directives)) :
    ∀ directive ∈ directives, ∃ kind command,
      Directive.resolve interpreter.config interpreter.scenario kind command = .ok directive := by
  unfold Interpreter.directives at followed
  split at followed
  · simp only [Prod.mk.injEq, Except.ok.injEq] at followed
    simp [← followed.2]
  · exact follow_resolved followed

end Interpreter

namespace Run

variable {run : Run} {id : EquipmentId} {equipment : Equipment}
  {ofRecord : Registration → Prop} {ofEffect : Effect → Prop}

/-- What a directive on one of some lines asks for, if the task graph is as it should be when it is
read; its edges leave the graph so. -/
def EachDirective (run : Run) (id : EquipmentId) (equipment : Equipment) (lines : List WalkedLine)
    (graphOk : TaskGraph → Prop) (ofRecord : Registration → Prop) (ofEffect : Effect → Prop) :
    Prop :=
  ∀ line ∈ lines, ∀ kind command directive graph outcome, graphOk graph →
    Directive.resolve run.config run.scenario kind command = .ok directive →
      (run.interpreter id equipment graph).interpret line directive = .ok outcome →
        outcome.All ofRecord ofEffect ∧
          ∀ next, stage graph outcome.effects = (next, .ok ()) → graphOk next

variable {lines : List WalkedLine} {graphOk : TaskGraph → Prop}

theorem interpretAll_all
    (each : run.EachDirective id equipment lines graphOk ofRecord ofEffect)
    {line : WalkedLine} (inside : line ∈ lines) {graph last : TaskGraph}
    {outcome total : LineOutcome} {directives : List Directive}
    (resolved : ∀ directive ∈ directives, ∃ kind command,
      Directive.resolve run.config run.scenario kind command = .ok directive)
    (good : graphOk graph) (before : outcome.All ofRecord ofEffect)
    (done : run.interpretAll id equipment line graph outcome directives = .ok (last, total)) :
    graphOk last ∧ total.All ofRecord ofEffect := by
  induction directives generalizing graph outcome with
  | nil =>
      simp only [interpretAll, Except.ok.injEq, Prod.mk.injEq] at done
      obtain ⟨rfl, rfl⟩ := done
      exact ⟨good, before⟩
  | cons directive rest ih =>
      simp only [interpretAll] at done
      split at done
      · simp at done
      · rename_i part interpreted
        obtain ⟨kind, command, known⟩ := resolved directive List.mem_cons_self
        obtain ⟨own, stays⟩ :=
          each line inside kind command directive graph part good known interpreted
        split at done
        · simp at done
        · rename_i next staged
          exact ih (fun other member => resolved other (List.mem_cons_of_mem _ member))
            (stays next staged) (before.append own) done

theorem readLine_all (each : run.EachDirective id equipment lines graphOk ofRecord ofEffect)
    {reading next : PathReading} {line : WalkedLine} (inside : line ∈ lines)
    (good : graphOk reading.graph) (before : reading.outcome.All ofRecord ofEffect)
    (read : run.readLine id equipment reading line = .ok next) :
    graphOk next.graph ∧ next.outcome.All ofRecord ofEffect := by
  unfold readLine at read
  split at read
  · simp at read
  · rename_i gate directives followed
    split at read
    · simp at read
    · rename_i graph outcome done
      simp only [Except.ok.injEq] at read
      subst read
      have resolved := Interpreter.directives_resolved followed
      obtain ⟨stays, own⟩ :=
        interpretAll_all each inside resolved good LineOutcome.all_empty done
      exact ⟨stays, before.append own⟩

theorem readLines_all (each : run.EachDirective id equipment lines graphOk ofRecord ofEffect)
    {reading last : PathReading} {ahead : List WalkedLine} (inside : ∀ line ∈ ahead, line ∈ lines)
    (good : graphOk reading.graph) (before : reading.outcome.All ofRecord ofEffect)
    (read : run.readLines id equipment reading ahead = (last, .ok ())) :
    last.outcome.All ofRecord ofEffect := by
  induction ahead generalizing reading with
  | nil =>
      simp only [readLines, Prod.mk.injEq, and_true] at read
      exact read ▸ before
  | cons line more ih =>
      simp only [readLines] at read
      split at read
      · simp at read
      · rename_i next first
        obtain ⟨stays, own⟩ :=
          readLine_all each (inside line List.mem_cons_self) good before first
        exact ih (fun other member => inside other (List.mem_cons_of_mem _ member)) stays own read

theorem readPath_each
    (each : run.EachDirective id equipment (walk equipment.pathText equipment.path.elements)
      graphOk ofRecord ofEffect)
    (good : graphOk run.scenario.tasks) {reading : PathReading}
    (read : run.readPath id equipment = (reading, .ok ())) :
    reading.outcome.All ofRecord ofEffect :=
  readLines_all each (fun _ member => member) good LineOutcome.all_empty read

theorem readPath_all
    (each : ∀ line kind command directive graph outcome,
      Directive.resolve run.config run.scenario kind command = .ok directive →
        (run.interpreter id equipment graph).interpret line directive = .ok outcome →
          outcome.All ofRecord ofEffect)
    {reading : PathReading} (read : run.readPath id equipment = (reading, .ok ())) :
    reading.outcome.All ofRecord ofEffect := by
  have onAny : run.EachDirective id equipment (walk equipment.pathText equipment.path.elements)
      (fun _ => True) ofRecord ofEffect := by
    intro line _ kind command directive graph outcome _ resolved interpreted
    exact ⟨each line kind command directive graph outcome resolved interpreted,
      fun _ _ => trivial⟩
  exact readPath_each onAny trivial read

end Run

/-! ### Single directives -/

theorem Argument.span_admissible {name value : String} {horizon : Instant} {span : Span}
    (read : Argument.span name value horizon = .ok span) : span.Admissible horizon := by
  unfold Argument.span at read
  split at read
  · simp at read
  · rename_i parsed
    split at read
    · rename_i fits
      obtain rfl := Except.ok.inj read
      obtain ⟨seconds, rfl⟩ := parseSpan?_eq_some parsed
      refine ⟨parseSpan?_nonneg parsed, ?_, fits⟩
      simp only [Span.ofSeconds]
      omega
    · simp at read

theorem Argument.spanOr_cases {name : String} {value : Option String} {fallback span : Span}
    {horizon : Instant} (read : Argument.spanOr name value fallback horizon = .ok span) :
    value.isNone = true ∧ span = fallback ∨
      value.isNone = false ∧ span.Admissible horizon := by
  cases value with
  | none => exact .inl ⟨rfl, (Except.ok.inj read).symm⟩
  | some written => exact .inr ⟨rfl, Argument.span_admissible read⟩

namespace Directive

variable {config : Config} {scenario : Scenario} {kind : DirectiveKind} {command : Command}

def Ordered : Directive → Prop
  | .timeConstrain start stop _ => start < stop
  | _ => True

def Forward : Directive → Prop
  | .waitFree delay => 0 ≤ delay.nanoseconds
  | .waitOn _ delay => 0 ≤ delay.nanoseconds
  | _ => True

def spans : Directive → List Span
  | .waitFree delay => [delay]
  | .waitOn _ delay => [delay]
  | .dependFree delay => [delay]
  | .dependOn _ delay => [delay]
  | .deadhead duration _ => [duration]
  | .remove _ delay => [delay]
  | _ => []

/-- Whether a command leaves its delay to the settings. -/
def fallsBack (kind : DirectiveKind) (command : Command) : Bool :=
  match kind with
  | .waitFree | .waitOn | .dependFree | .dependOn => (command.argument? "delay").isNone
  | _ => false

theorem window_ordered {start stop : Instant}
    (read : window config command = .ok (start, stop)) : start < stop := by
  simp only [window, bind_eq_ok] at read
  obtain ⟨first, _, last, _, checked⟩ := read
  split at checked
  · simp at checked
  · rename_i after
    simp only [Except.ok.injEq, Prod.mk.injEq] at checked
    obtain ⟨rfl, rfl⟩ := checked
    exact Instant.not_le.mp after

/-- What each directive is read from, argument by argument. -/
inductive Resolved (config : Config) (scenario : Scenario) (command : Command) :
    DirectiveKind → Directive → Prop where
  | enable : Resolved config scenario command .enable .enable
  | disable : Resolved config scenario command .disable .disable
  | waitFree {delay : Span} (delayed : releaseDelay config command = .ok delay) :
      Resolved config scenario command .waitFree (.waitFree delay)
  | waitOn {tasks : TaskSet} {delay : Span} (named : requiredTasks scenario command = .ok tasks)
      (delayed : releaseDelay config command = .ok delay) :
      Resolved config scenario command .waitOn (.waitOn tasks delay)
  | dependFree {delay : Span} (delayed : releaseDelay config command = .ok delay) :
      Resolved config scenario command .dependFree (.dependFree delay)
  | dependOn {tasks : TaskSet} {delay : Span} (named : requiredTasks scenario command = .ok tasks)
      (delayed : releaseDelay config command = .ok delay) :
      Resolved config scenario command .dependOn (.dependOn tasks delay)
  | dependClear {date : Instant} {only : Option TaskSet}
      (dated : Argument.dateOr "date" (command.argument? "date") config.runStart = .ok date)
      (named : Argument.optional (Argument.tasks "tasks" · scenario)
        (command.argumentOrPositional? "tasks") = .ok only) :
      Resolved config scenario command .dependClear (.dependClear date only)
  | deadhead {value : String} {duration : Span} {process : Option ProcessId}
      (given : Argument.required "duration" (command.argumentOrPositional? "duration") = .ok value)
      (lasts : Argument.span "duration" value config.runEnd = .ok duration)
      (idles : Argument.optional (Argument.process "process" · scenario)
        (command.argument? "process") = .ok process) :
      Resolved config scenario command .deadhead (.deadhead duration process)
  | timeConstrain {start stop : Instant} {mode : TimeMode}
      (lasts : window config command = .ok (start, stop))
      (chosen : Argument.choiceOr TimeMode.wording "mode" (command.argument? "mode")
        config.timeMode = .ok mode) :
      Resolved config scenario command .timeConstrain (.timeConstrain start stop mode)
  | remove {trigger : RemoveWhen} {delay : Span}
      (triggered : removeWhen config scenario command = .ok trigger)
      (delayed : Argument.spanOr "delay" (command.argument? "delay") Span.zero config.runEnd =
        .ok delay) :
      Resolved config scenario command .remove (.remove trigger delay)
  | forceComplete {date : Instant} {ignoreConstraints : Bool}
      (dated : Argument.dateOr "date" (command.argumentOrPositional? "date") config.runStart =
        .ok date)
      (ignores : Argument.choiceOr switchWording "ignore" (command.argument? "ignore") false =
        .ok ignoreConstraints) :
      Resolved config scenario command .forceComplete (.forceComplete date ignoreConstraints)
  | reprioritise : Resolved config scenario command .reprioritise .reprioritise
  | injectSchedulePath {other equipment : String} {start stop : Instant} {source : ScheduleKind}
      (lasts : window config command = .ok (start, stop))
      (case_ : Argument.required "case" (command.argument? "case") = .ok other)
      (worker : Argument.required "equipment" (command.argumentOrPositional? "equipment") =
        .ok equipment)
      (chosen : Argument.choiceOr ScheduleKind.wording "from" (command.argument? "from") .output =
        .ok source) :
      Resolved config scenario command .injectSchedulePath
        (.injectSchedulePath other equipment start stop source)

variable {directive : Directive}

theorem resolve_resolved (found : resolve config scenario kind command = .ok directive) :
    Resolved config scenario command kind directive := by
  cases kind with
  | enable | disable | reprioritise =>
      obtain rfl := Except.ok.inj found
      constructor
  | waitFree | dependFree =>
      simp only [resolve, bind_eq_ok, pure, Except.pure, Except.ok.injEq] at found
      obtain ⟨delay, delayed, rfl⟩ := found
      constructor
      exact delayed
  | waitOn | dependOn =>
      simp only [resolve, bind_eq_ok, pure, Except.pure, Except.ok.injEq] at found
      obtain ⟨tasks, named, delay, delayed, rfl⟩ := found
      constructor
      · exact named
      · exact delayed
  | dependClear =>
      simp only [resolve, bind_eq_ok, pure, Except.pure, Except.ok.injEq] at found
      obtain ⟨date, dated, only, named, rfl⟩ := found
      exact .dependClear dated named
  | deadhead =>
      simp only [resolve, bind_eq_ok, pure, Except.pure, Except.ok.injEq] at found
      obtain ⟨value, given, duration, lasts, process, idles, rfl⟩ := found
      exact .deadhead given lasts idles
  | timeConstrain =>
      simp only [resolve, bind_eq_ok, pure, Except.pure, Except.ok.injEq] at found
      obtain ⟨⟨start, stop⟩, lasts, mode, chosen, rfl⟩ := found
      exact .timeConstrain lasts chosen
  | remove =>
      simp only [resolve, bind_eq_ok, pure, Except.pure, Except.ok.injEq] at found
      obtain ⟨trigger, triggered, delay, delayed, rfl⟩ := found
      exact .remove triggered delayed
  | forceComplete =>
      simp only [resolve, bind_eq_ok, pure, Except.pure, Except.ok.injEq] at found
      obtain ⟨date, dated, ignoreConstraints, ignores, rfl⟩ := found
      exact .forceComplete dated ignores
  | injectSchedulePath =>
      simp only [resolve, bind_eq_ok, pure, Except.pure, Except.ok.injEq] at found
      obtain ⟨⟨start, stop⟩, lasts, other, case_, equipment, worker, source, chosen, rfl⟩ := found
      exact .injectSchedulePath lasts case_ worker chosen

theorem resolve_ordered (found : resolve config scenario kind command = .ok directive) :
    directive.Ordered := by
  cases resolve_resolved found with
  | timeConstrain lasts => exact window_ordered lasts
  | _ => trivial

theorem resolve_spans (found : resolve config scenario kind command = .ok directive) :
    ∀ span ∈ directive.spans, fallsBack kind command = true ∧ span = config.releaseDelay ∨
      fallsBack kind command = false ∧ span.Admissible config.runEnd := by
  cases resolve_resolved found with
  | waitFree delayed | waitOn _ delayed | dependFree delayed | dependOn _ delayed =>
      simp only [spans, List.mem_singleton, forall_eq]
      exact Argument.spanOr_cases delayed
  | deadhead _ lasts =>
      simp only [spans, List.mem_singleton, forall_eq]
      exact .inr ⟨rfl, Argument.span_admissible lasts⟩
  | remove _ delayed =>
      simp only [spans, List.mem_singleton, forall_eq]
      refine .inr ⟨rfl, ?_⟩
      rcases Argument.spanOr_cases delayed with ⟨_, rfl⟩ | ⟨_, admissible⟩
      · exact Span.admissible_zero config.runEnd
      · exact admissible
  | _ => simp [spans]

theorem spans_forward (forward : 0 ≤ config.releaseDelay.nanoseconds)
    (resolved : resolve config scenario kind command = .ok directive) :
    ∀ span ∈ directive.spans, 0 ≤ span.nanoseconds := by
  intro span member
  rcases resolve_spans resolved span member with ⟨_, rfl⟩ | ⟨_, admissible⟩
  · exact forward
  · exact admissible.forward

theorem resolve_forward (forward : 0 ≤ config.releaseDelay.nanoseconds)
    (resolved : resolve config scenario kind command = .ok directive) : directive.Forward := by
  have ahead := spans_forward forward resolved
  cases directive with
  | waitFree delay | waitOn predecessors delay => exact ahead delay (List.mem_singleton.mpr rfl)
  | _ => trivial

end Directive

namespace Interpreter

variable {interpreter : Interpreter} {line : WalkedLine}

/-- The records that a directive can ask for on a line, for the tasks of that line only. -/
inductive Records (interpreter : Interpreter) (line : WalkedLine) :
    Directive → Registration → Prop where
  | waitFree {delay : Span} {task : TaskId} (inside : task ∈ line.scope.tasks)
      (filled : (interpreter.graph.externalPredecessors line.scope.tasks).isEmpty = false) :
      Records interpreter line (.waitFree delay)
        (.wait ⟨interpreter.id, task⟩
          (WaitCounter.new (interpreter.graph.externalPredecessors line.scope.tasks) delay
            ⟨line.number, line.text, DirectiveKind.waitFree.name⟩))
  | waitOn {predecessors : TaskSet} {delay : Span} {task : TaskId}
      (inside : task ∈ line.scope.tasks)
      (filled : (predecessors.diff line.scope.tasks).isEmpty = false) :
      Records interpreter line (.waitOn predecessors delay)
        (.wait ⟨interpreter.id, task⟩
          (WaitCounter.new (predecessors.diff line.scope.tasks) delay
            ⟨line.number, line.text, DirectiveKind.waitOn.name⟩))
  | timeConstrain {start stop : Instant} {mode : TimeMode} {task : TaskId}
      (inside : task ∈ line.scope.tasks) :
      Records interpreter line (.timeConstrain start stop mode)
        (.window ⟨interpreter.id, task⟩
          { mode, start, stop,
            origin := ⟨line.number, line.text, DirectiveKind.timeConstrain.name⟩ })

/-- The effects that a directive can ask for on a line. -/
inductive Requests (interpreter : Interpreter) (line : WalkedLine) :
    Directive → Effect → Prop where
  | dependFree {delay : Span} :
      Requests interpreter line (.dependFree delay)
        (.now (.addDependencies line.scope.tasks
          (interpreter.graph.externalPredecessors line.scope.tasks) delay "dependfree"))
  | dependOn {predecessors : TaskSet} {delay : Span} :
      Requests interpreter line (.dependOn predecessors delay)
        (.now (.addDependencies line.scope.tasks (predecessors.diff line.scope.tasks) delay
          "dependon"))
  | dependClear {date : Instant} {only : Option TaskSet} :
      Requests interpreter line (.dependClear date only)
        (.onDate date (.removeDependencies line.scope.tasks only))
  | deadhead {duration : Span} {asked : Option ProcessId} {process : ProcessId}
      (idles : asked.or interpreter.equipment.inactiveProcess = some process)
      (filled : line.scope.tasks.isEmpty = false) :
      Requests interpreter line (.deadhead duration asked)
        (.onCompletion line.scope.tasks Span.zero
          (.insertIdle interpreter.id line.number process duration))
  | removeOnDate {date due : Instant} {delay : Span} (falls : date.add? delay = some due) :
      Requests interpreter line (.remove (.date date) delay)
        (.onDate due (.removeElements interpreter.id line.scope.elements))
  | removeCompleted {tasks : TaskSet} {delay : Span} (filled : tasks.isEmpty = false) :
      Requests interpreter line (.remove (.tasks tasks .completed) delay)
        (.onCompletion tasks delay (.removeElements interpreter.id line.scope.elements))
  | removeAtStart {tasks : TaskSet} {due : Instant} {delay : Span}
      (falls : interpreter.config.runStart.add? delay = some due) :
      Requests interpreter line (.remove (.tasks tasks .available) delay)
        (.onDate due (.removeElements interpreter.id line.scope.elements))
  | removeAvailable {tasks : TaskSet} {delay : Span}
      (filled : (TaskSet.ofList (tasks.ids.flatMap interpreter.graph.predecessors)).isEmpty =
        false) :
      Requests interpreter line (.remove (.tasks tasks .available) delay)
        (.onCompletion (TaskSet.ofList (tasks.ids.flatMap interpreter.graph.predecessors)) delay
          (.removeElements interpreter.id line.scope.elements))
  | forceComplete {date : Instant} {ignoreConstraints : Bool}
      (within : ¬ interpreter.config.runEnd < date) :
      Requests interpreter line (.forceComplete date ignoreConstraints)
        (.onDate date
          (.forceComplete interpreter.id line.number line.scope.steps ignoreConstraints))
  | reprioritise :
      Requests interpreter line .reprioritise
        (.onSelection interpreter.id line.scope.elements
          (.moveToFront interpreter.id line.scope.elements))
  | injectSchedulePath {name equipment : String} {start stop : Instant} {kind : ScheduleKind}
      {anchor : ElementId} {steps : List Step}
      (last : line.scope.elements.getLast? = some anchor)
      (scheduled : interpreter.scheduledSteps name equipment start stop kind = .ok steps) :
      Requests interpreter line (.injectSchedulePath name equipment start stop kind)
        (.now (.insertSteps interpreter.id line.number anchor steps))

variable {directive : Directive} {ofRecord : Registration → Prop} {ofEffect : Effect → Prop}

theorem waits_all {scope : LineScope} {predecessors : TaskSet} {delay : Span} {origin : Origin}
    (waits : predecessors.isEmpty = false → ∀ task ∈ scope.tasks,
      ofRecord (.wait ⟨interpreter.id, task⟩ (WaitCounter.new predecessors delay origin))) :
    (interpreter.waits scope predecessors delay origin).All ofRecord ofEffect := by
  unfold Interpreter.waits
  split
  · exact LineOutcome.all_empty
  · rename_i filled
    refine ⟨fun registration member => ?_, by simp⟩
    obtain ⟨task, inside, rfl⟩ := List.mem_map.mp member
    exact waits (Bool.eq_false_iff.mpr filled) task inside

theorem edges_all {scope : LineScope} {predecessors : TaskSet} {delay : Span} {rule : String}
    (adds : ofEffect (.now (.addDependencies scope.tasks predecessors delay rule))) :
    (edges scope predecessors delay rule).All ofRecord ofEffect := by
  unfold edges
  split
  · exact LineOutcome.all_empty
  · exact LineOutcome.all_effect adds

theorem removal?_requests {trigger : RemoveWhen} {delay : Span} {effect : Effect}
    (removes : interpreter.removal? trigger delay
      (.removeElements interpreter.id line.scope.elements) = some effect) :
    interpreter.Requests line (.remove trigger delay) effect := by
  unfold removal? at removes
  split at removes
  · obtain ⟨due, falls, rfl⟩ := Option.map_eq_some_iff.mp removes
    exact .removeOnDate falls
  · split at removes
    · simp at removes
    · rename_i filled
      split at removes
      · obtain rfl := Option.some.inj removes
        exact .removeCompleted (Bool.eq_false_iff.mpr filled)
      · dsimp only at removes
        split at removes
        · obtain ⟨due, falls, rfl⟩ := Option.map_eq_some_iff.mp removes
          exact .removeAtStart falls
        · rename_i awaited
          obtain rfl := Option.some.inj removes
          exact .removeAvailable (Bool.eq_false_iff.mpr awaited)

theorem interpret_all {outcome : LineOutcome}
    (interpreted : interpreter.interpret line directive = .ok outcome) :
    outcome.All (interpreter.Records line directive) (interpreter.Requests line directive) := by
  cases directive with
  | enable | disable =>
      obtain rfl := Except.ok.inj interpreted
      exact LineOutcome.all_empty
  | waitFree delay =>
      obtain rfl := Except.ok.inj interpreted
      exact waits_all fun filled task inside => .waitFree inside filled
  | waitOn predecessors delay =>
      obtain rfl := Except.ok.inj interpreted
      exact waits_all fun filled task inside => .waitOn inside filled
  | dependFree delay =>
      obtain rfl := Except.ok.inj interpreted
      exact edges_all .dependFree
  | dependOn predecessors delay =>
      obtain rfl := Except.ok.inj interpreted
      exact edges_all .dependOn
  | dependClear date only =>
      obtain rfl := Except.ok.inj interpreted
      split
      · exact LineOutcome.all_empty
      · exact LineOutcome.all_effect .dependClear
  | deadhead duration process =>
      simp only [interpret] at interpreted
      split at interpreted
      · simp at interpreted
      · rename_i chosen idles
        obtain rfl := Except.ok.inj interpreted
        split
        · exact LineOutcome.all_empty
        · rename_i filled
          exact LineOutcome.all_effect (.deadhead idles (Bool.eq_false_iff.mpr filled))
  | timeConstrain start stop mode =>
      obtain rfl := Except.ok.inj interpreted
      refine ⟨fun registration member => ?_, by simp⟩
      obtain ⟨task, inside, rfl⟩ := List.mem_map.mp member
      exact .timeConstrain inside
  | remove trigger delay =>
      obtain rfl := Except.ok.inj interpreted
      exact ⟨by simp, fun effect member => removal?_requests (Option.mem_toList.mp member)⟩
  | forceComplete date ignoreConstraints =>
      obtain rfl := Except.ok.inj interpreted
      split
      · exact LineOutcome.all_empty
      · rename_i asks
        rw [Bool.or_eq_true, not_or, decide_eq_true_eq] at asks
        exact LineOutcome.all_effect (.forceComplete asks.1)
  | reprioritise =>
      obtain rfl := Except.ok.inj interpreted
      exact LineOutcome.all_effect .reprioritise
  | injectSchedulePath name equipment start stop kind =>
      simp only [interpret] at interpreted
      split at interpreted
      · simp at interpreted
      · rename_i steps scheduled
        split at interpreted
        · obtain rfl := Except.ok.inj interpreted
          exact LineOutcome.all_empty
        · rename_i anchor last
          obtain rfl := Except.ok.inj interpreted
          split
          · exact LineOutcome.all_empty
          · exact LineOutcome.all_effect (.injectSchedulePath last scheduled)

end Interpreter

namespace Run

theorem readPath_fresh {run : Run} {id : EquipmentId} {equipment : Equipment}
    {reading : PathReading} (read : run.readPath id equipment = (reading, .ok ())) :
    reading.outcome.All Registration.Fresh fun effect => effect.action.window? = none := by
  refine readPath_all ?_ read
  intro line kind command directive graph outcome resolved interpreted
  refine (Interpreter.interpret_all interpreted).mono ?_ ?_
  · intro registration records
    cases records with
    | waitFree _ filled | waitOn _ filled => exact ⟨_, _, _, filled, rfl⟩
    | timeConstrain => exact ⟨Directive.resolve_ordered resolved, rfl, rfl⟩
  · intro effect requests
    cases requests <;> rfl

theorem readPath_forward {run : Run} {id : EquipmentId} {equipment : Equipment}
    {reading : PathReading} (forward : 0 ≤ run.config.releaseDelay.nanoseconds)
    (read : run.readPath id equipment = (reading, .ok ())) :
    reading.outcome.All Registration.Forward fun _ => True := by
  refine readPath_all ?_ read
  intro line kind command directive graph outcome resolved interpreted
  have ahead := Directive.resolve_forward forward resolved
  refine (Interpreter.interpret_all interpreted).mono ?_ fun _ _ => trivial
  intro registration records
  cases records with
  | waitFree | waitOn => exact ahead
  | timeConstrain => trivial

end Run

end PathDirectives
