import PathDirectives.Proofs.Releases

/-!
How long delays can be. One that is written out is a whole number of seconds which leaves the end of
the run on the calendar, so that no counter with it waits for ever. The delay of the settings is
only held to be no less than zero.
-/

namespace PathDirectives

open Calendar

namespace WaitCounter

variable {config : Config} {counter : WaitCounter} {graph next : TaskGraph} {task : TaskId}
  {date stop : Instant}

structure Dated (counter : WaitCounter) (config : Config) (graph : TaskGraph) : Prop where
  filled : counter.predecessors.isEmpty = false
  delay : counter.releaseDelay = config.releaseDelay ∨
    counter.releaseDelay.Admissible config.runEnd
  last : ∀ date, counter.lastDecremented = some date → date ∈ counter.completions graph

theorem Dated.of_same (dated : counter.Dated config graph)
    (same : ∀ task, next.completedAt? task = graph.completedAt? task) :
    counter.Dated config next where
  filled := dated.filled
  delay := dated.delay
  last date decremented := by
    rw [completions_congr fun task _ => same task]
    exact dated.last date decremented

theorem Dated.taskCompleted (dated : counter.Dated config graph)
    (completed : graph.complete task date = .ok (next, true)) :
    (counter.taskCompleted task date).Dated config next := by
  obtain ⟨unset, entered⟩ := TaskGraph.complete_true completed
  refine ⟨?_, ?_, ?_⟩
  · rw [taskCompleted_predecessors]
    exact dated.filled
  · rw [taskCompleted_releaseDelay]
    exact dated.delay
  · intro last decremented
    rw [mem_completions, taskCompleted_predecessors]
    by_cases counts : counter.counts task = true
    · rw [taskCompleted_of_counts counts, Option.some.injEq] at decremented
      subst decremented
      exact ⟨task, (counts_iff.mp counts).1, by rw [entered, if_pos rfl]⟩
    · rw [taskCompleted_of_not_counts counts] at decremented
      obtain ⟨other, waited, found⟩ := mem_completions.mp (dated.last last decremented)
      refine ⟨other, waited, ?_⟩
      rw [entered, if_neg, found]
      rintro rfl
      simp [unset] at found

theorem dated_tellAll_pastCompletions {predecessors : TaskSet} {delay : Span} {origin : Origin}
    (forward : 0 ≤ config.releaseDelay.nanoseconds) (filled : predecessors.isEmpty = false)
    (under : delay = config.releaseDelay ∨ delay.Admissible config.runEnd) (graph : TaskGraph) :
    ((new predecessors delay origin).tellAll
      (Run.pastCompletions graph (new predecessors delay origin))).Dated config graph := by
  have ahead : 0 ≤ delay.nanoseconds := by
    rcases under with rfl | admissible
    · exact forward
    · exact admissible.forward
  have byRule : ((new predecessors delay origin).tellAll
      (Run.pastCompletions graph (new predecessors delay origin))).ByRule graph graph :=
    byRule_tellAll_pastCompletions filled ahead graph
  refine ⟨byRule.filled, ?_, ?_⟩
  · rw [tellAll_releaseDelay]
    exact under
  · intro last decremented
    exact mem_lastByRule byRule (byRule.last.symm.trans decremented)

def DoneBy (counter : WaitCounter) (graph : TaskGraph) (stop : Instant) : Prop :=
  ∀ task ∈ counter.predecessors, ∃ date, graph.completedAt? task = some date ∧ date ≤ stop

instance (counter : WaitCounter) (graph : TaskGraph) (stop : Instant) :
    Decidable (counter.DoneBy graph stop) :=
  decidable_of_iff
    (∀ task ∈ counter.predecessors.ids, (graph.completedAt? task).any (· ≤ stop) = true)
    (forall₂_congr fun _ _ => by simp [Option.any_eq_true])

theorem Dated.releasedAt?_eq (dated : counter.Dated config graph) (inStep : counter.InStep graph)
    (done : counter.DoneBy graph stop) :
    ∃ last ∈ counter.completions graph, last ≤ stop ∧
      counter.releasedAt? = last.add? counter.releaseDelay := by
  have complete (task : TaskId) (waited : task ∈ counter.predecessors) :
      graph.isComplete task = true := by
    obtain ⟨date, found, _⟩ := done task waited
    rw [TaskGraph.isComplete, found]
    rfl
  have zero := inStep.remaining_eq_zero_iff.mpr complete
  obtain ⟨last, decremented⟩ := inStep.exists_last dated.filled complete
  have member := dated.last last decremented
  refine ⟨last, member, ?_, by simp [releasedAt?, zero, decremented]⟩
  obtain ⟨task, waited, found⟩ := mem_completions.mp member
  obtain ⟨date, again, ordered⟩ := done task waited
  obtain rfl := Option.some.inj (found.symm.trans again)
  exact ordered

/-- How a counter lets go of its task when its predecessors are complete by the end of the run. -/
structure LetsGo (counter : WaitCounter) (config : Config) (graph : TaskGraph) : Prop where
  release : ∃ last ∈ counter.completions graph,
    counter.releasedAt? = last.add? counter.releaseDelay
  never : counter.releasedAt? = none → counter.releaseDelay = config.releaseDelay
  always : (config.runEnd.add? config.releaseDelay).isSome = true →
    (config.runEnd.inLeapSecond = false ∨ config.releaseDelay.nanoseconds % 1000000000 = 0) →
      counter.releasedAt?.isSome = true

theorem Dated.letsGo (dated : counter.Dated config graph) (inStep : counter.InStep graph)
    (forward : 0 ≤ config.releaseDelay.nanoseconds)
    (done : counter.DoneBy graph config.runEnd) : counter.LetsGo config graph := by
  obtain ⟨last, member, ordered, released⟩ := dated.releasedAt?_eq inStep done
  refine ⟨⟨last, member, released⟩, ?_, ?_⟩
  · intro never
    rcases dated.delay with same | admissible
    · exact same
    · have onCalendar := admissible.add?_isSome ordered
      rw [← released, never] at onCalendar
      simp at onCalendar
  · intro fits even
    rw [released]
    rcases dated.delay with same | admissible
    · rw [same]
      exact Instant.add?_isSome_of_le forward even ordered fits
    · exact admissible.add?_isSome ordered

end WaitCounter

/-! ### Runs -/

def Registration.Delayed (config : Config) : Registration → Prop
  | .wait _ counter => counter.releaseDelay = config.releaseDelay ∨
      counter.releaseDelay.Admissible config.runEnd
  | .window .. => True

namespace Run

variable {run : Run}

theorem readPath_delayed {id : EquipmentId} {equipment : Equipment} {reading : PathReading}
    (read : run.readPath id equipment = (reading, .ok ())) :
    reading.outcome.All (Registration.Delayed run.config) fun _ => True := by
  refine readPath_all ?_ read
  intro line kind command directive graph outcome resolved interpreted
  have under (span : Span) (member : span ∈ directive.spans) :
      span = run.config.releaseDelay ∨ span.Admissible run.config.runEnd :=
    (Directive.resolve_spans resolved span member).imp (·.2) (·.2)
  refine (Interpreter.interpret_all interpreted).mono ?_ fun _ _ => trivial
  intro registration records
  cases records with
  | waitFree | waitOn => exact under _ (List.mem_singleton.mpr rfl)
  | timeConstrain => trivial

theorem asked_delayed (run : Run) (call : Call) :
    ∀ registration ∈ run.asked call, registration.Delayed run.config :=
  asked_all (fun _ _ _ read => (readPath_delayed read).records) call

def Dated (run : Run) : Prop :=
  ∀ handle counter, run.holds.counter? handle = some counter →
    counter.Dated run.config run.scenario.tasks

theorem dated_register (inStep : run.site.InStep)
    (forward : 0 ≤ run.config.releaseDelay.nanoseconds) {registration : Registration}
    (fresh : registration.Fresh) (delayed : registration.Delayed run.config)
    (dated : run.Dated) : (run.register registration).Dated := by
  intro handle counter found
  cases registration with
  | wait key added =>
      obtain ⟨predecessors, delay, origin, filled, rfl⟩ := fresh
      rw [counter?_register_wait inStep] at found
      split at found
      · obtain rfl := Option.some.inj found
        exact WaitCounter.dated_tellAll_pastCompletions forward filled delayed run.scenario.tasks
      · exact dated handle counter found
  | window key dates =>
      change (run.holds.addWindow key dates).1.counter? handle = some counter at found
      rw [HoldRegister.counter?_addWindow] at found
      exact dated handle counter found

theorem dated_registerAll (inStep : run.site.InStep)
    (forward : 0 ≤ run.config.releaseDelay.nanoseconds) {registrations : List Registration}
    (fresh : ∀ registration ∈ registrations, registration.Fresh)
    (delayed : ∀ registration ∈ registrations, registration.Delayed run.config)
    (dated : run.Dated) : (registrations.foldl register run).Dated := by
  induction registrations generalizing run with
  | nil => exact dated
  | cons registration rest ih =>
      have own := fresh registration List.mem_cons_self
      have same := run.register_config registration
      refine ih (inStep_register inStep own) (same.symm ▸ forward)
        (fun other member => fresh other (List.mem_cons_of_mem _ member)) ?_
        (dated_register inStep forward own (delayed registration List.mem_cons_self) dated)
      intro other member
      rw [same]
      exact delayed other (List.mem_cons_of_mem _ member)

theorem dated_perform (inStep : run.site.InStep)
    (forward : 0 ≤ run.config.releaseDelay.nanoseconds) (dated : run.Dated) (call : Call) :
    (run.perform call).1.Dated := by
  intro handle counter found
  rw [perform_config]
  cases run.perform_counting call with
  | records same =>
      have stored := (same.counter? handle).symm.trans found
      have registered := dated_registerAll inStep forward (run.asked_fresh call)
        (run.asked_delayed call) dated handle counter stored
      rw [registerAll_config] at registered
      exact registered.of_same same.completedAt?
  | @completion task date graph reports completed same =>
      have stored := (same.counter? handle).symm.trans found
      change (run.site.holds.taskCompleted task date).1.counter? handle = some counter at stored
      rw [inStep.indexed.counter?_taskCompleted, Option.map_eq_some_iff] at stored
      obtain ⟨old, before, rfl⟩ := stored
      exact ((dated handle old before).taskCompleted completed).of_same same.completedAt?

theorem dated_performAll (inStep : run.site.InStep)
    (forward : 0 ≤ run.config.releaseDelay.nanoseconds) (dated : run.Dated) (calls : List Call) :
    (run.performAll calls).Dated := by
  induction calls generalizing run with
  | nil => exact dated
  | cons call rest ih =>
      refine ih (inStep_perform inStep call) ?_ (dated_perform inStep forward dated call)
      rw [perform_config]
      exact forward

theorem dated_of_build {config : Config} {scenario : Scenario} {library : ScheduleLibrary}
    {compiles : Bool} {first : Run}
    (built : build config scenario library compiles = .ok first) : first.Dated := by
  obtain ⟨compiled, _, rfl⟩ := eq_start_of_build built
  intro handle counter found
  simp [start, holds, HoldRegister.counter?_eq] at found

end Run

/-- Under settings that are accepted, every delay and duration goes forward. It leaves the end of
the run on the calendar unless it is left to the settings, whose own delay does not; and that delay
alone can make a counter wait for ever. -/
theorem Config.delays_bounded {config : Config} (valid : config.validate = .ok ()) :
    (∀ scenario kind command directive,
      Directive.resolve config scenario kind command = .ok directive →
        ∀ span ∈ directive.spans, 0 ≤ span.nanoseconds ∧
          ((config.runEnd.add? span).isSome = true ↔
            (Directive.fallsBack kind command = true →
              (config.runEnd.add? config.releaseDelay).isSome = true))) ∧
      ∀ scenario library compiles first, Run.build config scenario library compiles = .ok first →
        ∀ calls handle counter, (first.performAll calls).holds.counter? handle = some counter →
          counter.DoneBy (first.performAll calls).scenario.tasks config.runEnd →
            counter.LetsGo config (first.performAll calls).scenario.tasks := by
  have forward := ((Config.validate_eq_ok_iff config).mp valid).2
  constructor
  · intro scenario kind command directive resolved span member
    refine ⟨Directive.spans_forward forward resolved span member, ?_⟩
    rcases Directive.resolve_spans resolved span member with ⟨falls, rfl⟩ | ⟨written, admissible⟩
    · simp [falls]
    · simp [written, admissible.fits]
  · intro scenario library compiles first built calls handle counter found done
    have inStep := Run.inStep_of_build built
    obtain ⟨compiled, _, started⟩ := Run.eq_start_of_build built
    have settings : first.config = config := by rw [started]; rfl
    have dated := Run.dated_performAll inStep (settings.symm ▸ forward)
      (Run.dated_of_build built) calls handle counter found
    rw [Run.performAll_config, settings] at dated
    exact dated.letsGo ((Run.inStep_performAll inStep calls).counters handle counter found)
      forward done

namespace Quarry

theorem early_delays_bounded :
    config.validate = .ok () ∧
      (∃ directive, Directive.resolve config scenario .waitOn
          { name := "waiton", positional := some "Hole" } = .ok directive ∧
        ∀ span ∈ directive.spans, 0 ≤ span.nanoseconds ∧
          (config.runEnd.add? span).isSome = true) ∧
      (opening.performAll earlyCalls).holds.counter? ⟨faceKey, 0⟩ = some earlyCounter ∧
      earlyCounter.DoneBy (opening.performAll earlyCalls).scenario.tasks config.runEnd ∧
      earlyCounter.LetsGo config (opening.performAll earlyCalls).scenario.tasks := by
  obtain ⟨valid, fits, resolved⟩ : config.validate = .ok () ∧
      (config.runEnd.add? config.releaseDelay).isSome = true ∧
      Directive.resolve config scenario .waitOn { name := "waiton", positional := some "Hole" } =
        .ok (.waitOn (TaskSet.ofList [drilled]) config.releaseDelay) := by
    decide +kernel
  obtain ⟨found, done⟩ :
      (opening.performAll earlyCalls).holds.counter? ⟨faceKey, 0⟩ = some earlyCounter ∧
      earlyCounter.DoneBy (opening.performAll earlyCalls).scenario.tasks config.runEnd := by
    decide +kernel
  obtain ⟨directives, counters⟩ := Config.delays_bounded valid
  refine ⟨valid, ⟨_, resolved, ?_⟩, found, done, ?_⟩
  · intro span member
    obtain ⟨forward, onCalendar⟩ := directives _ _ _ _ resolved span member
    exact ⟨forward, onCalendar.mpr fun _ => fits⟩
  · exact counters scenario {} false opening opening_built earlyCalls _ earlyCounter found done

def endless : Config := { config with releaseDelay := Span.hours 2500000000 }

def endlessCounter : WaitCounter :=
  { earlyCounter with releaseDelay := endless.releaseDelay }

theorem endless_never_releases :
    endless.validate = .ok () ∧
      Directive.resolve endless scenario .waitOn { name := "waiton", positional := some "Hole" } =
        .ok (.waitOn (TaskSet.ofList [drilled]) endless.releaseDelay) ∧
      endless.runEnd.add? endless.releaseDelay = none ∧
      ∃ first, Run.build endless scenario {} false = .ok first ∧
        first.accepts earlyCalls = true ∧
        (first.performAll earlyCalls).holds.counter? ⟨faceKey, 0⟩ = some endlessCounter ∧
        endlessCounter.DoneBy (first.performAll earlyCalls).scenario.tasks endless.runEnd ∧
        endlessCounter.releasedAt? = none := by
  obtain ⟨valid, resolved, beyond⟩ : endless.validate = .ok () ∧
      Directive.resolve endless scenario .waitOn { name := "waiton", positional := some "Hole" } =
        .ok (.waitOn (TaskSet.ofList [drilled]) endless.releaseDelay) ∧
      endless.runEnd.add? endless.releaseDelay = none := by
    decide +kernel
  refine ⟨valid, resolved, beyond, Run.start endless scenario {}, rfl, ?_⟩
  decide +kernel

end Quarry

end PathDirectives
