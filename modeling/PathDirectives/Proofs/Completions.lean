import PathDirectives.Proofs.Steps

/-!
Counters against the task graph. Completions reach a counter by two ways: reports, and the telling
of past completions when a counter is installed, which also goes to counters that have counted them
before. Whatever the calls, each counter has counted just those of its predecessors that are
complete.
-/

namespace PathDirectives

open Calendar

/-- A counter has counted those of its predecessors that are complete in a graph, and no others. -/
structure WaitCounter.InStep (counter : WaitCounter) (graph : TaskGraph) : Prop where
  sound : counter.Sound
  completed : ∀ task, task ∈ counter.completed ↔
    task ∈ counter.predecessors ∧ graph.isComplete task = true

namespace WaitCounter

variable {counter : WaitCounter} {graph next : TaskGraph}

theorem InStep.of_same (inStep : counter.InStep graph)
    (same : ∀ task, next.completedAt? task = graph.completedAt? task) : counter.InStep next where
  sound := inStep.sound
  completed task := by
    rw [inStep.completed, TaskGraph.isComplete, TaskGraph.isComplete, same]

theorem InStep.not_counts (inStep : counter.InStep graph) {task : TaskId}
    (complete : graph.isComplete task = true) : ¬ counter.counts task = true := by
  rw [counts_iff, inStep.completed]
  exact fun ⟨waited, uncounted⟩ => uncounted ⟨waited, complete⟩

theorem InStep.completed_eq (inStep : counter.InStep graph) :
    counter.completed = counter.predecessors.filter graph.isComplete :=
  TaskSet.ext_members fun task => by rw [inStep.completed, TaskSet.mem_filter]

theorem InStep.remaining_eq (inStep : counter.InStep graph) :
    counter.remaining = (counter.predecessors.filter (!graph.isComplete ·)).size := by
  have total := inStep.sound.remaining
  have parts := counter.predecessors.size_filter graph.isComplete
  rw [inStep.completed_eq] at total
  omega

theorem InStep.lastDecremented_eq_none_iff (inStep : counter.InStep graph) :
    counter.lastDecremented = none ↔
      ∀ task ∈ counter.predecessors, graph.isComplete task = false := by
  rw [inStep.sound.lastDecremented, inStep.completed_eq]
  change (counter.predecessors.ids.filter graph.isComplete).length = 0 ↔ _
  simp only [List.length_eq_zero_iff, List.filter_eq_nil_iff, Bool.not_eq_true]
  rfl

theorem InStep.taskCompleted (inStep : counter.InStep graph) {task : TaskId} {date : Instant}
    (completed : graph.complete task date = .ok (next, true)) :
    (counter.taskCompleted task date).InStep next where
  sound := inStep.sound.taskCompleted task date
  completed other := by
    obtain ⟨_, entered⟩ := TaskGraph.complete_true completed
    rw [mem_completed_taskCompleted, inStep.completed, taskCompleted_predecessors,
      TaskGraph.isComplete, TaskGraph.isComplete, entered]
    by_cases same : other = task
    · simp only [if_pos same, Option.isSome_some, and_true]
      exact ⟨fun either => either.elim (·.1) (·.1), fun waited => .inr ⟨waited, same⟩⟩
    · simp only [same, if_false, and_false, or_false]

/-- What a graph says of a counter. However the counter is told further, it is not taken down from
zero. -/
structure Matches (counter : WaitCounter) (graph : TaskGraph) : Prop where
  remaining : counter.remaining = (counter.predecessors.filter (!graph.isComplete ·)).size
  lastDecremented : counter.lastDecremented = none ↔
    ∀ task ∈ counter.predecessors, graph.isComplete task = false
  completed : counter.completed = counter.predecessors.filter graph.isComplete
  positive : ∀ reports task, (counter.tellAll reports).counts task = true →
    0 < (counter.tellAll reports).remaining

theorem InStep.matches_graph (inStep : counter.InStep graph) : counter.Matches graph where
  remaining := inStep.remaining_eq
  lastDecremented := inStep.lastDecremented_eq_none_iff
  completed := inStep.completed_eq
  positive reports _ counts := (inStep.sound.tellAll reports).remaining_pos counts

end WaitCounter

theorem mem_pastCompletions {graph : TaskGraph} {counter : WaitCounter}
    {report : TaskId × Instant} :
    report ∈ Run.pastCompletions graph counter ↔
      report.1 ∈ counter.predecessors ∧ graph.completedAt? report.1 = some report.2 := by
  obtain ⟨task, date⟩ := report
  simp only [Run.pastCompletions, List.mem_filterMap, Option.map_eq_some_iff, Prod.mk.injEq]
  constructor
  · rintro ⟨other, waited, _, complete, rfl, rfl⟩
    exact ⟨waited, complete⟩
  · rintro ⟨waited, complete⟩
    exact ⟨task, waited, date, complete, rfl, rfl⟩

theorem inStep_tellAll_pastCompletions {counter : WaitCounter} (graph : TaskGraph)
    (sound : counter.Sound) (empty : counter.completed = TaskSet.empty) :
    (counter.tellAll (Run.pastCompletions graph counter)).InStep graph where
  sound := sound.tellAll _
  completed task := by
    rw [WaitCounter.mem_completed_tellAll, empty, WaitCounter.tellAll_predecessors]
    simp only [TaskSet.not_mem_empty, false_or, and_congr_right_iff, List.mem_map]
    intro waited
    constructor
    · rintro ⟨report, member, rfl⟩
      rw [TaskGraph.isComplete, (mem_pastCompletions.mp member).2]
      rfl
    · intro complete
      obtain ⟨date, found⟩ := Option.isSome_iff_exists.mp complete
      exact ⟨(task, date), mem_pastCompletions.mpr ⟨waited, found⟩, rfl⟩

structure Site.InStep (site : Site) : Prop where
  indexed : site.holds.Indexed
  counters : ∀ handle counter, site.holds.counter? handle = some counter →
    counter.InStep site.scenario.tasks

namespace Site

variable {site next : Site}

theorem inStep_of_empty (scenario : Scenario) : InStep { scenario } where
  indexed := HoldRegister.indexed_empty
  counters handle counter found := by simp [HoldRegister.counter?_eq] at found

theorem InStep.of_same (inStep : site.InStep) (same : SameRecords site next) : next.InStep where
  indexed := same.indexed inStep.indexed
  counters handle counter found := by
    rw [same.counter?] at found
    exact (inStep.counters handle counter found).of_same same.completedAt?

theorem InStep.told (inStep : site.InStep) {graph : TaskGraph} {task : TaskId} {date : Instant}
    (completed : site.scenario.tasks.complete task date = .ok (graph, true)) :
    (site.told graph task date).InStep where
  indexed := inStep.indexed.taskCompleted task date
  counters handle counter found := by
    have before := inStep.indexed.counter?_taskCompleted task date handle
    change (site.holds.taskCompleted task date).1.counter? handle = some counter at found
    rw [before, Option.map_eq_some_iff] at found
    obtain ⟨old, stored, rfl⟩ := found
    exact (inStep.counters handle old stored).taskCompleted completed

end Site

namespace Run

variable {run : Run}

theorem holds_register_wait (run : Run) (key : HoldKey) (counter : WaitCounter) :
    (run.register (.wait key counter)).holds =
      (run.holds.addWait key counter).1.completeAll
        (pastCompletions run.scenario.tasks counter) := rfl

theorem counter?_register_wait (inStep : run.site.InStep) (key : HoldKey) (counter : WaitCounter)
    (handle : CounterHandle) :
    (run.register (.wait key counter)).holds.counter? handle =
      if handle = (run.holds.addWait key counter).2 then
        some (counter.tellAll (pastCompletions run.scenario.tasks counter))
      else run.holds.counter? handle := by
  have indexed : run.holds.Indexed := inStep.indexed
  rw [holds_register_wait, (indexed.addWait key counter).counter?_completeAll,
    HoldRegister.counter?_addWait]
  by_cases own : handle = (run.holds.addWait key counter).2
  · rw [if_pos own, if_pos own]
    rfl
  · rw [if_neg own, if_neg own]
    cases found : run.holds.counter? handle with
    | none => rfl
    | some old =>
        have older : old.InStep run.scenario.tasks := inStep.counters handle old found
        refine congrArg some (WaitCounter.tellAll_of_not_counts ?_)
        intro report member
        refine older.not_counts ?_
        rw [TaskGraph.isComplete, (mem_pastCompletions.mp member).2]
        rfl

theorem inStep_register (inStep : run.site.InStep) {registration : Registration}
    (fresh : registration.Fresh) : (run.register registration).site.InStep := by
  cases registration with
  | wait key counter =>
      obtain ⟨predecessors, delay, origin, _, rfl⟩ := fresh
      refine ⟨(HoldRegister.Indexed.addWait inStep.indexed key _).completeAll _, ?_⟩
      intro handle counter found
      change (run.register _).holds.counter? handle = some counter at found
      rw [counter?_register_wait inStep] at found
      split at found
      · simp only [Option.some.injEq] at found
        subst found
        exact inStep_tellAll_pastCompletions _ (WaitCounter.sound_new _ _ _) rfl
      · exact inStep.counters handle counter found
  | window key dated =>
      refine ⟨HoldRegister.Indexed.addWindow inStep.indexed key dated, ?_⟩
      intro handle counter found
      change (run.holds.addWindow key dated).1.counter? handle = some counter at found
      rw [HoldRegister.counter?_addWindow] at found
      exact inStep.counters handle counter found

theorem inStep_registerAll (inStep : run.site.InStep) {registrations : List Registration}
    (fresh : ∀ registration ∈ registrations, registration.Fresh) :
    (registrations.foldl register run).site.InStep := by
  induction registrations generalizing run with
  | nil => exact inStep
  | cons registration rest ih =>
      exact ih (inStep_register inStep (fresh registration List.mem_cons_self))
        fun other member => fresh other (List.mem_cons_of_mem _ member)

theorem inStep_perform (inStep : run.site.InStep) (call : Call) :
    (run.perform call).1.site.InStep := by
  cases run.perform_counting call with
  | records same => exact (inStep_registerAll inStep (run.asked_fresh call)).of_same same
  | completion reported completed same => exact (inStep.told completed).of_same same

theorem inStep_performAll (inStep : run.site.InStep) (calls : List Call) :
    (run.performAll calls).site.InStep := by
  induction calls generalizing run with
  | nil => exact inStep
  | cons call rest ih => exact ih (inStep_perform inStep call)

theorem inStep_of_build {config : Config} {scenario : Scenario} {library : ScheduleLibrary}
    {compiles : Bool} {first : Run}
    (built : build config scenario library compiles = .ok first) : first.site.InStep := by
  obtain ⟨compiled, _, rfl⟩ := eq_start_of_build built
  exact Site.inStep_of_empty compiled

/-- After any calls, failed ones included, the counters match the task graph. -/
theorem counters_match_graph {config : Config} {scenario : Scenario} {library : ScheduleLibrary}
    {compiles : Bool} {first : Run} (built : build config scenario library compiles = .ok first)
    (calls : List Call) {handle : CounterHandle} {counter : WaitCounter}
    (found : (first.performAll calls).holds.counter? handle = some counter) :
    counter.Matches (first.performAll calls).scenario.tasks := by
  have inStep := inStep_performAll (inStep_of_build built) calls
  exact (inStep.counters handle counter found).matches_graph

end Run

namespace Quarry

def lateCalls : List Run.Call :=
  [.taskCompleted blasted (moment 1 6), .taskCompleted ⟨7⟩ opening.now,
    .parsePath loader, .taskCompleted blasted (moment 1 7)]

def lateCounter : WaitCounter :=
  { remaining := 1
    lastDecremented := some (moment 1 6)
    releaseDelay := config.releaseDelay
    predecessors := TaskSet.ofList [drilled, blasted]
    completed := TaskSet.ofList [blasted]
    origin := ⟨1, pathText, "waiton"⟩ }

theorem late_counter_matches_graph :
    Run.build config scenario {} false = .ok opening ∧
      (opening.performAll lateCalls).holds.counter? ⟨faceKey, 0⟩ = some lateCounter ∧
        lateCounter.Matches (opening.performAll lateCalls).scenario.tasks := by
  have found : (opening.performAll lateCalls).holds.counter? ⟨faceKey, 0⟩ = some lateCounter := by
    decide +kernel
  exact ⟨opening_built, found, Run.counters_match_graph opening_built lateCalls found⟩

end Quarry

end PathDirectives
