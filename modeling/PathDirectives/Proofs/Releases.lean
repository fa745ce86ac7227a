import Mathlib.Data.List.Basic
import PathDirectives.Proofs.Completions
import PathDirectives.Proofs.Instants
import PathDirectives.Proofs.Ledger

/-!
When counters let go of their tasks, if completions are reported in the order of their dates. The
delay of a counter runs from the completion that it counted last. Of reports that is the latest; of
completions that were there before the counter it is the one with the greatest id, whatever its
date.
-/

namespace PathDirectives

open Calendar

namespace WaitCounter

variable {counter : WaitCounter} {installed graph next : TaskGraph} {task : TaskId}
  {date : Instant}

def completions (counter : WaitCounter) (graph : TaskGraph) : List Instant :=
  counter.predecessors.ids.filterMap graph.completedAt?

theorem mem_completions : date ∈ counter.completions graph ↔
    ∃ task ∈ counter.predecessors, graph.completedAt? task = some date :=
  List.mem_filterMap

/-- The date that the delay runs from: the latest once a predecessor has been completed since the
counter was installed, and until then that of the greatest id. -/
def lastByRule (counter : WaitCounter) (installed graph : TaskGraph) : Option Instant :=
  if counter.predecessors.ids.any fun task =>
      !installed.isComplete task && graph.isComplete task then
    Run.latest? (counter.completions graph)
  else (counter.completions installed).getLast?

/-- When a counter installed on one graph lets go of its task on a later one. -/
def releaseByRule? (counter : WaitCounter) (installed graph : TaskGraph) : Option Instant :=
  if counter.predecessors.ids.all graph.isComplete then
    (counter.lastByRule installed graph).bind fun last => last.add? counter.releaseDelay
  else none

theorem lastByRule_of_report (waited : task ∈ counter.predecessors)
    (before : installed.isComplete task = false) (after : graph.isComplete task = true) :
    counter.lastByRule installed graph = Run.latest? (counter.completions graph) := by
  refine if_pos (List.any_eq_true.mpr ⟨task, waited, ?_⟩)
  rw [before, after]
  rfl

theorem lastByRule_of_none
    (none : ∀ task ∈ counter.predecessors, graph.isComplete task = true →
      installed.isComplete task = true) :
    counter.lastByRule installed graph = (counter.completions installed).getLast? := by
  refine if_neg ?_
  intro reported
  obtain ⟨task, waited, both⟩ := List.any_eq_true.mp reported
  rw [Bool.and_eq_true, Bool.not_eq_true'] at both
  rw [none task waited both.2] at both
  exact absurd both.1 (by simp)

theorem completions_congr
    (same : ∀ task ∈ counter.predecessors, next.completedAt? task = graph.completedAt? task) :
    counter.completions next = counter.completions graph :=
  List.filterMap_congr same

theorem lastByRule_congr
    (same : ∀ task ∈ counter.predecessors, next.completedAt? task = graph.completedAt? task) :
    counter.lastByRule installed next = counter.lastByRule installed graph := by
  have complete (task : TaskId) (waited : task ∈ counter.predecessors) :
      next.isComplete task = graph.isComplete task := by
    rw [TaskGraph.isComplete, TaskGraph.isComplete, same task waited]
  by_cases reported : ∃ task ∈ counter.predecessors,
      installed.isComplete task = false ∧ graph.isComplete task = true
  · obtain ⟨task, waited, before, after⟩ := reported
    rw [lastByRule_of_report waited before after, ← completions_congr same]
    exact lastByRule_of_report waited before (complete task waited ▸ after)
  · have none (task : TaskId) (waited : task ∈ counter.predecessors)
        (after : graph.isComplete task = true) : installed.isComplete task = true := by
      by_contra before
      exact reported ⟨task, waited, Bool.eq_false_iff.mpr before, after⟩
    rw [lastByRule_of_none none]
    refine lastByRule_of_none fun task waited after => none task waited ?_
    rw [← complete task waited, after]

structure ByRule (counter : WaitCounter) (installed graph : TaskGraph) : Prop where
  filled : counter.predecessors.isEmpty = false
  forward : 0 ≤ counter.releaseDelay.nanoseconds
  kept : ∀ task date, installed.completedAt? task = some date →
    graph.completedAt? task = some date
  last : counter.lastDecremented = counter.lastByRule installed graph

theorem ByRule.of_same (byRule : counter.ByRule installed graph)
    (same : ∀ task, next.completedAt? task = graph.completedAt? task) :
    counter.ByRule installed next where
  filled := byRule.filled
  forward := byRule.forward
  kept task date complete := by rw [same, byRule.kept task date complete]
  last := by rw [byRule.last, lastByRule_congr fun task _ => same task]

theorem lastByRule_completed (waited : task ∈ counter.predecessors)
    (before : installed.isComplete task = false)
    (entered : ∀ other, next.completedAt? other =
      if other = task then some date else graph.completedAt? other)
    (latest : ∀ other done, graph.completedAt? other = some done → done ≤ date) :
    counter.lastByRule installed next = some date := by
  have complete : next.completedAt? task = some date := by rw [entered, if_pos rfl]
  rw [lastByRule_of_report waited before (by rw [TaskGraph.isComplete, complete]; rfl),
    Run.latest?_eq_some_iff]
  constructor
  · exact mem_completions.mpr ⟨task, waited, complete⟩
  · intro done member
    obtain ⟨other, _, found⟩ := mem_completions.mp member
    rw [entered] at found
    split at found
    · exact Option.some.inj found ▸ Instant.le_refl _
    · exact latest other done found

theorem ByRule.taskCompleted (byRule : counter.ByRule installed graph)
    (inStep : counter.InStep graph) (completed : graph.complete task date = .ok (next, true))
    (latest : ∀ other done, graph.completedAt? other = some done → done ≤ date) :
    (counter.taskCompleted task date).ByRule installed next := by
  obtain ⟨unset, entered⟩ := TaskGraph.complete_true completed
  have apart (other : TaskId) (done : Instant) (found : graph.completedAt? other = some done) :
      ¬ other = task := by
    rintro rfl
    simp [unset] at found
  refine ⟨?_, ?_, ?_, ?_⟩
  · rw [taskCompleted_predecessors]
    exact byRule.filled
  · rw [taskCompleted_releaseDelay]
    exact byRule.forward
  · intro other done complete
    have before := byRule.kept other done complete
    rw [entered, if_neg (apart other done before), before]
  · by_cases waited : task ∈ counter.predecessors
    · have counts : counter.counts task = true := by
        rw [counts_iff, inStep.completed]
        simp [waited, TaskGraph.isComplete, unset]
      have before : installed.isComplete task = false := by
        cases found : installed.completedAt? task with
        | none => simp [TaskGraph.isComplete, found]
        | some done => exact absurd rfl (apart task done (byRule.kept task done found))
      rw [taskCompleted_of_counts counts]
      exact (lastByRule_completed waited before entered latest).symm
    · rw [taskCompleted_of_not_mem waited, byRule.last]
      refine (lastByRule_congr fun other member => ?_).symm
      rw [entered, if_neg]
      rintro rfl
      exact waited member

theorem pastCompletions_tasks (counter : WaitCounter) (graph : TaskGraph) :
    (Run.pastCompletions graph counter).map (·.1) =
      counter.predecessors.ids.filter graph.isComplete := by
  unfold Run.pastCompletions
  induction counter.predecessors.ids with
  | nil => rfl
  | cons task rest ih =>
      cases found : graph.completedAt? task with
      | none => simpa [found, TaskGraph.isComplete] using ih
      | some date => simpa [found, TaskGraph.isComplete] using ih

theorem pastCompletions_dates (counter : WaitCounter) (graph : TaskGraph) :
    (Run.pastCompletions graph counter).map (·.2) = counter.completions graph := by
  unfold Run.pastCompletions completions
  induction counter.predecessors.ids with
  | nil => rfl
  | cons task rest ih =>
      cases found : graph.completedAt? task with
      | none => simpa [found] using ih
      | some date => simpa [found] using ih

theorem byRule_tellAll_pastCompletions {predecessors : TaskSet} {delay : Span} {origin : Origin}
    (filled : predecessors.isEmpty = false) (forward : 0 ≤ delay.nanoseconds)
    (graph : TaskGraph) :
    ((new predecessors delay origin).tellAll
      (Run.pastCompletions graph (new predecessors delay origin))).ByRule graph graph := by
  have follows := follows_tellAll predecessors delay origin
    (Run.pastCompletions graph (new predecessors delay origin))
  have inside : ∀ report ∈ Run.pastCompletions graph (new predecessors delay origin),
      report.1 ∈ predecessors := fun report member => (mem_pastCompletions.mp member).1
  have distinct :
      ((Run.pastCompletions graph (new predecessors delay origin)).map (·.1)).Nodup := by
    rw [pastCompletions_tasks]
    exact predecessors.nodup.filter _
  rw [HoldCall.firstReports_eq_self inside distinct] at follows
  refine ⟨?_, ?_, fun _ _ complete => complete, ?_⟩
  · rw [tellAll_predecessors]
    exact filled
  · rw [tellAll_releaseDelay]
    exact forward
  · rw [follows.lastDecremented, lastByRule_of_none fun _ _ complete => complete,
      ← List.getLast?_map, pastCompletions_dates]
    simp only [completions, tellAll_predecessors]

end WaitCounter

/-! ### Runs -/

namespace Run

def Call.reportDate? : Call → Option Instant
  | .taskCompleted _ date => some date
  | _ => none

def reportDates (calls : List Call) : List Instant := calls.filterMap Call.reportDate?

/-- Completions are reported in the order of their dates, none before one that is there already. -/
structure InOrder (run : Run) (calls : List Call) : Prop where
  sorted : (reportDates calls).Pairwise (· ≤ ·)
  after : ∀ task done, run.scenario.tasks.completedAt? task = some done →
    ∀ date ∈ reportDates calls, done ≤ date

def graphAtInstall (run : Run) (handle : CounterHandle) : List Call → Option TaskGraph
  | [] => none
  | call :: rest =>
      let next := (run.perform call).1
      if (run.holds.counter? handle).isNone && (next.holds.counter? handle).isSome then
        some run.scenario.tasks
      else next.graphAtInstall handle rest

variable {run : Run} {handle : CounterHandle} {counter : WaitCounter} {installed : TaskGraph}
  {call : Call} {rest : List Call}

theorem InOrder.latest {task : TaskId} {date : Instant}
    (inOrder : run.InOrder (.taskCompleted task date :: rest)) (other : TaskId) (done : Instant)
    (complete : run.scenario.tasks.completedAt? other = some done) : done ≤ date :=
  inOrder.after other done complete date List.mem_cons_self

theorem InOrder.tail (inOrder : run.InOrder (call :: rest)) :
    (run.perform call).1.InOrder rest := by
  have inside (date : Instant) (member : date ∈ reportDates rest) :
      date ∈ reportDates (call :: rest) := by
    rw [reportDates, List.filterMap_cons]
    split
    · exact member
    · exact List.mem_cons_of_mem _ member
  constructor
  · have sorted := inOrder.sorted
    rw [reportDates, List.filterMap_cons] at sorted
    split at sorted
    · exact sorted
    · exact (List.pairwise_cons.mp sorted).2
  · intro task done complete date member
    cases run.perform_counting call with
    | records same =>
        have before := same.completedAt? task
        rw [registerAll_tasks] at before
        exact inOrder.after task done (before.symm.trans complete) date (inside date member)
    | @completion reported when graph reports completed same =>
        subst reports
        obtain ⟨_, entered⟩ := TaskGraph.complete_true completed
        have found : graph.completedAt? task = some done :=
          (same.completedAt? task).symm.trans complete
        rw [entered] at found
        split at found
        · obtain rfl := Option.some.inj found
          exact (List.pairwise_cons.mp inOrder.sorted).1 date member
        · exact inOrder.after task done found date (inside date member)

theorem counter?_register_of_some (inStep : run.site.InStep)
    (found : run.holds.counter? handle = some counter) (registration : Registration) :
    (run.register registration).holds.counter? handle = some counter := by
  cases registration with
  | wait key added =>
      rw [counter?_register_wait inStep, if_neg, found]
      rintro rfl
      simp [HoldRegister.counter?_addWait_handle] at found
  | window key dated =>
      change (run.holds.addWindow key dated).1.counter? handle = some counter
      rw [HoldRegister.counter?_addWindow, found]

theorem counter?_registerAll_of_some (inStep : run.site.InStep)
    (found : run.holds.counter? handle = some counter) {registrations : List Registration}
    (fresh : ∀ registration ∈ registrations, registration.Fresh) :
    (registrations.foldl register run).holds.counter? handle = some counter := by
  induction registrations generalizing run with
  | nil => exact found
  | cons registration rest ih =>
      exact ih (inStep_register inStep (fresh registration List.mem_cons_self))
        (counter?_register_of_some inStep found registration)
        fun other member => fresh other (List.mem_cons_of_mem _ member)

theorem byRule_register (inStep : run.site.InStep) {registration : Registration}
    (fresh : registration.Fresh) (forward : registration.Forward)
    (absent : run.holds.counter? handle = none)
    (found : (run.register registration).holds.counter? handle = some counter) :
    counter.ByRule run.scenario.tasks run.scenario.tasks := by
  cases registration with
  | wait key added =>
      obtain ⟨predecessors, delay, origin, filled, rfl⟩ := fresh
      rw [counter?_register_wait inStep] at found
      split at found
      · obtain rfl := Option.some.inj found
        exact WaitCounter.byRule_tellAll_pastCompletions filled forward run.scenario.tasks
      · simp [absent] at found
  | window key dated =>
      change (run.holds.addWindow key dated).1.counter? handle = some counter at found
      rw [HoldRegister.counter?_addWindow, absent] at found
      simp at found

theorem byRule_registerAll (inStep : run.site.InStep) {registrations : List Registration}
    (fresh : ∀ registration ∈ registrations, registration.Fresh)
    (forward : ∀ registration ∈ registrations, registration.Forward)
    (absent : run.holds.counter? handle = none)
    (found : (registrations.foldl register run).holds.counter? handle = some counter) :
    counter.ByRule run.scenario.tasks run.scenario.tasks := by
  induction registrations generalizing run with
  | nil => simp [absent] at found
  | cons registration rest ih =>
      have own := fresh registration List.mem_cons_self
      have next := inStep_register inStep own
      have others := fun other member => fresh other (List.mem_cons_of_mem registration member)
      cases new : (run.register registration).holds.counter? handle with
      | none =>
          rw [← run.register_scenario registration]
          exact ih next others
            (fun other member => forward other (List.mem_cons_of_mem _ member)) new found
      | some first =>
          have kept := counter?_registerAll_of_some next new others
          obtain rfl := Option.some.inj (kept.symm.trans found)
          exact byRule_register inStep own (forward registration List.mem_cons_self) absent new

theorem perform_installs (inStep : run.site.InStep)
    (forward : 0 ≤ run.config.releaseDelay.nanoseconds)
    (absent : run.holds.counter? handle = none)
    (found : (run.perform call).1.holds.counter? handle = some counter) :
    counter.ByRule run.scenario.tasks (run.perform call).1.scenario.tasks := by
  cases run.perform_counting call with
  | records same =>
      have stored := (same.counter? handle).symm.trans found
      refine (byRule_registerAll inStep (run.asked_fresh call) (asked_forward forward call)
        absent stored).of_same fun task => ?_
      rw [← registerAll_tasks run (run.asked call)]
      exact same.completedAt? task
  | completion reports completed same =>
      have stored := (same.counter? handle).symm.trans found
      have before := inStep.indexed.counter?_taskCompleted
      change ((run.site.holds.taskCompleted _ _).1.counter? handle) = some counter at stored
      rw [before, show run.site.holds.counter? handle = none from absent] at stored
      simp at stored

theorem perform_keeps (inStep : run.site.InStep) (inOrder : run.InOrder (call :: rest))
    (found : run.holds.counter? handle = some counter)
    (byRule : counter.ByRule installed run.scenario.tasks) :
    ∃ next, (run.perform call).1.holds.counter? handle = some next ∧
      next.ByRule installed (run.perform call).1.scenario.tasks := by
  cases run.perform_counting call with
  | records same =>
      refine ⟨counter, ?_, byRule.of_same fun task => ?_⟩
      · exact (same.counter? handle).trans
          (counter?_registerAll_of_some inStep found (run.asked_fresh call))
      · rw [← registerAll_tasks run (run.asked call)]
        exact same.completedAt? task
  | @completion task date graph reports completed same =>
      subst reports
      have own := inStep.counters handle counter found
      have told := byRule.taskCompleted own completed inOrder.latest
      refine ⟨counter.taskCompleted task date, ?_, told.of_same same.completedAt?⟩
      refine (same.counter? handle).trans ?_
      change (run.site.holds.taskCompleted task date).1.counter? handle = _
      rw [inStep.indexed.counter?_taskCompleted,
        show run.site.holds.counter? handle = some counter from found]
      rfl

theorem performAll_keeps {calls : List Call} (inStep : run.site.InStep)
    (inOrder : run.InOrder calls) (found : run.holds.counter? handle = some counter)
    (byRule : counter.ByRule installed run.scenario.tasks) :
    ∃ last, (run.performAll calls).holds.counter? handle = some last ∧
      last.ByRule installed (run.performAll calls).scenario.tasks := by
  induction calls generalizing run counter with
  | nil => exact ⟨counter, found, byRule⟩
  | cons call rest ih =>
      obtain ⟨next, stored, kept⟩ := perform_keeps inStep inOrder found byRule
      exact ih (inStep_perform inStep call) inOrder.tail stored kept

theorem byRule_performAll {calls : List Call} (inStep : run.site.InStep)
    (forward : 0 ≤ run.config.releaseDelay.nanoseconds) (inOrder : run.InOrder calls)
    (absent : run.holds.counter? handle = none)
    (found : (run.performAll calls).holds.counter? handle = some counter) :
    ∃ installed, run.graphAtInstall handle calls = some installed ∧
      counter.ByRule installed (run.performAll calls).scenario.tasks := by
  induction calls generalizing run with
  | nil => exact absurd (absent.symm.trans found) (by simp)
  | cons call rest ih =>
      have next := inStep_perform inStep call
      rw [graphAtInstall]
      cases new : (run.perform call).1.holds.counter? handle with
      | none =>
          have ahead : 0 ≤ (run.perform call).1.config.releaseDelay.nanoseconds := by
            rw [perform_config]
            exact forward
          simp only [absent, Option.isSome_none, Bool.and_false, Bool.false_eq_true, if_false]
          exact ih next ahead inOrder.tail new found
      | some first =>
          have installs := perform_installs inStep forward absent new
          obtain ⟨last, stored, byRule⟩ := performAll_keeps next inOrder.tail new installs
          obtain rfl := Option.some.inj (stored.symm.trans found)
          exact ⟨run.scenario.tasks, by simp [absent], byRule⟩

end Run

/-! ### Early releases -/

namespace WaitCounter

variable {counter : WaitCounter} {installed graph : TaskGraph} {task : TaskId}
  {date later release : Instant}

/-- Every predecessor is complete and the delay has passed since. -/
def Elapsed (counter : WaitCounter) (graph : TaskGraph) (date : Instant) : Prop :=
  ∀ task ∈ counter.predecessors, ∃ done due, graph.completedAt? task = some done ∧
    done.add? counter.releaseDelay = some due ∧ due ≤ date

/-- A counter came in before all its predecessors were complete, or none of them was completed later
than the one with the greatest id. -/
def CaughtUpInOrder (counter : WaitCounter) (installed : TaskGraph) : Prop :=
  (∃ task ∈ counter.predecessors, installed.isComplete task = false) ∨
    ∀ date ∈ counter.completions installed,
      ∃ last, (counter.completions installed).getLast? = some last ∧ date ≤ last

def Plain (counter : WaitCounter) (graph : TaskGraph) : Prop :=
  ∀ date ∈ counter.completions graph, date.inLeapSecond = false

theorem Elapsed.mono (elapsed : counter.Elapsed graph date) (ordered : date ≤ later) :
    counter.Elapsed graph later := by
  intro task waited
  obtain ⟨done, due, complete, added, past⟩ := elapsed task waited
  exact ⟨done, due, complete, added, Instant.le_trans past ordered⟩

theorem missing_or_complete (counter : WaitCounter) (graph : TaskGraph) :
    (∃ task ∈ counter.predecessors, graph.isComplete task = false) ∨
      ∀ task ∈ counter.predecessors, graph.isComplete task = true := by
  by_cases missing : ∃ task ∈ counter.predecessors, graph.isComplete task = false
  · exact .inl missing
  · refine .inr fun task waited => ?_
    by_contra incomplete
    exact missing ⟨task, waited, Bool.eq_false_iff.mpr incomplete⟩

theorem InStep.remaining_eq_zero_iff (inStep : counter.InStep graph) :
    counter.remaining = 0 ↔ ∀ task ∈ counter.predecessors, graph.isComplete task = true := by
  rw [inStep.remaining_eq]
  change (counter.predecessors.ids.filter (!graph.isComplete ·)).length = 0 ↔ _
  simp only [List.length_eq_zero_iff, List.filter_eq_nil_iff, Bool.not_eq_true', Bool.not_eq_false]
  rfl

theorem releasedAt?_eq_releaseByRule? (inStep : counter.InStep graph)
    (byRule : counter.ByRule installed graph) :
    counter.releasedAt? = counter.releaseByRule? installed graph := by
  have test : counter.remaining = 0 ↔ (counter.predecessors.ids.all graph.isComplete) = true := by
    rw [inStep.remaining_eq_zero_iff, List.all_eq_true]
    rfl
  simp only [releasedAt?, releaseByRule?, byRule.last, test]

theorem InStep.exists_last (inStep : counter.InStep graph)
    (filled : counter.predecessors.isEmpty = false)
    (complete : ∀ task ∈ counter.predecessors, graph.isComplete task = true) :
    ∃ last, counter.lastDecremented = some last := by
  refine Option.ne_none_iff_exists'.mp fun none => ?_
  have incomplete := inStep.lastDecremented_eq_none_iff.mp none
  have empty : counter.predecessors.isEmpty = true := by
    refine TaskSet.isEmpty_iff.mpr fun task waited => ?_
    simpa [incomplete task waited] using complete task waited
  rw [filled] at empty
  simp at empty

theorem isWaiting_eq_false_iff (inStep : counter.InStep graph)
    (filled : counter.predecessors.isEmpty = false) :
    counter.isWaiting date = false ↔
      ∃ release, counter.releasedAt? = some release ∧ release ≤ date := by
  by_cases zero : counter.remaining = 0
  · obtain ⟨last, decremented⟩ :=
      inStep.exists_last filled (inStep.remaining_eq_zero_iff.mp zero)
    cases added : last.add? counter.releaseDelay <;>
      simp [isWaiting, releasedAt?, zero, decremented, added, Instant.not_lt]
  · simp [isWaiting, releasedAt?, zero, Nat.pos_of_ne_zero zero]

theorem mem_lastByRule (byRule : counter.ByRule installed graph) {last : Instant}
    (ruled : counter.lastByRule installed graph = some last) :
    last ∈ counter.completions graph := by
  unfold lastByRule at ruled
  split at ruled
  · exact (Run.latest?_eq_some_iff.mp ruled).1
  · obtain ⟨task, waited, early⟩ := mem_completions.mp (List.mem_of_getLast? ruled)
    exact mem_completions.mpr ⟨task, waited, byRule.kept task last early⟩

theorem le_lastByRule (byRule : counter.ByRule installed graph)
    (complete : ∀ task ∈ counter.predecessors, graph.isComplete task = true)
    (inOrder : counter.CaughtUpInOrder installed) {last : Instant}
    (ruled : counter.lastByRule installed graph = some last) :
    ∀ date ∈ counter.completions graph, date ≤ last := by
  rcases counter.missing_or_complete installed with ⟨task, waited, before⟩ | allBefore
  · rw [lastByRule_of_report waited before (complete task waited),
      Run.latest?_eq_some_iff] at ruled
    exact ruled.2
  · rw [lastByRule_of_none fun task waited _ => allBefore task waited] at ruled
    intro date member
    obtain ⟨task, waited, found⟩ := mem_completions.mp member
    obtain ⟨done, early⟩ := Option.isSome_iff_exists.mp (allBefore task waited)
    obtain rfl := Option.some.inj ((byRule.kept task done early).symm.trans found)
    rcases inOrder with ⟨other, waits, before⟩ | bounded
    · rw [allBefore other waits] at before
      simp at before
    · obtain ⟨other, greatest, ordered⟩ := bounded done (mem_completions.mpr ⟨task, waited, early⟩)
      obtain rfl := Option.some.inj (greatest.symm.trans ruled)
      exact ordered

theorem elapsed_at_release_iff (inStep : counter.InStep graph)
    (byRule : counter.ByRule installed graph) (plain : counter.Plain graph)
    (released : counter.releasedAt? = some release) :
    counter.Elapsed graph release ↔ counter.CaughtUpInOrder installed := by
  have zero : counter.remaining = 0 := by
    by_contra positive
    simp [releasedAt?, positive] at released
  have complete := inStep.remaining_eq_zero_iff.mp zero
  simp only [releasedAt?, zero, if_true, Option.bind_eq_some_iff] at released
  obtain ⟨last, decremented, added⟩ := released
  have ruled := byRule.last.symm.trans decremented
  have lastPlain := plain last (mem_lastByRule byRule ruled)
  constructor
  · intro elapsed
    rcases counter.missing_or_complete installed with missing | allBefore
    · exact .inl missing
    · rw [lastByRule_of_none fun task waited _ => allBefore task waited] at ruled
      refine .inr fun date member => ⟨last, ruled, ?_⟩
      obtain ⟨task, waited, early⟩ := mem_completions.mp member
      obtain ⟨done, due, found, sum, past⟩ := elapsed task waited
      obtain rfl := Option.some.inj ((byRule.kept task date early).symm.trans found)
      have datePlain := plain date (mem_completions.mpr ⟨task, waited, found⟩)
      exact Instant.le_of_add?_le datePlain lastPlain sum added past
  · intro inOrder task waited
    have bounds := le_lastByRule byRule complete inOrder ruled
    obtain ⟨done, found⟩ := Option.isSome_iff_exists.mp (complete task waited)
    have member : done ∈ counter.completions graph := mem_completions.mpr ⟨task, waited, found⟩
    obtain ⟨due, sum, past⟩ := Instant.add?_mono (plain done member)
      lastPlain byRule.forward (bounds done member) added
    exact ⟨done, due, found, sum, past⟩

theorem exists_last_release {counters : List WaitCounter}
    (lets : ∀ counter ∈ counters, ∃ release, counter.releasedAt? = some release)
    (member : counter ∈ counters) :
    ∃ other ∈ counters, ∃ last, other.releasedAt? = some last ∧
      ∀ third ∈ counters, ∃ release, third.releasedAt? = some release ∧ release ≤ last := by
  have among (third : WaitCounter) (within : third ∈ counters) (release : Instant)
      (found : third.releasedAt? = some release) :
      release ∈ counters.filterMap (·.releasedAt?) :=
    List.mem_filterMap.mpr ⟨third, within, found⟩
  cases latest : Run.latest? (counters.filterMap (·.releasedAt?)) with
  | none =>
      obtain ⟨own, found⟩ := lets counter member
      have some_own := among counter member own found
      rw [Run.latest?_eq_none_iff.mp latest] at some_own
      simp at some_own
  | some last =>
      obtain ⟨inside, bound⟩ := Run.latest?_eq_some_iff.mp latest
      obtain ⟨other, within, letsGo⟩ := List.mem_filterMap.mp inside
      refine ⟨other, within, last, letsGo, fun third also => ?_⟩
      obtain ⟨release, found⟩ := lets third also
      exact ⟨release, found, bound release (among third also release found)⟩

end WaitCounter

namespace Run

/-- Where a task is available, every predecessor of every counter on it is complete and the delay of
the counter has passed since. -/
def NeverEarly (run : Run) (key : HoldKey) : Prop :=
  ∀ date, run.isAvailable key.equipment key.task date = true →
    ∀ counter ∈ (run.holds.waitsOf key).counters, counter.Elapsed run.scenario.tasks date

/-- The windows on a key never let its task go, or one of the counters never does, or each counter
has its delays behind it when some counter on the key lets go. -/
def Covered (run : Run) (key : HoldKey) : Prop :=
  (run.holds.waitsOf key).windowsLet = false ∨
    (∃ counter ∈ (run.holds.waitsOf key).counters, counter.releasedAt? = none) ∨
      ∀ counter ∈ (run.holds.waitsOf key).counters,
        ∃ other ∈ (run.holds.waitsOf key).counters, ∃ release,
          other.releasedAt? = some release ∧ counter.Elapsed run.scenario.tasks release

theorem neverEarly_iff_covered (run : Run) (key : HoldKey)
    (released : ∀ counter ∈ (run.holds.waitsOf key).counters, ∀ date,
      counter.isWaiting date = false ↔
        ∃ release, counter.releasedAt? = some release ∧ release ≤ date) :
    run.NeverEarly key ↔ run.Covered key := by
  constructor
  · intro never
    by_cases shut : (run.holds.waitsOf key).windowsLet = false
    · exact .inl shut
    by_cases held : ∃ counter ∈ (run.holds.waitsOf key).counters, counter.releasedAt? = none
    · exact .inr (.inl held)
    refine .inr (.inr fun counter member => ?_)
    have lets (other : WaitCounter) (inside : other ∈ (run.holds.waitsOf key).counters) :
        ∃ release, other.releasedAt? = some release :=
      Option.ne_none_iff_exists'.mp fun none => held ⟨other, inside, none⟩
    obtain ⟨other, inside, last, letsGo, bound⟩ := WaitCounter.exists_last_release lets member
    refine ⟨other, inside, last, letsGo, never last ?_ counter member⟩
    refine (run.isAvailable_iff key last).mpr ⟨Bool.not_eq_false _ ▸ shut, ?_⟩
    exact fun third within => (released third within last).mpr (bound third within)
  · intro either date isAvailable counter member
    obtain ⟨windowsLet, letGo⟩ := (run.isAvailable_iff key date).mp isAvailable
    rcases either with shut | ⟨other, inside, none⟩ | behind
    · rw [shut] at windowsLet
      simp at windowsLet
    · obtain ⟨release, found, _⟩ := (released other inside date).mp (letGo other inside)
      rw [none] at found
      simp at found
    · obtain ⟨other, inside, release, found, elapsed⟩ := behind counter member
      obtain ⟨same, again, past⟩ := (released other inside date).mp (letGo other inside)
      obtain rfl := Option.some.inj (found.symm.trans again)
      exact elapsed.mono past

structure Releases (run : Run) (key : HoldKey) (installedOn : CounterHandle → Option TaskGraph) :
    Prop where
  counters : ∀ index counter, run.holds.counter? ⟨key, index⟩ = some counter →
    ∃ installed, installedOn ⟨key, index⟩ = some installed ∧
      counter.releasedAt? = counter.releaseByRule? installed run.scenario.tasks ∧
      (counter.Plain run.scenario.tasks → ∀ release, counter.releasedAt? = some release →
        (counter.Elapsed run.scenario.tasks release ↔ counter.CaughtUpInOrder installed))
  neverEarly_iff : run.NeverEarly key ↔ run.Covered key
  neverEarly_of_order :
    (∀ index counter installed, run.holds.counter? ⟨key, index⟩ = some counter →
      installedOn ⟨key, index⟩ = some installed →
        counter.Plain run.scenario.tasks ∧ counter.CaughtUpInOrder installed) →
      run.NeverEarly key

theorem byRule_of_build {config : Config} {scenario : Scenario} {library : ScheduleLibrary}
    {compiles : Bool} {first : Run} {calls : List Call}
    (built : build config scenario library compiles = .ok first)
    (inOrder : first.InOrder calls)
    (found : (first.performAll calls).holds.counter? handle = some counter) :
    ∃ installed, first.graphAtInstall handle calls = some installed ∧
      counter.ByRule installed (first.performAll calls).scenario.tasks := by
  have inStep := inStep_of_build built
  obtain ⟨compiled, valid, rfl⟩ := eq_start_of_build built
  have forward := ((Config.validate_eq_ok_iff config).mp valid).2
  have absent : (start config compiled library).holds.counter? handle = none := by
    simp [start, holds, HoldRegister.counter?_eq]
  exact byRule_performAll inStep forward inOrder absent found

/-- Whatever the calls, failed ones included, if completions are reported in the order of their
dates. -/
theorem releases_by_rule {config : Config} {scenario : Scenario} {library : ScheduleLibrary}
    {compiles : Bool} {first : Run} {calls : List Call}
    (built : build config scenario library compiles = .ok first)
    (inOrder : first.InOrder calls) (key : HoldKey) :
    (first.performAll calls).Releases key fun handle => first.graphAtInstall handle calls := by
  have inStep := inStep_performAll (inStep_of_build built) calls
  have placed (counter : WaitCounter)
      (member : counter ∈ ((first.performAll calls).holds.waitsOf key).counters) :
      ∃ index, (first.performAll calls).holds.counter? ⟨key, index⟩ = some counter := by
    obtain ⟨index, found⟩ := List.mem_iff_getElem?.mp member
    exact ⟨index, by rw [HoldRegister.counter?_eq, found]⟩
  have covered : (first.performAll calls).NeverEarly key ↔
      (first.performAll calls).Covered key := by
    refine neverEarly_iff_covered _ key fun counter member date => ?_
    obtain ⟨index, found⟩ := placed counter member
    obtain ⟨installed, _, byRule⟩ := byRule_of_build built inOrder found
    exact WaitCounter.isWaiting_eq_false_iff (inStep.counters _ counter found) byRule.filled
  refine ⟨?_, covered, ?_⟩
  · intro index counter found
    obtain ⟨installed, since, byRule⟩ := byRule_of_build built inOrder found
    have counted := inStep.counters _ counter found
    refine ⟨installed, since, WaitCounter.releasedAt?_eq_releaseByRule? counted byRule, ?_⟩
    intro plain release letGo
    exact WaitCounter.elapsed_at_release_iff counted byRule plain letGo
  · intro ordered
    rw [covered]
    by_cases held : ∃ counter ∈ ((first.performAll calls).holds.waitsOf key).counters,
        counter.releasedAt? = none
    · exact .inr (.inl held)
    refine .inr (.inr fun counter member => ?_)
    obtain ⟨index, found⟩ := placed counter member
    obtain ⟨installed, since, byRule⟩ := byRule_of_build built inOrder found
    obtain ⟨plain, caughtUp⟩ := ordered index counter installed found since
    obtain ⟨release, letGo⟩ :=
      Option.ne_none_iff_exists'.mp fun none => held ⟨counter, member, none⟩
    have counted := inStep.counters _ counter found
    exact ⟨counter, member, release, letGo,
      (WaitCounter.elapsed_at_release_iff counted byRule plain letGo).mpr caughtUp⟩

end Run

namespace Quarry

theorem opening_incomplete (task : TaskId) : opening.scenario.tasks.completedAt? task = none := by
  obtain ⟨index⟩ := task
  change ((scenario.tasks.tasks[index]?).bind (·.completedAt)) = none
  cases found : scenario.tasks.tasks[index]? with
  | none => rfl
  | some task =>
      obtain ⟨name, _, rfl⟩ := List.mem_map.mp (List.mem_of_getElem? found)
      rfl

theorem opening_inOrder {calls : List Run.Call}
    (sorted : (Run.reportDates calls).Pairwise (· ≤ ·)) : opening.InOrder calls where
  sorted := sorted
  after task done complete := by simp [opening_incomplete] at complete

def earlyCalls : List Run.Call :=
  [.taskCompleted blasted (moment 2 6), .taskCompleted drilled (moment 2 9), .parsePath loader,
    .advanceTo (moment 2 9)]

theorem early_calls_release_by_rule :
    opening.InOrder earlyCalls ∧
      (opening.performAll earlyCalls).Releases faceKey fun handle =>
        opening.graphAtInstall handle earlyCalls := by
  have inOrder : opening.InOrder earlyCalls := opening_inOrder (by decide +kernel)
  exact ⟨inOrder, Run.releases_by_rule opening_built inOrder faceKey⟩

def earlyCounter : WaitCounter :=
  { remaining := 0
    lastDecremented := some (moment 2 6)
    releaseDelay := config.releaseDelay
    predecessors := TaskSet.ofList [drilled, blasted]
    completed := TaskSet.ofList [drilled, blasted]
    origin := ⟨1, pathText, "waiton"⟩ }

theorem early_calls_release_early :
    Run.build config scenario {} false = .ok opening ∧ opening.accepts earlyCalls = true ∧
      opening.InOrder earlyCalls ∧ ¬ (opening.performAll earlyCalls).NeverEarly faceKey := by
  obtain ⟨accepted, available, member, complete⟩ : opening.accepts earlyCalls = true ∧
      (opening.performAll earlyCalls).isAvailable loader loaded (moment 2 9) = true ∧
      earlyCounter ∈ ((opening.performAll earlyCalls).holds.waitsOf faceKey).counters ∧
      (opening.performAll earlyCalls).scenario.tasks.completedAt? drilled =
        some (moment 2 9) := by
    decide +kernel
  refine ⟨opening_built, accepted, opening_inOrder (by decide +kernel), fun never => ?_⟩
  obtain ⟨done, due, found, added, past⟩ :=
    never (moment 2 9) available earlyCounter member drilled (by decide +kernel)
  obtain rfl := Option.some.inj (complete.symm.trans found)
  have later : (moment 2 9).add? earlyCounter.releaseDelay = some (moment 2 10) := by
    decide +kernel
  obtain rfl := Option.some.inj (later.symm.trans added)
  exact absurd past (by decide +kernel)

end Quarry

end PathDirectives
