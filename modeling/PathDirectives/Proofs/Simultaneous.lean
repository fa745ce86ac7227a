import Mathlib.Data.Multiset.AddSub
import PathDirectives.Proofs.Commuting
import PathDirectives.Proofs.Views

/-!
Completions of one date in any order. What a successful report does to the holds, to the task graph,
to the watches and to what is queued behind its date is a change that can change places with that of
another report; for that, whatever is due by then counts as applied from the start. What it does to
paths is not: a forced completion looks at what is complete at the time.
-/

namespace PathDirectives

open Calendar

namespace Agenda

variable {α : Type}

def due (agenda : Agenda α) (date : Instant) : List α :=
  (agenda.queue.filter fun entry => decide (entry.1 ≤ date)).map (·.2)

def ahead (agenda : Agenda α) (date : Instant) : List (Instant × α) :=
  agenda.queue.filter fun entry => decide (date < entry.1)

variable {agenda : Agenda α} {date : Instant}

theorem due_of_ahead (all : agenda.queue = agenda.ahead date) : agenda.due date = [] := by
  have none_due : agenda.queue.filter (fun entry => decide (entry.1 ≤ date)) = [] := by
    apply List.filter_eq_nil_iff.mpr
    intro entry member
    rw [all] at member
    simpa using Instant.not_le.mpr (of_decide_eq_true (List.mem_filter.mp member).2)
  rw [due, none_due, List.map_nil]

end Agenda

namespace Action

variable {left right : List Action}
  (among : (right.filter fun action => !action.changesPath) =
    left.filter fun action => !action.changesPath)

include among

theorem editAll_of_among (graph : TaskGraph) : editAll left graph = editAll right graph := by
  apply foldl_same_of_filter eq_equivalence ?_ ?_ among rfl
  · intro graph action changes
    exact (edit_of_changesPath (by simpa using changes) graph).symm
  · intro first second action _ same
    rw [same]

theorem switchAll_of_among (register : HoldRegister) :
    switchAll left register = switchAll right register := by
  apply foldl_same_of_filter eq_equivalence ?_ ?_ among rfl
  · intro register action changes
    exact (switch_of_changesPath (by simpa using changes) register).symm
  · intro first second action _ same
    rw [same]

end Action

structure Standing where
  holds : HoldRegister
  tasks : TaskGraph
  now : Instant
  completions : List CompletionWatch
  queued : Multiset (Instant × Action)

namespace Standing

def postponed (date : Instant) (fired : List (Span × Action)) : List (Instant × Action) :=
  (fired.filterMap (Run.entryAfter? date)).filter fun entry => decide (date < entry.1)

def enter (standing : Standing) (date : Instant) (task : TaskId) : Standing :=
  { standing with
    holds := (standing.holds.taskCompleted task date).1
    tasks := standing.tasks.mark task date
    completions := standing.completions.map (CompletionWatch.hear task)
    queued := standing.queued +
      (postponed date (standing.completions.filterMap (CompletionWatch.fires? task)) :
        Multiset (Instant × Action)) }

def report (date : Instant) (standing : Standing) (task : TaskId) : Standing :=
  if standing.tasks.isComplete task then standing else standing.enter date task

variable {standing : Standing} {date : Instant} {task first second : TaskId}

theorem report_of_complete (complete : standing.tasks.isComplete task = true) :
    standing.report date task = standing := if_pos complete

theorem report_of_open (incomplete : standing.tasks.isComplete task = false) :
    standing.report date task = standing.enter date task := if_neg (by simp [incomplete])

theorem isComplete_report (apart : first ≠ second) (standing : Standing) (date : Instant) :
    (standing.report date first).tasks.isComplete second = standing.tasks.isComplete second := by
  unfold report
  split
  · rfl
  · exact standing.tasks.isComplete_mark_of_ne apart date

theorem enter_comm (standing : Standing) (date : Instant) (first second : TaskId) :
    (standing.enter date first).enter date second =
      (standing.enter date second).enter date first := by
  have queued (one other : TaskId) :
      ((standing.enter date one).enter date other).queued = standing.queued +
        (postponed date (standing.completions.filterMap (CompletionWatch.fires? one) ++
          (standing.completions.map (CompletionWatch.hear one)).filterMap
            (CompletionWatch.fires? other)) : Multiset (Instant × Action)) := by
    simp only [enter, postponed, List.filterMap_append, List.filter_append,
      Multiset.add_assoc, Multiset.coe_add]
  have fired := CompletionWatch.fired_perm first second standing.completions
  have same : ((standing.enter date first).enter date second).queued =
      ((standing.enter date second).enter date first).queued := by
    rw [queued first second, queued second first]
    congr 1
    exact Multiset.coe_eq_coe.mpr ((fired.filterMap _).filter _)
  have heard : (standing.completions.map (CompletionWatch.hear first)).map
      (CompletionWatch.hear second) =
        (standing.completions.map (CompletionWatch.hear second)).map
          (CompletionWatch.hear first) := by
    rw [List.map_map, List.map_map]
    apply List.map_congr_left
    intro watch _
    exact watch.hear_comm first second
  simp only [enter] at same ⊢
  rw [same, heard, standing.holds.taskCompleted_comm, standing.tasks.mark_comm]

theorem report_comm (standing : Standing) (date : Instant) (first second : TaskId) :
    (standing.report date first).report date second =
      (standing.report date second).report date first := by
  by_cases same : first = second
  · rw [same]
  · have left := isComplete_report same standing date
    have right := isComplete_report (Ne.symm same) standing date
    cases one : standing.tasks.isComplete first with
    | true => rw [report_of_complete one, report_of_complete (right.trans one)]
    | false =>
        cases two : standing.tasks.isComplete second with
        | true => rw [report_of_complete two, report_of_complete (left.trans two)]
        | false =>
            rw [report_of_open (left.trans two), report_of_open (right.trans one),
              report_of_open one, report_of_open two]
            exact standing.enter_comm date first second

theorem reports_perm {tasks others : List TaskId} (same : others.Perm tasks)
    (standing : Standing) (date : Instant) :
    others.foldl (report date) standing = tasks.foldl (report date) standing := by
  apply same.foldl_eq'
  intro first _ second _ before
  exact before.report_comm date first second

end Standing

/-! ### Reports to a run -/

namespace Run

variable {run : Run} {task : TaskId} {date : Instant}

/-- A run with all that is due by a date counted as applied. -/
def asOf (run : Run) (date : Instant) : Standing :=
  { holds := Action.switchAll (run.agenda.due date) run.holds
    tasks := Action.editAll (run.agenda.due date) run.scenario.tasks
    now := run.now.later date
    completions := run.completions
    queued := run.agenda.ahead date }

theorem isComplete_asOf (run : Run) (date : Instant) (task : TaskId) :
    (run.asOf date).tasks.isComplete task = run.scenario.tasks.isComplete task := by
  rw [TaskGraph.isComplete, asOf, Action.completedAt?_editAll, TaskGraph.isComplete]

structure Settled (run : Run) (date : Instant) : Prop where
  ahead : run.agenda.queue = run.agenda.ahead date
  now : run.now.later date = run.now

theorem Settled.asOf (settled : run.Settled date) :
    run.asOf date = ⟨run.holds, run.scenario.tasks, run.now, run.completions,
      run.agenda.queue⟩ := by
  rw [Run.asOf, Agenda.due_of_ahead settled.ahead, ← settled.ahead, settled.now]
  rfl

theorem settled_advanceTo (advances : (run.advanceTo date).2 = .ok ()) :
    (run.advanceTo date).1.Settled date := by
  obtain ⟨rest, reached, ahead⟩ := advanceTo_applies advances
  rw [reached]
  constructor
  · change rest.queue = rest.queue.filter _
    rw [ahead, List.filter_filter]
    simp only [Bool.and_self]
  · exact Instant.later_of_ge (run.now.le_later_right date)

theorem asOf_advanceTo (advances : (run.advanceTo date).2 = .ok ()) :
    (run.advanceTo date).1.asOf date = run.asOf date := by
  rw [(settled_advanceTo advances).asOf]
  obtain ⟨rest, reached, ahead⟩ := advanceTo_applies advances
  obtain ⟨tasks, holds⟩ := run.site.applyEach_parts (run.agenda.due date)
  rw [reached]
  simp only [Run.holds, Run.scenario, Agenda.due] at tasks holds ⊢
  rw [tasks, holds, ahead]
  rfl

theorem fired_changesPath (own : run.OwnWatches) (task : TaskId) :
    ∀ fired ∈ run.completions.filterMap (CompletionWatch.fires? task),
      fired.2.changesPath = true := by
  intro fired member
  obtain ⟨watch, inside, fires⟩ := List.mem_filterMap.mp member
  unfold CompletionWatch.fires? at fires
  split at fires
  · obtain ⟨action, acts, rfl⟩ := Option.map_eq_some_iff.mp fires
    obtain ⟨owner, changes⟩ := own.completions watch inside action acts
    exact changes.changesPath
  · simp at fires

theorem filter_due_pushEach (own : run.OwnWatches) (task : TaskId) (date : Instant) :
    ((pushEach run.agenda date (run.completions.filterMap (CompletionWatch.fires? task))).due
        date).filter (fun action => !action.changesPath) =
      (run.agenda.due date).filter fun action => !action.changesPath := by
  have none_kept : (run.completions.filterMap (CompletionWatch.fires? task)).filter
      (fun fired => !fired.2.changesPath) =
        ([] : List (Span × Action)).filter fun fired => !fired.2.changesPath := by
    apply List.filter_eq_nil_iff.mpr
    intro fired member
    simp [fired_changesPath own task fired member]
  have unchanged := (Agenda.sameAmong_equivalence fun action => !action.changesPath).refl run.agenda
  have among := (unchanged.pushEach date none_kept).filter_date fun other => decide (other ≤ date)
  rw [Agenda.due, Agenda.due, List.filter_map, List.filter_map]
  exact congrArg _ among

theorem asOf_enter (orderly : run.Orderly) {graph : TaskGraph}
    (completed : run.scenario.tasks.complete task date = .ok (graph, true)) :
    (run.enter graph task date).asOf date = (run.asOf date).enter date task := by
  have tells := orderly.watches.indexed.tellWatches task date
  have among := filter_due_pushEach orderly.watches task date
  obtain rfl := TaskGraph.eq_mark_of_complete completed
  have holds := (Action.switchAll_of_among among.symm (run.holds.taskCompleted task date).1).trans
    (Action.switchAll_taskCompleted (run.agenda.due date) run.holds task date)
  have tasks := (Action.editAll_of_among among.symm (run.scenario.tasks.mark task date)).trans
    (Action.editAll_mark (run.agenda.due date) run.scenario.tasks task date)
  have queued := (queue_pushEach_perm run.agenda date
    (run.completions.filterMap (CompletionWatch.fires? task))).filter
      fun entry => decide (date < entry.1)
  rw [List.filter_append] at queued
  have entered : run.enter (run.scenario.tasks.mark task date) task date =
      { run with
        site := run.site.told (run.scenario.tasks.mark task date) task date
        completions := run.completions.map (CompletionWatch.hear task)
        agenda := pushEach run.agenda date (run.completions.filterMap (CompletionWatch.fires? task))
        watchers := Keyed.erase task run.watchers } := by
    rw [enter, tells]
  rw [entered, asOf, asOf, Standing.enter]
  simp only [Standing.mk.injEq, true_and]
  exact ⟨holds, tasks, Multiset.coe_eq_coe.mpr queued⟩

theorem asOf_taskCompleted (orderly : run.Orderly)
    (reports : (run.taskCompleted task date).2 = .ok ()) :
    (run.taskCompleted task date).1.asOf date = (run.asOf date).report date task := by
  have known := run.isComplete_asOf date task
  rcases report_cases reports with ⟨complete, passes⟩ | ⟨graph, open_, completed, enters⟩
  · rw [Standing.report_of_complete (known.trans complete), passes]
  · rw [enters] at reports ⊢
    rw [Standing.report_of_open (known.trans open_), asOf_advanceTo reports,
      asOf_enter orderly completed]

def reportsAt (date : Instant) (tasks : List TaskId) : List Call :=
  tasks.map fun task => .taskCompleted task date

variable {tasks others : List TaskId}

theorem asOf_reports (orderly : run.Orderly)
    (accepted : run.accepts (reportsAt date tasks) = true) :
    (run.performAll (reportsAt date tasks)).asOf date =
      tasks.foldl (Standing.report date) (run.asOf date) := by
  induction tasks generalizing run with
  | nil => rfl
  | cons task rest ih =>
      simp only [reportsAt, List.map_cons, accepts, Bool.and_eq_true] at accepted
      have step := asOf_taskCompleted orderly (eq_ok_of_isOk accepted.1)
      rw [List.foldl_cons, ← step]
      exact ih (orderly.perform (.taskCompleted task date)) accepted.2

theorem Settled.taskCompleted (settled : run.Settled date)
    (reports : (run.taskCompleted task date).2 = .ok ()) :
    (run.taskCompleted task date).1.Settled date := by
  rcases report_cases reports with ⟨-, passes⟩ | ⟨graph, -, -, enters⟩
  · rw [passes]
    exact settled
  · rw [enters] at reports ⊢
    exact settled_advanceTo reports

theorem Settled.reports (settled : run.Settled date)
    (accepted : run.accepts (reportsAt date tasks) = true) :
    (run.performAll (reportsAt date tasks)).Settled date := by
  induction tasks generalizing run with
  | nil => exact settled
  | cons task rest ih =>
      simp only [reportsAt, List.map_cons, accepts, Bool.and_eq_true] at accepted
      exact ih (settled.taskCompleted (eq_ok_of_isOk accepted.1)) accepted.2

theorem reports_end (accepted : run.accepts (reportsAt date tasks) = true) :
    ((∀ task ∈ tasks, run.scenario.tasks.isComplete task = true) →
        run.performAll (reportsAt date tasks) = run) ∧
      ((∃ task ∈ tasks, run.scenario.tasks.isComplete task = false) →
        (run.performAll (reportsAt date tasks)).Settled date) := by
  induction tasks generalizing run with
  | nil => simp [reportsAt, performAll]
  | cons task rest ih =>
      simp only [reportsAt, List.map_cons, accepts, Bool.and_eq_true] at accepted
      have reports := eq_ok_of_isOk accepted.1
      rcases report_cases reports with ⟨complete, passes⟩ | ⟨graph, open_, -, enters⟩
      · have later := accepted.2
        change (run.taskCompleted task date).1.accepts _ = true at later
        rw [passes] at later
        have same : run.performAll (reportsAt date (task :: rest)) =
            run.performAll (reportsAt date rest) :=
          congrArg (fun next : Run => next.performAll (reportsAt date rest)) passes
        obtain ⟨unchanged, settled⟩ := ih later
        rw [same]
        constructor
        · intro all
          exact unchanged fun other member => all other (List.mem_cons_of_mem _ member)
        · rintro ⟨other, member, incomplete⟩
          rcases List.mem_cons.mp member with rfl | inRest
          · simp [complete] at incomplete
          · exact settled ⟨other, inRest, incomplete⟩
      · have advances : ((run.enter graph task date).advanceTo date).2 = .ok () := enters ▸ reports
        have here : (run.perform (.taskCompleted task date)).1.Settled date := by
          change (run.taskCompleted task date).1.Settled date
          rw [enters]
          exact settled_advanceTo advances
        constructor
        · intro all
          have complete := all task List.mem_cons_self
          simp [open_] at complete
        · intro _
          exact here.reports accepted.2

/-- The runs have the same holds, tasks, clock and watches and the same actions queued for each
date, so that the same tasks are available. -/
structure Agree (first second : Run) : Prop where
  holds : second.holds = first.holds
  tasks : second.scenario.tasks = first.scenario.tasks
  now : second.now = first.now
  completions : second.completions = first.completions
  queued : second.agenda.queue.Perm first.agenda.queue
  isAvailable : ∀ id task date, second.isAvailable id task date = first.isAvailable id task date

theorem agree_of_asOf {first second : Run} (left : first.Settled date) (right : second.Settled date)
    (same : second.asOf date = first.asOf date) : Agree first second := by
  rw [left.asOf, right.asOf] at same
  simp only [Standing.mk.injEq, Multiset.coe_eq_coe] at same
  obtain ⟨holds, tasks, now, completions, queued⟩ := same
  refine ⟨holds, tasks, now, completions, queued, ?_⟩
  intro id task other
  rw [isAvailable, isAvailable, holds]

theorem agree_refl (run : Run) : Agree run run :=
  ⟨rfl, rfl, rfl, rfl, List.Perm.refl _, fun _ _ _ => rfl⟩

/-- Completions at one instant may be reported in any order. -/
theorem simultaneous_reports_agree {config : Config} {scenario : Scenario}
    {library : ScheduleLibrary} {compiles : Bool} {first : Run}
    (built : build config scenario library compiles = .ok first) (reaches : first.Reaches run)
    (same : others.Perm tasks) (accepted : run.accepts (reportsAt date tasks) = true)
    (turned : run.accepts (reportsAt date others) = true) :
    Agree (run.performAll (reportsAt date tasks)) (run.performAll (reportsAt date others)) := by
  have orderly := orderly_of_reaches built reaches
  obtain ⟨unchanged, settled⟩ := reports_end accepted
  obtain ⟨turnedUnchanged, turnedSettled⟩ := reports_end turned
  by_cases all : ∀ task ∈ tasks, run.scenario.tasks.isComplete task = true
  · rw [unchanged all, turnedUnchanged fun task member => all task (same.mem_iff.mp member)]
    exact agree_refl run
  · simp only [not_forall, Bool.not_eq_true] at all
    obtain ⟨task, member, open_⟩ := all
    apply agree_of_asOf (settled ⟨task, member, open_⟩)
      (turnedSettled ⟨task, same.mem_iff.mpr member, open_⟩)
    rw [asOf_reports orderly accepted, asOf_reports orderly turned]
    exact Standing.reports_perm same (run.asOf date) date

end Run

namespace Quarry

def sharedScenario : Scenario :=
  { scenario with
    equipment :=
      [{ name := "Loader"
         pathText := "Face '!waiton {Hole,Shot} !remove {Hole,Shot} !remove {Hole,Shot} delay=6h"
         path := Path.push {} 1 (.steps [{ source := loaded }]) }] }

def shared : Run := Run.start config sharedScenario {}

theorem shared_built : Run.build config sharedScenario {} false = .ok shared := rfl

def sharing : Run := (shared.perform (.parsePath loader)).1

theorem hole_and_shot_agree :
    shared.Reaches sharing ∧ sharing.completions.length = 2 ∧
      (sharing.performAll (Run.reportsAt (moment 1 6) [drilled, blasted])).agenda.size = 1 ∧
        sharing.accepts (Run.reportsAt (moment 1 6) [drilled, blasted]) = true ∧
          sharing.accepts (Run.reportsAt (moment 1 6) [blasted, drilled]) = true ∧
            Run.Agree (sharing.performAll (Run.reportsAt (moment 1 6) [drilled, blasted]))
              (sharing.performAll (Run.reportsAt (moment 1 6) [blasted, drilled])) := by
  have reaches : shared.Reaches sharing := Run.Reaches.start.call _
  obtain ⟨watches, queued, accepted, turned⟩ : sharing.completions.length = 2 ∧
      (sharing.performAll (Run.reportsAt (moment 1 6) [drilled, blasted])).agenda.size = 1 ∧
        sharing.accepts (Run.reportsAt (moment 1 6) [drilled, blasted]) = true ∧
          sharing.accepts (Run.reportsAt (moment 1 6) [blasted, drilled]) = true := by
    decide +kernel
  refine ⟨reaches, watches, queued, accepted, turned, ?_⟩
  exact Run.simultaneous_reports_agree shared_built reaches (List.Perm.swap _ _ _) accepted turned

end Quarry

end PathDirectives
