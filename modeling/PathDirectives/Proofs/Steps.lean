import PathDirectives.Proofs.Outcome
import PathDirectives.Proofs.Queue
import PathDirectives.Proofs.Register
import PathDirectives.Run.Progress

/-!
What the calls on a run do to its records and to the completions in its task graph. Actions leave
both alone but for opening and closing windows, so that a call comes down to the records that it
installs or to the completion that it reports.
-/

namespace PathDirectives

open Calendar

namespace TaskGraph

variable {graph next : TaskGraph}

theorem completedAt?_modify (graph : TaskGraph) (id other : TaskId) (change : Task → Task) :
    (graph.modify id change).completedAt? other =
      (graph.get? other).bind fun task =>
        if other = id then (change task).completedAt else task.completedAt := by
  obtain ⟨place⟩ := id
  obtain ⟨index⟩ := other
  simp only [completedAt?, get?, modify, List.getElem?_modify, TaskId.mk.injEq]
  cases graph.tasks[index]? with
  | none => simp
  | some task => by_cases same : place = index <;> simp [same, eq_comm]

theorem completedAt?_modify_of_kept (graph : TaskGraph) (id other : TaskId)
    {change : Task → Task} (kept : ∀ task, (change task).completedAt = task.completedAt) :
    (graph.modify id change).completedAt? other = graph.completedAt? other := by
  simp only [completedAt?_modify, kept, ite_self]
  rfl

theorem completedAt?_addDependency {id : TaskId} {edge : Dependency} {created : Bool}
    (added : graph.addDependency id edge = .ok (next, created)) (other : TaskId) :
    next.completedAt? other = graph.completedAt? other := by
  unfold addDependency at added
  split at added
  · simp only [Except.ok.injEq, Prod.mk.injEq] at added
    rw [added.1]
  · split at added
    · simp at added
    · simp at added
    · simp only [Except.ok.injEq, Prod.mk.injEq] at added
      rw [← added.1]
      exact graph.completedAt?_modify_of_kept id other fun _ => rfl

theorem completedAt?_removeDependencies {id : TaskId} {only : Option TaskSet} {count : Nat}
    (removed : graph.removeDependencies id only = .ok (next, count)) (other : TaskId) :
    next.completedAt? other = graph.completedAt? other := by
  unfold removeDependencies at removed
  split at removed
  · simp at removed
  · simp only [Except.ok.injEq, Prod.mk.injEq] at removed
    rw [← removed.1]
    exact graph.completedAt?_modify_of_kept id other fun _ => rfl

theorem completedAt?_addEdges (graph : TaskGraph) (delay : Span) (rule : String)
    (pairs : List (TaskId × TaskId)) (other : TaskId) :
    (graph.addEdges delay rule pairs).1.completedAt? other = graph.completedAt? other := by
  induction pairs generalizing graph with
  | nil => rfl
  | cons pair rest ih =>
      obtain ⟨id, predecessor⟩ := pair
      rw [addEdges]
      split
      · rename_i next created added
        rw [ih, completedAt?_addDependency added]
      · rfl

theorem completedAt?_dropEdges (graph : TaskGraph) (only : Option TaskSet) (ids : List TaskId)
    (other : TaskId) :
    (graph.dropEdges only ids).1.completedAt? other = graph.completedAt? other := by
  induction ids generalizing graph with
  | nil => rfl
  | cons id rest ih =>
      rw [dropEdges]
      split
      · rename_i next count removed
        rw [ih, completedAt?_removeDependencies removed]
      · rfl

theorem complete_true {id : TaskId} {date : Instant}
    (completed : graph.complete id date = .ok (next, true)) :
    graph.completedAt? id = none ∧
      ∀ other, next.completedAt? other =
        if other = id then some date else graph.completedAt? other := by
  unfold complete at completed
  split at completed
  · simp at completed
  · rename_i task found
    split at completed
    · simp at completed
    · rename_i unfinished
      simp only [Except.ok.injEq, Prod.mk.injEq, and_true] at completed
      subst completed
      have unset : task.completedAt = none := by simpa [Task.isComplete] using unfinished
      refine ⟨by simp [completedAt?, found, unset], ?_⟩
      intro other
      rw [completedAt?_modify]
      by_cases same : other = id
      · subst same
        simp [found]
      · simp [same, completedAt?]

end TaskGraph

def TimeWindow.cleared (window : TimeWindow) : TimeWindow :=
  { window with isActive := false, started := false }

def Site.windowsOn (site : Site) (key : HoldKey) : List TimeWindow :=
  (site.holds.waitsOf key).windows.map TimeWindow.cleared

/-- The second site has the records of the first, but for windows being open or not, and the same
completions. -/
structure SameRecords (first second : Site) : Prop where
  counter? : ∀ handle, second.holds.counter? handle = first.holds.counter? handle
  waiting : second.holds.waiting = first.holds.waiting
  windowsOn : ∀ key, second.windowsOn key = first.windowsOn key
  completedAt? : ∀ task,
    second.scenario.tasks.completedAt? task = first.scenario.tasks.completedAt? task

namespace SameRecords

variable {first second third : Site}

theorem of_holds (same : second.holds = first.holds)
    (completedAt? : ∀ task,
      second.scenario.tasks.completedAt? task = first.scenario.tasks.completedAt? task) :
    SameRecords first second where
  counter? handle := by rw [same]
  waiting := by rw [same]
  windowsOn key := by rw [Site.windowsOn, same, Site.windowsOn]
  completedAt? := completedAt?

theorem refl (site : Site) : SameRecords site site := of_holds rfl fun _ => rfl

theorem trans (left : SameRecords first second) (right : SameRecords second third) :
    SameRecords first third where
  counter? handle := (right.counter? handle).trans (left.counter? handle)
  waiting := right.waiting.trans left.waiting
  windowsOn key := (right.windowsOn key).trans (left.windowsOn key)
  completedAt? task := (right.completedAt? task).trans (left.completedAt? task)

theorem indexed (same : SameRecords first second) (indexed : first.holds.Indexed) :
    second.holds.Indexed where
  listed task handle := by
    rw [same.counter?, ← indexed.listed, HoldRegister.handlesFor, same.waiting]
    rfl
  distinct task := by
    rw [HoldRegister.handlesFor, same.waiting]
    exact indexed.distinct task

theorem windowsOn_modifyWindow (register : HoldRegister) (handle : WindowHandle)
    {change : TimeWindow → TimeWindow} (kept : ∀ window, (change window).cleared = window.cleared)
    (key : HoldKey) :
    ((register.modifyWindow handle change).waitsOf key).windows.map TimeWindow.cleared =
      (register.waitsOf key).windows.map TimeWindow.cleared := by
  refine List.ext_getElem? fun index => ?_
  have here := register.window?_modifyWindow handle ⟨key, index⟩ change
  rw [HoldRegister.window?_eq, HoldRegister.window?_eq] at here
  rw [List.getElem?_map, List.getElem?_map, here]
  split
  · cases (register.waitsOf key).windows[index]? with
    | none => rfl
    | some window => exact congrArg some (kept window)
  · rfl

theorem of_modifyWindow {handle : WindowHandle} {change : TimeWindow → TimeWindow}
    (holds : second.holds = first.holds.modifyWindow handle change)
    (kept : ∀ window, (change window).cleared = window.cleared)
    (completedAt? : ∀ task,
      second.scenario.tasks.completedAt? task = first.scenario.tasks.completedAt? task) :
    SameRecords first second where
  counter? other := by
    rw [holds, HoldRegister.counter?_eq, HoldRegister.counters_modifyWindow,
      HoldRegister.counter?_eq]
  waiting := by rw [holds, HoldRegister.modifyWindow]
  windowsOn key := by
    rw [Site.windowsOn, holds]
    exact windowsOn_modifyWindow first.holds handle kept key
  completedAt? := completedAt?

end SameRecords

namespace Action

def edit : Action → TaskGraph → TaskGraph
  | .addDependencies tasks predecessors delay rule, graph =>
      (graph.addEdges delay rule (TaskGraph.pairs tasks predecessors)).1
  | .removeDependencies tasks only, graph => (graph.dropEdges only tasks.ids).1
  | _, graph => graph

def switch : Action → HoldRegister → HoldRegister
  | .activateWindow handle, register => register.modifyWindow handle TimeWindow.activate
  | .deactivateWindow handle, register => register.modifyWindow handle TimeWindow.deactivate
  | _, register => register

theorem completedAt?_edit (action : Action) (graph : TaskGraph) (task : TaskId) :
    (action.edit graph).completedAt? task = graph.completedAt? task := by
  cases action with
  | addDependencies tasks predecessors delay rule => exact graph.completedAt?_addEdges _ _ _ task
  | removeDependencies tasks only => exact graph.completedAt?_dropEdges _ _ task
  | _ => rfl

theorem switch_of_plain {action : Action} (plain : action.window? = none)
    (register : HoldRegister) : action.switch register = register := by
  cases action with
  | activateWindow handle | deactivateWindow handle => simp [window?] at plain
  | _ => rfl

end Action

namespace Site

theorem editPath_keeps (site : Site) (id : EquipmentId) (change : Path → Path) :
    (site.editPath id change).1.scenario.tasks = site.scenario.tasks ∧
      (site.editPath id change).1.holds = site.holds := by
  unfold editPath Scenario.changePath
  cases site.scenario.equipment? id with
  | none => exact ⟨rfl, rfl⟩
  | some equipment => exact ⟨rfl, rfl⟩

theorem changeWindow_keeps (site : Site) (handle : WindowHandle)
    (change : TimeWindow → TimeWindow) :
    (site.editHolds (site.holds.changeWindow handle change)).1.scenario.tasks =
        site.scenario.tasks ∧
      (site.editHolds (site.holds.changeWindow handle change)).1.holds =
        site.holds.modifyWindow handle change := by
  unfold editHolds HoldRegister.changeWindow
  cases found : site.holds.window? handle with
  | none => exact ⟨rfl, (HoldRegister.modifyWindow_of_none found change).symm⟩
  | some window => exact ⟨rfl, rfl⟩

theorem apply_parts (site : Site) (action : Action) :
    (site.apply action).1.scenario.tasks = action.edit site.scenario.tasks ∧
      (site.apply action).1.holds = action.switch site.holds := by
  cases action with
  | addDependencies tasks predecessors delay rule | removeDependencies tasks only =>
      exact ⟨rfl, rfl⟩
  | removeElements id elements | insertIdle id line process duration | moveToFront id elements
  | insertSteps id line anchor steps => exact site.editPath_keeps id _
  | forceComplete id line steps ignoreConstraints =>
      simp only [apply]
      split
      · exact ⟨rfl, rfl⟩
      · exact site.editPath_keeps id _
  | activateWindow handle | deactivateWindow handle => exact site.changeWindow_keeps handle _

theorem sameRecords_apply (site : Site) (action : Action) :
    SameRecords site (site.apply action).1 := by
  obtain ⟨tasks, holds⟩ := site.apply_parts action
  have completedAt? (task : TaskId) : (site.apply action).1.scenario.tasks.completedAt? task =
      site.scenario.tasks.completedAt? task := by
    rw [tasks, action.completedAt?_edit]
  cases action with
  | activateWindow handle | deactivateWindow handle =>
      exact .of_modifyWindow holds (fun _ => rfl) completedAt?
  | _ => exact .of_holds holds completedAt?

theorem sameRecords_applyAll (site : Site) (actions : List Action) :
    SameRecords site (site.applyAll actions).1 :=
  applyAll_preserves (fun middle action same => same.trans (middle.sameRecords_apply action))
    (SameRecords.refl site) actions

theorem sameRecords_drain (site : Site) (agenda : Agenda Action) (now : Instant) :
    SameRecords site (site.drain agenda now).1 :=
  drain_preserves (fun middle action same => same.trans (middle.sameRecords_apply action))
    (SameRecords.refl site) agenda now

def told (site : Site) (graph : TaskGraph) (task : TaskId) (date : Instant) : Site :=
  { site.withGraph graph with holds := (site.holds.taskCompleted task date).1 }

end Site

/-! ### What a call comes down to -/

namespace Run

theorem isAvailable_iff (run : Run) (key : HoldKey) (date : Instant) :
    run.isAvailable key.equipment key.task date = true ↔
      (run.holds.waitsOf key).windowsLet = true ∧
        ∀ counter ∈ (run.holds.waitsOf key).counters, counter.isWaiting date = false := by
  rw [isAvailable, HoldRegister.isAvailable_eq]
  exact Waits.isAvailable_iff _ date

theorem eq_start_of_build {config : Config} {scenario : Scenario} {library : ScheduleLibrary}
    {compiles : Bool} {first : Run}
    (built : build config scenario library compiles = .ok first) :
    ∃ compiled, config.validate = .ok () ∧ first = start config compiled library := by
  unfold build at built
  split at built
  · simp at built
  · rename_i valid
    split at built
    · split at built
      · simp at built
      · simp only [Except.ok.injEq] at built
        exact ⟨_, valid, built.symm⟩
    · simp only [Except.ok.injEq] at built
      exact ⟨_, valid, built.symm⟩

def asked (run : Run) : Call → List Registration
  | .parsePath id =>
      if run.isParsed id then []
      else
        match run.scenario.equipmentOf id with
        | .error _ => []
        | .ok equipment =>
            match run.readPath id equipment with
            | (_, .error _) => []
            | (reading, .ok ()) => reading.outcome.registrations
  | _ => []

def askedBy (run : Run) : List Call → List Registration
  | [] => []
  | call :: rest => run.asked call ++ (run.perform call).1.askedBy rest

theorem asked_all {run : Run} {Kept : Registration → Prop}
    (each : ∀ id equipment reading, run.readPath id equipment = (reading, .ok ()) →
      ∀ registration ∈ reading.outcome.registrations, Kept registration) (call : Call) :
    ∀ registration ∈ run.asked call, Kept registration := by
  cases call with
  | parsePath id =>
      simp only [asked]
      split
      · simp
      · split
        · simp
        · split
          · simp
          · rename_i read
            exact each _ _ _ read
  | _ => simp [asked]

theorem asked_fresh (run : Run) (call : Call) :
    ∀ registration ∈ run.asked call, registration.Fresh :=
  asked_all (fun _ _ _ read => (readPath_fresh read).records) call

theorem asked_forward {run : Run} (forward : 0 ≤ run.config.releaseDelay.nanoseconds)
    (call : Call) : ∀ registration ∈ run.asked call, registration.Forward :=
  asked_all (fun _ _ _ read => (readPath_forward forward read).records) call

theorem schedule_sameRecords (run : Run) (effect : Effect) :
    SameRecords run.site (run.schedule effect).1.site := by
  cases effect with
  | now action => exact run.site.sameRecords_apply action
  | onDate date action => exact SameRecords.refl _
  | onCompletion tasks delay action =>
      simp only [schedule]
      split <;> exact SameRecords.refl _
  | onSelection equipment elements action => exact SameRecords.refl _

theorem scheduleAll_preserves {Kept : Run → Prop} {effects : List Effect}
    (step : ∀ run, ∀ effect ∈ effects, Kept run → Kept (run.schedule effect).1) {run : Run}
    (kept : Kept run) : Kept (run.scheduleAll effects).1 := by
  induction effects generalizing run with
  | nil => exact kept
  | cons effect rest ih =>
      have first := step run effect List.mem_cons_self kept
      rw [scheduleAll]
      split
      · rename_i next scheduled
        rw [scheduled] at first
        exact ih (fun run other member => step run other (List.mem_cons_of_mem _ member)) first
      · rename_i next error failed
        rw [failed] at first
        exact first

theorem scheduleAll_sameRecords (run : Run) (effects : List Effect) :
    SameRecords run.site (run.scheduleAll effects).1.site := by
  have step : ∀ next : Run, ∀ effect ∈ effects, SameRecords run.site next.site →
      SameRecords run.site (next.schedule effect).1.site :=
    fun next effect _ same => same.trans (next.schedule_sameRecords effect)
  exact scheduleAll_preserves step (SameRecords.refl run.site)

theorem parsePath_cases (run : Run) (id : EquipmentId) :
    (run.parsePath id).2.1 = run ∧ run.asked (.parsePath id) = [] ∨
      ∃ equipment reading,
        run.readPath id equipment = (reading, .ok ()) ∧
          run.asked (.parsePath id) = reading.outcome.registrations ∧
            ∃ parsed, (run.parsePath id).2.1 =
              { (run.commit reading.outcome).1 with parsed } := by
  simp only [parsePath, asked]
  by_cases installed : run.isParsed id = true
  · simp [installed]
  · simp only [if_neg installed]
    cases run.scenario.equipmentOf id with
    | error error => exact .inl ⟨rfl, rfl⟩
    | ok equipment =>
        dsimp only
        cases read : run.readPath id equipment with
        | mk reading result =>
            cases result with
            | error error => exact .inl ⟨rfl, rfl⟩
            | ok =>
                refine .inr ⟨equipment, reading, read, rfl, ?_⟩
                dsimp only
                cases run.commit reading.outcome with
                | mk next outcome => cases outcome <;> exact ⟨_, rfl⟩

theorem advanceTo_sameRecords (run : Run) (date : Instant) :
    SameRecords run.site (run.advanceTo date).1.site := by
  have drained := run.site.sameRecords_drain run.agenda date
  unfold advanceTo
  split
  · rename_i site agenda done
    rw [done] at drained
    exact drained
  · rename_i site agenda error failed
    rw [failed] at drained
    exact drained

/-- A run with a first report in its graph, its counters and its watches, before what is due by the
date of the report is applied. -/
def enter (run : Run) (graph : TaskGraph) (task : TaskId) (date : Instant) : Run :=
  { run with
    site := run.site.told graph task date
    completions := (run.tellWatches task date).1
    agenda := (run.tellWatches task date).2
    watchers := Keyed.erase task run.watchers }

theorem taskCompleted_first {run : Run} {graph : TaskGraph} {task : TaskId} {date : Instant}
    (completed : run.scenario.tasks.complete task date = .ok (graph, true)) :
    run.taskCompleted task date = (run.enter graph task date).advanceTo date := by
  simp only [taskCompleted, completed]
  rfl

theorem eq_of_changeEquipment {run next : Run} {id : EquipmentId} {change : Equipment → Equipment}
    (changed : run.changeEquipment id change = .ok next) :
    next = { run with
      site := { run.site with scenario := run.scenario.modifyEquipment id change } } := by
  unfold changeEquipment at changed
  split at changed
  · simp at changed
  · exact (Except.ok.inj changed).symm

theorem changeEquipment_sameRecords {run next : Run} {id : EquipmentId}
    {change : Equipment → Equipment} (changed : run.changeEquipment id change = .ok next) :
    SameRecords run.site next.site := by
  obtain rfl := eq_of_changeEquipment changed
  exact SameRecords.of_holds rfl fun _ => rfl

theorem register_scenario (run : Run) (registration : Registration) :
    (run.register registration).scenario = run.scenario := by
  cases registration <;> rfl

theorem registerAll_scenario (run : Run) (registrations : List Registration) :
    (registrations.foldl register run).scenario = run.scenario := by
  induction registrations generalizing run with
  | nil => rfl
  | cons registration rest ih => exact (ih _).trans (run.register_scenario registration)

theorem registerAll_tasks (run : Run) (registrations : List Registration) :
    (registrations.foldl register run).site.scenario.tasks = run.scenario.tasks :=
  congrArg (·.tasks) (run.registerAll_scenario registrations)

theorem register_config (run : Run) (registration : Registration) :
    (run.register registration).config = run.config := by
  cases registration <;> rfl

theorem registerAll_config (run : Run) (registrations : List Registration) :
    (registrations.foldl register run).config = run.config := by
  induction registrations generalizing run with
  | nil => rfl
  | cons registration rest ih => exact (ih _).trans (run.register_config registration)

theorem commit_config (run : Run) (outcome : LineOutcome) :
    (run.commit outcome).1.config = run.config := by
  have step : ∀ next : Run, ∀ effect ∈ outcome.effects, next.config = run.config →
      (next.schedule effect).1.config = run.config := by
    intro next effect _ same
    cases effect with
    | onCompletion tasks delay action =>
        simp only [schedule]
        split <;> exact same
    | _ => exact same
  exact scheduleAll_preserves step (run.registerAll_config outcome.registrations)

theorem advanceTo_config (run : Run) (date : Instant) :
    (run.advanceTo date).1.config = run.config := by
  unfold advanceTo
  split <;> rfl

theorem changeEquipment_config {run next : Run} {id : EquipmentId}
    {change : Equipment → Equipment} (changed : run.changeEquipment id change = .ok next) :
    next.config = run.config := by
  rw [eq_of_changeEquipment changed]

theorem perform_config (run : Run) (call : Call) : (run.perform call).1.config = run.config := by
  cases call with
  | parsePath id =>
      change (run.parsePath id).2.1.config = run.config
      rcases run.parsePath_cases id with ⟨unchanged, _⟩ | ⟨_, reading, _, _, _, commits⟩
      · rw [unchanged]
      · rw [commits]
        exact run.commit_config reading.outcome
  | taskCompleted task date =>
      simp only [perform, taskCompleted]
      split
      · rfl
      · rfl
      · exact advanceTo_config _ date
  | taskSelected equipment element task =>
      simp only [perform, taskSelected]
      split
      · rfl
      · rename_i changed
        have same := changeEquipment_config changed
        exact same
  | taskReleased equipment =>
      simp only [perform, taskReleased]
      split
      · rfl
      · rename_i changed
        have same := changeEquipment_config changed
        exact same
  | advanceTo date => exact run.advanceTo_config date

theorem performAll_config (run : Run) (calls : List Call) :
    (run.performAll calls).config = run.config := by
  induction calls generalizing run with
  | nil => rfl
  | cons call rest ih => exact (ih _).trans (run.perform_config call)

inductive Counting (run : Run) (call : Call) : Prop where
  | records
      (same : SameRecords ((run.asked call).foldl register run).site (run.perform call).1.site)
  | completion {task : TaskId} {date : Instant} {graph : TaskGraph}
      (reported : call = .taskCompleted task date)
      (completed : run.scenario.tasks.complete task date = .ok (graph, true))
      (same : SameRecords (run.site.told graph task date) (run.perform call).1.site)

theorem perform_counting (run : Run) (call : Call) : run.Counting call := by
  cases call with
  | parsePath id =>
      refine .records ?_
      rcases run.parsePath_cases id with ⟨unchanged, nothing⟩ | ⟨_, reading, _, asks, _, commits⟩
      · rw [nothing]
        change SameRecords run.site (run.parsePath id).2.1.site
        rw [unchanged]
        exact SameRecords.refl run.site
      · rw [asks]
        change SameRecords _ (run.parsePath id).2.1.site
        rw [commits]
        exact scheduleAll_sameRecords _ _
  | taskCompleted task date =>
      cases entered : run.scenario.tasks.complete task date with
      | error error =>
          refine .records ?_
          simp only [perform, taskCompleted, entered]
          exact SameRecords.refl run.site
      | ok entry =>
          obtain ⟨graph, first⟩ := entry
          cases first with
          | false =>
              refine .records ?_
              simp only [perform, taskCompleted, entered]
              exact SameRecords.refl run.site
          | true =>
              refine .completion rfl entered ?_
              simp only [perform, taskCompleted_first entered]
              exact advanceTo_sameRecords (run.enter graph task date) date
  | taskSelected equipment element task =>
      refine .records ?_
      simp only [perform, taskSelected]
      split
      · exact SameRecords.refl run.site
      · rename_i next changed
        have same := changeEquipment_sameRecords changed
        exact same
  | taskReleased equipment =>
      refine .records ?_
      simp only [perform, taskReleased]
      split
      · exact SameRecords.refl run.site
      · rename_i next changed
        have same := changeEquipment_sameRecords changed
        exact same.trans (next.site.sameRecords_applyAll _)
  | advanceTo date => exact .records (advanceTo_sameRecords run date)

theorem eq_ok_of_isOk {ε : Type} {result : Except ε Unit} (succeeds : result.isOk = true) :
    result = .ok () := by
  cases result with
  | error error => simp [Except.isOk, Except.toBool] at succeeds
  | ok => rfl

def accepts (run : Run) : List Call → Bool
  | [] => true
  | call :: rest => (run.perform call).2.isOk && (run.perform call).1.accepts rest

end Run

namespace Quarry

def moment (day hour : Nat) : Instant :=
  (Instant.ofClock? (((19722 + day) * 24 + hour) * 3600000000000)).getD Instant.first

def config : Config :=
  { runStart := moment 1 0
    runEnd := moment 3 0
    requireEnable := false
    releaseDelay := Span.hours 1
    timeMode := .allow }

def drilled : TaskId := ⟨0⟩

def blasted : TaskId := ⟨1⟩

def loaded : TaskId := ⟨2⟩

def pathText : String := "Face '!waiton {Hole,Shot} !timeconstrain start=2024-01-02"

def scenario : Scenario :=
  { tasks := ⟨["Hole", "Shot", "Face"].map fun name =>
      { name, role := .source, process := ⟨0⟩ }⟩
    equipment :=
      [{ name := "Loader"
         pathText
         path := Path.push {} 1 (.steps [{ source := loaded }]) }] }

def opening : Run := Run.start config scenario {}

theorem opening_built : Run.build config scenario {} false = .ok opening := rfl

def loader : EquipmentId := ⟨0⟩

def truck : EquipmentId := ⟨1⟩

def faceKey : HoldKey := ⟨loader, loaded⟩

end Quarry

end PathDirectives
