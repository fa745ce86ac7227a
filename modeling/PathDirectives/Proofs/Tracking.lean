import PathDirectives.Proofs.Errand
import PathDirectives.Proofs.Losses
import PathDirectives.Proofs.Releases

/-!
The errands of a run, followed from call to call. The watches, the agenda and what the advances
apply come to just these errands, so that every action that waits for completions is queued once and
applied once.
-/

namespace PathDirectives

open Calendar

theorem filterMap_or_perm {α β : Type} {first second : α → Option β} {items : List α}
    (apart : ∀ item ∈ items, first item = none ∨ second item = none) :
    (items.filterMap fun item => (first item).or (second item)).Perm
      (items.filterMap first ++ items.filterMap second) := by
  induction items with
  | nil => simp
  | cons item rest ih =>
      have others := ih fun other member => apart other (List.mem_cons_of_mem _ member)
      simp only [List.filterMap_cons]
      rcases apart item List.mem_cons_self with none | none
      · rw [none, Option.none_or]
        cases second item with
        | none => exact others
        | some value => exact (others.cons value).trans List.perm_middle.symm
      · rw [none, Option.or_none]
        cases first item with
        | none => exact others
        | some value => exact others.cons value

namespace Run

variable {run : Run}

def completed (run : Run) : TaskId → Option Instant := run.scenario.tasks.completedAt?

def advanceOf? (run : Run) : Call → Option (Run × Instant)
  | .taskCompleted task date =>
      match run.scenario.tasks.complete task date with
      | .ok (graph, true) => some (run.enter graph task date, date)
      | _ => none
  | .advanceTo date => some (run, date)
  | _ => none

/-- The queue entries that a call applies. -/
def applied (run : Run) (call : Call) : List (Instant × Action) :=
  match run.advanceOf? call with
  | some (middle, date) => middle.log date
  | none => []

def appliedBy (run : Run) : List Call → List (Instant × Action)
  | [] => []
  | call :: rest => run.applied call ++ (run.perform call).1.appliedBy rest

def effectsOf (run : Run) : Call → List Effect
  | .parsePath id =>
      if run.isParsed id then []
      else
        match run.scenario.equipmentOf id with
        | .error _ => []
        | .ok equipment =>
            match run.readPath id equipment with
            | (_, .error _) => []
            | (reading, .ok ()) => reading.outcome.effects
  | _ => []

def effectsBy (run : Run) : List Call → List Effect
  | [] => []
  | call :: rest => run.effectsOf call ++ (run.perform call).1.effectsBy rest

/-- The errands after a call: those before and the new ones, settled by the completions there are
then, and those due applied if the call ends with an advance. -/
def track (run : Run) (call : Call) (errands : List Errand) : List Errand :=
  let known := errands ++ (run.effectsOf call).filterMap Effect.errand?
  let settled := known.map (Errand.settle (run.perform call).1.completed)
  match run.advanceOf? call with
  | some (_, date) => settled.map (Errand.advance date)
  | none => settled

def trackAll (run : Run) (errands : List Errand) : List Call → List Errand
  | [] => errands
  | call :: rest => (run.perform call).1.trackAll (run.track call errands) rest

/-- A first report of a task is not dated before a completion that is there already. -/
def Timely (run : Run) : Call → Prop
  | .taskCompleted task date => run.completed task = none →
      ∀ other done, run.completed other = some done → done ≤ date
  | _ => True

def Chronological (run : Run) : List Call → Prop
  | [] => True
  | call :: rest => run.Timely call ∧ (run.perform call).1.Chronological rest

def plain (entries : List (Instant × Action)) : List (Instant × Action) :=
  entries.filter fun entry => entry.2.window?.isNone

structure Follows (run : Run) (log : List (Instant × Action)) (errands : List Errand) : Prop where
  indexed : run.WatchIndexed
  right : ∀ errand ∈ errands, errand.Right run.completed
  watched : run.completions.filter (·.action.isSome) = errands.filterMap (Errand.watch? run.completed)
  queued : (plain run.agenda.queue).Perm (errands.filterMap Errand.queued?)
  applied : (plain log).Perm (errands.filterMap Errand.applied?)

variable {next : Run} {log : List (Instant × Action)} {errands : List Errand}

theorem plain_append (first second : List (Instant × Action)) :
    plain (first ++ second) = plain first ++ plain second :=
  List.filter_append first second

namespace Follows

theorem congr (follows : run.Follows log errands) (completions : next.completions = run.completions)
    (watchers : next.watchers = run.watchers)
    (queue : (plain next.agenda.queue).Perm (plain run.agenda.queue))
    (completed : next.completed = run.completed) : next.Follows log errands where
  indexed task := by
    rw [watchersOf, watchers, completions]
    exact follows.indexed task
  right := completed.symm ▸ follows.right
  watched := by
    rw [completions, completed]
    exact follows.watched
  queued := queue.trans follows.queued
  applied := follows.applied

theorem register (follows : run.Follows log errands) (registration : Registration) :
    (run.register registration).Follows log errands := by
  have dropped (agenda : Agenda Action) (date : Instant) (action : Action)
      (window : action.window?.isNone = false) :
      (plain (agenda.push date action).queue).Perm (plain agenda.queue) := by
    have pushed := (agenda.queue_push_perm date action).filter fun entry => entry.2.window?.isNone
    rwa [List.filter_cons_of_neg (by simp [window])] at pushed
  cases registration with
  | wait key counter => exact follows.congr rfl rfl (List.Perm.refl _) rfl
  | window key window =>
      refine follows.congr rfl rfl ?_ rfl
      exact (dropped _ window.stop (.deactivateWindow _) rfl).trans
        (dropped _ window.start (.activateWindow _) rfl)

theorem registerAll (follows : run.Follows log errands) (registrations : List Registration) :
    (registrations.foldl Run.register run).Follows log errands := by
  induction registrations generalizing run with
  | nil => exact follows
  | cons registration rest ih => exact ih (follows.register registration)

theorem onAgenda (follows : run.Follows log errands) {errand : Errand} {agenda : Agenda Action}
    (right : errand.Right run.completed) (unwatched : errand.watch? run.completed = none)
    (unapplied : errand.applied? = none)
    (pushed : agenda.queue.Perm (run.agenda.queue ++ errand.queued?.toList)) :
    ({ run with agenda } : Run).Follows log (errands ++ [errand]) where
  indexed := follows.indexed
  right other member := by
    rcases List.mem_append.mp member with old | new
    · exact follows.right other old
    · exact List.mem_singleton.mp new ▸ right
  watched := by
    have none_new : [errand].filterMap (Errand.watch? run.completed) = [] := by simp [unwatched]
    change _ = (errands ++ [errand]).filterMap (Errand.watch? run.completed)
    rw [List.filterMap_append, none_new, List.append_nil]
    exact follows.watched
  queued := by
    have own : plain errand.queued?.toList = [errand].filterMap Errand.queued? := by
      obtain ⟨effect, stage⟩ := errand
      cases stage with
      | queued due => simp [plain, Errand.queued?, right.plain]
      | _ => rfl
    rw [List.filterMap_append, ← own]
    refine (pushed.filter _).trans ?_
    rw [List.filter_append]
    exact follows.queued.append_right _
  applied := by
    rw [List.filterMap_append, List.filterMap_cons_none unapplied, List.filterMap_nil,
      List.append_nil]
    exact follows.applied

theorem onWatch (follows : run.Follows log errands) {tasks : TaskSet} {delay : Span}
    {action : Action} {task : TaskId} (plain : action.window? = none) (member : task ∈ tasks)
    (incomplete : run.completed task = none) :
    (run.schedule (.onCompletion tasks delay action)).1.Follows log
      (errands ++ [⟨.onCompletion tasks delay action, .waiting⟩]) := by
  have indexed := follows.indexed.schedule (.onCompletion tasks delay action)
  have waits : (tasks.incomplete run.completed).isEmpty = false :=
    TaskSet.isEmpty_eq_false (TaskSet.mem_incomplete.mpr ⟨member, incomplete⟩)
  have set_up : (run.schedule (.onCompletion tasks delay action)).1 =
      { run with
        completions := run.completions ++ [⟨tasks.incomplete run.completed, delay, some action⟩]
        watchers := Keyed.file run.completions.length (tasks.incomplete run.completed).ids
          run.watchers } := by
    change (if (tasks.incomplete run.completed).isEmpty = true then _ else _ :
      Run × Except RunError Unit).1 = _
    rw [waits]
    rfl
  rw [set_up] at indexed ⊢
  refine ⟨indexed, fun other inside => ?_, ?_, ?_, ?_⟩
  · rcases List.mem_append.mp inside with old | new
    · exact follows.right other old
    · exact List.mem_singleton.mp new ▸ ⟨plain, .waiting member incomplete⟩
  · rw [List.filter_append, follows.watched, List.filterMap_append]
    rfl
  · have none_new : [(⟨.onCompletion tasks delay action, .waiting⟩ : Errand)].filterMap
        Errand.queued? = [] := rfl
    rw [List.filterMap_append, none_new, List.append_nil]
    exact follows.queued
  · have none_new : [(⟨.onCompletion tasks delay action, .waiting⟩ : Errand)].filterMap
        Errand.applied? = [] := rfl
    rw [List.filterMap_append, none_new, List.append_nil]
    exact follows.applied

theorem schedule (follows : run.Follows log errands) {effect : Effect}
    (plain : effect.action.window? = none)
    (filled : ∀ tasks delay action, effect = .onCompletion tasks delay action →
      tasks.isEmpty = false) :
    (run.schedule effect).1.Follows log
      (errands ++ (effect.errand?.map (Errand.settle run.completed)).toList) := by
  cases effect with
  | now action =>
      have same : (run.schedule (.now action)).1.completed = run.completed :=
        funext (run.site.sameRecords_apply action).completedAt?
      rw [Effect.errand?, Option.map_none, Option.toList_none, List.append_nil]
      exact follows.congr rfl rfl (List.Perm.refl _) same
  | onDate date action =>
      refine follows.onAgenda ⟨plain, .inl rfl⟩ rfl rfl ?_
      exact (run.agenda.queue_push_perm date action).trans (List.perm_append_singleton _ _).symm
  | onCompletion tasks delay action =>
      have some_task := filled tasks delay action rfl
      simp only [Effect.errand?, Option.map_some, Option.toList_some]
      rcases incomplete_or_last run.completed some_task with ⟨task, member, missing⟩ | ⟨last, latest⟩
      · rw [Errand.settle_of_incomplete member missing]
        exact follows.onWatch plain member missing
      · have right := @Errand.settle_right run.completed tasks delay action some_task plain
        have queued : (run.schedule (.onCompletion tasks delay action)).1 =
            { run with agenda := pushAfter run.agenda last delay action } := by
          have found : latest? (tasks.ids.filterMap run.scenario.tasks.completedAt?) = some last :=
            latest.latest?
          change (if (tasks.incomplete run.completed).isEmpty = true then _ else _ :
            Run × Except RunError Unit).1 = _
          rw [if_pos latest.nothing_incomplete, found]
          rfl
        have pushed := queue_pushAfter_perm run.agenda last delay action
        rw [queued]
        rw [Errand.settle_of_last latest] at right ⊢
        unfold entryAfter? at pushed
        cases added : last.add? delay <;> rw [added] at right pushed <;>
          exact follows.onAgenda right rfl rfl pushed
  | onSelection id elements action =>
      rw [Effect.errand?, Option.map_none, Option.toList_none, List.append_nil]
      exact follows.congr rfl rfl (List.Perm.refl _) rfl

theorem scheduleAll (follows : run.Follows log errands) {effects : List Effect}
    (plain : ∀ effect ∈ effects, effect.action.window? = none)
    (filled : ∀ effect ∈ effects, ∀ tasks delay action, effect = .onCompletion tasks delay action →
      tasks.isEmpty = false)
    (done : run.scheduleAll effects = (next, .ok ())) :
    next.Follows log
      (errands ++ (effects.filterMap Effect.errand?).map (Errand.settle run.completed)) := by
  induction effects generalizing run errands with
  | nil =>
      simp only [Run.scheduleAll, Prod.mk.injEq, and_true] at done
      subst done
      simpa using follows
  | cons effect rest ih =>
      have first := follows.schedule (plain effect List.mem_cons_self)
        (filled effect List.mem_cons_self)
      have same : (run.schedule effect).1.completed = run.completed :=
        funext (run.schedule_sameRecords effect).completedAt?
      simp only [Run.scheduleAll] at done
      split at done
      · rename_i middle scheduled
        rw [scheduled] at first same
        have last := ih first (fun other member => plain other (List.mem_cons_of_mem _ member))
          (fun other member => filled other (List.mem_cons_of_mem _ member)) done
        rw [same, List.append_assoc] at last
        rw [List.filterMap_cons]
        cases new : effect.errand? with
        | none => simpa [new] using last
        | some errand => simpa [new] using last
      · simp at done

section Told

variable {later : TaskId → Option Instant} {task : TaskId} {date : Instant}
  (told : ∀ other, later other = if other = task then some date else run.completed other)
  (fresh : run.completed task = none)
  (ordered : ∀ other done, run.completed other = some done → done ≤ date)

include told fresh ordered

theorem watched_told (follows : run.Follows log errands) :
    (run.tellWatches task date).1.filter (·.action.isSome) =
      (errands.map (Errand.settle later)).filterMap (Errand.watch? later) := by
  rw [follows.indexed.tellWatches, CompletionWatch.filter_map_hear, follows.watched,
    List.map_filterMap, List.filter_filterMap, List.filterMap_map]
  refine List.filterMap_congr fun errand member => ?_
  exact (Errand.told_cases told fresh ordered (follows.right errand member)).1.symm

theorem queued_told (follows : run.Follows log errands) :
    (plain (run.tellWatches task date).2.queue).Perm
      ((errands.map (Errand.settle later)).filterMap Errand.queued?) := by
  let put (errand : Errand) : Option (Instant × Action) :=
    ((errand.watch? run.completed).bind (·.fires? task)).bind (entryAfter? date)
  have queue : (run.tellWatches task date).2.queue.Perm
      (run.agenda.queue ++ errands.filterMap put) := by
    have fired : run.completions.filterMap (CompletionWatch.fires? task) =
        errands.filterMap fun errand => (errand.watch? run.completed).bind (·.fires? task) := by
      rw [CompletionWatch.filterMap_fires?, follows.watched, List.filterMap_filterMap]
    rw [follows.indexed.tellWatches]
    refine (queue_pushEach_perm run.agenda date _).trans (List.Perm.of_eq ?_)
    rw [fired, List.filterMap_filterMap]
  have all_plain : plain (errands.filterMap put) = errands.filterMap put := by
    refine List.filter_eq_self.mpr fun entry member => ?_
    obtain ⟨errand, inside, fires⟩ := List.mem_filterMap.mp member
    simp [(follows.right errand inside).plain_fires fires]
  have joined : (errands.map (Errand.settle later)).filterMap Errand.queued? =
      errands.filterMap fun errand => errand.queued?.or (put errand) := by
    rw [List.filterMap_map]
    refine List.filterMap_congr fun errand member => ?_
    exact (Errand.told_cases told fresh ordered (follows.right errand member)).2
  have apart : ∀ errand ∈ errands, errand.queued? = none ∨ put errand = none :=
    fun errand _ => (errand.queued?_or_watch? run.completed).imp_right fun none => by
      simp [put, none]
  have split := queue.filter fun entry => entry.2.window?.isNone
  rw [List.filter_append] at split
  rw [joined]
  refine (split.trans ?_).trans (filterMap_or_perm apart).symm
  exact follows.queued.append (List.Perm.of_eq all_plain)

end Told

theorem enter (follows : run.Follows log errands) {graph : TaskGraph} {task : TaskId}
    {date : Instant} (completed : run.scenario.tasks.complete task date = .ok (graph, true))
    (ordered : ∀ other done, run.completed other = some done → done ≤ date) :
    (run.enter graph task date).Follows log
      (errands.map (Errand.settle graph.completedAt?)) := by
  obtain ⟨fresh, told⟩ : run.completed task = none ∧ ∀ other, graph.completedAt? other =
      if other = task then some date else run.completed other :=
    TaskGraph.complete_true completed
  refine ⟨follows.indexed.enter graph task date, ?_, follows.watched_told told fresh ordered,
    follows.queued_told told fresh ordered, ?_⟩
  · intro settled member
    obtain ⟨errand, inside, rfl⟩ := List.mem_map.mp member
    refine (follows.right errand inside).extend fun other done known => (told other).trans ?_
    rw [if_neg]
    · exact known
    · rintro rfl
      exact absurd (fresh.symm.trans known) (by simp)
  · have same : (Errand.applied? ∘ Errand.settle graph.completedAt?) = Errand.applied? :=
      funext fun errand => errand.applied?_settle graph.completedAt?
    rw [List.filterMap_map, same]
    exact follows.applied

theorem advanceTo (follows : run.Follows log errands) {date : Instant}
    (advanced : run.advanceTo date = (next, .ok ())) :
    next.Follows (log ++ run.log date) (errands.map (Errand.advance date)) := by
  have completed : next.completed = run.completed := by
    have same := run.advanceTo_sameRecords date
    rw [advanced] at same
    exact funext same.completedAt?
  unfold Run.advanceTo at advanced
  split at advanced
  · rename_i site agenda drained
    simp only [Prod.mk.injEq, and_true] at advanced
    obtain ⟨logged, left⟩ := Site.log_eq_filter drained
    have within (test : Instant × Action → Bool) : (plain (run.agenda.queue.filter test)).Perm
        (errands.filterMap fun errand => errand.queued?.filter test) := by
      rw [plain, List.filter_filter, ← List.filter_filterMap]
      refine List.Perm.trans (List.Perm.of_eq ?_) (follows.queued.filter test)
      rw [plain, List.filter_filter]
      exact List.filter_congr fun entry _ => Bool.and_comm _ _
    subst advanced
    refine ⟨follows.indexed, ?_, ?_, ?_, ?_⟩
    · intro advanced member
      obtain ⟨errand, inside, rfl⟩ := List.mem_map.mp member
      rw [completed]
      exact (follows.right errand inside).advance date
    · rw [completed, List.filterMap_map]
      refine follows.watched.trans (List.filterMap_congr fun errand _ => ?_)
      exact (errand.watch?_advance run.completed date).symm
    · change (plain agenda.queue).Perm _
      rw [left, List.filterMap_map]
      refine (within _).trans (List.Perm.of_eq (List.filterMap_congr fun errand _ => ?_))
      exact (errand.queued?_advance date).symm
    · rw [plain_append, Run.log, logged, List.filterMap_map]
      refine (follows.applied.append (within _)).trans ?_
      have apart : ∀ errand ∈ errands, errand.applied? = none ∨
          (errand.queued?.filter fun entry => decide (entry.1 ≤ date)) = none :=
        fun errand _ => errand.applied?_or_queued?.imp_right fun none => by simp [none]
      refine (filterMap_or_perm apart).symm.trans ?_
      refine List.Perm.of_eq (List.filterMap_congr fun errand _ => ?_)
      exact (errand.applied?_advance date).symm
  · simp at advanced

theorem settled (follows : run.Follows log errands) :
    errands.map (Errand.settle run.completed) = errands := by
  have still : ∀ errand ∈ errands, errand.settle run.completed = errand :=
    fun errand member => (follows.right errand member).settle_eq
  rw [List.map_congr_left still, List.map_id']

theorem idle (follows : next.Follows log errands) {call : Call}
    (nothing : run.effectsOf call = []) (still : run.advanceOf? call = none)
    (reached : (run.perform call).1 = next) :
    next.Follows (log ++ run.applied call) (run.track call errands) := by
  have none_applied : run.applied call = [] := by rw [Run.applied, still]
  have settled := follows.settled
  rw [none_applied, List.append_nil, track, still, nothing, reached]
  simpa [settled] using follows

theorem install (follows : run.Follows log errands) {id : EquipmentId} {equipment : Equipment}
    {reading : PathReading} (found : run.scenario.equipmentOf id = .ok equipment)
    (read : run.readPath id equipment = (reading, .ok ()))
    (committed : run.commit reading.outcome = (next, .ok ())) :
    next.Follows log (errands ++ (reading.outcome.effects.filterMap Effect.errand?).map
        (Errand.settle run.completed)) ∧ next.completed = run.completed := by
  have registered : (reading.outcome.registrations.foldl Run.register run).completed =
      run.completed :=
    congrArg TaskGraph.completedAt? (run.registerAll_tasks reading.outcome.registrations)
  have anything : run.scenario.Names fun _ => True :=
    ⟨fun _ _ _ _ => trivial, fun _ _ _ _ _ _ => trivial⟩
  have valid := readPath_valid (fun _ _ => trivial) anything found read
  have scheduled := (follows.registerAll reading.outcome.registrations).scheduleAll
    (readPath_fresh read).effects
    (fun effect member tasks delay action same => (same ▸ valid.effects effect member).1)
    committed
  have kept := scheduleAll_sameRecords
    (reading.outcome.registrations.foldl Run.register run) reading.outcome.effects
  rw [show Run.scheduleAll _ _ = (next, .ok ()) from committed] at kept
  rw [registered] at scheduled
  exact ⟨scheduled, (funext kept.completedAt?).trans registered⟩

theorem parsePath (follows : run.Follows log errands) {id : EquipmentId}
    (parsed : run.perform (.parsePath id) = (next, .ok ())) :
    next.Follows (log ++ run.applied (.parsePath id)) (run.track (.parsePath id) errands) := by
  have reached : (run.perform (.parsePath id)).1 = next := congrArg (·.1) parsed
  cases run.parsing id with
  | again known passes =>
      have same : run = next := by simpa [Run.perform, passes] using reached
      have nothing : run.effectsOf (.parsePath id) = [] := by simp [effectsOf, known]
      exact (same ▸ follows).idle nothing rfl reached
  | failed _ _ fails => simp [Run.perform, fails, Except.map] at parsed
  | @installed equipment reading middle fresh found read committed installs =>
      obtain ⟨installed, same⟩ := follows.install found read committed
      have ends : { middle with parsed := middle.parsed ++ [id] } = next := by
        simpa [Run.perform, installs] using reached
      have effects : run.effectsOf (.parsePath id) = reading.outcome.effects := by
        simp [effectsOf, fresh, found, read]
      have completed : next.completed = run.completed := ends ▸ same
      have tracked : run.track (.parsePath id) errands =
          errands ++ (reading.outcome.effects.filterMap Effect.errand?).map
            (Errand.settle run.completed) := by
        rw [track, reached, effects, completed, List.map_append, follows.settled]
        rfl
      have none_applied : run.applied (.parsePath id) = [] := rfl
      rw [none_applied, List.append_nil, tracked, ← ends]
      exact { installed with }

theorem changeEquipment (follows : run.Follows log errands) {id : EquipmentId}
    {change : Equipment → Equipment} (changed : run.changeEquipment id change = .ok next) :
    next.Follows log errands := by
  have same : next.completed = run.completed :=
    funext (changeEquipment_sameRecords changed).completedAt?
  obtain rfl := eq_of_changeEquipment changed
  exact follows.congr rfl rfl (List.Perm.refl _) same

theorem taskSelected (follows : run.Follows log errands) {id : EquipmentId} {element : ElementId}
    {task : TaskId} (selected : run.taskSelected id element task = (next, .ok ())) :
    next.Follows log errands := by
  unfold Run.taskSelected at selected
  split at selected
  · simp at selected
  · rename_i changed
    simp only [Prod.mk.injEq, and_true] at selected
    subst selected
    exact (follows.changeEquipment changed).congr rfl rfl (List.Perm.refl _) rfl

theorem taskReleased (follows : run.Follows log errands) {id : EquipmentId}
    (released : run.taskReleased id = (next, .ok ())) :
    next.Follows log errands := by
  unfold Run.taskReleased at released
  split at released
  · simp at released
  · rename_i after changed
    simp only [Prod.mk.injEq] at released
    obtain ⟨rfl, _⟩ := released
    have kept := funext (after.site.sameRecords_applyAll (after.setOff id)).completedAt?
    exact (follows.changeEquipment changed).congr rfl rfl (List.Perm.refl _) kept

theorem taskCompleted (follows : run.Follows log errands) {task : TaskId} {date : Instant}
    (performed : run.perform (.taskCompleted task date) = (next, .ok ()))
    (timely : run.Timely (.taskCompleted task date)) :
    next.Follows (log ++ run.applied (.taskCompleted task date))
      (run.track (.taskCompleted task date) errands) := by
  have reached : (run.perform (.taskCompleted task date)).1 = next := congrArg (·.1) performed
  cases completed : run.scenario.tasks.complete task date with
  | error error => simp [Run.perform, Run.taskCompleted, completed] at performed
  | ok entry =>
      obtain ⟨graph, first⟩ := entry
      cases first with
      | false =>
          have still : run.advanceOf? (.taskCompleted task date) = none := by
            simp [advanceOf?, completed]
          have same : run = next := by
            simpa [Run.perform, Run.taskCompleted, completed] using reached
          exact (same ▸ follows).idle rfl still reached
      | true =>
          have ends : run.advanceOf? (.taskCompleted task date) =
              some (run.enter graph task date, date) := by
            simp [advanceOf?, completed]
          have fresh : run.completed task = none := (TaskGraph.complete_true completed).1
          have entered := follows.enter completed (timely fresh)
          simp only [Run.perform, taskCompleted_first completed] at performed
          have same := (run.enter graph task date).advanceTo_sameRecords date
          rw [performed] at same
          have after : next.completed = graph.completedAt? := funext same.completedAt?
          rw [Run.applied, track, ends, reached, after]
          simpa [effectsOf] using entered.advanceTo performed

theorem perform (follows : run.Follows log errands) {call : Call}
    (performed : run.perform call = (next, .ok ())) (timely : run.Timely call) :
    next.Follows (log ++ run.applied call) (run.track call errands) := by
  have reached : (run.perform call).1 = next := congrArg (·.1) performed
  cases call with
  | parsePath id => exact follows.parsePath performed
  | taskCompleted task date => exact follows.taskCompleted performed timely
  | taskSelected id element task =>
      exact (follows.taskSelected performed).idle rfl rfl reached
  | taskReleased id =>
      exact (follows.taskReleased performed).idle rfl rfl reached
  | advanceTo date =>
      have same := run.advanceTo_sameRecords date
      rw [show (run.advanceTo date).1 = next from reached] at same
      have completed : next.completed = run.completed := funext same.completedAt?
      have ends : run.advanceOf? (.advanceTo date) = some (run, date) := rfl
      have advanced := follows.advanceTo performed
      rw [Run.applied, track, ends, reached, completed]
      simpa [effectsOf, follows.settled] using advanced

theorem performAll (follows : run.Follows log errands) {calls : List Call}
    (accepted : run.accepts calls = true) (ordered : run.Chronological calls) :
    (run.performAll calls).Follows (log ++ run.appliedBy calls) (run.trackAll errands calls) := by
  induction calls generalizing run log errands with
  | nil =>
      rw [appliedBy, List.append_nil]
      exact follows
  | cons call rest ih =>
      simp only [accepts, Bool.and_eq_true] at accepted
      have performed : run.perform call = ((run.perform call).1, .ok ()) :=
        Prod.ext rfl (eq_ok_of_isOk accepted.1)
      have later := ih (follows.perform performed ordered.1) accepted.2 ordered.2
      rw [List.append_assoc] at later
      exact later

end Follows

theorem InOrder.chronological {calls : List Call} (inOrder : run.InOrder calls) :
    run.Chronological calls := by
  induction calls generalizing run with
  | nil => trivial
  | cons call rest ih =>
      refine ⟨?_, ih inOrder.tail⟩
      cases call with
      | taskCompleted task date => exact fun _ => inOrder.latest
      | _ => trivial

theorem map_effect_track (call : Call) (errands : List Errand) :
    (run.track call errands).map (·.effect) =
      errands.map (·.effect) ++ (run.effectsOf call).filter Effect.isDeferred := by
  have settles (completed : TaskId → Option Instant) (errand : Errand) :
      (errand.settle completed).effect = errand.effect := by
    rcases errand.waits_or with ⟨tasks, delay, action, rfl⟩ | still
    · simp only [Errand.settle]
      split
      · split <;> rfl
      · rfl
    · rw [(still completed).1]
  have advances (date : Instant) (errand : Errand) :
      (errand.advance date).effect = errand.effect := by
    unfold Errand.advance
    split
    · split <;> rfl
    · rfl
  have new (effects : List Effect) : (effects.filterMap Effect.errand?).map (·.effect) =
      effects.filter Effect.isDeferred := by
    induction effects with
    | nil => rfl
    | cons effect rest ih =>
        cases effect with
        | now action | onSelection id elements action => exact ih
        | onDate date action | onCompletion tasks delay action => exact congrArg _ ih
  rw [track]
  split <;> simp [settles, advances, new, Function.comp_def]

theorem map_effect_trackAll (errands : List Errand) (calls : List Call) :
    (run.trackAll errands calls).map (·.effect) =
      errands.map (·.effect) ++ (run.effectsBy calls).filter Effect.isDeferred := by
  induction calls generalizing run errands with
  | nil => simp [trackAll, effectsBy]
  | cons call rest ih =>
      rw [trackAll, ih, map_effect_track, effectsBy, List.filter_append, List.append_assoc]

/-- Every action that waits for a date or for completions has one errand, and the run has come just
as far with it. -/
structure FiresOnce (run : Run) (effects : List Effect) (log : List (Instant × Action))
    (errands : List Errand) : Prop where
  one_each : errands.map (·.effect) = effects.filter Effect.isDeferred
  right : ∀ errand ∈ errands, errand.Right run.completed
  watched : run.completions.filter (·.action.isSome) =
    errands.filterMap (Errand.watch? run.completed)
  queued : (plain run.agenda.queue).Perm (errands.filterMap Errand.queued?)
  applied : (plain log).Perm (errands.filterMap Errand.applied?)
  /-- What the log of a call says is what becomes of the agenda and of the site. -/
  logged : ∀ call middle date, run.advanceOf? call = some (middle, date) →
    (run.perform call).2 = .ok () →
      run.applied call = middle.agenda.queue.filter (·.1 ≤ date) ∧
        (run.perform call).1.agenda.queue = middle.agenda.queue.filter (date < ·.1) ∧
          (run.perform call).1.site = middle.site.applyEach ((run.applied call).map (·.2))

theorem perform_of_advanceOf? {call : Call} {middle : Run} {date : Instant}
    (ends : run.advanceOf? call = some (middle, date)) :
    run.perform call = middle.advanceTo date := by
  cases call with
  | taskCompleted task reported =>
      simp only [advanceOf?] at ends
      split at ends
      · rename_i completed
        simp only [Option.some.injEq, Prod.mk.injEq] at ends
        obtain ⟨rfl, rfl⟩ := ends
        exact taskCompleted_first completed
      · simp at ends
  | advanceTo reached =>
      simp only [advanceOf?, Option.some.injEq, Prod.mk.injEq] at ends
      obtain ⟨rfl, rfl⟩ := ends
      rfl
  | _ => simp [advanceOf?] at ends

theorem advanceTo_filters {date : Instant} (advanced : (run.advanceTo date).2 = .ok ()) :
    run.log date = run.agenda.queue.filter (·.1 ≤ date) ∧
      (run.advanceTo date).1.agenda.queue = run.agenda.queue.filter (date < ·.1) := by
  unfold advanceTo at advanced ⊢
  split at advanced
  · rename_i drained
    exact Site.log_eq_filter drained
  · simp at advanced

/-- In a run without failures whose completions are reported in the order of their dates. -/
theorem completion_actions_fire_once {config : Config} {scenario : Scenario}
    {library : ScheduleLibrary} {compiles : Bool} {first : Run} {calls : List Call}
    (built : build config scenario library compiles = .ok first)
    (accepted : first.accepts calls = true) (ordered : first.Chronological calls) :
    (first.performAll calls).FiresOnce (first.effectsBy calls) (first.appliedBy calls)
      (first.trackAll [] calls) := by
  obtain ⟨compiled, _, rfl⟩ := eq_start_of_build built
  have fresh : (start config compiled library).Follows [] [] :=
    { indexed := fun _ => rfl
      right := fun _ member => absurd member List.not_mem_nil
      watched := rfl
      queued := List.Perm.refl _
      applied := List.Perm.refl _ }
  have follows := fresh.performAll accepted ordered
  refine ⟨map_effect_trackAll [] calls, follows.right, follows.watched, follows.queued,
    follows.applied, ?_⟩
  intro call middle date ends succeeds
  have performed := perform_of_advanceOf? ends
  rw [performed] at succeeds ⊢
  obtain ⟨due, left⟩ := advanceTo_filters succeeds
  have logged : (((start config compiled library).performAll calls).applied call) =
      middle.log date := by
    rw [applied, ends]
  rw [logged]
  exact ⟨due, left, middle.advanceTo_site date⟩

end Run

namespace Quarry

def clearing : Scenario :=
  { scenario with
    equipment :=
      [{ name := "Loader"
         pathText := "Face '!remove {Hole,Shot} delay=1h !remove Hole delay=2d !deadhead 2h"
         path := Path.push {} 1 (.steps [{ source := loaded }])
         inactiveProcess := some ⟨0⟩ }] }

def clearingOpening : Run := Run.start config clearing {}

def clearingCalls : List Run.Call :=
  [.taskCompleted blasted (moment 1 6), .parsePath loader, .taskCompleted blasted (moment 1 7),
    .taskCompleted drilled (moment 2 9), .advanceTo (moment 2 10)]

theorem clearing_inOrder : clearingOpening.InOrder clearingCalls where
  sorted := by decide +kernel
  after task done complete := by
    have incomplete : clearingOpening.scenario.tasks.completedAt? task = none :=
      opening_incomplete task
    simp [incomplete] at complete

theorem clearing_actions_fire_once :
    Run.build config clearing {} false = .ok clearingOpening ∧
      clearingOpening.accepts clearingCalls = true ∧
        clearingOpening.Chronological clearingCalls ∧
          (clearingOpening.trackAll [] clearingCalls).map (·.stage) =
            [.applied (moment 2 10), .queued (moment 4 9), .waiting] ∧
              (clearingOpening.performAll clearingCalls).FiresOnce
                (clearingOpening.effectsBy clearingCalls) (clearingOpening.appliedBy clearingCalls)
                (clearingOpening.trackAll [] clearingCalls) := by
  have built : Run.build config clearing {} false = .ok clearingOpening := rfl
  have accepted : clearingOpening.accepts clearingCalls = true := by decide +kernel
  have ordered := clearing_inOrder.chronological
  exact ⟨built, accepted, ordered, by decide +kernel,
    Run.completion_actions_fire_once built accepted ordered⟩

end Quarry

end PathDirectives
