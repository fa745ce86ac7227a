import Mathlib.Algebra.Order.Group.Multiset
import Mathlib.Data.Multiset.Filter
import PathDirectives.Proofs.Ownership
import PathDirectives.Proofs.Staging
import PathDirectives.Proofs.Tracking

/-!
What the directives of paths have asked for, and which of their actions have been applied. An
action on a path fires at most as often as it has been asked for, whatever calls are made and
whether or not they succeed.
-/

namespace PathDirectives

open Calendar

/-- An effect that a path asks for, and the directive that asks for it. -/
structure Request where
  equipment : EquipmentId
  line : WalkedLine
  directive : Directive
  effect : Effect

structure Firing where
  site : Site
  action : Action

def Effect.timed : Effect → Multiset Action
  | .onDate _ action | .onCompletion _ _ action => {action}
  | .now _ | .onSelection .. => 0

def Site.firings (site : Site) : List Action → List Firing
  | [] => []
  | action :: rest => ⟨site, action⟩ :: (site.apply action).1.firings rest

theorem Site.firings_actions (site : Site) (actions : List Action) :
    (site.firings actions).map (·.action) = actions := by
  induction actions generalizing site with
  | nil => rfl
  | cons action rest ih => rw [firings, List.map_cons, ih]

theorem Site.applyAll_site (site : Site) (actions : List Action) :
    (site.applyAll actions).1 = site.applyEach (site.tried actions) := by
  cases applied : site.applyAll actions with
  | mk next result =>
      cases result with
      | ok =>
          obtain ⟨reached, all⟩ := applyAll_ok applied
          rw [all, reached]
      | error error =>
          obtain ⟨done, failed, behind, -, tried, -, fails⟩ := applyAll_error applied
          rw [tried, applyEach_append]
          exact (congrArg Prod.fst fails).symm

theorem Site.tried_prefix (site : Site) (actions : List Action) :
    site.tried actions <+: actions := by
  induction actions generalizing site with
  | nil => exact List.prefix_refl []
  | cons action rest ih =>
      rw [tried]
      split
      · exact List.cons_prefix_cons.mpr ⟨rfl, ih _⟩
      · exact ⟨rest, rfl⟩

namespace Run

variable {run next first : Run}

/-- What directives ask for, each read on the graph with the bundles of those before it. -/
def requestsOn (run : Run) (id : EquipmentId) (equipment : Equipment) (graph : TaskGraph) :
    List ReadDirective → List Request
  | [] => []
  | read :: rest =>
      (match (run.interpreter id equipment graph).interpret read.1 read.2 with
        | .ok part => part.effects.map fun effect => ⟨id, read.1, read.2, effect⟩
        | .error _ => []) ++
        run.requestsOn id equipment (graph.after read) rest

def requests (run : Run) : Call → List Request
  | .parsePath id =>
      if run.isParsed id then []
      else
        match run.scenario.equipmentOf id with
        | .error _ => []
        | .ok equipment =>
            match run.readPath id equipment with
            | (_, .error _) => []
            | (reading, .ok ()) =>
                run.requestsOn id equipment run.scenario.tasks
                  (reading.reports.flatMap LineReport.reads)
  | _ => []

theorem requestsOn_effects {id : EquipmentId} {equipment : Equipment} {graph : TaskGraph}
    {reads : List ReadDirective} {parts : List LineOutcome}
    (followed : run.Reads id equipment graph reads parts) :
    (run.requestsOn id equipment graph reads).map (·.effect) =
      (LineOutcome.joined parts).effects := by
  induction followed with
  | nil => rfl
  | cons interpreted _ _ ih =>
      rw [requestsOn, interpreted, List.map_append, ih]
      simp [LineOutcome.joined, Function.comp_def]

theorem readPath_requests {id : EquipmentId} {equipment : Equipment} {reading : PathReading}
    (read : run.readPath id equipment = (reading, .ok ())) :
    (run.requestsOn id equipment run.scenario.tasks
      (reading.reports.flatMap LineReport.reads)).map (·.effect) = reading.outcome.effects := by
  obtain ⟨reports, parts, reported, -, followed, -, asked⟩ := readLines_reads read
  simp only [List.nil_append] at reported
  subst reported
  rw [asked]
  exact requestsOn_effects followed

def immediate (run : Run) : List Effect → List Firing
  | [] => []
  | .now action :: rest => ⟨run.site, action⟩ :: (run.schedule (.now action)).1.immediate rest
  | effect :: rest => (run.schedule effect).1.immediate rest

def firings (run : Run) : Call → List Firing
  | .parsePath id =>
      ((run.asked (.parsePath id)).foldl register run).immediate (run.effectsOf (.parsePath id))
  | .taskReleased id =>
      match run.changeEquipment id fun worker => { worker with active := none } with
      | .error _ => []
      | .ok next => next.site.firings (next.site.tried (next.setOff id))
  | call =>
      match run.advanceOf? call with
      | some (middle, date) => middle.site.firings ((middle.log date).map (·.2))
      | none => []

/-- The runs that the calls of a host lead to, with all that paths have asked for on the way and all
actions that have been applied. -/
inductive History (first : Run) : Run → List Request → List Firing → Prop where
  | start : History first first [] []
  | call {run : Run} {requests : List Request} {firings : List Firing}
      (before : History first run requests firings) (call : Call) :
      History first (run.perform call).1 (requests ++ run.requests call)
        (firings ++ run.firings call)
  | finishSetup {run : Run} {requests : List Request} {firings : List Firing}
      (before : History first run requests firings) :
      History first run.finishSetup.2.1 requests firings

theorem exists_history_iff :
    (∃ requests firings, first.History run requests firings) ↔ first.Reaches run := by
  constructor
  · rintro ⟨requests, firings, history⟩
    induction history with
    | start => exact .start
    | call _ call ih => exact ih.call call
    | finishSetup _ ih => exact ih.finishSetup
  · intro reaches
    induction reaches with
    | start => exact ⟨[], [], .start⟩
    | call _ call ih =>
        obtain ⟨requests, firings, history⟩ := ih
        exact ⟨_, _, history.call call⟩
    | finishSetup _ ih =>
        obtain ⟨requests, firings, history⟩ := ih
        exact ⟨requests, firings, history.finishSetup⟩

inductive Turn (run : Run) (call : Call) : Prop where
  | kept (performs : (run.perform call).1 = run) (asks : run.requests call = [])
      (fires : run.firings call = [])
  | installed {id : EquipmentId} {equipment : Equipment} {reading : PathReading} {next : Run}
      (found : run.scenario.equipmentOf id = .ok equipment)
      (read : run.readPath id equipment = (reading, .ok ()))
      (committed : run.commit reading.outcome = (next, .ok ()))
      (performs : (run.perform call).1 = { next with parsed := next.parsed ++ [id] })
      (asks : run.requests call =
        run.requestsOn id equipment run.scenario.tasks (reading.reports.flatMap LineReport.reads))
      (fires : run.firings call =
        (reading.outcome.registrations.foldl register run).immediate reading.outcome.effects)
  | completed {graph : TaskGraph} {task : TaskId} {date : Instant}
      (performs : (run.perform call).1 = ((run.enter graph task date).advanceTo date).1)
      (asks : run.requests call = [])
      (fires : run.firings call = (run.enter graph task date).site.firings
        (((run.enter graph task date).log date).map (·.2)))
  | selected {id : EquipmentId} {element : ElementId} {active : Option ActiveWork} {next : Run}
      (changed : run.changeEquipment id (fun worker => { worker with active }) = .ok next)
      (performs : (run.perform call).1 =
        { next with selections := next.selections.map (arm id element) })
      (asks : run.requests call = []) (fires : run.firings call = [])
  | released {id : EquipmentId} {active : Option ActiveWork} {next : Run}
      (changed : run.changeEquipment id (fun worker => { worker with active }) = .ok next)
      (performs : (run.perform call).1 =
        { next with
          site := next.site.applyEach (next.site.tried (next.setOff id))
          selections := next.selections.map (disarm id) })
      (asks : run.requests call = [])
      (fires : run.firings call = next.site.firings (next.site.tried (next.setOff id)))
  | advanced {date : Instant} (performs : (run.perform call).1 = (run.advanceTo date).1)
      (asks : run.requests call = [])
      (fires : run.firings call = run.site.firings ((run.log date).map (·.2)))

theorem turn_parsePath (run : Run) (id : EquipmentId) : run.Turn (.parsePath id) := by
  cases run.parsing id with
  | again known passes =>
      have asked : run.asked (.parsePath id) = [] := by simp [asked, known]
      have effects : run.effectsOf (.parsePath id) = [] := by simp [effectsOf, known]
      refine .kept (by simp [perform, passes]) (by simp [requests, known]) ?_
      rw [firings, asked, effects]
      rfl
  | failed fresh unreadable fails =>
      refine .kept (by simp [perform, fails]) ?_ ?_
      · rcases unreadable with ⟨unknown, missing, -⟩ | ⟨equipment, reading, found, failed⟩
        · simp [requests, fresh, missing]
        · simp [requests, fresh, found, failed]
      · rcases unreadable with ⟨unknown, missing, -⟩ | ⟨equipment, reading, found, failed⟩
        · simp [firings, asked, effectsOf, fresh, missing, immediate]
        · simp [firings, asked, effectsOf, fresh, found, failed, immediate]
  | installed fresh found read committed installs =>
      refine .installed found read committed (by simp [perform, installs]) ?_ ?_
      · simp [requests, fresh, found, read]
      · simp [firings, asked, effectsOf, fresh, found, read]

theorem turn (run : Run) (call : Call) : run.Turn call := by
  cases call with
  | parsePath id => exact run.turn_parsePath id
  | taskCompleted task date =>
      cases completed : run.scenario.tasks.complete task date with
      | error error =>
          exact .kept (by rw [perform, taskCompleted, completed]) rfl
            (by simp [firings, advanceOf?, completed])
      | ok entry =>
          obtain ⟨graph, news⟩ := entry
          cases news with
          | false =>
              exact .kept (by rw [perform, taskCompleted, completed]) rfl
                (by simp [firings, advanceOf?, completed])
          | true =>
              exact .completed (congrArg Prod.fst (taskCompleted_first completed)) rfl
                (by simp [firings, advanceOf?, completed])
  | taskSelected id element task =>
      cases changed : run.changeEquipment id _ with
      | error error => exact .kept (by rw [perform, taskSelected, changed]) rfl rfl
      | ok next => exact .selected changed (by rw [perform, taskSelected, changed]) rfl rfl
  | taskReleased id =>
      cases changed : run.changeEquipment id fun worker => { worker with active := none } with
      | error error =>
          exact .kept (by rw [perform, taskReleased, changed]) rfl (by simp [firings, changed])
      | ok next =>
          refine .released changed ?_ rfl (by simp [firings, changed])
          rw [perform, taskReleased, changed, ← Site.applyAll_site]
          rfl
  | advanceTo date => exact .advanced rfl rfl rfl

end Run

/-! ### Actions on paths -/

def Action.isOnPath (action : Action) : Bool := action.owner?.isSome && action.window?.isNone

def onPaths (actions : Multiset Action) : Multiset Action :=
  actions.filter fun action => action.isOnPath = true

theorem onPaths_add (first second : Multiset Action) :
    onPaths (first + second) = onPaths first + onPaths second :=
  Multiset.filter_add _ first second

theorem onPaths_coe (actions : List Action) :
    onPaths actions = (actions.filter Action.isOnPath : List Action) := by
  simp [onPaths]

theorem onPaths_le {first second : Multiset Action} (inside : first ≤ second) :
    onPaths first ≤ onPaths second :=
  Multiset.filter_le_filter _ inside

def Agenda.actions (agenda : Agenda Action) : Multiset Action :=
  (agenda.queue.map (·.2) : List Action)

namespace Agenda

theorem actions_push (agenda : Agenda Action) (date : Instant) (action : Action) :
    (agenda.push date action).actions = action ::ₘ agenda.actions :=
  Multiset.coe_eq_coe.mpr ((agenda.queue_push_perm date action).map _)

theorem actions_pushAfter_le (agenda : Agenda Action) (date : Instant) (delay : Span)
    (action : Action) :
    (Run.pushAfter agenda date delay action).actions ≤ action ::ₘ agenda.actions := by
  unfold Run.pushAfter
  split
  · rw [actions_push]
  · exact Multiset.le_cons_self _ _

theorem actions_pushEach_le (agenda : Agenda Action) (date : Instant)
    (fired : List (Span × Action)) :
    (Run.pushEach agenda date fired).actions ≤
      (fired.map (·.2) : List Action) + agenda.actions := by
  induction fired generalizing agenda with
  | nil => exact le_of_eq (zero_add _).symm
  | cons first rest ih =>
      obtain ⟨delay, action⟩ := first
      refine (ih _).trans ?_
      rw [List.map_cons, ← Multiset.cons_coe, Multiset.cons_add, ← Multiset.add_cons]
      exact add_le_add_right (agenda.actions_pushAfter_le date delay action) _

end Agenda

namespace Run

variable {run next last first : Run}

def pending (run : Run) : Multiset Action :=
  run.agenda.actions + (run.completions.filterMap (·.action) : List Action) +
    (run.selections.filterMap (·.action) : List Action)

def timed (run : Run) : Multiset Action :=
  run.agenda.actions + (run.completions.filterMap (·.action) : List Action)

theorem pending_eq (run : Run) :
    run.pending = run.timed + (run.selections.filterMap (·.action) : List Action) := rfl

/-- On the paths, what is fired and what waits then comes out of what was asked for and what waited
before. -/
def Settles (run : Run) (asked fired : Multiset Action) (next : Run) : Prop :=
  onPaths (fired + next.pending) ≤ onPaths (asked + run.pending)

theorem settles_of_le (less : next.pending ≤ run.pending) : run.Settles 0 0 next := by
  rw [Settles, zero_add, zero_add]
  exact onPaths_le less

theorem Settles.trans {asked fired more others : Multiset Action}
    (left : run.Settles asked fired next) (right : next.Settles more others last) :
    run.Settles (asked + more) (fired + others) last := by
  unfold Settles at left right ⊢
  calc onPaths (fired + others + last.pending)
      = onPaths fired + onPaths (others + last.pending) := by rw [add_assoc, onPaths_add]
    _ ≤ onPaths fired + onPaths (more + next.pending) := add_le_add le_rfl right
    _ = onPaths more + onPaths (fired + next.pending) := by
        rw [onPaths_add, onPaths_add, add_left_comm]
    _ ≤ onPaths more + onPaths (asked + run.pending) := add_le_add le_rfl left
    _ = onPaths (asked + more + run.pending) := by
        rw [← onPaths_add, add_left_comm, add_assoc]

theorem settles_register (run : Run) (registration : Registration) :
    run.Settles 0 0 (run.register registration) := by
  cases registration with
  | wait key counter => exact settles_of_le le_rfl
  | window key dated =>
      have waits : (run.register (.window key dated)).pending =
          .deactivateWindow (run.holds.addWindow key dated).2 ::ₘ
            .activateWindow (run.holds.addWindow key dated).2 ::ₘ run.pending := by
        simp only [pending, register, Agenda.actions_push, Multiset.cons_add]
      rw [Settles, zero_add, zero_add, waits, onPaths, Multiset.filter_cons_of_neg,
        Multiset.filter_cons_of_neg]
      · exact le_rfl
      · simp [Action.isOnPath, Action.window?]
      · simp [Action.isOnPath, Action.window?]

theorem settles_registerAll (run : Run) (registrations : List Registration) :
    run.Settles 0 0 (registrations.foldl register run) := by
  induction registrations generalizing run with
  | nil => exact settles_of_le le_rfl
  | cons registration rest ih => simpa using (run.settles_register registration).trans (ih _)

def immediateActions (run : Run) (effects : List Effect) : Multiset Action :=
  ((run.immediate effects).map (·.action) : List Action)

theorem timed_schedule_le (run : Run) (effect : Effect) :
    (run.schedule effect).1.timed ≤ effect.timed + run.timed := by
  cases effect with
  | now action | onSelection id elements action => exact (zero_add run.timed).ge
  | onDate date action =>
      refine le_of_eq ?_
      simp only [timed, schedule, Agenda.actions_push, Effect.timed, Multiset.singleton_add,
        Multiset.cons_add]
  | onCompletion tasks delay action =>
      simp only [schedule, Effect.timed, Multiset.singleton_add]
      split
      · simp only [timed, ← Multiset.cons_add]
        exact add_le_add (Agenda.actions_pushAfter_le _ _ _ _) le_rfl
      · simp only [timed, List.filterMap_append, List.filterMap_cons, List.filterMap_nil,
          ← Multiset.coe_add, Multiset.coe_singleton]
        refine le_of_eq ?_
        rw [← Multiset.singleton_add]
        ac_rfl

theorem settles_schedule (run : Run) (effect : Effect) :
    run.Settles {effect.action} (run.immediateActions [effect]) (run.schedule effect).1 := by
  have waits := run.timed_schedule_le effect
  cases effect with
  | now action => exact le_rfl
  | onDate date action =>
      refine onPaths_le ((zero_add _).le.trans ?_)
      rw [pending_eq, pending_eq, ← add_assoc]
      exact add_le_add waits le_rfl
  | onCompletion tasks delay action =>
      have same : (run.schedule (.onCompletion tasks delay action)).1.selections =
          run.selections := by
        simp only [schedule]
        split <;> rfl
      refine onPaths_le ((zero_add _).le.trans ?_)
      rw [pending_eq, pending_eq, ← add_assoc, same]
      exact add_le_add waits le_rfl
  | onSelection id elements action =>
      have waits : (run.schedule (.onSelection id elements action)).1.pending =
          action ::ₘ run.pending := by
        simp only [pending, schedule, List.filterMap_append, List.filterMap_cons,
          List.filterMap_nil, ← Multiset.coe_add, Multiset.coe_singleton]
        rw [← Multiset.singleton_add]
        ac_rfl
      exact onPaths_le ((zero_add _).le.trans waits.le)

theorem immediateActions_cons (run : Run) (effect : Effect) (rest : List Effect) :
    run.immediateActions (effect :: rest) =
      run.immediateActions [effect] + (run.schedule effect).1.immediateActions rest := by
  cases effect with
  | now action =>
      let later := (run.schedule (.now action)).1.immediateActions rest
      exact (Multiset.singleton_add action later).symm
  | _ => exact (zero_add _).symm

theorem settles_scheduleAll {effects : List Effect}
    (scheduled : run.scheduleAll effects = (next, .ok ())) :
    run.Settles (effects.map Effect.action : List Action) (run.immediateActions effects) next := by
  induction effects generalizing run with
  | nil =>
      simp only [scheduleAll, Prod.mk.injEq, and_true] at scheduled
      subst scheduled
      exact settles_of_le le_rfl
  | cons effect rest ih =>
      have own := run.settles_schedule effect
      rw [scheduleAll] at scheduled
      split at scheduled
      · rename_i middle first
        have others := ih scheduled
        rw [immediateActions_cons, List.map_cons, ← Multiset.cons_coe, ← Multiset.singleton_add]
        rw [first] at own ⊢
        exact own.trans others
      · simp at scheduled

theorem filterMap_parted {α β : Type} {left right whole : α → Option β}
    (parted : ∀ item, (left item).or (right item) = whole item ∧
      (left item = none ∨ right item = none)) (items : List α) :
    (items.filterMap left : Multiset β) + (items.filterMap right : List β) =
      (items.filterMap whole : List β) := by
  have split := filterMap_or_perm fun item (_ : item ∈ items) => (parted item).2
  simp only [fun item => (parted item).1] at split
  rw [Multiset.coe_add]
  exact Multiset.coe_eq_coe.mpr split.symm

theorem hear_and_fires (task : TaskId) (watches : List CompletionWatch) :
    ((watches.map (CompletionWatch.hear task)).filterMap (·.action) : Multiset Action) +
        ((watches.filterMap (CompletionWatch.fires? task)).map (·.2) : List Action) =
      (watches.filterMap (·.action) : List Action) := by
  rw [List.filterMap_map, List.map_filterMap]
  refine filterMap_parted (fun watch => ?_) watches
  simp only [Function.comp_apply, CompletionWatch.hear, CompletionWatch.fires?]
  by_cases waits : task ∈ watch.waiting
  · cases (watch.waiting.filter (· != task)).isEmpty <;> cases watch.action <;> simp [waits]
  · simp [waits]

theorem timed_enter_le (indexed : run.WatchIndexed) (graph : TaskGraph) (task : TaskId)
    (date : Instant) : (run.enter graph task date).timed ≤ run.timed := by
  have told := indexed.tellWatches task date
  have waits : (run.enter graph task date).timed =
      (pushEach run.agenda date
          (run.completions.filterMap (CompletionWatch.fires? task))).actions +
        ((run.completions.map (CompletionWatch.hear task)).filterMap (·.action) :
          List Action) := by
    simp only [timed, enter, told]
  rw [waits, timed, ← hear_and_fires task run.completions]
  refine (add_le_add (Agenda.actions_pushEach_le _ _ _) le_rfl).trans (le_of_eq ?_)
  ac_rfl

theorem settles_enter (indexed : run.WatchIndexed) (graph : TaskGraph) (task : TaskId)
    (date : Instant) : run.Settles 0 0 (run.enter graph task date) :=
  settles_of_le (add_le_add (timed_enter_le indexed graph task date) le_rfl)

theorem log_actions_le (run : Run) (date : Instant) :
    ((run.log date).map (·.2) : Multiset Action) + (run.advanceTo date).1.agenda.actions ≤
      run.agenda.actions := by
  cases drained : run.site.drain run.agenda date with
  | mk site outcome =>
      obtain ⟨rest, result⟩ := outcome
      have moves : (run.advanceTo date).1.agenda = rest := by
        unfold advanceTo
        rw [drained]
        cases result <;> rfl
      rw [moves, Agenda.actions, Agenda.actions, Multiset.coe_add, Multiset.coe_le,
        ← List.map_append]
      suffices inside : (run.log date ++ rest.queue).Sublist run.agenda.queue from
        (inside.map _).subperm
      cases result with
      | ok => exact (Site.log_of_ok drained).1 ▸ List.Sublist.refl _
      | error error =>
          obtain ⟨done, failed, lost, cut⟩ := Site.cut_of_error drained
          have logged : run.log date = done ++ [failed] := cut.logged
          rw [logged, cut.parts, List.append_assoc]
          refine (List.Sublist.refl done).append ?_
          exact (List.sublist_append_right lost rest.queue).cons_cons failed

theorem timed_advanceTo_le (run : Run) (date : Instant) :
    ((run.log date).map (·.2) : Multiset Action) + (run.advanceTo date).1.timed ≤ run.timed := by
  have same : (run.advanceTo date).1.completions = run.completions := by
    unfold advanceTo
    split <;> rfl
  rw [timed, timed, same, ← add_assoc]
  exact add_le_add (run.log_actions_le date) le_rfl

theorem settles_advanceTo (run : Run) (date : Instant) :
    run.Settles 0 ((run.log date).map (·.2) : List Action) (run.advanceTo date).1 := by
  have same : (run.advanceTo date).1.selections = run.selections := by
    unfold advanceTo
    split <;> rfl
  refine onPaths_le ?_
  rw [zero_add, pending_eq, pending_eq, same, ← add_assoc]
  exact add_le_add (run.timed_advanceTo_le date) le_rfl

theorem pending_changeEquipment {id : EquipmentId} {change : Equipment → Equipment}
    (changed : run.changeEquipment id change = .ok next) : next.pending = run.pending := by
  rw [eq_of_changeEquipment changed]
  rfl

theorem pending_arm (run : Run) (id : EquipmentId) (element : ElementId) :
    ({ run with selections := run.selections.map (arm id element) } : Run).pending =
      run.pending := by
  have same : (run.selections.map (arm id element)).filterMap (·.action) =
      run.selections.filterMap (·.action) := by
    rw [List.filterMap_map]
    refine List.filterMap_congr fun watch _ => ?_
    simp only [Function.comp_apply, arm]
    split <;> rfl
  simp only [pending, same]

theorem setOff_and_disarm (run : Run) (id : EquipmentId) :
    (run.setOff id : Multiset Action) +
        ((run.selections.map (disarm id)).filterMap (·.action) : List Action) =
      (run.selections.filterMap (·.action) : List Action) := by
  rw [setOff, List.filterMap_filter, List.filterMap_map]
  refine filterMap_parted (fun watch => ?_) run.selections
  simp only [Function.comp_apply, disarm]
  cases firesFor id watch <;> simp

theorem settles_release (run : Run) (id : EquipmentId) (site : Site) :
    run.Settles 0 (site.tried (run.setOff id) : List Action)
      { run with site, selections := run.selections.map (disarm id) } := by
  have tried : (site.tried (run.setOff id) : Multiset Action) ≤ (run.setOff id : List Action) :=
    Multiset.coe_le.mpr (site.tried_prefix (run.setOff id)).sublist.subperm
  refine onPaths_le ?_
  rw [zero_add, pending, pending, ← setOff_and_disarm run id]
  refine (add_le_add tried le_rfl).trans (le_of_eq ?_)
  ac_rfl

theorem Settles.of_pending {asked fired : Multiset Action} (settles : run.Settles asked fired next)
    (same : last.pending = next.pending) : run.Settles asked fired last := by
  rw [Settles, same]
  exact settles

theorem perform_settles (indexed : run.WatchIndexed) (call : Call) :
    run.Settles ((run.requests call).map (·.effect.action) : List Action)
      ((run.firings call).map (·.action) : List Action) (run.perform call).1 := by
  cases run.turn call with
  | kept performs asks fires =>
      rw [performs, asks, fires]
      exact settles_of_le le_rfl
  | @installed id equipment reading next found read committed performs asks fires =>
      have same : (run.requestsOn id equipment run.scenario.tasks
          (reading.reports.flatMap LineReport.reads)).map (·.effect.action) =
            reading.outcome.effects.map Effect.action := by
        rw [← readPath_requests read, List.map_map]
        rfl
      have registered := run.settles_registerAll reading.outcome.registrations
      have settled := registered.trans (settles_scheduleAll committed)
      rw [zero_add, zero_add] at settled
      rw [performs, asks, fires, same]
      exact settled.of_pending rfl
  | @completed graph task date performs asks fires =>
      have entered := settles_enter indexed graph task date
      rw [performs, asks, fires, Site.firings_actions]
      simpa using entered.trans ((run.enter graph task date).settles_advanceTo date)
  | @selected id element active next changed performs asks fires =>
      rw [performs, asks, fires]
      refine settles_of_le (le_of_eq ?_)
      rw [pending_arm, pending_changeEquipment changed]
  | @released id active next changed performs asks fires =>
      rw [performs, asks, fires, Site.firings_actions]
      have released := next.settles_release id next.site
      rw [Settles, pending_changeEquipment changed] at released
      exact released
  | @advanced date performs asks fires =>
      rw [performs, asks, fires, Site.firings_actions]
      exact run.settles_advanceTo date

theorem History.settles {config : Config} {scenario : Scenario} {library : ScheduleLibrary}
    {compiles : Bool} (built : build config scenario library compiles = .ok first)
    {requests : List Request} {firings : List Firing}
    (history : first.History run requests firings) :
    first.Settles (requests.map (·.effect.action) : List Action)
      (firings.map (·.action) : List Action) run := by
  induction history with
  | start => exact settles_of_le le_rfl
  | @call run requests firings before call ih =>
      have orderly := orderly_of_reaches built (exists_history_iff.mp ⟨_, _, before⟩)
      rw [List.map_append, List.map_append, ← Multiset.coe_add, ← Multiset.coe_add]
      exact ih.trans (perform_settles orderly.watches.indexed call)
  | finishSetup _ ih =>
      unfold Run.finishSetup
      split
      · exact ih
      · exact ih.of_pending rfl

/-- Every action on a path is applied at most as often as it has been asked for. -/
theorem History.fires_once {config : Config} {scenario : Scenario} {library : ScheduleLibrary}
    {compiles : Bool} (built : build config scenario library compiles = .ok first)
    {requests : List Request} {firings : List Firing}
    (history : first.History run requests firings) :
    ((firings.map (·.action)).filter Action.isOnPath).Subperm
      ((requests.map (·.effect.action)).filter Action.isOnPath) := by
  have settles := history.settles built
  obtain ⟨compiled, -, rfl⟩ := eq_start_of_build built
  have nothing : (Run.start config compiled library).pending = 0 := rfl
  rw [Settles, nothing, add_zero, onPaths_add] at settles
  rw [← Multiset.coe_le, ← onPaths_coe, ← onPaths_coe]
  exact (Multiset.le_add_right _ _).trans settles

end Run

end PathDirectives
