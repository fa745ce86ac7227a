import PathDirectives.Proofs.Instants
import PathDirectives.Proofs.Steps

/-!
The windows of a run that no call has failed on. A window is opened and closed only from the agenda,
so what of it still waits there says where it stands between its dates: `WindowStage`. Once the run
has been advanced to a date, every window is open just if the date lies in it.
-/

namespace PathDirectives

open Calendar

def Action.switch? (handle : WindowHandle) : Action → Option Bool
  | .activateWindow other => if other = handle then some true else none
  | .deactivateWindow other => if other = handle then some false else none
  | _ => none

theorem Action.switch?_of_plain {action : Action} (plain : action.window? = none)
    (handle : WindowHandle) : action.switch? handle = none := by
  cases action <;> first | rfl | simp [Action.window?] at plain

@[simp] theorem Action.switch?_activateWindow (handle : WindowHandle) :
    (Action.activateWindow handle).switch? handle = some true := if_pos rfl

@[simp] theorem Action.switch?_deactivateWindow (handle : WindowHandle) :
    (Action.deactivateWindow handle).switch? handle = some false := if_pos rfl

def Agenda.switchesIn (handle : WindowHandle) (queue : List (Instant × Action)) :
    List (Instant × Bool) :=
  queue.filterMap fun entry => (entry.2.switch? handle).map fun opens => (entry.1, opens)

namespace Agenda

variable {agenda : Agenda Action} {handle : WindowHandle} {date : Instant} {action : Action}

def switches (agenda : Agenda Action) (handle : WindowHandle) : List (Instant × Bool) :=
  switchesIn handle agenda.queue

theorem switchesIn_append (handle : WindowHandle) (first second : List (Instant × Action)) :
    switchesIn handle (first ++ second) = switchesIn handle first ++ switchesIn handle second :=
  List.filterMap_append

theorem switchesIn_cons (handle : WindowHandle) (date : Instant) (action : Action)
    (rest : List (Instant × Action)) :
    switchesIn handle ((date, action) :: rest) =
      ((action.switch? handle).map fun opens => (date, opens)).toList ++
        switchesIn handle rest := by
  cases switch : action.switch? handle <;> simp [switchesIn, switch]

theorem switchesIn_map (handle : WindowHandle) (queue : List (Instant × Action)) :
    (switchesIn handle queue).map (·.2) = (queue.map (·.2)).filterMap (·.switch? handle) := by
  induction queue with
  | nil => rfl
  | cons entry rest ih =>
      obtain ⟨date, action⟩ := entry
      rw [switchesIn_cons, List.map_append, ih, List.map_cons, List.filterMap_cons]
      cases action.switch? handle <;> rfl

theorem mem_switchesIn {queue : List (Instant × Action)} {switch : Instant × Bool}
    (member : switch ∈ switchesIn handle queue) : ∃ entry ∈ queue, entry.1 = switch.1 := by
  obtain ⟨entry, inside, mapped⟩ := List.mem_filterMap.mp member
  obtain ⟨opens, _, rfl⟩ := Option.map_eq_some_iff.mp mapped
  exact ⟨entry, inside, rfl⟩

theorem switches_push (other : action.switch? handle = none) :
    (agenda.push date action).switches handle = agenda.switches handle := by
  obtain ⟨front, back, split, pushed, _, _⟩ := agenda.queue_push date action
  rw [switches, switches, pushed, split, switchesIn_append, switchesIn_append, switchesIn_cons,
    other]
  rfl

theorem switches_pushAfter (plain : action.window? = none) (delay : Span) :
    (Run.pushAfter agenda date delay action).switches handle = agenda.switches handle := by
  unfold Run.pushAfter
  split
  · exact switches_push (action.switch?_of_plain plain handle)
  · rfl

theorem switches_push_window {start stop : Instant} (ordered : start < stop)
    (absent : agenda.switches handle = []) :
    ((agenda.push start (.activateWindow handle)).push stop (.deactivateWindow handle)).switches
      handle = [(start, true), (stop, false)] := by
  obtain ⟨front, back, split, pushed, _, _⟩ := agenda.queue_push start (.activateWindow handle)
  obtain ⟨front', back', split', pushed', _, ahead⟩ :=
    (agenda.push start (.activateWindow handle)).queue_push stop (.deactivateWindow handle)
  have opening : switchesIn handle front' ++ switchesIn handle back' = [(start, true)] := by
    rw [switches, split, switchesIn_append, List.append_eq_nil_iff] at absent
    rw [← switchesIn_append, ← split', pushed, switchesIn_append, switchesIn_cons, absent.1,
      absent.2, Action.switch?_activateWindow]
    rfl
  have noneAhead : switchesIn handle back' = [] := by
    rw [List.eq_nil_iff_forall_not_mem]
    intro switch member
    have whole : switch ∈ switchesIn handle front' ++ switchesIn handle back' :=
      List.mem_append_right _ member
    rw [opening, List.mem_singleton] at whole
    obtain ⟨entry, inside, sameDate⟩ := mem_switchesIn member
    have after := ahead entry inside
    rw [sameDate, whole] at after
    exact absurd (Int.lt_trans ordered after) (Int.lt_irrefl _)
  rw [noneAhead, List.append_nil] at opening
  rw [switches, pushed', switchesIn_append, switchesIn_cons, opening, noneAhead,
    Action.switch?_deactivateWindow]
  rfl

end Agenda

namespace Site

variable {site next : Site} {action : Action}

theorem holds_apply_of_plain (site : Site) (plain : action.window? = none) :
    (site.apply action).1.holds = site.holds :=
  (site.apply_parts action).2.trans (action.switch_of_plain plain site.holds)

theorem holds_applyAll_of_plain (site : Site) {actions : List Action}
    (plain : ∀ action ∈ actions, action.window? = none) :
    (site.applyAll actions).1.holds = site.holds := by
  induction actions generalizing site with
  | nil => rfl
  | cons action rest ih =>
      have first := site.holds_apply_of_plain (plain action List.mem_cons_self)
      rw [applyAll]
      split
      · rename_i middle applied
        rw [applied] at first
        rw [ih middle fun other member => plain other (List.mem_cons_of_mem _ member), first]
      · rename_i middle error failed
        rw [failed] at first
        exact first

theorem window?_apply (applied : site.apply action = (next, .ok ())) (handle : WindowHandle) :
    next.holds.window? handle =
      (site.holds.window? handle).map (·.switchAll (action.switch? handle).toList) := by
  have holds := (site.apply_parts action).2
  rw [applied] at holds
  rw [holds]
  cases action with
  | activateWindow other | deactivateWindow other =>
      rw [Action.switch, HoldRegister.window?_modifyWindow]
      by_cases same : handle = other
      · simp [Action.switch?, same, TimeWindow.switchAll]
      · simp [Action.switch?, same, Ne.symm same, TimeWindow.switchAll]
  | _ => simp [Action.switch, Action.switch?, TimeWindow.switchAll]

theorem window?_applyAll {actions : List Action}
    (applied : site.applyAll actions = (next, .ok ())) (handle : WindowHandle) :
    next.holds.window? handle =
      (site.holds.window? handle).map (·.switchAll (actions.filterMap (·.switch? handle))) := by
  induction actions generalizing site with
  | nil =>
      simp only [applyAll, Prod.mk.injEq, and_true] at applied
      subst applied
      simp [TimeWindow.switchAll]
  | cons action rest ih =>
      simp only [applyAll] at applied
      split at applied
      · rename_i middle first
        rw [ih applied, window?_apply first, Option.map_map]
        cases switch : action.switch? handle <;>
          simp [switch, Function.comp_def, TimeWindow.switchAll]
      · simp at applied

end Site

/-! ### Where a window stands -/

/-- Where a window stands at an instant, by what of it still waits on the agenda. -/
inductive WindowStage (now : Instant) : Option TimeWindow → List (Instant × Bool) → Prop where
  | absent : WindowStage now none []
  | pending {window : TimeWindow} (ordered : window.start < window.stop)
      (inactive : window.isActive = false) (unstarted : window.started = false) :
      WindowStage now (some window) [(window.start, true), (window.stop, false)]
  | opened {window : TimeWindow} (ordered : window.start < window.stop)
      (past : window.start ≤ now) (active : window.isActive = true)
      (started : window.started = true) : WindowStage now (some window) [(window.stop, false)]
  | closed {window : TimeWindow} (ordered : window.start < window.stop)
      (past : window.stop ≤ now) (inactive : window.isActive = false)
      (started : window.started = true) : WindowStage now (some window) []

namespace WindowStage

variable {now date : Instant} {window? : Option TimeWindow} {window : TimeWindow}
  {due rest switches : List (Instant × Bool)}

theorem advance (stage : WindowStage now window? (due ++ rest))
    (past : ∀ switch ∈ due, switch.1 ≤ date) :
    WindowStage (now.later date) (window?.map (·.switchAll (due.map (·.2)))) rest := by
  have kept := now.le_later_left date
  have reached (moment : Instant) (before : moment ≤ date) : moment ≤ now.later date :=
    Instant.le_trans before (now.le_later_right date)
  generalize whole : due ++ rest = all at stage
  cases stage with
  | absent =>
      obtain ⟨rfl, rfl⟩ := List.append_eq_nil_iff.mp whole
      exact .absent
  | @pending window ordered inactive unstarted =>
      match due with
      | [] =>
          obtain rfl : rest = _ := whole
          exact .pending ordered inactive unstarted
      | [first] =>
          simp only [List.cons_append, List.nil_append, List.cons.injEq] at whole
          obtain ⟨rfl, rfl⟩ := whole
          have before := reached window.start (past (window.start, true) List.mem_cons_self)
          exact .opened ordered before rfl rfl
      | first :: second :: more =>
          simp only [List.cons_append, List.cons.injEq, List.append_eq_nil_iff] at whole
          obtain ⟨rfl, rfl, rfl, rfl⟩ := whole
          have before := reached window.stop (past (window.stop, false) (by simp))
          exact .closed ordered before rfl rfl
  | @opened window ordered before active started =>
      match due with
      | [] =>
          obtain rfl : rest = _ := whole
          exact .opened ordered (Instant.le_trans before kept) active started
      | first :: more =>
          simp only [List.cons_append, List.cons.injEq, List.append_eq_nil_iff] at whole
          obtain ⟨rfl, rfl, rfl⟩ := whole
          have after := reached window.stop (past (window.stop, false) List.mem_cons_self)
          exact .closed ordered after rfl rfl
  | closed ordered before inactive started =>
      obtain ⟨rfl, rfl⟩ := List.append_eq_nil_iff.mp whole
      exact .closed ordered (Instant.le_trans before kept) inactive started

theorem isActive_iff (stage : WindowStage date (some window) switches)
    (ahead : ∀ switch ∈ switches, date < switch.1) :
    window.isActive = true ↔ window.start ≤ date ∧ date < window.stop := by
  cases stage with
  | pending ordered inactive unstarted =>
      have before := ahead _ List.mem_cons_self
      simp [inactive, Instant.not_le.mpr before]
  | opened ordered past active started =>
      have before := ahead _ List.mem_cons_self
      simp [active, past, before]
  | closed ordered past inactive started => simp [inactive, Instant.not_lt.mpr past]

theorem isPending_iff (stage : WindowStage date (some window) switches)
    (ahead : ∀ switch ∈ switches, date < switch.1) :
    window.isPending = true ↔ date < window.start := by
  cases stage with
  | pending ordered inactive unstarted =>
      have before := ahead _ List.mem_cons_self
      simp [TimeWindow.isPending, unstarted, before]
  | opened ordered past active started =>
      simp [TimeWindow.isPending, started, Instant.not_lt.mpr past]
  | closed ordered past inactive started =>
      have before : window.start ≤ date := Instant.le_trans (Int.le_of_lt ordered) past
      simp [TimeWindow.isPending, started, Instant.not_lt.mpr before]

end WindowStage

namespace Run

structure Timed (run : Run) : Prop where
  staged : ∀ handle, WindowStage run.now (run.holds.window? handle) (run.agenda.switches handle)
  completions : ∀ watch ∈ run.completions, ∀ action ∈ watch.action, action.window? = none
  selections : ∀ watch ∈ run.selections, ∀ action ∈ watch.action, action.window? = none

theorem timed_start (config : Config) (scenario : Scenario) (library : ScheduleLibrary) :
    (start config scenario library).Timed where
  staged handle := by
    rw [show (start config scenario library).holds.window? handle = none by
      simp [start, holds, HoldRegister.window?_eq]]
    exact .absent
  completions watch member := by simp [start] at member
  selections watch member := by simp [start] at member

namespace Timed

variable {run next : Run}

theorem register (timed : run.Timed) {registration : Registration}
    (fresh : registration.Fresh) : (run.register registration).Timed where
  staged handle := by
    have stage := timed.staged handle
    cases registration with
    | wait key counter =>
        change WindowStage run.now
          (((run.holds.addWait key counter).1.completeAll _).window? handle) _
        rw [HoldRegister.window?_completeAll, HoldRegister.window?_addWait]
        exact stage
    | window key dated =>
        obtain ⟨ordered, inactive, unstarted⟩ := fresh
        change WindowStage run.now ((run.holds.addWindow key dated).1.window? handle)
          (((run.agenda.push dated.start
            (.activateWindow (run.holds.addWindow key dated).2)).push dated.stop
              (.deactivateWindow (run.holds.addWindow key dated).2)).switches handle)
        rw [HoldRegister.window?_addWindow]
        by_cases own : handle = (run.holds.addWindow key dated).2
        · subst own
          rw [HoldRegister.window?_addWindow_handle] at stage
          generalize queued : run.agenda.switches _ = switches at stage
          cases stage
          rw [if_pos rfl, Agenda.switches_push_window ordered queued]
          exact .pending ordered inactive unstarted
        · have other := Ne.symm own
          rw [if_neg own, Agenda.switches_push (by simp [Action.switch?, other]),
            Agenda.switches_push (by simp [Action.switch?, other])]
          exact stage
  completions := by cases registration <;> exact timed.completions
  selections := by cases registration <;> exact timed.selections

theorem registerAll (timed : run.Timed) {registrations : List Registration}
    (fresh : ∀ registration ∈ registrations, registration.Fresh) :
    (registrations.foldl Run.register run).Timed := by
  induction registrations generalizing run with
  | nil => exact timed
  | cons registration rest ih =>
      exact ih (timed.register (fresh registration List.mem_cons_self))
        fun other member => fresh other (List.mem_cons_of_mem _ member)

theorem schedule (timed : run.Timed) {effect : Effect} (plain : effect.action.window? = none) :
    (run.schedule effect).1.Timed := by
  cases effect with
  | now action =>
      change action.window? = none at plain
      refine ⟨fun handle => ?_, timed.completions, timed.selections⟩
      change WindowStage run.now ((run.site.apply action).1.holds.window? handle) _
      rw [run.site.holds_apply_of_plain plain]
      exact timed.staged handle
  | onDate date action =>
      refine ⟨fun handle => ?_, timed.completions, timed.selections⟩
      change WindowStage run.now (run.holds.window? handle)
        ((run.agenda.push date action).switches handle)
      rw [Agenda.switches_push (action.switch?_of_plain plain handle)]
      exact timed.staged handle
  | onCompletion tasks delay action =>
      change action.window? = none at plain
      simp only [Run.schedule]
      split
      · refine ⟨fun handle => ?_, timed.completions, timed.selections⟩
        rw [Agenda.switches_pushAfter plain]
        exact timed.staged handle
      · refine ⟨timed.staged, ?_, timed.selections⟩
        intro watch member stored waits
        rcases List.mem_append.mp member with old | new
        · exact timed.completions watch old stored waits
        · rw [List.mem_singleton.mp new, Option.mem_some_iff] at waits
          exact waits ▸ plain
  | onSelection equipment elements action =>
      refine ⟨timed.staged, timed.completions, ?_⟩
      intro watch member stored waits
      rcases List.mem_append.mp member with old | new
      · exact timed.selections watch old stored waits
      · rw [List.mem_singleton.mp new, Option.mem_some_iff] at waits
        exact waits ▸ plain

theorem commit (timed : run.Timed) {outcome : LineOutcome}
    (all : outcome.All Registration.Fresh fun effect => effect.action.window? = none) :
    (run.commit outcome).1.Timed := by
  have step : ∀ run : Run, ∀ effect ∈ outcome.effects, run.Timed → (run.schedule effect).1.Timed :=
    fun run effect member timed => timed.schedule (all.effects effect member)
  exact scheduleAll_preserves step (timed.registerAll all.records)

theorem advanceTo (timed : run.Timed) {date : Instant}
    (advanced : run.advanceTo date = (next, .ok ())) :
    next.Timed ∧ next.now = run.now.later date ∧
      ∀ handle, ∀ switch ∈ next.agenda.switches handle, date < switch.1 := by
  unfold Run.advanceTo at advanced
  split at advanced
  · rename_i site agenda drained
    simp only [Prod.mk.injEq, and_true] at advanced
    subst advanced
    obtain ⟨due, split, past, ahead, applied⟩ := Site.drain_ok drained
    refine ⟨⟨fun handle => ?_, timed.completions, timed.selections⟩, rfl, ?_⟩
    · have stage := timed.staged handle
      rw [Agenda.switches, split, Agenda.switchesIn_append] at stage
      change WindowStage (run.now.later date) (site.holds.window? handle)
        (Agenda.switchesIn handle agenda.queue)
      rw [Site.window?_applyAll applied, ← Agenda.switchesIn_map]
      refine stage.advance fun switch member => ?_
      obtain ⟨entry, inside, sameDate⟩ := Agenda.mem_switchesIn member
      exact sameDate ▸ past entry inside
    · intro handle switch member
      obtain ⟨entry, inside, sameDate⟩ := Agenda.mem_switchesIn member
      exact sameDate ▸ ahead entry inside
  · simp at advanced

end Timed

theorem tellWatch_plain (task : TaskId) (date : Instant) (place : Nat)
    {told : List CompletionWatch × Agenda Action}
    (plain : ∀ watch ∈ told.1, ∀ action ∈ watch.action, action.window? = none) :
    (∀ watch ∈ (tellWatch task date told place).1, ∀ action ∈ watch.action,
        action.window? = none) ∧
      ∀ handle, (tellWatch task date told place).2.switches handle =
        told.2.switches handle := by
  obtain ⟨watches, agenda⟩ := told
  simp only [tellWatch]
  split
  · exact ⟨plain, fun _ => rfl⟩
  · rename_i watch found
    have own := plain watch (List.mem_of_getElem? found)
    split
    · rename_i action _ waits
      refine ⟨fun other member => ?_, fun handle => ?_⟩
      · rcases List.mem_or_eq_of_mem_set member with before | rfl
        · exact plain other before
        · simp
      · exact Agenda.switches_pushAfter (own action waits) watch.delay
    · refine ⟨fun other member => ?_, fun _ => rfl⟩
      rcases List.mem_or_eq_of_mem_set member with before | rfl
      · exact plain other before
      · exact own

theorem tellWatches_plain {run : Run}
    (plain : ∀ watch ∈ run.completions, ∀ action ∈ watch.action, action.window? = none)
    (task : TaskId) (date : Instant) :
    (∀ watch ∈ (run.tellWatches task date).1, ∀ action ∈ watch.action, action.window? = none) ∧
      ∀ handle, (run.tellWatches task date).2.switches handle = run.agenda.switches handle := by
  have step (places : List Nat) (told : List CompletionWatch × Agenda Action)
      (before : ∀ watch ∈ told.1, ∀ action ∈ watch.action, action.window? = none) :
      (∀ watch ∈ (places.foldl (tellWatch task date) told).1, ∀ action ∈ watch.action,
          action.window? = none) ∧
        ∀ handle, (places.foldl (tellWatch task date) told).2.switches handle =
          told.2.switches handle := by
    induction places generalizing told with
    | nil => exact ⟨before, fun _ => rfl⟩
    | cons place rest ih =>
        obtain ⟨kept, same⟩ := tellWatch_plain task date place before
        obtain ⟨keptLater, sameLater⟩ := ih _ kept
        exact ⟨keptLater, fun handle => (sameLater handle).trans (same handle)⟩
  exact step _ (run.completions, run.agenda) plain

theorem Timed.enter {run : Run} (timed : run.Timed) (graph : TaskGraph) (task : TaskId)
    (date : Instant) : (run.enter graph task date).Timed := by
  obtain ⟨kept, same⟩ := tellWatches_plain timed.completions task date
  refine ⟨fun handle => ?_, kept, timed.selections⟩
  change WindowStage run.now ((run.holds.taskCompleted task date).1.window? handle) _
  rw [HoldRegister.window?_taskCompleted, Run.enter, same]
  exact timed.staged handle

theorem Timed.changeEquipment {run next : Run} (timed : run.Timed) {id : EquipmentId}
    {change : Equipment → Equipment} (changed : run.changeEquipment id change = .ok next) :
    next.Timed := by
  rw [eq_of_changeEquipment changed]
  exact ⟨timed.staged, timed.completions, timed.selections⟩

theorem Timed.perform {run next : Run} (timed : run.Timed) {call : Call}
    (performed : run.perform call = (next, .ok ())) : next.Timed := by
  cases call with
  | parsePath id =>
      have reached : (run.parsePath id).2.1 = next := congrArg (·.1) performed
      rcases run.parsePath_cases id with ⟨unchanged, _⟩ | ⟨_, reading, read, _, parsed, commits⟩
      · rw [← reached, unchanged]
        exact timed
      · have committed := timed.commit (readPath_fresh read)
        rw [← reached, commits]
        exact ⟨committed.staged, committed.completions, committed.selections⟩
  | taskCompleted task date =>
      cases entered : run.scenario.tasks.complete task date with
      | error error => simp [Run.perform, Run.taskCompleted, entered] at performed
      | ok entry =>
          obtain ⟨graph, first⟩ := entry
          cases first with
          | false =>
              simp only [Run.perform, Run.taskCompleted, entered, Prod.mk.injEq, and_true]
                at performed
              exact performed ▸ timed
          | true =>
              simp only [Run.perform, taskCompleted_first entered] at performed
              exact ((timed.enter graph task date).advanceTo performed).1
  | taskSelected equipment element task =>
      simp only [Run.perform, Run.taskSelected] at performed
      split at performed
      · simp at performed
      · rename_i changed
        simp only [Prod.mk.injEq, and_true] at performed
        subst performed
        have middle := timed.changeEquipment changed
        refine ⟨middle.staged, middle.completions, ?_⟩
        intro watch member stored waits
        obtain ⟨old, inside, rfl⟩ := List.mem_map.mp member
        refine middle.selections old inside stored ?_
        unfold arm at waits
        split at waits <;> exact waits
  | taskReleased equipment =>
      simp only [Run.perform, Run.taskReleased] at performed
      split at performed
      · simp at performed
      · rename_i changed
        simp only [Prod.mk.injEq] at performed
        obtain ⟨rfl, -⟩ := performed
        have middle := timed.changeEquipment changed
        refine ⟨fun handle => ?_, middle.completions, ?_⟩
        · rw [holds, Site.holds_applyAll_of_plain]
          · exact middle.staged handle
          · intro action member
            obtain ⟨watch, fires, waits⟩ := List.mem_filterMap.mp member
            exact middle.selections watch (List.mem_filter.mp fires).1 action waits
        · intro watch member stored waits
          obtain ⟨old, inside, rfl⟩ := List.mem_map.mp member
          refine middle.selections old inside stored ?_
          split at waits
          · simp at waits
          · exact waits
  | advanceTo date => exact (timed.advanceTo performed).1

theorem Timed.performAll {run : Run} (timed : run.Timed) {calls : List Call}
    (accepted : run.accepts calls = true) : (run.performAll calls).Timed := by
  induction calls generalizing run with
  | nil => exact timed
  | cons call rest ih =>
      rw [accepts, Bool.and_eq_true] at accepted
      have performed : run.perform call = ((run.perform call).1, .ok ()) :=
        Prod.ext rfl (eq_ok_of_isOk accepted.1)
      exact ih (timed.perform performed) accepted.2

end Run

/-! ### The windows that were asked for -/

def Registration.window? (key : HoldKey) : Registration → Option TimeWindow
  | .window other dated => if other = key then some dated else none
  | .wait .. => none

namespace Run

/-- The windows that calls put on a key, as they come in. -/
def windowsAsked (run : Run) (calls : List Call) (key : HoldKey) : List TimeWindow :=
  (run.askedBy calls).filterMap (·.window? key)

theorem windowsOn_register (run : Run) {registration : Registration}
    (fresh : registration.Fresh) (key : HoldKey) :
    (run.register registration).site.windowsOn key =
      run.site.windowsOn key ++ (registration.window? key).toList := by
  cases registration with
  | wait other counter =>
      change (((run.holds.addWait other counter).1.completeAll _).waitsOf key).windows.map _ = _
      rw [HoldRegister.windows_completeAll, HoldRegister.waitsOf_addWait]
      split
      · rename_i same
        simp [Registration.window?, Site.windowsOn, holds, same]
      · simp [Registration.window?, Site.windowsOn, holds]
  | window other dated =>
      obtain ⟨_, inactive, unstarted⟩ := fresh
      have unchanged : dated.cleared = dated := by
        cases dated
        subst inactive unstarted
        rfl
      change (((run.holds.addWindow other dated).1).waitsOf key).windows.map _ = _
      rw [HoldRegister.waitsOf_addWindow]
      by_cases same : key = other
      · subst same
        simp [Registration.window?, Site.windowsOn, holds, unchanged]
      · simp [Registration.window?, Site.windowsOn, holds, same, Ne.symm same]

theorem windowsOn_registerAll (run : Run) {registrations : List Registration}
    (fresh : ∀ registration ∈ registrations, registration.Fresh) (key : HoldKey) :
    (registrations.foldl register run).site.windowsOn key =
      run.site.windowsOn key ++ registrations.filterMap (·.window? key) := by
  induction registrations generalizing run with
  | nil => simp
  | cons registration rest ih =>
      have others := fun other member => fresh other (List.mem_cons_of_mem registration member)
      rw [List.foldl_cons, ih _ others, windowsOn_register run (fresh _ List.mem_cons_self),
        List.filterMap_cons]
      cases registration.window? key <;> simp

theorem windowsOn_perform (run : Run) (call : Call) (key : HoldKey) :
    (run.perform call).1.site.windowsOn key =
      run.site.windowsOn key ++ (run.asked call).filterMap (·.window? key) := by
  cases run.perform_counting call with
  | records same =>
      rw [same.windowsOn, windowsOn_registerAll run (run.asked_fresh call)]
  | completion reported completed same =>
      subst reported
      rw [same.windowsOn]
      simp [asked, Site.windowsOn, Site.told]

theorem windowsOn_performAll (run : Run) (calls : List Call) (key : HoldKey) :
    (run.performAll calls).site.windowsOn key =
      run.site.windowsOn key ++ run.windowsAsked calls key := by
  induction calls generalizing run with
  | nil => simp [performAll, windowsAsked, askedBy]
  | cons call rest ih =>
      have later := ih (run.perform call).1
      rw [windowsOn_perform, List.append_assoc, windowsAsked, ← List.filterMap_append] at later
      exact later

end Run

def TimeWindow.Covers (window : TimeWindow) (date : Instant) : Prop :=
  window.start ≤ date ∧ date < window.stop

instance (window : TimeWindow) (date : Instant) : Decidable (window.Covers date) :=
  inferInstanceAs (Decidable (_ ∧ _))

def TimeWindow.asOf (window : TimeWindow) (date : Instant) : TimeWindow :=
  { window with
    isActive := decide (window.Covers date)
    started := decide (window.start ≤ date) }

theorem WindowStage.eq_asOf {date : Instant} {window : TimeWindow}
    {switches : List (Instant × Bool)} (stage : WindowStage date (some window) switches)
    (ahead : ∀ switch ∈ switches, date < switch.1) : window.cleared.asOf date = window := by
  have active := stage.isActive_iff ahead
  have pending := stage.isPending_iff ahead
  have open_eq : decide (window.Covers date) = window.isActive := by
    rw [Bool.eq_iff_iff, decide_eq_true_iff, active]
    rfl
  have started_eq : decide (window.start ≤ date) = window.started := by
    rw [Bool.eq_iff_iff, decide_eq_true_iff, ← Instant.not_lt, ← pending]
    simp [TimeWindow.isPending]
  calc window.cleared.asOf date
      = { window with
          isActive := decide (window.Covers date), started := decide (window.start ≤ date) } := rfl
    _ = window := by rw [open_eq, started_eq]

theorem Waits.windowsLet_asOf {waits : Waits} {date : Instant} {asked : List TimeWindow}
    (windows : waits.windows = asked.map (·.asOf date)) :
    waits.windowsLet = true ↔
      (∃ window ∈ asked, window.isAllowing = true ∧ window.Covers date) ∨
        ∀ window ∈ asked, (window.isSuppressing = true → ¬ window.Covers date) ∧
          (window.isAllowing = true → ¬ date < window.start) := by
  have opened : (waits.windows.any fun window => window.isAllowing && window.isActive) = true ↔
      ∃ window ∈ asked, window.isAllowing = true ∧ window.Covers date := by
    simp [windows, TimeWindow.asOf, TimeWindow.isAllowing]
  have unblocked : (!waits.windows.any fun window =>
      window.isSuppressing && window.isActive || window.isAllowing && window.isPending) = true ↔
      ∀ window ∈ asked, (window.isSuppressing = true → ¬ window.Covers date) ∧
        (window.isAllowing = true → ¬ date < window.start) := by
    simp [windows, TimeWindow.asOf, TimeWindow.isAllowing, TimeWindow.isSuppressing,
      TimeWindow.isPending, Instant.not_lt]
  rw [windowsLet, Bool.or_eq_true, opened, unblocked]

namespace Run

theorem timed_of_build {config : Config} {scenario : Scenario} {library : ScheduleLibrary}
    {compiles : Bool} {first : Run}
    (built : build config scenario library compiles = .ok first) : first.Timed := by
  obtain ⟨compiled, _, rfl⟩ := eq_start_of_build built
  exact timed_start config compiled library

/-- At a date the windows on a key are those asked for, each open just if it covers the date, and
the task is available if no counter holds it and the windows let it. -/
structure FollowsDates (run : Run) (date : Instant) (key : HoldKey) (asked : List TimeWindow) :
    Prop where
  windows : (run.holds.waitsOf key).windows = asked.map (·.asOf date)
  available : run.isAvailable key.equipment key.task date = true ↔
    (∀ counter ∈ (run.holds.waitsOf key).counters, counter.isWaiting date = false) ∧
      ((∃ window ∈ asked, window.isAllowing = true ∧ window.Covers date) ∨
        ∀ window ∈ asked, (window.isSuppressing = true → ¬ window.Covers date) ∧
          (window.isAllowing = true → ¬ date < window.start))

/-- However late a window was installed, and whatever the dates of the calls: if none of them has
failed, the next advance to a date that is not past puts every window where its own dates say. -/
theorem follows_dates_after_advance {config : Config} {scenario : Scenario}
    {library : ScheduleLibrary} {compiles : Bool} {first last : Run} {calls : List Call}
    {date : Instant} (built : build config scenario library compiles = .ok first)
    (accepted : first.accepts calls = true) (reached : (first.performAll calls).now ≤ date)
    (advanced : (first.performAll calls).advanceTo date = (last, .ok ())) (key : HoldKey) :
    last.FollowsDates date key (first.windowsAsked calls key) := by
  have before := (timed_of_build built).performAll accepted
  obtain ⟨timed, now, ahead⟩ := before.advanceTo advanced
  rw [Instant.later_of_le reached] at now
  have same := (first.performAll calls).advanceTo_sameRecords date
  rw [advanced] at same
  have asked : last.site.windowsOn key = first.windowsAsked calls key := by
    obtain ⟨compiled, _, rfl⟩ := eq_start_of_build built
    rw [same.windowsOn, windowsOn_performAll]
    rfl
  have windows : (last.holds.waitsOf key).windows =
      (first.windowsAsked calls key).map (·.asOf date) := by
    rw [← asked, Site.windowsOn, List.map_map]
    refine List.ext_getElem? fun index => ?_
    have stage := timed.staged ⟨key, index⟩
    rw [now, HoldRegister.window?_eq] at stage
    rw [List.getElem?_map]
    cases found : (last.holds.waitsOf key).windows[index]? with
    | none => rw [show (last.site.holds.waitsOf key).windows[index]? = none from found]; rfl
    | some window =>
        rw [found] at stage
        rw [show (last.site.holds.waitsOf key).windows[index]? = some window from found]
        exact congrArg some (stage.eq_asOf (ahead ⟨key, index⟩)).symm
  refine ⟨windows, ?_⟩
  rw [isAvailable_iff, Waits.windowsLet_asOf windows, and_comm]

end Run

namespace Quarry

def lateWindowCalls : List Run.Call :=
  [.taskCompleted drilled (moment 1 6), .advanceTo (moment 2 12),
    .parsePath loader, .taskCompleted blasted (moment 1 7)]

theorem late_window_follows_dates :
    opening.accepts lateWindowCalls = true ∧
      ((opening.performAll lateWindowCalls).advanceTo (moment 2 13)).1.FollowsDates (moment 2 13)
        faceKey (opening.windowsAsked lateWindowCalls faceKey) := by
  obtain ⟨accepted, reached, advances⟩ : opening.accepts lateWindowCalls = true ∧
      (opening.performAll lateWindowCalls).now ≤ moment 2 13 ∧
        ((opening.performAll lateWindowCalls).advanceTo (moment 2 13)).2.isOk = true := by
    decide +kernel
  exact ⟨accepted, Run.follows_dates_after_advance opening_built accepted reached
    (Prod.ext rfl (Run.eq_ok_of_isOk advances)) faceKey⟩

end Quarry

end PathDirectives
