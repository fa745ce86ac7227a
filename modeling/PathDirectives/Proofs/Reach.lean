import PathDirectives.Proofs.Installation

/-!
The runs that the calls of a host lead to, failed ones included, and what holds of all of them: no
call adds or takes away tasks or equipment, and whatever is queued or waits names what is there.
-/

namespace PathDirectives

open Calendar

variable {named : TaskId → Prop} {site next : Site}

def Agenda.Valid (named : TaskId → Prop) (site : Site) (agenda : Agenda Action) : Prop :=
  ∀ entry ∈ agenda.queue, entry.2.Valid named site

def CompletionWatch.Valid (named : TaskId → Prop) (site : Site) (watch : CompletionWatch) : Prop :=
  (∀ task ∈ watch.waiting, named task) ∧ ∀ action ∈ watch.action, action.Valid named site

def SelectionWatch.Valid (named : TaskId → Prop) (site : Site) (watch : SelectionWatch) : Prop :=
  site.HasEquipment watch.equipment ∧ ∀ action ∈ watch.action, action.Valid named site

theorem Agenda.Valid.push {agenda : Agenda Action} (valid : agenda.Valid named site)
    {action : Action} (own : action.Valid named site) (date : Instant) :
    (agenda.push date action).Valid named site := by
  intro entry member
  rcases List.mem_cons.mp ((agenda.queue_push_perm date action).mem_iff.mp member) with rfl | old
  · exact own
  · exact valid entry old

theorem Agenda.Valid.pushAfter {agenda : Agenda Action} (valid : agenda.Valid named site)
    {action : Action} (own : action.Valid named site) (date : Instant) (delay : Span) :
    (Run.pushAfter agenda date delay action).Valid named site := by
  unfold Run.pushAfter
  split
  · exact valid.push own _
  · exact valid

namespace Site

theorem grows_applyAll (site : Site) (actions : List Action) :
    Grows site (site.applyAll actions).1 :=
  applyAll_preserves (fun middle action grows => grows.trans (middle.grows_apply action))
    (Grows.refl site) actions

theorem grows_drain (site : Site) (agenda : Agenda Action) (now : Instant) :
    Grows site (site.drain agenda now).1 :=
  drain_preserves (fun middle action grows => grows.trans (middle.grows_apply action))
    (Grows.refl site) agenda now

theorem names_applyAll {actions : List Action} (names : site.scenario.Names named)
    (valid : ∀ action ∈ actions, action.Valid named site) :
    (site.applyAll actions).1.scenario.Names named := by
  induction actions generalizing site with
  | nil => exact names
  | cons action rest ih =>
      have grows := site.grows_apply action
      have first := names_apply names (valid action List.mem_cons_self)
      rw [applyAll]
      split
      · rename_i middle applied
        rw [applied] at grows first
        exact ih first fun other member => (valid other (List.mem_cons_of_mem _ member)).grows grows
      · rename_i middle error failed
        rw [failed] at first
        exact first

theorem drain_valid {agenda : Agenda Action} (names : site.scenario.Names named)
    (valid : agenda.Valid named site) (now : Instant) :
    (site.drain agenda now).1.scenario.Names named ∧
      (site.drain agenda now).2.1.Valid named (site.drain agenda now).1 := by
  fun_induction site.drain agenda now with
  | case1 site agenda empty => exact ⟨names, valid⟩
  | case2 site agenda batch rest popped middle applied ih =>
      obtain ⟨split, _⟩ := Agenda.queue_of_popDue popped
      rw [Agenda.Valid, split] at valid
      have own : ∀ action ∈ batch.2, action.Valid named site := fun action member =>
        valid (batch.1, action) (List.mem_append_left _ (List.mem_map_of_mem member))
      have grows := site.grows_applyAll batch.2
      have reached := names_applyAll names own
      rw [applied] at grows reached
      exact ih reached fun entry member => (valid entry (List.mem_append_right _ member)).grows grows
  | case3 site agenda batch rest popped middle error failed =>
      obtain ⟨split, _⟩ := Agenda.queue_of_popDue popped
      rw [Agenda.Valid, split] at valid
      have own : ∀ action ∈ batch.2, action.Valid named site := fun action member =>
        valid (batch.1, action) (List.mem_append_left _ (List.mem_map_of_mem member))
      have grows := site.grows_applyAll batch.2
      have reached := names_applyAll names own
      rw [failed] at grows reached
      exact ⟨reached, fun entry member => (valid entry (List.mem_append_right _ member)).grows grows⟩

theorem names_now {action : Action} (names : site.scenario.Names named)
    (valid : (Effect.now action).Valid named site) :
    (site.apply action).1.scenario.Names named := by
  cases action with
  | addDependencies tasks predecessors delay rule =>
      have known : ∀ pair ∈ TaskGraph.pairs tasks predecessors, named pair.2 :=
        fun pair member => valid.2 pair.2 (TaskGraph.mem_pairs member).2
      exact ⟨names.edges.addEdges delay rule known, names.paths⟩
  | insertSteps id line anchor steps =>
      have inserts : (Action.insertSteps id line anchor steps).Valid named site := valid
      exact names_apply names inserts
  | _ => exact valid.elim

theorem grows_told (site : Site) {graph : TaskGraph} {task : TaskId} {date : Instant}
    {first : Bool} (completed : site.scenario.tasks.complete task date = .ok (graph, first)) :
    Grows site (site.told graph task date) where
  tasks := TaskGraph.size_complete completed
  equipment := rfl
  windows handle has := by
    change (site.holds.completeAll [(task, date)]).window? handle ≠ none
    rw [HoldRegister.window?_completeAll]
    exact has

end Site

/-! ### Runs -/

namespace Run

variable {run : Run}

theorem grows_commit (run : Run) (outcome : LineOutcome) :
    Site.Grows run.site (run.commit outcome).1.site := by
  have step : ∀ middle : Run, ∀ effect ∈ outcome.effects, Site.Grows run.site middle.site →
      Site.Grows run.site (middle.schedule effect).1.site :=
    fun middle effect _ grows => grows.trans (middle.grows_schedule effect)
  exact scheduleAll_preserves step (run.grows_registerAll outcome.registrations)

theorem grows_advanceTo (run : Run) (date : Instant) :
    Site.Grows run.site (run.advanceTo date).1.site := by
  have drained := run.site.grows_drain run.agenda date
  unfold advanceTo
  split
  · rename_i applied
    rw [applied] at drained
    exact drained
  · rename_i failed
    rw [failed] at drained
    exact drained

theorem grows_changeEquipment {after : Run} {id : EquipmentId} {change : Equipment → Equipment}
    (changed : run.changeEquipment id change = .ok after) : Site.Grows run.site after.site := by
  rw [eq_of_changeEquipment changed]
  exact ⟨rfl, by simp [Scenario.modifyEquipment, Run.scenario], fun _ has => has⟩

theorem grows_perform (run : Run) (call : Call) :
    Site.Grows run.site (run.perform call).1.site := by
  cases run.performing call with
  | kept performs => exact performs ▸ Site.Grows.refl run.site
  | @installed _ _ reading _ _ _ committed performs =>
      have grows := run.grows_commit reading.outcome
      rw [committed] at grows
      rw [performs]
      exact grows
  | @completed graph task date completed performs =>
      have told := run.site.grows_told completed
      rw [performs]
      exact told.trans (grows_advanceTo (run.enter graph task date) date)
  | selected changed performs =>
      have grows := grows_changeEquipment changed
      rw [performs]
      exact grows
  | released changed performs =>
      rw [performs]
      exact (grows_changeEquipment changed).trans (Site.grows_applyAll _ _)
  | advanced performs =>
      rw [performs]
      exact run.grows_advanceTo _

/-- Everything that a run has to do with is there, its tasks as said. -/
structure Valid (named : TaskId → Prop) (run : Run) : Prop where
  known : ∀ task, run.scenario.tasks.Has task → named task
  names : run.scenario.Names named
  queued : run.agenda.Valid named run.site
  watched : ∀ watch ∈ run.completions, watch.Valid named run.site
  selected : ∀ watch ∈ run.selections, watch.Valid named run.site

namespace Valid

theorem onSite (valid : run.Valid named) (grows : Site.Grows run.site next)
    (names : next.scenario.Names named) : ({ run with site := next } : Run).Valid named where
  known task has := valid.known task ((grows.has_iff task).mp has)
  names := names
  queued entry member := (valid.queued entry member).grows grows
  watched watch member := by
    obtain ⟨waits, acts⟩ := valid.watched watch member
    exact ⟨waits, fun action inside => (acts action inside).grows grows⟩
  selected watch member := by
    obtain ⟨owner, acts⟩ := valid.selected watch member
    exact ⟨grows.hasEquipment owner, fun action inside => (acts action inside).grows grows⟩

theorem register (valid : run.Valid named) {registration : Registration}
    (own : registration.Valid named run.site) : (run.register registration).Valid named := by
  have grows := run.grows_register registration
  cases registration with
  | wait key counter => exact valid.onSite grows valid.names
  | window key window =>
      have moved := valid.onSite grows valid.names
      have added : (run.register (.window key window)).site.HasWindow
          (run.holds.addWindow key window).2 := by
        change (run.holds.addWindow key window).1.window? _ ≠ none
        simp [HoldRegister.window?_addWindow]
      have opens : (Action.activateWindow (run.holds.addWindow key window).2).Valid named
          (run.register (.window key window)).site := ⟨added, own⟩
      have closes : (Action.deactivateWindow (run.holds.addWindow key window).2).Valid named
          (run.register (.window key window)).site := ⟨added, own⟩
      exact { moved with queued := (moved.queued.push opens _).push closes _ }

theorem schedule (valid : run.Valid named) {effect : Effect}
    (own : effect.Valid named run.site) : (run.schedule effect).1.Valid named := by
  cases effect with
  | now action => exact valid.onSite (run.site.grows_apply action) (Site.names_now valid.names own)
  | onDate date action => exact { valid with queued := valid.queued.push own date }
  | onCompletion tasks delay action =>
      obtain ⟨_, waits, acts⟩ := own
      simp only [Run.schedule]
      split
      · exact { valid with queued := valid.queued.pushAfter acts _ delay }
      · refine { valid with watched := fun watch member => ?_ }
        rcases List.mem_append.mp member with old | new
        · exact valid.watched watch old
        · obtain rfl := List.mem_singleton.mp new
          refine ⟨fun task inside => waits task (TaskSet.mem_filter.mp inside).1, ?_⟩
          rintro other ⟨⟩
          exact acts
  | onSelection id elements action =>
      refine { valid with selected := fun watch member => ?_ }
      rcases List.mem_append.mp member with old | new
      · exact valid.selected watch old
      · obtain rfl := List.mem_singleton.mp new
        refine ⟨own.1, ?_⟩
        rintro other ⟨⟩
        exact own.2

theorem registerAll (valid : run.Valid named) {registrations : List Registration}
    (own : ∀ registration ∈ registrations, registration.Valid named run.site) :
    (registrations.foldl Run.register run).Valid named := by
  induction registrations generalizing run with
  | nil => exact valid
  | cons registration rest ih =>
      refine ih (valid.register (own registration List.mem_cons_self)) fun other member => ?_
      exact (own other (List.mem_cons_of_mem _ member)).grows (run.grows_register registration)

theorem commit (valid : run.Valid named) {outcome : LineOutcome}
    (own : outcome.All (Registration.Valid named run.site) (Effect.Valid named run.site)) :
    (run.commit outcome).1.Valid named := by
  have step : ∀ middle : Run, ∀ effect ∈ outcome.effects,
      Site.Grows run.site middle.site ∧ middle.Valid named →
        Site.Grows run.site (middle.schedule effect).1.site ∧
          (middle.schedule effect).1.Valid named := by
    intro middle effect member kept
    have here := (own.effects effect member).grows kept.1
    exact ⟨kept.1.trans (middle.grows_schedule effect), kept.2.schedule here⟩
  exact (scheduleAll_preserves step
    ⟨run.grows_registerAll outcome.registrations, valid.registerAll own.records⟩).2

theorem tellWatch {told : List CompletionWatch × Agenda Action} (queued : told.2.Valid named site)
    (watched : ∀ watch ∈ told.1, watch.Valid named site) (task : TaskId) (date : Instant)
    (place : Nat) :
    (Run.tellWatch task date told place).2.Valid named site ∧
      ∀ watch ∈ (Run.tellWatch task date told place).1, watch.Valid named site := by
  unfold Run.tellWatch
  dsimp only
  split
  · exact ⟨queued, watched⟩
  · rename_i watch found
    obtain ⟨waits, acts⟩ := watched watch (List.mem_of_getElem? found)
    have fewer : ∀ other ∈ watch.waiting.filter (· != task), named other :=
      fun other member => waits other (TaskSet.mem_filter.mp member).1
    have replaced {next : CompletionWatch} (own : next.Valid named site) :
        ∀ watch ∈ told.1.set place next, watch.Valid named site := by
      intro other member
      rcases List.mem_or_eq_of_mem_set member with old | rfl
      · exact watched other old
      · exact own
    split
    · rename_i action _ acting
      exact ⟨queued.pushAfter (acts action acting) date watch.delay,
        replaced ⟨fewer, by simp⟩⟩
    · exact ⟨queued, replaced ⟨fewer, acts⟩⟩

theorem tellWatches (queued : run.agenda.Valid named site)
    (watched : ∀ watch ∈ run.completions, watch.Valid named site) (task : TaskId)
    (date : Instant) :
    (run.tellWatches task date).2.Valid named site ∧
      ∀ watch ∈ (run.tellWatches task date).1, watch.Valid named site := by
  unfold Run.tellWatches
  generalize run.watchersOf task = places
  have both : (run.completions, run.agenda).2.Valid named site ∧
      ∀ watch ∈ (run.completions, run.agenda).1, watch.Valid named site := ⟨queued, watched⟩
  revert both
  generalize (run.completions, run.agenda) = told
  intro both
  induction places generalizing told with
  | nil => exact both
  | cons place rest ih => exact ih _ (tellWatch both.1 both.2 task date place)

theorem enter (valid : run.Valid named) {graph : TaskGraph} {task : TaskId} {date : Instant}
    (completed : run.scenario.tasks.complete task date = .ok (graph, true)) :
    (run.enter graph task date).Valid named := by
  have entered : (run.site.told graph task date).scenario.Names named :=
    ⟨valid.names.edges.complete completed, valid.names.paths⟩
  have moved := valid.onSite (run.site.grows_told completed) entered
  obtain ⟨queued, watched⟩ := tellWatches moved.queued moved.watched task date
  exact { moved with queued, watched }

theorem advanceTo (valid : run.Valid named) (date : Instant) :
    (run.advanceTo date).1.Valid named := by
  have grows := run.site.grows_drain run.agenda date
  obtain ⟨names, queued⟩ := Site.drain_valid valid.names valid.queued date
  have moved := valid.onSite grows names
  unfold Run.advanceTo
  split
  · rename_i drained
    rw [drained] at moved queued
    exact { moved with queued }
  · rename_i drained
    rw [drained] at moved queued
    exact { moved with queued }

theorem changeEquipment (valid : run.Valid named) {after : Run} {id : EquipmentId}
    {change : Equipment → Equipment} (changed : run.changeEquipment id change = .ok after)
    (kept : ∀ equipment, (change equipment).path = equipment.path) : after.Valid named := by
  have grows := grows_changeEquipment changed
  rw [eq_of_changeEquipment changed] at grows ⊢
  refine valid.onSite grows ?_
  exact valid.names.modifyEquipment id fun equipment works => kept equipment ▸ works

theorem setOff (valid : run.Valid named) (id : EquipmentId) :
    ∀ action ∈ run.setOff id, action.Valid named run.site := by
  intro action member
  obtain ⟨watch, inside, acting⟩ := List.mem_filterMap.mp member
  exact (valid.selected watch (List.mem_filter.mp inside).1).2 action acting

theorem arm (valid : run.Valid named) (id : EquipmentId) (element : ElementId) :
    ({ run with selections := run.selections.map (Run.arm id element) } : Run).Valid named := by
  refine { valid with selected := fun watch member => ?_ }
  obtain ⟨old, inside, rfl⟩ := List.mem_map.mp member
  have before := valid.selected old inside
  unfold Run.arm
  split <;> exact before

theorem disarm (valid : run.Valid named) (id : EquipmentId) :
    ({ run with selections := run.selections.map (Run.disarm id) } : Run).Valid named := by
  refine { valid with selected := fun watch member => ?_ }
  obtain ⟨old, inside, rfl⟩ := List.mem_map.mp member
  obtain ⟨owner, acts⟩ := valid.selected old inside
  unfold Run.disarm
  split
  · exact ⟨owner, by simp⟩
  · exact ⟨owner, acts⟩

theorem perform (valid : run.Valid named) (call : Call) : (run.perform call).1.Valid named := by
  cases run.performing call with
  | kept performs => exact performs ▸ valid
  | installed found read committed performs =>
      have installed := valid.commit (readPath_valid valid.known valid.names found read)
      rw [committed] at installed
      rw [performs]
      exact { installed with }
  | completed completed performs =>
      rw [performs]
      exact (valid.enter completed).advanceTo _
  | selected changed performs =>
      rw [performs]
      exact (valid.changeEquipment changed fun _ => rfl).arm _ _
  | @released id active next changed performs =>
      have moved := valid.changeEquipment changed fun _ => rfl
      have applied := moved.onSite (next.site.grows_applyAll (next.setOff id))
        (Site.names_applyAll moved.names (moved.setOff id))
      rw [performs]
      exact applied.disarm id
  | advanced performs =>
      rw [performs]
      exact valid.advanceTo _

end Valid

/-- The runs that the calls of a host lead to, whether or not any of them fails. -/
inductive Reaches (first : Run) : Run → Prop where
  | start : Reaches first first
  | call {run : Run} (before : Reaches first run) (call : Call) :
      Reaches first (run.perform call).1
  | finishSetup {run : Run} (before : Reaches first run) : Reaches first run.finishSetup.2.1

namespace Reaches

variable {first : Run}

theorem performAll (reaches : first.Reaches run) (calls : List Call) :
    first.Reaches (run.performAll calls) := by
  induction calls generalizing run with
  | nil => exact reaches
  | cons call rest ih => exact ih (reaches.call call)

theorem parseEach (reaches : first.Reaches run) (ids : List EquipmentId) :
    first.Reaches (run.parseEach ids).2.1 := by
  induction ids generalizing run with
  | nil => exact reaches
  | cons id rest ih =>
      have parsed := reaches.call (.parsePath id)
      simp only [Run.perform] at parsed
      rw [Run.parseEach]
      split
      · rename_i reports next error failed
        rw [failed] at parsed
        exact parsed
      · rename_i reports next done parses
        rw [parses] at parsed
        exact ih parsed

/-- Setting up all paths leads to no other runs than the calls of a host do. -/
theorem parseAll (reaches : first.Reaches run) : first.Reaches run.parseAll.2.1 := by
  have parsed := reaches.parseEach run.scenario.equipmentIds
  unfold Run.parseAll
  split
  · rename_i events next error failed
    rw [failed] at parsed
    exact parsed
  · rename_i events next parses
    rw [parses] at parsed
    exact parsed.finishSetup

theorem grows (reaches : first.Reaches run) : Site.Grows first.site run.site := by
  induction reaches with
  | start => exact Site.Grows.refl first.site
  | @call run before call ih => exact ih.trans (run.grows_perform call)
  | finishSetup before ih =>
      unfold Run.finishSetup
      split <;> exact ih

theorem valid (reaches : first.Reaches run) (start : first.Valid named) : run.Valid named := by
  induction reaches with
  | start => exact start
  | call before call ih => exact ih.perform call
  | finishSetup before ih =>
      unfold Run.finishSetup
      split
      · exact ih
      · exact { ih with }

end Reaches

theorem valid_start (config : Config) {scenario : Scenario} (library : ScheduleLibrary)
    (known : ∀ task, scenario.tasks.Has task → named task) (names : scenario.Names named) :
    (start config scenario library).Valid named where
  known := known
  names := names
  queued entry member := by simp [start, Agenda.queue] at member
  watched watch member := by simp [start] at member
  selected watch member := by simp [start] at member

end Run

end PathDirectives
