import PathDirectives.Proofs.Views

/-!
Equipment do not see each other's paths. Runs that look alike to an equipment still do so after any
call that succeeds in both, and parsing the path of another equipment leaves a run that looks alike.
-/

namespace PathDirectives

open Calendar

def CompletionWatch.concerns (id : EquipmentId) (watch : CompletionWatch) : Bool :=
  watch.action.any (Action.concerns id)

/-- The runs do not differ in what an equipment sees of them. -/
structure Run.Alike (id : EquipmentId) (first second : Run) : Prop where
  site : Site.Alike id first.site second.site
  queued : Agenda.SameAmong (Action.concerns id) first.agenda second.agenda
  completions : second.completions.filter (CompletionWatch.concerns id) =
    first.completions.filter (CompletionWatch.concerns id)
  selections : second.selections.filter (·.equipment == id) =
    first.selections.filter (·.equipment == id)

namespace Run

variable {id other : EquipmentId} {run first second : Run} {date : Instant} {task : TaskId}

theorem alike_equivalence (id : EquipmentId) : Equivalence (Alike id) := by
  constructor
  · intro run
    exact ⟨Site.alike_refl id run.site, rfl, rfl, rfl⟩
  · intro first second alike
    exact ⟨(Site.alike_equivalence id).symm alike.site, Eq.symm alike.queued,
      alike.completions.symm, alike.selections.symm⟩
  · intro first second third left right
    exact ⟨(Site.alike_equivalence id).trans left.site right.site,
      Eq.trans right.queued left.queued, right.completions.trans left.completions,
      right.selections.trans left.selections⟩

theorem Alike.advanceTo (alike : Alike id first second)
    (left : (first.advanceTo date).2 = .ok ()) (right : (second.advanceTo date).2 = .ok ()) :
    Alike id (first.advanceTo date).1 (second.advanceTo date).1 := by
  obtain ⟨firstRest, firstEnds, firstAhead⟩ := advanceTo_applies left
  obtain ⟨secondRest, secondEnds, secondAhead⟩ := advanceTo_applies right
  rw [firstEnds, secondEnds]
  refine ⟨?_, ?_, alike.completions, alike.selections⟩
  · apply alike.site.applyEach
    rw [List.filter_map, List.filter_map]
    exact congrArg _ (alike.queued.filter_date fun other => decide (other ≤ date))
  · change secondRest.queue.filter _ = firstRest.queue.filter _
    rw [firstAhead, secondAhead]
    exact alike.queued.filter_date fun other => decide (date < other)

theorem waitsOf_told (inStep : run.site.InStep) (graph : TaskGraph) (task : TaskId)
    (date : Instant) (key : HoldKey) :
    (run.site.told graph task date).holds.waitsOf key =
      { counters := (run.holds.waitsOf key).counters.map (·.taskCompleted task date)
        windows := (run.holds.waitsOf key).windows } := by
  exact Waits.eq_of_parts (inStep.indexed.counters_taskCompleted task date key)
    (run.holds.windows_taskCompleted task date key)

theorem Alike.enter (alike : Alike id first second) (left : first.Orderly)
    (right : second.Orderly) {firstGraph secondGraph : TaskGraph}
    (firstEnters : first.scenario.tasks.complete task date = .ok (firstGraph, true))
    (secondEnters : second.scenario.tasks.complete task date = .ok (secondGraph, true)) :
    Alike id (first.enter firstGraph task date) (second.enter secondGraph task date) := by
  have firstTells := left.watches.indexed.tellWatches task date
  have secondTells := right.watches.indexed.tellWatches task date
  have completed := alike.site.completedAt?
  refine ⟨⟨alike.site.equipment?, ?_, ?_⟩, ?_, ?_, alike.selections⟩
  · intro other
    change secondGraph.completedAt? other = firstGraph.completedAt? other
    rw [(TaskGraph.complete_true firstEnters).2, (TaskGraph.complete_true secondEnters).2]
    split
    · rfl
    · exact completed other
  · intro other
    have same := alike.site.waitsOf other
    change (second.site.told secondGraph task date).holds.waitsOf _ =
      (first.site.told firstGraph task date).holds.waitsOf _
    rw [waitsOf_told left.inStep, waitsOf_told right.inStep]
    change second.holds.waitsOf ⟨id, other⟩ = first.holds.waitsOf ⟨id, other⟩ at same
    rw [same]
  · change Agenda.SameAmong _ (first.tellWatches task date).2 (second.tellWatches task date).2
    rw [firstTells, secondTells]
    apply alike.queued.pushEach
    rw [CompletionWatch.filter_fires?, CompletionWatch.filter_fires?]
    exact congrArg _ alike.completions
  · change (second.tellWatches task date).1.filter _ = (first.tellWatches task date).1.filter _
    rw [firstTells, secondTells]
    have left := CompletionWatch.filter_hear (Action.concerns id) task first.completions
    have right := CompletionWatch.filter_hear (Action.concerns id) task second.completions
    exact right.trans ((congrArg _ (congrArg _ alike.completions)).trans left.symm)

theorem alike_register (apart : other ≠ id) (inStep : run.site.InStep)
    {registration : Registration} (own : registration.Own other) :
    Alike id run (run.register registration) := by
  have elsewhere {key : HoldKey} (owned : key.equipment = other) (task : TaskId) :
      (⟨id, task⟩ : HoldKey) ≠ key := by
    intro same
    exact apart (owned.symm.trans (congrArg HoldKey.equipment same).symm)
  cases registration with
  | wait key counter =>
      refine ⟨⟨rfl, fun _ => rfl, ?_⟩, rfl, rfl, rfl⟩
      intro task
      have away := elsewhere own task
      have windows : ((run.register (.wait key counter)).holds.waitsOf ⟨id, task⟩).windows =
          (run.holds.waitsOf ⟨id, task⟩).windows := by
        rw [holds_register_wait, HoldRegister.windows_completeAll, HoldRegister.waitsOf_addWait,
          if_neg away]
      have counters : ((run.register (.wait key counter)).holds.waitsOf ⟨id, task⟩).counters =
          (run.holds.waitsOf ⟨id, task⟩).counters := by
        apply List.ext_getElem?
        intro index
        have stored := counter?_register_wait inStep key counter ⟨⟨id, task⟩, index⟩
        have older : (⟨⟨id, task⟩, index⟩ : CounterHandle) ≠ (run.holds.addWait key counter).2 :=
          fun same => away (congrArg CounterHandle.key same)
        rw [if_neg older, HoldRegister.counter?_eq, HoldRegister.counter?_eq] at stored
        exact stored
      exact Waits.eq_of_parts counters windows
  | window key window =>
      refine ⟨⟨rfl, fun _ => rfl, ?_⟩, ?_, rfl, rfl⟩
      · intro task
        exact (HoldRegister.waitsOf_addWindow _ _ _ _).trans (if_neg (elsewhere own task))
      · have foreign (action : Action) (owned : action.owner? = some key.equipment) :
            action.concerns id = false := by
          apply Action.not_concerns apart
          intro owner owns
          rw [owned] at owns
          exact (Option.some.inj owns).symm.trans own
        have opens := run.agenda.sameAmong_push window.start
          (foreign (.activateWindow (run.holds.addWindow key window).2) rfl)
        have closes := Agenda.sameAmong_push
          (run.agenda.push window.start (.activateWindow (run.holds.addWindow key window).2))
          window.stop (foreign (.deactivateWindow (run.holds.addWindow key window).2) rfl)
        exact (Agenda.sameAmong_equivalence _).trans opens closes

theorem alike_registerAll (apart : other ≠ id) (inStep : run.site.InStep)
    {registrations : List Registration}
    (fresh : ∀ registration ∈ registrations, registration.Fresh)
    (own : ∀ registration ∈ registrations, registration.Own other) :
    Alike id run (registrations.foldl register run) := by
  induction registrations generalizing run with
  | nil => exact (alike_equivalence id).refl run
  | cons registration rest ih =>
      have here := alike_register apart inStep (own registration List.mem_cons_self)
      have after := inStep_register inStep (fresh registration List.mem_cons_self)
      have later := ih after (fun next member => fresh next (List.mem_cons_of_mem _ member))
        fun next member => own next (List.mem_cons_of_mem _ member)
      exact (alike_equivalence id).trans here later

theorem alike_schedule (apart : other ≠ id) (run : Run) {effect : Effect}
    (own : effect.Own other) : Alike id run (run.schedule effect).1 := by
  cases effect with
  | now action =>
      have seen := run.site.apply_other action (Action.not_concerns apart own)
      exact ⟨seen, rfl, rfl, rfl⟩
  | onDate date action =>
      have queued := run.agenda.sameAmong_push date (Action.not_concerns apart own)
      exact ⟨Site.alike_refl id run.site, queued, rfl, rfl⟩
  | onCompletion tasks delay action =>
      have foreign : action.concerns id = false :=
        Action.not_concerns apart fun _ owns => own.owner_eq owns
      simp only [schedule]
      split
      · refine ⟨Site.alike_refl id run.site, ?_, rfl, rfl⟩
        exact run.agenda.sameAmong_pushAfter _ delay foreign
      · refine ⟨Site.alike_refl id run.site, rfl, ?_, rfl⟩
        simp [CompletionWatch.concerns, foreign]
  | onSelection equipment elements action =>
      obtain ⟨rfl, -⟩ := own
      refine ⟨Site.alike_refl id run.site, rfl, rfl, ?_⟩
      simp [schedule, apart]

theorem alike_parsePath (apart : other ≠ id) (orderly : run.Orderly) :
    Alike id run (run.perform (.parsePath other)).1 := by
  have same := (alike_equivalence id).refl run
  cases run.parsing other with
  | again known passes =>
      simp only [perform, passes]
      exact same
  | failed fresh unreadable fails =>
      simp only [perform, fails]
      exact same
  | @installed equipment reading next fresh found read committed installs =>
      have own := readPath_own read
      have step : ∀ middle : Run, ∀ effect ∈ reading.outcome.effects, Alike id run middle →
          Alike id run (middle.schedule effect).1 := by
        intro middle effect member before
        exact (alike_equivalence id).trans before
          (alike_schedule apart middle (own.effects effect member))
      have registered := alike_registerAll apart orderly.inStep (readPath_fresh read).records
        own.records
      have whole := scheduleAll_preserves step registered
      rw [show Run.scheduleAll _ _ = (next, .ok ()) from committed] at whole
      simp only [perform, installs]
      exact ⟨whole.site, whole.queued, whole.completions, whole.selections⟩

/-! ### Calls -/

theorem Alike.taskCompleted (alike : Alike id first second) (left : first.Orderly)
    (right : second.Orderly) (firstReports : (first.taskCompleted task date).2 = .ok ())
    (secondReports : (second.taskCompleted task date).2 = .ok ()) :
    Alike id (first.taskCompleted task date).1 (second.taskCompleted task date).1 := by
  have agree : second.scenario.tasks.isComplete task = first.scenario.tasks.isComplete task :=
    congrArg Option.isSome (alike.site.completedAt? task)
  rcases report_cases firstReports with
    ⟨complete, passes⟩ | ⟨firstGraph, open_, firstEnters, enters⟩
  · rcases report_cases secondReports with ⟨-, alsoPasses⟩ | ⟨secondGraph, open_, -, -⟩
    · rw [passes, alsoPasses]
      exact alike
    · simp [agree, complete] at open_
  · rcases report_cases secondReports with
      ⟨complete, -⟩ | ⟨secondGraph, -, secondEnters, alsoEnters⟩
    · simp [agree, open_] at complete
    · rw [enters] at firstReports ⊢
      rw [alsoEnters] at secondReports ⊢
      exact (alike.enter left right firstEnters secondEnters).advanceTo firstReports secondReports

theorem Alike.changeEquipment (alike : Alike id first second) {owner : EquipmentId}
    {change : Equipment → Equipment} {left right : Run}
    (firstChanged : first.changeEquipment owner change = .ok left)
    (secondChanged : second.changeEquipment owner change = .ok right) : Alike id left right := by
  obtain rfl := eq_of_changeEquipment firstChanged
  obtain rfl := eq_of_changeEquipment secondChanged
  refine ⟨⟨?_, alike.site.completedAt?, alike.site.waitsOf⟩, alike.queued, alike.completions,
    alike.selections⟩
  have seen := alike.site.equipment?
  change second.scenario.equipment? id = first.scenario.equipment? id at seen
  simp only [Scenario.equipment?_modifyEquipment, seen]

theorem filter_map_selections {change : SelectionWatch → SelectionWatch}
    (kept : ∀ watch, (change watch).equipment = watch.equipment) (watches : List SelectionWatch) :
    (watches.map change).filter (·.equipment == id) =
      (watches.filter (·.equipment == id)).map change := by
  rw [List.filter_map]
  congr 1
  apply List.filter_congr
  intro watch _
  simp [kept]

theorem Alike.mapSelections (alike : Alike id first second)
    {change : SelectionWatch → SelectionWatch}
    (kept : ∀ watch, (change watch).equipment = watch.equipment) :
    Alike id { first with selections := first.selections.map change }
      { second with selections := second.selections.map change } := by
  refine ⟨alike.site, alike.queued, alike.completions, ?_⟩
  change (second.selections.map change).filter _ = (first.selections.map change).filter _
  rw [filter_map_selections kept, filter_map_selections kept, alike.selections]

theorem arm_equipment (owner : EquipmentId) (element : ElementId) (watch : SelectionWatch) :
    (arm owner element watch).equipment = watch.equipment := by
  unfold arm
  split
  · rfl
  · rfl

theorem disarm_equipment (owner : EquipmentId) (watch : SelectionWatch) :
    (disarm owner watch).equipment = watch.equipment := by
  unfold disarm
  split
  · rfl
  · rfl

theorem setOff_own (run : Run) (id : EquipmentId) :
    run.setOff id = ((run.selections.filter (·.equipment == id)).filter (·.armed)).filterMap
      (·.action) := by
  rw [setOff, List.filter_filter]
  congr 1
  apply List.filter_congr
  intro watch _
  rw [firesFor, Bool.and_comm]

theorem setOff_other {owner : EquipmentId} (apart : owner ≠ id) (own : run.OwnWatches) :
    (run.setOff owner).filter (Action.concerns id) = [] := by
  apply List.filter_eq_nil_iff.mpr
  intro action member
  obtain ⟨watch, fires, acts⟩ := List.mem_filterMap.mp member
  obtain ⟨inside, fires⟩ := List.mem_filter.mp fires
  simp only [firesFor, Bool.and_eq_true, beq_iff_eq] at fires
  have foreign : action.concerns id = false := by
    apply Action.not_concerns apart
    intro other owns
    exact ((own.selections watch inside action acts).owner_eq owns).trans fires.1
  simp [foreign]

theorem Alike.setOff (alike : Alike id first second) (left : first.OwnWatches)
    (right : second.OwnWatches) (owner : EquipmentId) :
    (second.setOff owner).filter (Action.concerns id) =
      (first.setOff owner).filter (Action.concerns id) := by
  by_cases same : owner = id
  · subst same
    rw [setOff_own, setOff_own, alike.selections]
  · rw [setOff_other same left, setOff_other same right]

theorem Alike.taskSelected (alike : Alike id first second) {owner : EquipmentId}
    {element : ElementId} (firstSelects : (first.taskSelected owner element task).2 = .ok ())
    (secondSelects : (second.taskSelected owner element task).2 = .ok ()) :
    Alike id (first.taskSelected owner element task).1
      (second.taskSelected owner element task).1 := by
  unfold Run.taskSelected at firstSelects secondSelects ⊢
  split at firstSelects
  · simp at firstSelects
  · rename_i left firstChanged
    split at secondSelects
    · simp at secondSelects
    · rename_i right secondChanged
      exact (alike.changeEquipment firstChanged secondChanged).mapSelections
        (arm_equipment owner element)

theorem Alike.taskReleased (alike : Alike id first second) (left : first.OwnWatches)
    (right : second.OwnWatches) {owner : EquipmentId}
    (firstReleases : (first.taskReleased owner).2 = .ok ())
    (secondReleases : (second.taskReleased owner).2 = .ok ()) :
    Alike id (first.taskReleased owner).1 (second.taskReleased owner).1 := by
  unfold Run.taskReleased at firstReleases secondReleases ⊢
  split at firstReleases
  · simp at firstReleases
  · rename_i before firstChanged
    split at secondReleases
    · simp at secondReleases
    · rename_i after secondChanged
      have changed := alike.changeEquipment firstChanged secondChanged
      have armed := changed.setOff (left.changeEquipment firstChanged)
        (right.changeEquipment secondChanged) owner
      have firstApplied : before.site.applyAll (before.setOff owner) =
          ((before.site.applyAll (before.setOff owner)).1, .ok ()) := Prod.ext rfl firstReleases
      have secondApplied : after.site.applyAll (after.setOff owner) =
          ((after.site.applyAll (after.setOff owner)).1, .ok ()) := Prod.ext rfl secondReleases
      have seen := changed.site.applyEach armed
      rw [← (Site.applyAll_ok firstApplied).1, ← (Site.applyAll_ok secondApplied).1] at seen
      have disarmed := changed.mapSelections (disarm_equipment owner)
      exact ⟨seen, disarmed.queued, disarmed.completions, disarmed.selections⟩

theorem Alike.perform (alike : Alike id first second) (left : first.Orderly)
    (right : second.Orderly) (firstParsed : first.isParsed id = true)
    (secondParsed : second.isParsed id = true) {call : Call}
    (firstPerforms : (first.perform call).2 = .ok ())
    (secondPerforms : (second.perform call).2 = .ok ()) :
    Alike id (first.perform call).1 (second.perform call).1 := by
  cases call with
  | parsePath other =>
      by_cases same : other = id
      · subst same
        have firstPasses : first.parsePath other = ([], first, .ok false) := if_pos firstParsed
        have secondPasses : second.parsePath other = ([], second, .ok false) :=
          if_pos secondParsed
        simp only [Run.perform, firstPasses, secondPasses]
        exact alike
      · have before := (alike_equivalence id).symm (alike_parsePath same left)
        have after := alike_parsePath same right
        exact (alike_equivalence id).trans before ((alike_equivalence id).trans alike after)
  | taskCompleted task date => exact alike.taskCompleted left right firstPerforms secondPerforms
  | taskSelected owner element task => exact alike.taskSelected firstPerforms secondPerforms
  | taskReleased owner =>
      exact alike.taskReleased left.watches right.watches firstPerforms secondPerforms
  | advanceTo date => exact alike.advanceTo firstPerforms secondPerforms

theorem Alike.performAll (alike : Alike id first second) (left : first.Orderly)
    (right : second.Orderly) (firstParsed : first.isParsed id = true)
    (secondParsed : second.isParsed id = true) {calls early : List Call}
    (firstAccepts : first.accepts calls = true) (secondAccepts : second.accepts calls = true)
    (begins : early <+: calls) : Alike id (first.performAll early) (second.performAll early) := by
  induction early generalizing first second calls with
  | nil => exact alike
  | cons call rest ih =>
      obtain ⟨later, rfl⟩ := begins
      simp only [List.cons_append, accepts, Bool.and_eq_true] at firstAccepts secondAccepts
      have step := alike.perform left right firstParsed secondParsed
        (eq_ok_of_isOk firstAccepts.1) (eq_ok_of_isOk secondAccepts.1)
      have firstStays := isParsed_performAll firstParsed [call]
      have secondStays := isParsed_performAll secondParsed [call]
      exact ih step (left.perform call) (right.perform call) firstStays secondStays firstAccepts.2
        secondAccepts.2 (List.prefix_append rest later)

/-- The runs give the same answers about an equipment. -/
structure SameFor (id : EquipmentId) (first second : Run) : Prop where
  path : (second.scenario.equipment? id).map (·.path) =
    (first.scenario.equipment? id).map (·.path)
  active : (second.scenario.equipment? id).map (·.active) =
    (first.scenario.equipment? id).map (·.active)
  isAvailable : ∀ task date, second.isAvailable id task date = first.isAvailable id task date

theorem Alike.sameFor (alike : Alike id first second) : SameFor id first second := by
  have seen := alike.site.equipment?
  change second.scenario.equipment? id = first.scenario.equipment? id at seen
  refine ⟨by rw [seen], by rw [seen], ?_⟩
  intro task date
  have waits := alike.site.waitsOf task
  change second.holds.waitsOf ⟨id, task⟩ = first.holds.waitsOf ⟨id, task⟩ at waits
  rw [isAvailable, isAvailable, HoldRegister.isAvailable_eq, HoldRegister.isAvailable_eq, waits]

/-- Once the path of an equipment is parsed, parsing that of another one, at any time and whether or
not it succeeds, changes none of the answers about it. -/
theorem parse_of_other_unseen {config : Config} {scenario : Scenario} {library : ScheduleLibrary}
    {compiles : Bool} (built : build config scenario library compiles = .ok first)
    (reaches : first.Reaches run) (parsed : run.isParsed id = true) (apart : other ≠ id)
    {before after : List Call} (without : (run.performAll before).accepts after = true)
    (inserted : ((run.performAll before).perform (.parsePath other)).1.accepts after = true)
    {early : List Call} (begins : early <+: after) :
    SameFor id (run.performAll (before ++ early))
      (((run.performAll before).perform (.parsePath other)).1.performAll early) := by
  have orderly := (orderly_of_reaches built reaches).performAll before
  have here := isParsed_performAll parsed before
  have there := isParsed_performAll here [.parsePath other]
  have alike := (alike_parsePath apart orderly).performAll orderly
    (orderly.perform (.parsePath other)) here there without inserted begins
  have split : run.performAll (before ++ early) = (run.performAll before).performAll early :=
    List.foldl_append
  rw [split]
  exact alike.sameFor

end Run

namespace Quarry

def pairScenario : Scenario :=
  { scenario with
    equipment := scenario.equipment ++
      [{ name := "Truck"
         pathText := "Face '!waiton Shot !dependon Hole !remove Hole"
         path := Path.push {} 1 (.steps [{ source := loaded }]) }] }

def pair : Run := Run.start config pairScenario {}

theorem pair_built : Run.build config pairScenario {} false = .ok pair := rfl

def loading : Run := (pair.perform (.parsePath loader)).1

def drilling : List Run.Call := [.taskCompleted drilled (moment 1 6)]

def blasting : List Run.Call :=
  [.taskSelected loader ⟨0⟩ loaded, .taskCompleted blasted (moment 1 7), .advanceTo (moment 2 1)]

theorem truck_unseen_by_loader :
    pair.Reaches loading ∧ loading.isParsed loader = true ∧ truck ≠ loader ∧
      ((loading.performAll drilling).perform (.parsePath truck)).2.isOk = true ∧
        (loading.performAll drilling).accepts blasting = true ∧
          ((loading.performAll drilling).perform (.parsePath truck)).1.accepts blasting = true ∧
            Run.SameFor loader (loading.performAll (drilling ++ blasting))
              (((loading.performAll drilling).perform (.parsePath truck)).1.performAll
                blasting) := by
  have reaches : pair.Reaches loading := Run.Reaches.start.call _
  have apart : truck ≠ loader := by decide
  obtain ⟨parsed, installs, without, inserted⟩ : loading.isParsed loader = true ∧
      ((loading.performAll drilling).perform (.parsePath truck)).2.isOk = true ∧
        (loading.performAll drilling).accepts blasting = true ∧
          ((loading.performAll drilling).perform (.parsePath truck)).1.accepts blasting = true := by
    decide +kernel
  refine ⟨reaches, parsed, apart, installs, without, inserted, ?_⟩
  exact Run.parse_of_other_unseen pair_built reaches parsed apart without inserted
    (List.prefix_refl blasting)

end Quarry

end PathDirectives
