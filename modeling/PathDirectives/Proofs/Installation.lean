import PathDirectives.Proofs.Requests
import PathDirectives.Proofs.Steps

/-!
Installing a path. Every edge that a path asks for has been put on the copy of the task graph before,
on which the path was read, so that installing it ends on that very copy and cannot fail. A path is
therefore installed as a whole or not at all.
-/

namespace PathDirectives

open Calendar

namespace Run

variable {run : Run} {id : EquipmentId} {equipment : Equipment}

theorem stage_cons {graph last : TaskGraph} {effect : Effect} {rest : List Effect} :
    stage graph (effect :: rest) = (last, .ok ()) ↔
      ∃ middle, stage graph [effect] = (middle, .ok ()) ∧ stage middle rest = (last, .ok ()) := by
  cases effect with
  | now action =>
      cases action with
      | addDependencies tasks predecessors delay rule =>
          simp only [stage]
          split <;> simp
      | _ => simp [stage]
  | _ => simp [stage]

theorem stage_append {graph middle last : TaskGraph} {first second : List Effect}
    (left : stage graph first = (middle, .ok ())) (right : stage middle second = (last, .ok ())) :
    stage graph (first ++ second) = (last, .ok ()) := by
  induction first generalizing graph with
  | nil =>
      simp only [stage, Prod.mk.injEq, and_true] at left
      exact left ▸ right
  | cons effect rest ih =>
      obtain ⟨next, own, others⟩ := stage_cons.mp left
      rw [List.cons_append, stage_cons]
      exact ⟨next, own, ih others⟩

theorem interpretAll_staged {line : WalkedLine} {start graph last : TaskGraph}
    {outcome total : LineOutcome} {directives : List Directive}
    (before : stage start outcome.effects = (graph, .ok ()))
    (done : run.interpretAll id equipment line graph outcome directives = .ok (last, total)) :
    stage start total.effects = (last, .ok ()) := by
  induction directives generalizing graph outcome with
  | nil =>
      simp only [interpretAll, Except.ok.injEq, Prod.mk.injEq] at done
      obtain ⟨rfl, rfl⟩ := done
      exact before
  | cons directive rest ih =>
      simp only [interpretAll] at done
      split at done
      · simp at done
      · rename_i part interpreted
        split at done
        · simp at done
        · rename_i next staged
          exact ih (stage_append before staged) done

theorem readLine_staged {reading next : PathReading} {start : TaskGraph} {line : WalkedLine}
    (before : stage start reading.outcome.effects = (reading.graph, .ok ()))
    (read : run.readLine id equipment reading line = .ok next) :
    stage start next.outcome.effects = (next.graph, .ok ()) := by
  unfold readLine at read
  split at read
  · simp at read
  · split at read
    · simp at read
    · rename_i graph outcome done
      simp only [Except.ok.injEq] at read
      subst read
      exact stage_append before (interpretAll_staged rfl done)

theorem readLines_staged {reading last : PathReading} {start : TaskGraph}
    {lines : List WalkedLine}
    (before : stage start reading.outcome.effects = (reading.graph, .ok ()))
    (read : run.readLines id equipment reading lines = (last, .ok ())) :
    stage start last.outcome.effects = (last.graph, .ok ()) := by
  induction lines generalizing reading with
  | nil =>
      simp only [readLines, Prod.mk.injEq, and_true] at read
      exact read ▸ before
  | cons line more ih =>
      simp only [readLines] at read
      split at read
      · simp at read
      · rename_i next first
        exact ih (readLine_staged before first) read

theorem readPath_staged {reading : PathReading}
    (read : run.readPath id equipment = (reading, .ok ())) :
    stage run.scenario.tasks reading.outcome.effects = (reading.graph, .ok ()) :=
  readLines_staged rfl read

theorem grows_register (run : Run) (registration : Registration) :
    Site.Grows run.site (run.register registration).site := by
  cases registration with
  | wait key counter =>
      refine ⟨rfl, rfl, fun handle has => ?_⟩
      change ((run.holds.addWait key counter).1.completeAll _).window? handle ≠ none
      rw [HoldRegister.window?_completeAll, HoldRegister.window?_addWait]
      exact has
  | window key dated =>
      refine ⟨rfl, rfl, fun handle has => ?_⟩
      change (run.holds.addWindow key dated).1.window? handle ≠ none
      rw [HoldRegister.window?_addWindow]
      split
      · simp
      · exact has

theorem grows_registerAll (run : Run) (registrations : List Registration) :
    Site.Grows run.site (registrations.foldl register run).site := by
  induction registrations generalizing run with
  | nil => exact Site.Grows.refl _
  | cons registration rest ih => exact (run.grows_register registration).trans (ih _)

theorem grows_schedule (run : Run) (effect : Effect) :
    Site.Grows run.site (run.schedule effect).1.site := by
  cases effect with
  | now action => exact run.site.grows_apply action
  | onDate date action => exact Site.Grows.refl _
  | onCompletion tasks delay action =>
      simp only [schedule]
      split <;> exact Site.Grows.refl _
  | onSelection id elements action => exact Site.Grows.refl _

theorem schedule_staged {effect : Effect} {named : TaskId → Prop} {graph : TaskGraph}
    (valid : effect.Valid named run.site)
    (staged : stage run.scenario.tasks [effect] = (graph, .ok ())) :
    ∃ next, run.schedule effect = (next, .ok ()) ∧ next.scenario.tasks = graph := by
  cases effect with
  | now action =>
      cases action with
      | addDependencies tasks predecessors delay rule =>
          simp only [stage] at staged
          split at staged
          · rename_i added next
            simp only [Prod.mk.injEq, and_true] at staged
            subst staged
            refine ⟨_, Prod.ext rfl ?_, ?_⟩
            · change Except.mapError RunError.graph
                (run.scenario.tasks.addEdges delay rule _).2 = .ok ()
              rw [next]
              rfl
            · change (run.scenario.tasks.addEdges delay rule _).1 = _
              rw [next]
          · simp at staged
      | insertSteps owner line anchor steps =>
          simp only [stage, Prod.mk.injEq, and_true] at staged
          have inserts : (Action.insertSteps owner line anchor steps).Valid named run.site := valid
          have inserted : (run.site.apply (.insertSteps owner line anchor steps)).2 = .ok () :=
            Site.apply_result inserts
          refine ⟨_, Prod.ext rfl inserted, ?_⟩
          rw [← staged]
          change (run.site.editPath owner _).1.scenario.tasks = _
          unfold Site.editPath Scenario.changePath
          cases run.site.scenario.equipment? owner <;> rfl
      | _ => exact valid.elim
  | onDate date action =>
      simp only [stage, Prod.mk.injEq, and_true] at staged
      exact ⟨_, rfl, staged⟩
  | onCompletion tasks delay action =>
      simp only [stage, Prod.mk.injEq, and_true] at staged
      simp only [schedule]
      split <;> exact ⟨_, rfl, staged⟩
  | onSelection owner elements action =>
      simp only [stage, Prod.mk.injEq, and_true] at staged
      exact ⟨_, rfl, staged⟩

theorem scheduleAll_staged {effects : List Effect} {named : TaskId → Prop} {graph : TaskGraph}
    (valid : ∀ effect ∈ effects, effect.Valid named run.site)
    (staged : stage run.scenario.tasks effects = (graph, .ok ())) :
    ∃ next, run.scheduleAll effects = (next, .ok ()) ∧ next.scenario.tasks = graph := by
  induction effects generalizing run with
  | nil =>
      simp only [stage, Prod.mk.injEq, and_true] at staged
      exact ⟨run, rfl, staged⟩
  | cons effect rest ih =>
      obtain ⟨middle, own, others⟩ := stage_cons.mp staged
      obtain ⟨next, scheduled, same⟩ := schedule_staged (valid effect List.mem_cons_self) own
      have grows := run.grows_schedule effect
      rw [scheduled] at grows
      have later := fun other member => (valid other (List.mem_cons_of_mem _ member)).grows grows
      have rest_staged : stage next.scenario.tasks rest = (graph, .ok ()) := same ▸ others
      obtain ⟨last, done, ends⟩ := ih later rest_staged
      exact ⟨last, by rw [scheduleAll, scheduled]; exact done, ends⟩

theorem commit_staged (found : run.scenario.equipmentOf id = .ok equipment)
    {reading : PathReading} (read : run.readPath id equipment = (reading, .ok ())) :
    ∃ next, run.commit reading.outcome = (next, .ok ()) ∧
      next.scenario.tasks = reading.graph := by
  have names : run.scenario.Names fun _ => True :=
    ⟨fun _ _ _ _ => trivial, fun _ _ _ _ _ _ => trivial⟩
  have valid := readPath_valid (fun _ _ => trivial) names found read
  have grows := run.grows_registerAll reading.outcome.registrations
  refine scheduleAll_staged (fun effect member => (valid.effects effect member).grows grows) ?_
  have same : (reading.outcome.registrations.foldl register run).scenario.tasks =
      run.scenario.tasks := run.registerAll_tasks reading.outcome.registrations
  rw [same]
  exact readPath_staged read

/-- The path of an equipment cannot be read: the equipment is not there, or a line is at fault. -/
def Unreadable (run : Run) (id : EquipmentId) (error : RunError) : Prop :=
  (∃ unknown, run.scenario.equipmentOf id = .error unknown ∧ error = .lookup unknown) ∨
    ∃ equipment reading, run.scenario.equipmentOf id = .ok equipment ∧
      run.readPath id equipment = (reading, .error error)

theorem Unreadable.unique {error other : RunError} (first : run.Unreadable id error)
    (second : run.Unreadable id other) : error = other := by
  rcases first with ⟨unknown, missing, rfl⟩ | ⟨equipment, reading, found, failed⟩
  · rcases second with ⟨also, same, rfl⟩ | ⟨equipment, reading, found, _⟩
    · rw [Except.error.inj (missing.symm.trans same)]
    · simp [missing] at found
  · rcases second with ⟨unknown, missing, _⟩ | ⟨equipment, reading, same, also⟩
    · simp [found] at missing
    · obtain rfl := Except.ok.inj (found.symm.trans same)
      simpa using (congrArg Prod.snd (failed.symm.trans also))

/-- What the calls to parse one path come down to. -/
structure AllOrNothing (run : Run) (id : EquipmentId) : Prop where
  again : run.isParsed id = true → run.parsePath id = ([], run, .ok false)
  fails_iff : ∀ error, (run.parsePath id).2.2 = .error error ↔
    run.isParsed id = false ∧ run.Unreadable id error
  unchanged : ∀ error, (run.parsePath id).2.2 = .error error → (run.parsePath id).2.1 = run
  installed : ∀ equipment reading, run.isParsed id = false →
    run.scenario.equipmentOf id = .ok equipment →
      run.readPath id equipment = (reading, .ok ()) →
        ∃ next, run.commit reading.outcome = (next, .ok ()) ∧
          run.parsePath id =
            (reading.reports, { next with parsed := next.parsed ++ [id] }, .ok true)
  once : ∀ done, (run.parsePath id).2.2 = .ok done → ∀ calls,
    ((run.parsePath id).2.1.performAll calls).parsePath id =
      ([], (run.parsePath id).2.1.performAll calls, .ok false)

inductive Parsing (run : Run) (id : EquipmentId) : Prop where
  | again (known : run.isParsed id = true) (passes : run.parsePath id = ([], run, .ok false))
  | failed {error : RunError} (fresh : run.isParsed id = false)
      (unreadable : run.Unreadable id error) (fails : (run.parsePath id).2 = (run, .error error))
  | installed {equipment : Equipment} {reading : PathReading} {next : Run}
      (fresh : run.isParsed id = false) (found : run.scenario.equipmentOf id = .ok equipment)
      (read : run.readPath id equipment = (reading, .ok ()))
      (committed : run.commit reading.outcome = (next, .ok ()))
      (installs : run.parsePath id =
        (reading.reports, { next with parsed := next.parsed ++ [id] }, .ok true))

theorem parsing (run : Run) (id : EquipmentId) : run.Parsing id := by
  cases known : run.isParsed id with
  | true => exact .again known (if_pos known)
  | false =>
      cases found : run.scenario.equipmentOf id with
      | error unknown =>
          refine .failed known (.inl ⟨unknown, found, rfl⟩) ?_
          simp [parsePath, known, found]
      | ok equipment =>
          cases read : run.readPath id equipment with
          | mk reading result =>
              cases result with
              | error error =>
                  refine .failed known (.inr ⟨equipment, reading, found, read⟩) ?_
                  simp [parsePath, known, found, read]
              | ok =>
                  obtain ⟨next, committed, _⟩ := commit_staged found read
                  refine .installed known found read committed ?_
                  simp [parsePath, known, found, read, committed]

theorem parsePath_unchanged (fails : (run.parsePath id).2.2 ≠ .ok true) :
    (run.parsePath id).2.1 = run := by
  cases run.parsing id with
  | again _ passes => rw [passes]
  | failed _ _ failed => rw [failed]
  | installed _ _ _ _ installs => simp [installs] at fails

/-! ### One call -/

def setOff (run : Run) (id : EquipmentId) : List Action :=
  (run.selections.filter (firesFor id)).filterMap (·.action)

def disarm (id : EquipmentId) (watch : SelectionWatch) : SelectionWatch :=
  if firesFor id watch then { watch with action := none } else watch

inductive Performing (run : Run) (call : Call) : Prop where
  | kept {result : Except RunError Unit} (performs : run.perform call = (run, result))
  | installed {id : EquipmentId} {equipment : Equipment} {reading : PathReading} {next : Run}
      (found : run.scenario.equipmentOf id = .ok equipment)
      (read : run.readPath id equipment = (reading, .ok ()))
      (committed : run.commit reading.outcome = (next, .ok ()))
      (performs : run.perform call = ({ next with parsed := next.parsed ++ [id] }, .ok ()))
  | completed {graph : TaskGraph} {task : TaskId} {date : Instant}
      (completed : run.scenario.tasks.complete task date = .ok (graph, true))
      (performs : run.perform call = (run.enter graph task date).advanceTo date)
  | selected {id : EquipmentId} {element : ElementId} {active : Option ActiveWork} {next : Run}
      (changed : run.changeEquipment id (fun worker => { worker with active }) = .ok next)
      (performs : run.perform call =
        ({ next with selections := next.selections.map (arm id element) }, .ok ()))
  | released {id : EquipmentId} {active : Option ActiveWork} {next : Run}
      (changed : run.changeEquipment id (fun worker => { worker with active }) = .ok next)
      (performs : run.perform call =
        ({ next with
            site := (next.site.applyAll (next.setOff id)).1
            selections := next.selections.map (disarm id) },
          (next.site.applyAll (next.setOff id)).2))
  | advanced {date : Instant} (performs : run.perform call = run.advanceTo date)

theorem performing (run : Run) (call : Call) : run.Performing call := by
  cases call with
  | parsePath id =>
      have parses : run.perform (.parsePath id) =
          ((run.parsePath id).2.1, (run.parsePath id).2.2.map fun _ => ()) := rfl
      cases run.parsing id with
      | again _ passes => exact .kept (by rw [parses, passes])
      | failed _ _ fails => exact .kept (by rw [parses, fails])
      | installed _ found read committed installs =>
          exact .installed found read committed (by rw [parses, installs]; rfl)
  | taskCompleted task date =>
      cases completed : run.scenario.tasks.complete task date with
      | error error => exact .kept (by rw [perform, taskCompleted, completed])
      | ok entry =>
          obtain ⟨graph, first⟩ := entry
          cases first with
          | false => exact .kept (by rw [perform, taskCompleted, completed])
          | true => exact .completed completed (taskCompleted_first completed)
  | taskSelected id element task =>
      cases changed : run.changeEquipment id _ with
      | error error => exact .kept (by rw [perform, taskSelected, changed])
      | ok next => exact .selected changed (by rw [perform, taskSelected, changed])
  | taskReleased id =>
      cases changed : run.changeEquipment id _ with
      | error error => exact .kept (by rw [perform, taskReleased, changed])
      | ok next => exact .released changed (by rw [perform, taskReleased, changed]; rfl)
  | advanceTo date => exact .advanced rfl

theorem parsed_registerAll (run : Run) (registrations : List Registration) :
    (registrations.foldl register run).parsed = run.parsed := by
  induction registrations generalizing run with
  | nil => rfl
  | cons registration rest ih =>
      rw [List.foldl_cons, ih]
      cases registration <;> rfl

theorem parsed_commit (run : Run) (outcome : LineOutcome) :
    (run.commit outcome).1.parsed = run.parsed := by
  have step : ∀ next : Run, ∀ effect ∈ outcome.effects, next.parsed = run.parsed →
      (next.schedule effect).1.parsed = run.parsed := by
    intro next effect _ same
    cases effect with
    | onCompletion tasks delay action =>
        simp only [schedule]
        split <;> exact same
    | _ => exact same
  exact scheduleAll_preserves step (run.parsed_registerAll outcome.registrations)

theorem parsed_advanceTo (run : Run) (date : Instant) :
    (run.advanceTo date).1.parsed = run.parsed := by
  unfold advanceTo
  split <;> rfl

theorem parsed_changeEquipment {next : Run} {change : Equipment → Equipment}
    (changed : run.changeEquipment id change = .ok next) : next.parsed = run.parsed := by
  rw [eq_of_changeEquipment changed]

theorem parsed_perform {call : Call} {other : EquipmentId} (parsed : other ∈ run.parsed) :
    other ∈ (run.perform call).1.parsed := by
  cases run.performing call with
  | kept performs => exact performs ▸ parsed
  | @installed _ _ reading _ _ _ committed performs =>
      have same := run.parsed_commit reading.outcome
      rw [committed] at same
      rw [performs]
      exact List.mem_append_left _ (same ▸ parsed)
  | @completed graph task date _ performs =>
      rw [performs, parsed_advanceTo]
      exact parsed
  | selected changed performs =>
      rw [performs]
      exact parsed_changeEquipment changed ▸ parsed
  | released changed performs =>
      rw [performs]
      exact parsed_changeEquipment changed ▸ parsed
  | advanced performs =>
      rw [performs, parsed_advanceTo]
      exact parsed

theorem isParsed_performAll (parsed : run.isParsed id = true) (calls : List Call) :
    (run.performAll calls).isParsed id = true := by
  induction calls generalizing run with
  | nil => exact parsed
  | cons call rest ih =>
      refine ih ?_
      rw [isParsed, List.contains_iff_mem] at parsed ⊢
      exact parsed_perform parsed

theorem isParsed_of_ok {done : Bool} (parses : (run.parsePath id).2.2 = .ok done) :
    (run.parsePath id).2.1.isParsed id = true := by
  cases run.parsing id with
  | again known passes => exact passes ▸ known
  | failed _ _ fails => simp [fails] at parses
  | installed _ _ _ _ installs =>
      rw [installs]
      simp [isParsed]

/-- Of any run and any equipment, whatever is on its path. -/
theorem parsePath_all_or_nothing (run : Run) (id : EquipmentId) : run.AllOrNothing id where
  again known := if_pos known
  fails_iff error := by
    cases run.parsing id with
    | again known passes => simp [passes, known]
    | @failed other fresh unreadable fails =>
        rw [fails]
        constructor
        · intro same
          exact ⟨fresh, Except.error.inj same ▸ unreadable⟩
        · rintro ⟨_, also⟩
          exact congrArg Except.error (unreadable.unique also)
    | installed _ found read _ installs =>
        simp only [installs, reduceCtorEq, false_iff, not_and]
        rintro - (⟨unknown, missing, _⟩ | ⟨equipment, reading, same, failed⟩)
        · simp [found] at missing
        · obtain rfl := Except.ok.inj (found.symm.trans same)
          simp [read] at failed
  unchanged error failed := by
    cases run.parsing id with
    | again _ passes => rw [passes]
    | failed _ _ fails => rw [fails]
    | installed _ _ _ _ installs => simp [installs] at failed
  installed equipment reading fresh found read := by
    obtain ⟨next, committed, _⟩ := commit_staged found read
    exact ⟨next, committed, by simp [parsePath, fresh, found, read, committed]⟩
  once done parses calls := if_pos (isParsed_performAll (isParsed_of_ok parses) calls)

end Run

end PathDirectives
