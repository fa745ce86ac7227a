import PathDirectives.Proofs.Validity

/-!
What the directives of a path ask for, and whom it names. A range names tasks that are there; so if
the path of an equipment works on such tasks only, and edges come from such tasks only, then
everything that its directives ask for names such tasks and the equipment itself.
-/

namespace PathDirectives

open Calendar

theorem TaskRange.resolve_has {range : TaskRange} {scenario : Scenario} {tasks : TaskSet}
    (resolved : range.resolve scenario = .ok tasks) : ∀ task ∈ tasks, scenario.tasks.Has task := by
  intro task member
  obtain ⟨found, terms, rfl⟩ := map_eq_ok.mp resolved
  obtain ⟨ids, inside, among⟩ := List.mem_flatten.mp (TaskSet.mem_ofList.mp member)
  obtain ⟨term, _, admitted⟩ := mem_of_mapM_ok terms ids inside
  obtain ⟨processes, _, rfl⟩ := map_eq_ok.mp admitted
  exact TaskGraph.mem_ids.mp (List.mem_filter.mp among).1

theorem Scenario.tasksNamed_has {scenario : Scenario} {text : String} {tasks : TaskSet}
    (found : scenario.tasksNamed text = .ok tasks) :
    ∀ task ∈ tasks, scenario.tasks.Has task := by
  unfold tasksNamed at found
  split at found
  · simp at found
  · split at found
    · simp at found
    · rename_i resolved
      simp only [Except.ok.injEq] at found
      exact found ▸ TaskRange.resolve_has resolved

namespace Argument

variable {scenario : Scenario} {name value : String} {set : TaskSet}

theorem tasks_has (read : tasks name value scenario = .ok set) :
    ∀ task ∈ set, scenario.tasks.Has task := by
  unfold tasks at read
  split at read
  · simp at read
  · simp at read
  · rename_i found
    simp only [Except.ok.injEq] at read
    exact read ▸ Scenario.tasksNamed_has found

theorem optional_tasks_has {value : Option String} {only : Option TaskSet}
    (read : optional (tasks name · scenario) value = .ok only) :
    ∀ set ∈ only, ∀ task ∈ set, scenario.tasks.Has task := by
  intro set member
  cases value with
  | none =>
      simp only [optional, Except.ok.injEq] at read
      simp [← read] at member
  | some value =>
      obtain ⟨tasks, found, rfl⟩ := map_eq_ok.mp read
      obtain rfl := Option.some.inj member
      exact tasks_has found

end Argument

namespace Directive

variable {config : Config} {scenario : Scenario} {kind : DirectiveKind} {command : Command}

def Names (named : TaskId → Prop) : Directive → Prop
  | .waitOn tasks _ => ∀ task ∈ tasks, named task
  | .dependOn tasks _ => ∀ task ∈ tasks, named task
  | .dependClear _ only => ∀ set ∈ only, ∀ task ∈ set, named task
  | .remove (.tasks tasks _) _ => ∀ task ∈ tasks, named task
  | _ => True

theorem requiredTasks_has {tasks : TaskSet} (read : requiredTasks scenario command = .ok tasks) :
    ∀ task ∈ tasks, scenario.tasks.Has task := by
  simp only [requiredTasks, bind_eq_ok] at read
  obtain ⟨value, _, found⟩ := read
  exact Argument.tasks_has found

theorem removeWhen_has {tasks : TaskSet} {trigger : RemoveTrigger}
    (read : removeWhen config scenario command = .ok (.tasks tasks trigger)) :
    ∀ task ∈ tasks, scenario.tasks.Has task := by
  unfold removeWhen at read
  split at read
  · simp at read
  · simp [bind_eq_ok, pure, Except.pure] at read
  · simp only [bind_eq_ok, pure, Except.pure, Except.ok.injEq] at read
    obtain ⟨set, found, _, _, same⟩ := read
    cases same
    exact Argument.tasks_has found
  · simp at read

theorem resolve_names {directive : Directive}
    (resolved : resolve config scenario kind command = .ok directive) :
    directive.Names scenario.tasks.Has := by
  cases resolve_resolved resolved with
  | waitOn named | dependOn named => exact requiredTasks_has named
  | dependClear _ named => exact Argument.optional_tasks_has named
  | @remove trigger _ triggered =>
      cases trigger with
      | date date => trivial
      | tasks tasks trigger => exact removeWhen_has triggered
  | _ => trivial

theorem Names.mono {named also : TaskId → Prop} {directive : Directive}
    (names : directive.Names named) (wider : ∀ task, named task → also task) :
    directive.Names also := by
  cases directive with
  | waitOn tasks delay => exact fun task member => wider task (names task member)
  | dependOn tasks delay => exact fun task member => wider task (names task member)
  | dependClear date only =>
      exact fun set inside task member => wider task (names set inside task member)
  | remove trigger delay =>
      cases trigger with
      | date date => trivial
      | tasks tasks trigger => exact fun task member => wider task (names task member)
  | _ => trivial

end Directive

/-! ### Effects -/

def Registration.Valid (named : TaskId → Prop) (site : Site) : Registration → Prop
  | .wait .. => True
  | .window key _ => site.HasEquipment key.equipment ∧ named key.task

/-- What an effect names is there, its tasks as said. At once only edges are added and steps
inserted, and what waits for completions waits for some. -/
def Effect.Valid (named : TaskId → Prop) (site : Site) : Effect → Prop
  | .now (.addDependencies tasks predecessors _ _) =>
      (∀ task ∈ tasks, named task) ∧ ∀ task ∈ predecessors, named task
  | .now (.insertSteps id line anchor steps) =>
      (Action.insertSteps id line anchor steps).Valid named site
  | .now _ => False
  | .onDate _ action => action.Valid named site
  | .onCompletion tasks _ action =>
      tasks.isEmpty = false ∧ (∀ task ∈ tasks, named task) ∧ action.Valid named site
  | .onSelection id _ action => site.HasEquipment id ∧ action.Valid named site

theorem Registration.Valid.grows {named : TaskId → Prop} {site next : Site}
    {registration : Registration} (valid : registration.Valid named site)
    (grows : Site.Grows site next) : registration.Valid named next := by
  cases registration with
  | wait key counter => trivial
  | window key window => exact ⟨grows.hasEquipment valid.1, valid.2⟩

theorem Effect.Valid.grows {named : TaskId → Prop} {site next : Site} {effect : Effect}
    (valid : effect.Valid named site) (grows : Site.Grows site next) :
    effect.Valid named next := by
  cases effect with
  | now action =>
      cases action with
      | addDependencies tasks predecessors delay rule => exact valid
      | insertSteps id line anchor steps =>
          have inserts : (Action.insertSteps id line anchor steps).Valid named site := valid
          exact inserts.grows grows
      | _ => exact valid.elim
  | onDate date action => exact Action.Valid.grows valid grows
  | onCompletion tasks delay action => exact ⟨valid.1, valid.2.1, valid.2.2.grows grows⟩
  | onSelection id elements action =>
      exact ⟨grows.hasEquipment valid.1, valid.2.grows grows⟩

theorem TaskGraph.EdgesFrom.stage {named : TaskId → Prop} {site : Site} {effects : List Effect}
    (valid : ∀ effect ∈ effects, effect.Valid named site) {graph : TaskGraph}
    (edges : graph.EdgesFrom named) : (Run.stage graph effects).1.EdgesFrom named := by
  induction effects generalizing graph with
  | nil => exact edges
  | cons effect rest ih =>
      have others := fun other member => valid other (List.mem_cons_of_mem effect member)
      unfold Run.stage
      split
      · exact edges
      · rename_i tasks predecessors delay rule _ same
        obtain ⟨rfl, rfl⟩ := List.cons.inj same
        have known : ∀ pair ∈ TaskGraph.pairs tasks predecessors, named pair.2 :=
          fun pair member =>
            (valid _ List.mem_cons_self).2 pair.2 (TaskGraph.mem_pairs member).2
        have added := edges.addEdges delay rule known
        split
        · rename_i next done
          rw [done] at added
          exact ih others added
        · rename_i next error failed
          rw [failed] at added
          exact added
      · rename_i same
        obtain ⟨rfl, rfl⟩ := List.cons.inj same
        exact ih others edges

namespace Interpreter

variable {interpreter : Interpreter} {named : TaskId → Prop} {site : Site} {line : WalkedLine}

theorem findTask?_has {scenario : Scenario} {name : String} {role : TaskRole} {task : TaskId}
    (found : scenario.findTask? name role = some task) : scenario.tasks.Has task := by
  obtain ⟨index, first, rfl⟩ := Option.map_eq_some_iff.mp found
  exact (List.findIdx?_eq_some_iff_getElem.mp first).1

theorem scheduledStep?_has {scenario : Scenario} {start stop : Instant} {scheduled : ScheduledStep}
    {step : Step} (found : scheduledStep? scenario start stop scheduled = some step) :
    ∀ task ∈ step.tasks, scenario.tasks.Has task := by
  unfold scheduledStep? at found
  dsimp only at found
  split at found
  · simp at found
  · split at found
    · simp at found
    · rename_i source from_ _
      simp only [Option.some.injEq] at found
      subst found
      intro task member
      obtain rfl : task = source := by simpa [Step.tasks, scheduledStep?.planned] using member
      exact findTask?_has from_
    · rename_i source name from_ _
      obtain ⟨destination, there, rfl⟩ := Option.map_eq_some_iff.mp found
      intro task member
      have either : task = source ∨ task = destination := by
        simpa [Step.tasks, scheduledStep?.planned] using member
      rcases either with rfl | rfl
      · exact findTask?_has from_
      · exact findTask?_has there

theorem scheduledSteps_has {name equipment : String} {start stop : Instant} {kind : ScheduleKind}
    {steps : List Step}
    (found : interpreter.scheduledSteps name equipment start stop kind = .ok steps) :
    ∀ step ∈ steps, ∀ task ∈ step.tasks, interpreter.scenario.tasks.Has task := by
  unfold scheduledSteps at found
  split at found
  · simp at found
  · simp only [Except.ok.injEq] at found
    subst found
    intro step member
    obtain ⟨scheduled, _, own⟩ := List.mem_filterMap.mp member
    exact scheduledStep?_has own

/-- One directive asks for nothing that names anything else than what is there, if its line works on
tasks as said, and if edges come from such tasks and ranges name such tasks only. -/
theorem interpret_valid (works : ∀ element ∈ line.elements, ∀ task ∈ element.tasks, named task)
    (known : ∀ task, interpreter.scenario.tasks.Has task → named task)
    (edges : interpreter.graph.EdgesFrom named) (owner : site.HasEquipment interpreter.id)
    {directive : Directive} (names : directive.Names named) {outcome : LineOutcome}
    (interpreted : interpreter.interpret line directive = .ok outcome) :
    outcome.All (Registration.Valid named site) (Effect.Valid named site) := by
  have ofScope : ∀ task ∈ line.scope.tasks, named task := by
    intro task member
    obtain ⟨element, inside, own⟩ := List.mem_flatMap.mp (TaskSet.mem_ofList.mp member)
    exact works element inside task own
  have ofSteps : ∀ step ∈ line.scope.steps, ∀ task ∈ step.tasks, named task := by
    intro step member task own
    obtain ⟨element, inside, among⟩ := List.mem_flatMap.mp member
    exact works element inside task (List.mem_flatMap.mpr ⟨step, among, own⟩)
  refine (interpret_all interpreted).mono ?_ ?_
  · intro registration records
    cases records with
    | waitFree | waitOn => trivial
    | timeConstrain inside => exact ⟨owner, ofScope _ inside⟩
  · intro effect requests
    cases requests with
    | dependFree => exact ⟨ofScope, edges.externalPredecessors _⟩
    | dependOn => exact ⟨ofScope, fun task member => names task (TaskSet.mem_diff.mp member).1⟩
    | dependClear => exact ⟨ofScope, names⟩
    | deadhead _ filled => exact ⟨filled, ofScope, owner⟩
    | removeOnDate | removeAtStart => exact owner
    | removeCompleted filled => exact ⟨filled, names, owner⟩
    | removeAvailable filled =>
        refine ⟨filled, fun task member => ?_, owner⟩
        obtain ⟨awaited, _, inside⟩ := List.mem_flatMap.mp (TaskSet.mem_ofList.mp member)
        exact edges.predecessors task inside
    | forceComplete => exact ⟨owner, ofSteps⟩
    | reprioritise => exact ⟨owner, owner⟩
    | injectSchedulePath _ scheduled =>
        exact ⟨owner, fun step member task own =>
          known task (scheduledSteps_has scheduled step member task own)⟩

end Interpreter

theorem mem_walkFrom {number : Nat} {lines : List (List Char)} {elements : List Element}
    {line : WalkedLine} (member : line ∈ walkFrom number lines elements) :
    ∀ element ∈ line.elements, element ∈ elements := by
  induction lines generalizing number elements with
  | nil => simp [walkFrom] at member
  | cons text more ih =>
      intro element inside
      simp only [walkFrom, List.mem_cons] at member
      rcases member with rfl | later
      · exact (List.dropWhile_sublist _).subset ((List.takeWhile_sublist _).subset inside)
      · exact (List.dropWhile_sublist _).subset
          ((List.dropWhile_sublist _).subset (ih later element inside))

namespace Run

theorem equipment?_of_equipmentOf {run : Run} {id : EquipmentId} {equipment : Equipment}
    (found : run.scenario.equipmentOf id = .ok equipment) :
    run.scenario.equipment? id = some equipment := by
  unfold Scenario.equipmentOf at found
  split at found
  · rename_i stored there
    exact there.trans (congrArg some (Except.ok.inj found))
  · simp at found

theorem has_of_equipmentOf {run : Run} {id : EquipmentId} {equipment : Equipment}
    (found : run.scenario.equipmentOf id = .ok equipment) :
    run.site.HasEquipment id ∧ equipment ∈ run.scenario.equipment := by
  have stored := equipment?_of_equipmentOf found
  exact ⟨(List.getElem?_eq_some_iff.mp stored).1, List.mem_of_getElem? stored⟩

theorem readPath_valid {run : Run} {named : TaskId → Prop}
    (known : ∀ task, run.scenario.tasks.Has task → named task)
    (names : run.scenario.Names named) {id : EquipmentId} {equipment : Equipment}
    (found : run.scenario.equipmentOf id = .ok equipment) {reading : PathReading}
    (read : run.readPath id equipment = (reading, .ok ())) :
    reading.outcome.All (Registration.Valid named run.site) (Effect.Valid named run.site) := by
  obtain ⟨owner, inside⟩ := has_of_equipmentOf found
  suffices each : run.EachDirective id equipment
      (walk equipment.pathText equipment.path.elements) (TaskGraph.EdgesFrom named)
      (Registration.Valid named run.site) (Effect.Valid named run.site) from
    readPath_each each names.edges read
  intro line among kind command directive graph outcome edges resolved interpreted
  have works : ∀ element ∈ line.elements, ∀ task ∈ element.tasks, named task :=
    fun element member => names.paths equipment inside element (mem_walkFrom among element member)
  have asks := Interpreter.interpret_valid works known edges owner
    ((Directive.resolve_names resolved).mono known) interpreted
  refine ⟨asks, fun next staged => ?_⟩
  have kept := edges.stage asks.effects
  rw [staged] at kept
  exact kept

end Run

end PathDirectives
