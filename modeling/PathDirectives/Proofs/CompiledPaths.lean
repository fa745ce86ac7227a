import PathDirectives.Proofs.Reach

/-!
Runs on paths that were all compiled from their texts. Compiled steps work on tasks of the scenario,
so that nothing such a run ever queues names an unknown task and none of its actions can fail.
-/

namespace PathDirectives

open Calendar

namespace Scenario

/-- The scenarios put together piece by piece, with path texts but no path elements. -/
inductive Made : Scenario → Prop where
  | empty : Made {}
  | process {scenario : Scenario} (made : Made scenario) (name : String) :
      Made (scenario.addProcess name)
  | task {scenario : Scenario} (made : Made scenario) (name : String) (role : TaskRole)
      (process : ProcessId) : Made (scenario.addTask name role process)
  | dependency {scenario : Scenario} (made : Made scenario) {id : TaskId} {edge : Dependency}
      {graph : TaskGraph} {created : Bool}
      (added : scenario.tasks.addDependency id edge = .ok (graph, created)) :
      Made { scenario with tasks := graph }
  | completion {scenario : Scenario} (made : Made scenario) {id : TaskId} {date : Instant}
      {graph : TaskGraph} {first : Bool}
      (completed : scenario.tasks.complete id date = .ok (graph, first)) :
      Made { scenario with tasks := graph }
  | equipment {scenario : Scenario} (made : Made scenario) {equipment : Equipment}
      (bare : equipment.path.elements = []) : Made (scenario.addEquipment equipment)

end Scenario

theorem TaskGraph.has_of_addDependency {graph next : TaskGraph} {id : TaskId} {edge : Dependency}
    {created : Bool} (added : graph.addDependency id edge = .ok (next, created)) :
    next = graph ∨ graph.Has edge.predecessor := by
  unfold addDependency at added
  split at added
  · simp only [Except.ok.injEq, Prod.mk.injEq] at added
    exact .inl added.1.symm
  · split at added
    · simp at added
    · simp at added
    · rename_i found _
      exact .inr (has_of_get? found)

namespace Scenario

variable {scenario : Scenario}

theorem Made.bare (made : scenario.Made) :
    ∀ equipment ∈ scenario.equipment, equipment.path.elements = [] := by
  induction made with
  | empty => simp
  | process made name ih => exact ih
  | task made name role process ih => exact ih
  | dependency made added ih => exact ih
  | completion made completed ih => exact ih
  | @equipment scenario made equipment bare ih =>
      intro other member
      rcases List.mem_append.mp member with old | new
      · exact ih other old
      · exact List.mem_singleton.mp new ▸ bare

theorem Made.edges (made : scenario.Made) :
    scenario.tasks.EdgesFrom scenario.tasks.Has := by
  induction made with
  | empty =>
      intro task member
      simp at member
  | process made name ih => exact ih
  | @task scenario made name role process ih =>
      have wider : ∀ task, scenario.tasks.Has task →
          (scenario.addTask name role process).tasks.Has task := by
        intro task has
        simp only [TaskGraph.Has, TaskGraph.size, addTask, TaskGraph.addTask,
          List.length_append] at has ⊢
        omega
      intro task member
      rcases List.mem_append.mp member with old | new
      · exact ih.mono wider task old
      · obtain rfl := List.mem_singleton.mp new
        simp
  | @dependency scenario made id edge graph created added ih =>
      rcases TaskGraph.has_of_addDependency added with rfl | has
      · exact ih
      · have same : ∀ task, scenario.tasks.Has task → graph.Has task := by
          intro task before
          rw [TaskGraph.Has, TaskGraph.size_addDependency added]
          exact before
        exact (ih.addDependency has added).mono same
  | @completion scenario made id date graph first completed ih =>
      have same : ∀ task, scenario.tasks.Has task → graph.Has task := by
        intro task before
        rw [TaskGraph.Has, TaskGraph.size_complete completed]
        exact before
      exact (ih.complete completed).mono same
  | equipment made bare ih => exact ih

theorem has_of_roleOf? {id : TaskId} {role : TaskRole}
    (found : (scenario.roleOf? id == some role) = true) : scenario.tasks.Has id := by
  simp only [roleOf?, beq_iff_eq, Option.map_eq_some_iff] at found
  obtain ⟨task, stored, _⟩ := found
  exact TaskGraph.has_of_get? stored

end Scenario

theorem plannedSteps_has {scenario : Scenario} {tasks : TaskSet} :
    ∀ step ∈ plannedSteps scenario tasks, ∀ task ∈ step.tasks, scenario.tasks.Has task := by
  intro step member task own
  obtain ⟨source, inside, rfl⟩ := List.mem_map.mp member
  rcases List.mem_cons.mp own with rfl | destination
  · exact Scenario.has_of_roleOf? (List.mem_filter.mp inside).2
  · have found : tasks.ids.find? (fun id => scenario.roleOf? id == some .destination) = some task :=
      Option.mem_toList.mp destination
    have role := List.find?_some found
    exact Scenario.has_of_roleOf? role

theorem compileRange_has {scenario : Scenario} {code : List Char} {kind : ElementKind}
    (compiled : compileRange scenario code = .ok (some kind)) :
    ∀ step ∈ kind.stepList, ∀ task ∈ step.tasks, scenario.tasks.Has task := by
  unfold compileRange at compiled
  split at compiled
  · simp at compiled
  · simp at compiled
  · dsimp only at compiled
    split at compiled
    · simp at compiled
    · simp only [Except.ok.injEq, Option.some.injEq] at compiled
      rw [← compiled]
      exact plannedSteps_has

theorem compileCode_has {scenario : Scenario} {code : List Char} {kind : ElementKind}
    (compiled : compileCode scenario code = .ok (some kind)) :
    ∀ step ∈ kind.stepList, ∀ task ∈ step.tasks, scenario.tasks.Has task := by
  unfold compileCode at compiled
  dsimp only at compiled
  split at compiled
  · split at compiled
    · simp only [Except.ok.injEq, Option.some.injEq] at compiled
      simp [← compiled, ElementKind.stepList]
    · simp at compiled
  · split at compiled
    · split at compiled
      · simp only [Except.ok.injEq, Option.some.injEq] at compiled
        simp [← compiled, ElementKind.stepList]
      · simp at compiled
    · exact compileRange_has compiled

theorem compileLine_has {scenario : Scenario} {line : List Char} {kind : ElementKind}
    (compiled : compileLine scenario line = .ok (some kind)) :
    ∀ step ∈ kind.stepList, ∀ task ∈ step.tasks, scenario.tasks.Has task := by
  unfold compileLine at compiled
  dsimp only at compiled
  split at compiled
  · simp at compiled
  · exact compileCode_has compiled

theorem compileFrom_worksOn {scenario : Scenario} {number : Nat} {path result : Path}
    {lines : List (List Char)} (works : path.WorksOn scenario.tasks.Has)
    (compiled : compileFrom scenario number path lines = .ok result) :
    result.WorksOn scenario.tasks.Has := by
  induction lines generalizing number path with
  | nil =>
      simp only [compileFrom, Except.ok.injEq] at compiled
      exact compiled ▸ works
  | cons line more ih =>
      simp only [compileFrom] at compiled
      split at compiled
      · simp at compiled
      · exact ih works compiled
      · rename_i kind own
        exact ih (works.push number (compileLine_has own)) compiled

namespace Run

theorem compileEquipment_worksOn {scenario : Scenario} {equipment compiled : Equipment}
    (bare : equipment.path.elements = [])
    (done : compileEquipment scenario equipment = .ok compiled) :
    compiled.path.WorksOn scenario.tasks.Has := by
  unfold compileEquipment at done
  split at done
  · obtain ⟨path, compiles, rfl⟩ := map_eq_ok.mp done
    refine compileFrom_worksOn ?_ compiles
    intro element member
    simp at member
  · simp only [Except.ok.injEq] at done
    subst done
    intro element member
    simp [bare] at member

theorem compileAll_names {scenario compiled : Scenario} (made : scenario.Made)
    (done : compileAll scenario = .ok compiled) :
    compiled.tasks = scenario.tasks ∧ compiled.Names compiled.tasks.Has := by
  obtain ⟨equipment, each, rfl⟩ := map_eq_ok.mp done
  refine ⟨rfl, made.edges, fun after member => ?_⟩
  obtain ⟨before, inside, own⟩ := mem_of_mapM_ok each after member
  have works : after.path.WorksOn scenario.tasks.Has :=
    compileEquipment_worksOn (made.bare before inside) own
  exact works

theorem changeEquipment_ok {run : Run} {id : EquipmentId} (has : run.site.HasEquipment id)
    (change : Equipment → Equipment) : ∃ after, run.changeEquipment id change = .ok after := by
  have found : run.scenario.equipment? id = some run.site.scenario.equipment[id.index] :=
    List.getElem?_eq_getElem has
  simp [changeEquipment, Scenario.equipmentOf, found]

theorem valid_of_build {config : Config} {scenario : Scenario} {library : ScheduleLibrary}
    {first : Run} (made : scenario.Made)
    (built : build config scenario library true = .ok first) :
    first.Valid first.scenario.tasks.Has := by
  unfold build at built
  split at built
  · simp at built
  · simp only [if_true] at built
    split at built
    · simp at built
    · rename_i compiled done
      simp only [Except.ok.injEq] at built
      subst built
      exact valid_start config library (fun _ has => has) (compileAll_names made done).2

end Run

/-! ### Calls that cannot fail -/

namespace Site

variable {named : TaskId → Prop} {site : Site}

theorem applyAll_succeeds {actions : List Action}
    (valid : ∀ action ∈ actions, action.Valid named site)
    (present : ∀ task, named task → site.scenario.tasks.Has task) :
    (site.applyAll actions).2 = .ok () := by
  induction actions generalizing site with
  | nil => rfl
  | cons action rest ih =>
      have own := valid action List.mem_cons_self
      have applied : (site.apply action).2 = .ok () := by
        rw [apply_result own, Action.unknownTask?_eq_none own present]
      have grows := site.grows_apply action
      rw [applyAll]
      split
      · rename_i next succeeded
        rw [succeeded] at grows
        refine ih (fun other member => ?_) fun task known => ?_
        · exact (valid other (List.mem_cons_of_mem _ member)).grows grows
        · exact (grows.has_iff task).mpr (present task known)
      · rename_i next error failed
        simp [failed] at applied

theorem drain_succeeds {agenda : Agenda Action} (valid : agenda.Valid named site)
    (present : ∀ task, named task → site.scenario.tasks.Has task) (now : Instant) :
    (site.drain agenda now).2.2 = .ok () := by
  fun_induction site.drain agenda now with
  | case1 site agenda empty => rfl
  | case2 site agenda batch rest popped middle applied ih =>
      obtain ⟨split, _⟩ := Agenda.queue_of_popDue popped
      rw [Agenda.Valid, split] at valid
      have grows := site.grows_applyAll batch.2
      rw [applied] at grows
      refine ih (fun entry member => ?_) fun task known => (grows.has_iff task).mpr (present task known)
      exact (valid entry (List.mem_append_right _ member)).grows grows
  | case3 site agenda batch rest popped middle error failed =>
      obtain ⟨split, _⟩ := Agenda.queue_of_popDue popped
      rw [Agenda.Valid, split] at valid
      have own : ∀ action ∈ batch.2, action.Valid named site := fun action member =>
        valid (batch.1, action) (List.mem_append_left _ (List.mem_map_of_mem member))
      have succeeds := applyAll_succeeds own present
      simp [failed] at succeeds

end Site

theorem TaskGraph.complete_known {graph : TaskGraph} {id : TaskId} (has : graph.Has id)
    (date : Instant) : ∃ next first, graph.complete id date = .ok (next, first) := by
  have found : graph.get? id ≠ none := fun missing => get?_eq_none_iff.mp missing has
  obtain ⟨task, stored⟩ := Option.ne_none_iff_exists'.mp found
  unfold complete
  rw [stored]
  dsimp only
  split <;> exact ⟨_, _, rfl⟩

theorem TaskGraph.complete_unknown {graph : TaskGraph} {id : TaskId} (missing : ¬ graph.Has id)
    (date : Instant) : graph.complete id date = .error (.unknownTask id) := by
  unfold complete
  rw [get?_eq_none_iff.mpr missing]

namespace Run

variable {run : Run} {named : TaskId → Prop}

namespace Valid

variable (valid : run.Valid named) (present : ∀ task, named task → run.scenario.tasks.Has task)

include valid present

theorem advanceTo_ok (date : Instant) : (run.advanceTo date).2 = .ok () := by
  have drained := Site.drain_succeeds valid.queued present date
  unfold Run.advanceTo
  split
  · rfl
  · rename_i failed
    simp [failed] at drained

theorem taskCompleted_ok {task : TaskId} (has : run.scenario.tasks.Has task) (date : Instant) :
    (run.taskCompleted task date).2 = .ok () := by
  obtain ⟨graph, first, completed⟩ := TaskGraph.complete_known has date
  cases first with
  | false => simp [Run.taskCompleted, completed]
  | true =>
      rw [taskCompleted_first completed]
      have grows := run.site.grows_told completed
      exact (valid.enter completed).advanceTo_ok
        (fun other known => (grows.has_iff other).mpr (present other known)) date

theorem taskReleased_ok {id : EquipmentId} (has : run.site.HasEquipment id) :
    (run.taskReleased id).2 = .ok () := by
  obtain ⟨after, changed⟩ := changeEquipment_ok has fun worker => { worker with active := none }
  have grows := grows_changeEquipment changed
  have moved := valid.changeEquipment changed fun _ => rfl
  simp only [Run.taskReleased, changed]
  exact Site.applyAll_succeeds (moved.setOff id) fun task known =>
    (grows.has_iff task).mpr (present task known)

end Valid

/-- Everything that waits names what is there, and a call fails only if it names something itself
that is not. -/
structure Safe (run : Run) : Prop where
  queued : ∀ entry ∈ run.agenda.queue, entry.2.Valid run.scenario.tasks.Has run.site
  watched : ∀ watch ∈ run.completions, watch.Valid run.scenario.tasks.Has run.site
  selected : ∀ watch ∈ run.selections, watch.Valid run.scenario.tasks.Has run.site
  advances : ∀ date, (run.advanceTo date).2 = .ok ()
  selects : ∀ id element task, run.site.HasEquipment id →
    (run.taskSelected id element task).2 = .ok ()
  releases : ∀ id, run.site.HasEquipment id → (run.taskReleased id).2 = .ok ()
  completes : ∀ task date, run.scenario.tasks.Has task → (run.taskCompleted task date).2 = .ok ()
  unknown : ∀ task date, ¬ run.scenario.tasks.Has task →
    run.taskCompleted task date = (run, .error (RunError.graph (.unknownTask task)))

/-- Where all paths are compiled, whatever calls there are and whether or not any of them fails. -/
theorem compiled_paths_safe {config : Config} {scenario : Scenario} {library : ScheduleLibrary}
    {first run : Run} (made : scenario.Made)
    (built : build config scenario library true = .ok first) (reached : first.Reaches run) :
    run.Safe := by
  have same : run.scenario.tasks.Has = first.scenario.tasks.Has :=
    funext fun task => propext (reached.grows.has_iff task)
  have valid : run.Valid run.scenario.tasks.Has :=
    same ▸ reached.valid (valid_of_build made built)
  have present : ∀ task, run.scenario.tasks.Has task → run.scenario.tasks.Has task :=
    fun _ has => has
  refine ⟨valid.queued, valid.watched, valid.selected, valid.advanceTo_ok present, ?_,
    fun _ has => valid.taskReleased_ok present has,
    fun _ date has => valid.taskCompleted_ok present has date, ?_⟩
  · intro id element task has
    obtain ⟨after, changed⟩ :=
      changeEquipment_ok has fun worker => { worker with active := some ⟨element, task⟩ }
    simp [taskSelected, changed]
  · intro task date missing
    simp [taskCompleted, TaskGraph.complete_unknown missing date]

end Run

namespace Quarry

def survey : Scenario :=
  let hole : Task :=
    { name := "Hole", role := .source, process := ⟨0⟩, completedAt := some (moment 1 0) }
  let shot : Task :=
    { name := "Shot"
      role := .source
      process := ⟨0⟩
      predecessors := [⟨drilled, Span.hours 1, "plan"⟩] }
  { processes := [⟨⟨0⟩, "Dig"⟩]
    tasks := ⟨[hole, shot, { name := "Face", role := .source, process := ⟨0⟩ }]⟩
    equipment := [{ name := "Loader", pathText }] }

theorem survey_made : survey.Made := by
  have dig := Scenario.Made.empty.process "Dig"
  have tasks := ((dig.task "Hole" .source ⟨0⟩).task "Shot" .source ⟨0⟩).task "Face" .source ⟨0⟩
  have edge := @Scenario.Made.dependency _ tasks blasted ⟨drilled, Span.hours 1, "plan"⟩ _ _ rfl
  have complete := @Scenario.Made.completion _ edge drilled (moment 1 0) _ _ rfl
  exact @Scenario.Made.equipment _ complete { name := "Loader", pathText } rfl

def surveyed : Run :=
  match Run.build config survey {} true with
  | .ok run => run
  | .error _ => opening

theorem survey_built : Run.build config survey {} true = .ok surveyed := by
  have builds : (Run.build config survey {} true).isOk = true := by decide +kernel
  unfold surveyed
  cases built : Run.build config survey {} true with
  | error error => simp [built, Except.isOk, Except.toBool] at builds
  | ok run => rfl

def surveyCalls : List Run.Call := [.parsePath loader, .taskCompleted ⟨7⟩ (moment 1 6)]

theorem survey_calls_safe :
    survey.Made ∧ Run.build config survey {} true = .ok surveyed ∧
      surveyed.accepts surveyCalls = false ∧
        (surveyed.performAll surveyCalls).agenda.size = 2 ∧
          (surveyed.performAll surveyCalls).Safe := by
  have reached : surveyed.Reaches (surveyed.performAll surveyCalls) :=
    Run.Reaches.start.performAll surveyCalls
  refine ⟨survey_made, survey_built, by decide +kernel, by decide +kernel, ?_⟩
  exact Run.compiled_paths_safe survey_made survey_built reached

end Quarry

end PathDirectives
