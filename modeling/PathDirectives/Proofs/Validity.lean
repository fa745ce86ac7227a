import PathDirectives.Proofs.Outcome
import PathDirectives.Proofs.Queue
import PathDirectives.Proofs.Register

/-!
What actions name, and when they fail. No action adds or takes away tasks, equipment or windows, so
what an action names once stays there, and only the removal of edges of a task that a scenario does
not have can fail.
-/

namespace PathDirectives

open Calendar

namespace TaskGraph

variable {graph next : TaskGraph} {named : TaskId → Prop}

def Has (graph : TaskGraph) (id : TaskId) : Prop := id.index < graph.size

instance (graph : TaskGraph) (id : TaskId) : Decidable (graph.Has id) :=
  inferInstanceAs (Decidable (_ < _))

theorem get?_eq_none_iff {id : TaskId} : graph.get? id = none ↔ ¬ graph.Has id := by
  simp [get?, Has, size]

theorem has_of_get? {id : TaskId} {task : Task} (found : graph.get? id = some task) :
    graph.Has id :=
  (List.getElem?_eq_some_iff.mp found).1

theorem mem_ids {id : TaskId} : id ∈ graph.ids ↔ graph.Has id := by
  obtain ⟨index⟩ := id
  simp [ids, Has]

@[simp] theorem size_modify (graph : TaskGraph) (id : TaskId) (change : Task → Task) :
    (graph.modify id change).size = graph.size := by
  simp [modify, size]

def EdgesFrom (named : TaskId → Prop) (graph : TaskGraph) : Prop :=
  ∀ task ∈ graph.tasks, ∀ edge ∈ task.predecessors, named edge.predecessor

theorem EdgesFrom.mono {also : TaskId → Prop} (edges : graph.EdgesFrom named)
    (wider : ∀ task, named task → also task) : graph.EdgesFrom also :=
  fun task member edge inside => wider _ (edges task member edge inside)

theorem EdgesFrom.predecessors (edges : graph.EdgesFrom named) {id : TaskId} :
    ∀ predecessor ∈ graph.predecessors id, named predecessor := by
  intro predecessor member
  unfold TaskGraph.predecessors at member
  split at member
  · rename_i task found
    obtain ⟨edge, inside, rfl⟩ := List.mem_map.mp member
    exact edges task (List.mem_of_getElem? found) edge inside
  · simp at member

theorem EdgesFrom.externalPredecessors (edges : graph.EdgesFrom named) (set : TaskSet) :
    ∀ predecessor ∈ graph.externalPredecessors set, named predecessor := by
  intro predecessor member
  rw [TaskGraph.externalPredecessors, TaskSet.mem_diff, TaskSet.mem_ofList] at member
  obtain ⟨id, _, inside⟩ := List.mem_flatMap.mp member.1
  exact edges.predecessors predecessor inside

theorem EdgesFrom.modify (edges : graph.EdgesFrom named) (id : TaskId) {change : Task → Task}
    (kept : ∀ task, (∀ edge ∈ task.predecessors, named edge.predecessor) →
      ∀ edge ∈ (change task).predecessors, named edge.predecessor) :
    (graph.modify id change).EdgesFrom named := by
  intro task member
  obtain ⟨index, found⟩ := List.mem_iff_getElem?.mp member
  simp only [TaskGraph.modify, List.getElem?_modify, Option.map_eq_map,
    Option.map_eq_some_iff] at found
  obtain ⟨old, stored, changed⟩ := found
  have before := edges old (List.mem_of_getElem? stored)
  split at changed
  · exact changed ▸ kept old before
  · exact changed ▸ before

theorem mem_putEdge {edge other : Dependency} {edges : List Dependency}
    (member : other ∈ putEdge edge edges) : other = edge ∨ other ∈ edges := by
  induction edges with
  | nil => exact .inl (List.mem_singleton.mp member)
  | cons first rest ih =>
      rw [putEdge] at member
      split at member
      · rcases List.mem_cons.mp member with new | old
        · exact .inl new
        · exact .inr (List.mem_cons_of_mem first old)
      · rcases List.mem_cons.mp member with own | later
        · exact .inr (List.mem_cons.mpr (.inl own))
        · exact (ih later).imp_right (List.mem_cons_of_mem first)

theorem size_addDependency {id : TaskId} {edge : Dependency} {created : Bool}
    (added : graph.addDependency id edge = .ok (next, created)) : next.size = graph.size := by
  unfold addDependency at added
  split at added
  · simp only [Except.ok.injEq, Prod.mk.injEq] at added
    rw [added.1]
  · split at added
    · simp at added
    · simp at added
    · simp only [Except.ok.injEq, Prod.mk.injEq] at added
      rw [← added.1, size_modify]

theorem EdgesFrom.addDependency (edges : graph.EdgesFrom named) {id : TaskId} {edge : Dependency}
    {created : Bool} (known : named edge.predecessor)
    (added : graph.addDependency id edge = .ok (next, created)) : next.EdgesFrom named := by
  unfold TaskGraph.addDependency at added
  split at added
  · simp only [Except.ok.injEq, Prod.mk.injEq] at added
    exact added.1 ▸ edges
  · split at added
    · simp at added
    · simp at added
    · simp only [Except.ok.injEq, Prod.mk.injEq] at added
      rw [← added.1]
      refine edges.modify id fun task before other member => ?_
      rcases mem_putEdge member with rfl | old
      · exact known
      · exact before other old

theorem size_addEdges (graph : TaskGraph) (delay : Span) (rule : String)
    (pairs : List (TaskId × TaskId)) : (graph.addEdges delay rule pairs).1.size = graph.size := by
  induction pairs generalizing graph with
  | nil => rfl
  | cons pair rest ih =>
      obtain ⟨id, predecessor⟩ := pair
      rw [addEdges]
      split
      · rename_i next created added
        rw [ih, size_addDependency added]
      · rfl

theorem EdgesFrom.addEdges (edges : graph.EdgesFrom named) (delay : Span) (rule : String)
    {pairs : List (TaskId × TaskId)} (known : ∀ pair ∈ pairs, named pair.2) :
    (graph.addEdges delay rule pairs).1.EdgesFrom named := by
  induction pairs generalizing graph with
  | nil => exact edges
  | cons pair rest ih =>
      obtain ⟨id, predecessor⟩ := pair
      rw [TaskGraph.addEdges]
      split
      · rename_i next created added
        exact ih (edges.addDependency (known _ List.mem_cons_self) added)
          fun pair member => known pair (List.mem_cons_of_mem _ member)
      · exact edges

theorem mem_pairs {tasks predecessors : TaskSet} {pair : TaskId × TaskId}
    (member : pair ∈ pairs tasks predecessors) : pair.1 ∈ tasks ∧ pair.2 ∈ predecessors := by
  obtain ⟨id, inside, mapped⟩ := List.mem_flatMap.mp member
  obtain ⟨predecessor, from_, rfl⟩ := List.mem_map.mp mapped
  exact ⟨inside, from_⟩

theorem mem_keptEdges {only : Option TaskSet} {edge : Dependency} {edges : List Dependency}
    (member : edge ∈ keptEdges only edges) : edge ∈ edges :=
  (List.mem_filter.mp member).1

theorem removeDependencies_cases (graph : TaskGraph) (id : TaskId) (only : Option TaskSet) :
    graph.removeDependencies id only = .error (.unknownTask id) ∧ ¬ graph.Has id ∨
      ∃ next count, graph.removeDependencies id only = .ok (next, count) ∧ graph.Has id ∧
        next.size = graph.size ∧ ∀ named, graph.EdgesFrom named → next.EdgesFrom named := by
  unfold removeDependencies
  cases found : graph.get? id with
  | none => exact .inl ⟨rfl, get?_eq_none_iff.mp found⟩
  | some task =>
      refine .inr ⟨_, _, rfl, has_of_get? found, size_modify _ _ _, fun named edges => ?_⟩
      exact edges.modify id fun task before edge member => before edge (mem_keptEdges member)

theorem dropEdges_result (graph : TaskGraph) (only : Option TaskSet) (ids : List TaskId) :
    (graph.dropEdges only ids).2 =
      match ids.find? fun id => !decide (graph.Has id) with
      | none => .ok ()
      | some id => .error (.unknownTask id) := by
  induction ids generalizing graph with
  | nil => rfl
  | cons id rest ih =>
      rw [dropEdges]
      rcases graph.removeDependencies_cases id only with ⟨failed, missing⟩ |
        ⟨next, count, removed, has, size, _⟩
      · simp [failed, missing]
      · have same (other : TaskId) : next.Has other ↔ graph.Has other := by rw [Has, Has, size]
        simp [removed, has, ih, same]

theorem size_dropEdges (graph : TaskGraph) (only : Option TaskSet) (ids : List TaskId) :
    (graph.dropEdges only ids).1.size = graph.size := by
  induction ids generalizing graph with
  | nil => rfl
  | cons id rest ih =>
      rw [dropEdges]
      rcases graph.removeDependencies_cases id only with ⟨failed, _⟩ |
        ⟨next, count, removed, _, size, _⟩
      · rw [failed]
      · rw [removed]
        exact (ih next).trans size

theorem EdgesFrom.dropEdges (edges : graph.EdgesFrom named) (only : Option TaskSet)
    (ids : List TaskId) : (graph.dropEdges only ids).1.EdgesFrom named := by
  induction ids generalizing graph with
  | nil => exact edges
  | cons id rest ih =>
      rw [TaskGraph.dropEdges]
      rcases graph.removeDependencies_cases id only with ⟨failed, _⟩ |
        ⟨next, count, removed, _, _, kept⟩
      · rw [failed]
        exact edges
      · rw [removed]
        exact ih (kept named edges)

theorem size_complete {id : TaskId} {date : Instant} {first : Bool}
    (completed : graph.complete id date = .ok (next, first)) : next.size = graph.size := by
  unfold complete at completed
  split at completed
  · simp at completed
  · split at completed
    · simp only [Except.ok.injEq, Prod.mk.injEq] at completed
      rw [completed.1]
    · simp only [Except.ok.injEq, Prod.mk.injEq] at completed
      rw [← completed.1, size_modify]

theorem EdgesFrom.complete (edges : graph.EdgesFrom named) {id : TaskId} {date : Instant}
    {first : Bool} (completed : graph.complete id date = .ok (next, first)) :
    next.EdgesFrom named := by
  unfold TaskGraph.complete at completed
  split at completed
  · simp at completed
  · split at completed
    · simp only [Except.ok.injEq, Prod.mk.injEq] at completed
      exact completed.1 ▸ edges
    · simp only [Except.ok.injEq, Prod.mk.injEq] at completed
      rw [← completed.1]
      exact edges.modify id fun _ before => before

end TaskGraph

namespace Path

variable {path : Path} {named : TaskId → Prop}

def WorksOn (named : TaskId → Prop) (path : Path) : Prop :=
  ∀ element ∈ path.elements, ∀ task ∈ element.tasks, named task

theorem WorksOn.of_subset {next : Path} (works : path.WorksOn named)
    (inside : ∀ element ∈ next.elements, element ∈ path.elements) : next.WorksOn named :=
  fun element member => works element (inside element member)

theorem WorksOn.removeAll (works : path.WorksOn named) (ids : List ElementId) :
    (path.removeAll ids).WorksOn named := by
  induction ids generalizing path with
  | nil => exact works
  | cons id rest ih => exact ih (works.of_subset fun _ member => List.mem_of_mem_eraseP member)

theorem WorksOn.moveToFront (works : path.WorksOn named) (ids : List ElementId) :
    (path.moveToFront ids).WorksOn named := by
  refine works.of_subset fun element member => ?_
  rcases List.mem_append.mp member with front | back
  · exact (List.mem_filter.mp front).1
  · exact (List.mem_filter.mp back).1

theorem WorksOn.push (works : path.WorksOn named) (line : Nat) {kind : ElementKind}
    (known : ∀ step ∈ kind.stepList, ∀ task ∈ step.tasks, named task) :
    (path.push line kind).WorksOn named := by
  intro element member task works_on
  rcases List.mem_append.mp member with before | new
  · exact works element before task works_on
  · obtain rfl := List.mem_singleton.mp new
    obtain ⟨step, inside, of_step⟩ := List.mem_flatMap.mp works_on
    exact known step inside task of_step

theorem WorksOn.pushFirst (works : path.WorksOn named) (line : Nat) {kind : ElementKind}
    (known : ∀ step ∈ kind.stepList, ∀ task ∈ step.tasks, named task) :
    (path.pushFirst line kind).WorksOn named := by
  intro element member task works_on
  rcases List.mem_cons.mp member with rfl | before
  · obtain ⟨step, inside, of_step⟩ := List.mem_flatMap.mp works_on
    exact known step inside task of_step
  · exact works element before task works_on

theorem mem_placeAfter {anchor : ElementId} {element other : Element} {elements : List Element}
    (member : other ∈ placeAfter anchor element elements) :
    other = element ∨ other ∈ elements := by
  induction elements with
  | nil => exact .inl (List.mem_singleton.mp member)
  | cons head tail ih =>
      rw [placeAfter] at member
      split at member
      · simp only [List.mem_cons] at member ⊢
        rcases member with here | new | behind
        · exact .inr (.inl here)
        · exact .inl new
        · exact .inr (.inr behind)
      · rcases List.mem_cons.mp member with here | behind
        · exact .inr (List.mem_cons.mpr (.inl here))
        · exact (ih behind).imp_right (List.mem_cons_of_mem _)

theorem WorksOn.insertSteps (works : path.WorksOn named) (line : Nat) (anchor : ElementId)
    {steps : List Step} (known : ∀ step ∈ steps, ∀ task ∈ step.tasks, named task) :
    (path.insertSteps line anchor steps).WorksOn named := by
  induction steps generalizing path anchor with
  | nil => exact works
  | cons step rest ih =>
      refine ih ?_ _ fun other member => known other (List.mem_cons_of_mem _ member)
      intro element member task works_on
      rcases mem_placeAfter member with rfl | before
      · have own : task ∈ step.tasks := by simpa [Element.tasks, Element.steps,
          ElementKind.stepList] using works_on
        exact known step List.mem_cons_self task own
      · exact works element before task works_on

end Path

structure Scenario.Names (named : TaskId → Prop) (scenario : Scenario) : Prop where
  edges : scenario.tasks.EdgesFrom named
  paths : ∀ equipment ∈ scenario.equipment, equipment.path.WorksOn named

theorem Scenario.Names.modifyEquipment {named : TaskId → Prop} {scenario : Scenario}
    (names : scenario.Names named) (id : EquipmentId) {change : Equipment → Equipment}
    (kept : ∀ equipment, equipment.path.WorksOn named → (change equipment).path.WorksOn named) :
    (scenario.modifyEquipment id change).Names named where
  edges := names.edges
  paths equipment member := by
    obtain ⟨index, found⟩ := List.mem_iff_getElem?.mp member
    simp only [Scenario.modifyEquipment, List.getElem?_modify, Option.map_eq_map,
      Option.map_eq_some_iff] at found
    obtain ⟨old, stored, changed⟩ := found
    have before := names.paths old (List.mem_of_getElem? stored)
    split at changed
    · exact changed ▸ kept old before
    · exact changed ▸ before

/-! ### Sites -/

def Site.HasEquipment (site : Site) (id : EquipmentId) : Prop :=
  id.index < site.scenario.equipment.length

def Site.HasWindow (site : Site) (handle : WindowHandle) : Prop :=
  site.holds.window? handle ≠ none

/-- The second site has what the first has, and no other tasks or equipment. -/
structure Site.Grows (first second : Site) : Prop where
  tasks : second.scenario.tasks.size = first.scenario.tasks.size
  equipment : second.scenario.equipment.length = first.scenario.equipment.length
  windows : ∀ handle, first.HasWindow handle → second.HasWindow handle

namespace Site.Grows

variable {first second third : Site}

theorem refl (site : Site) : Grows site site := ⟨rfl, rfl, fun _ has => has⟩

theorem trans (left : Grows first second) (right : Grows second third) : Grows first third where
  tasks := right.tasks.trans left.tasks
  equipment := right.equipment.trans left.equipment
  windows handle has := right.windows handle (left.windows handle has)

theorem hasEquipment (grows : Grows first second) {id : EquipmentId}
    (has : first.HasEquipment id) : second.HasEquipment id := by
  rw [HasEquipment, grows.equipment]
  exact has

theorem has_iff (grows : Grows first second) (id : TaskId) :
    second.scenario.tasks.Has id ↔ first.scenario.tasks.Has id := by
  rw [TaskGraph.Has, TaskGraph.Has, grows.tasks]

end Site.Grows

/-- What an action names is there, its tasks as said. Edges are added at once or not at all, so no
action that may have to wait adds any. -/
def Action.Valid (named : TaskId → Prop) (site : Site) : Action → Prop
  | .addDependencies .. => False
  | .removeDependencies tasks only =>
      (∀ task ∈ tasks, named task) ∧ ∀ set ∈ only, ∀ task ∈ set, named task
  | .removeElements id _ => site.HasEquipment id
  | .insertIdle id .. => site.HasEquipment id
  | .forceComplete id _ steps _ =>
      site.HasEquipment id ∧ ∀ step ∈ steps, ∀ task ∈ step.tasks, named task
  | .moveToFront id _ => site.HasEquipment id
  | .insertSteps id _ _ steps =>
      site.HasEquipment id ∧ ∀ step ∈ steps, ∀ task ∈ step.tasks, named task
  | .activateWindow handle | .deactivateWindow handle =>
      site.HasWindow handle ∧ site.HasEquipment handle.key.equipment ∧ named handle.key.task

def Action.unknownTask? (graph : TaskGraph) : Action → Option TaskId
  | .removeDependencies tasks _ => tasks.ids.find? fun id => !decide (graph.Has id)
  | _ => none

namespace Action

variable {named : TaskId → Prop} {site next : Site} {action : Action}

theorem Valid.grows (valid : action.Valid named site) (grows : Site.Grows site next) :
    action.Valid named next := by
  cases action with
  | addDependencies tasks predecessors delay rule => exact valid.elim
  | removeDependencies tasks only => exact valid
  | removeElements id elements => exact grows.hasEquipment valid
  | insertIdle id line process duration => exact grows.hasEquipment valid
  | forceComplete id line steps ignoreConstraints => exact ⟨grows.hasEquipment valid.1, valid.2⟩
  | moveToFront id elements => exact grows.hasEquipment valid
  | insertSteps id line anchor steps => exact ⟨grows.hasEquipment valid.1, valid.2⟩
  | activateWindow handle | deactivateWindow handle =>
      exact ⟨grows.windows handle valid.1, grows.hasEquipment valid.2.1, valid.2.2⟩

theorem unknownTask?_eq_none (valid : action.Valid named site)
    (present : ∀ task, named task → site.scenario.tasks.Has task) :
    action.unknownTask? site.scenario.tasks = none := by
  cases action with
  | removeDependencies tasks only =>
      refine List.find?_eq_none.mpr fun id member => ?_
      simp [present id (valid.1 id member)]
  | _ => rfl

theorem unknownTask?_grows (grows : Site.Grows site next) :
    action.unknownTask? next.scenario.tasks = action.unknownTask? site.scenario.tasks := by
  cases action with
  | removeDependencies tasks only => simp only [unknownTask?, grows.has_iff]
  | _ => rfl

end Action

namespace Site

variable {named : TaskId → Prop} {site : Site} {action : Action}

theorem grows_editPath (site : Site) (id : EquipmentId) (change : Path → Path) :
    Grows site (site.editPath id change).1 := by
  unfold editPath Scenario.changePath
  split
  · rename_i scenario changed
    split at changed
    · simp only [Except.ok.injEq] at changed
      subst changed
      exact ⟨rfl, by simp [Scenario.modifyEquipment], fun _ has => has⟩
    · simp at changed
  · exact Grows.refl site

theorem grows_changeWindow (site : Site) (handle : WindowHandle)
    (change : TimeWindow → TimeWindow) :
    Grows site (site.editHolds (site.holds.changeWindow handle change)).1 := by
  unfold editHolds
  split
  · rename_i holds changed
    obtain ⟨_, rfl⟩ := HoldRegister.changeWindow_eq_ok_iff.mp changed
    refine ⟨rfl, rfl, fun other has => ?_⟩
    rw [HasWindow, HoldRegister.window?_modifyWindow]
    split
    · rw [Ne, Option.map_eq_none_iff]
      exact has
    · exact has
  · exact Grows.refl site

theorem grows_apply (site : Site) (action : Action) : Grows site (site.apply action).1 := by
  cases action with
  | addDependencies tasks predecessors delay rule =>
      exact ⟨TaskGraph.size_addEdges _ _ _ _, rfl, fun _ has => has⟩
  | removeDependencies tasks only => exact ⟨TaskGraph.size_dropEdges _ _ _, rfl, fun _ has => has⟩
  | removeElements id elements => exact site.grows_editPath _ _
  | insertIdle id line process duration => exact site.grows_editPath _ _
  | forceComplete id line steps ignoreConstraints =>
      simp only [apply]
      split
      · exact Grows.refl site
      · exact site.grows_editPath _ _
  | moveToFront id elements => exact site.grows_editPath _ _
  | insertSteps id line anchor steps => exact site.grows_editPath _ _
  | activateWindow handle => exact site.grows_changeWindow handle _
  | deactivateWindow handle => exact site.grows_changeWindow handle _

theorem editPath_ok {id : EquipmentId} (has : site.HasEquipment id) (change : Path → Path) :
    (site.editPath id change).2 = .ok () := by
  have found : ∃ equipment, site.scenario.equipment? id = some equipment :=
    ⟨_, List.getElem?_eq_getElem has⟩
  obtain ⟨equipment, found⟩ := found
  simp [editPath, Scenario.changePath, found]

theorem changeWindow_ok {handle : WindowHandle} (has : site.HasWindow handle)
    (change : TimeWindow → TimeWindow) :
    (site.editHolds (site.holds.changeWindow handle change)).2 = .ok () := by
  obtain ⟨window, found⟩ := Option.ne_none_iff_exists'.mp has
  simp [editHolds, HoldRegister.changeWindow, found]

/-- Only the removal of edges can fail, namely at the first of its tasks that is not there. -/
theorem apply_result (valid : action.Valid named site) :
    (site.apply action).2 =
      match action.unknownTask? site.scenario.tasks with
      | none => .ok ()
      | some id => .error (RunError.graph (.unknownTask id)) := by
  cases action with
  | addDependencies tasks predecessors delay rule => exact valid.elim
  | removeDependencies tasks only =>
      simp only [apply, editGraph, TaskGraph.dropEdges_result, Action.unknownTask?]
      cases tasks.ids.find? fun id => !decide (site.scenario.tasks.Has id) <;> rfl
  | removeElements id elements => exact editPath_ok valid _
  | insertIdle id line process duration => exact editPath_ok valid _
  | forceComplete id line steps ignoreConstraints =>
      simp only [apply]
      split
      · rfl
      · exact editPath_ok valid.1 _
  | moveToFront id elements => exact editPath_ok valid _
  | insertSteps id line anchor steps => exact editPath_ok valid.1 _
  | activateWindow handle => exact changeWindow_ok valid.1 _
  | deactivateWindow handle => exact changeWindow_ok valid.1 _

theorem names_editPath (names : site.scenario.Names named) (id : EquipmentId)
    {change : Path → Path} (kept : ∀ path : Path, path.WorksOn named → (change path).WorksOn named) :
    (site.editPath id change).1.scenario.Names named := by
  unfold editPath Scenario.changePath
  split
  · rename_i scenario changed
    split at changed
    · simp only [Except.ok.injEq] at changed
      subst changed
      exact names.modifyEquipment id fun equipment works => kept equipment.path works
    · simp at changed
  · exact names

theorem mem_openSteps {steps : List Step} {ignoreConstraints : Bool}
    (known : ∀ step ∈ steps, ∀ task ∈ step.tasks, named task) :
    ∀ step ∈ site.openSteps steps ignoreConstraints, ∀ task ∈ step.tasks, named task := by
  intro step member
  obtain ⟨old, inside, rfl⟩ := List.mem_map.mp member
  exact known old (List.mem_filter.mp inside).1

theorem names_apply (names : site.scenario.Names named) (valid : action.Valid named site) :
    (site.apply action).1.scenario.Names named := by
  cases action with
  | addDependencies tasks predecessors delay rule => exact valid.elim
  | removeDependencies tasks only => exact ⟨names.edges.dropEdges only tasks.ids, names.paths⟩
  | removeElements id elements =>
      exact names_editPath names id fun _ works => works.removeAll elements
  | insertIdle id line process duration =>
      have known : ∀ step ∈ (ElementKind.idle process duration).stepList,
          ∀ task ∈ step.tasks, named task := by
        simp [ElementKind.stepList]
      exact names_editPath names id fun _ works => works.pushFirst line known
  | forceComplete id line steps ignoreConstraints =>
      have known : ∀ step ∈ (ElementKind.steps (site.openSteps steps ignoreConstraints)).stepList,
          ∀ task ∈ step.tasks, named task := mem_openSteps valid.2
      simp only [apply]
      split
      · exact names
      · exact names_editPath names id fun _ works => works.pushFirst line known
  | moveToFront id elements =>
      exact names_editPath names id fun _ works => works.moveToFront elements
  | insertSteps id line anchor steps =>
      exact names_editPath names id fun _ works => works.insertSteps line anchor valid.2
  | activateWindow handle | deactivateWindow handle =>
      simp only [apply, editHolds]
      split <;> exact names

end Site

end PathDirectives
