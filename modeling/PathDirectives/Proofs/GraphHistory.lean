import Mathlib.Data.List.Nodup
import PathDirectives.Proofs.EdgeBooks
import PathDirectives.Proofs.Staging

/-!
Histories of a task graph. After any calls on a graph that starts empty, those included that were
refused, its edges are the ones in the books of the accepted calls, its completions are the first
that were accepted, and each reply counts what the call really made or took away.
-/

namespace PathDirectives

open Calendar

inductive GraphReply where
  | added (id : TaskId)
  | created (fresh : Bool)
  | removed (count : Nat)
  | completed (first : Bool)
  | refused (error : GraphError)

namespace GraphReply

def accepted : GraphReply → Bool
  | .refused _ => false
  | _ => true

def edgesCreated : GraphReply → Nat
  | .created fresh => fresh.toNat
  | _ => 0

def edgesRemoved : GraphReply → Nat
  | .removed count => count
  | _ => 0

def tasksCompleted : GraphReply → Nat
  | .completed first => first.toNat
  | _ => 0

end GraphReply

namespace TaskGraph

def settle {α : Type} (graph : TaskGraph) (reply : α → GraphReply) :
    Except GraphError (TaskGraph × α) → TaskGraph × GraphReply
  | .ok (next, answer) => (next, reply answer)
  | .error error => (graph, .refused error)

def perform (graph : TaskGraph) : GraphCall → TaskGraph × GraphReply
  | .addTask name role process => (graph.addTask name role process, .added ⟨graph.size⟩)
  | .addDependency id edge => graph.settle .created (graph.addDependency id edge)
  | .removeDependencies id only => graph.settle .removed (graph.removeDependencies id only)
  | .complete id date => graph.settle .completed (graph.complete id date)

def performAll (graph : TaskGraph) (calls : List GraphCall) : TaskGraph :=
  calls.foldl (fun graph call => (graph.perform call).1) graph

def accepted (graph : TaskGraph) : List GraphCall → List GraphCall
  | [] => []
  | call :: rest =>
      if (graph.perform call).2.accepted then call :: (graph.perform call).1.accepted rest
      else (graph.perform call).1.accepted rest

def edgesOf (graph : TaskGraph) (id : TaskId) : List Dependency :=
  (graph.get? id).elim [] (·.predecessors)

/-- The first task that a call needs and the graph does not have. -/
def missing? (graph : TaskGraph) : GraphCall → Option TaskId
  | .addTask .. => none
  | .addDependency id edge =>
      if edge.predecessor = id then none
      else [edge.predecessor, id].find? fun needed => !decide (graph.Has needed)
  | .removeDependencies id _ | .complete id _ => if graph.Has id then none else some id

variable {graph next : TaskGraph} {call : GraphCall} {outcome : TaskGraph × GraphReply}
  {id : TaskId} {task : Task}

inductive Ending (graph : TaskGraph) : GraphCall → TaskGraph × GraphReply → Prop where
  | refused {call : GraphCall} {id : TaskId} (missing : graph.missing? call = some id) :
      Ending graph call (graph, .refused (.unknownTask id))
  | added (name : String) (role : TaskRole) (process : ProcessId) :
      Ending graph (.addTask name role process)
        (graph.addTask name role process, .added ⟨graph.size⟩)
  | looped {id : TaskId} {edge : Dependency} (loop : edge.predecessor = id) :
      Ending graph (.addDependency id edge) (graph, .created false)
  | put {id : TaskId} {edge : Dependency} {task : Task} (apart : edge.predecessor ≠ id)
      (known : graph.Has edge.predecessor) (found : graph.get? id = some task) :
      Ending graph (.addDependency id edge)
        (graph.modify id fun task => { task with predecessors := putEdge edge task.predecessors },
         .created (!task.predecessors.any (·.predecessor == edge.predecessor)))
  | removed {id : TaskId} (only : Option TaskSet) {task : Task}
      (found : graph.get? id = some task) :
      Ending graph (.removeDependencies id only)
        (graph.modify id fun task => { task with predecessors := keptEdges only task.predecessors },
         .removed (task.predecessors.length - (keptEdges only task.predecessors).length))
  | again {id : TaskId} (date : Instant) {task : Task} (found : graph.get? id = some task)
      (finished : task.completedAt.isSome) :
      Ending graph (.complete id date) (graph, .completed false)
  | completed {id : TaskId} (date : Instant) {task : Task} (found : graph.get? id = some task)
      (unfinished : task.completedAt = none) :
      Ending graph (.complete id date)
        (graph.modify id fun task => { task with completedAt := some date }, .completed true)

theorem perform_ending (graph : TaskGraph) (call : GraphCall) :
    graph.Ending call (graph.perform call) := by
  cases call with
  | addTask name role process => exact .added name role process
  | addDependency id edge =>
      rw [perform, addDependency]
      split
      · rename_i loop
        exact .looped loop
      · rename_i apart
        split
        · rename_i unknown
          have missing := get?_eq_none_iff.mp unknown
          exact .refused (by simp [missing?, apart, missing])
        · rename_i known unknown
          have has := has_of_get? known
          have missing := get?_eq_none_iff.mp unknown
          exact .refused (by simp [missing?, apart, has, missing])
        · rename_i known found
          exact .put apart (has_of_get? known) found
  | removeDependencies id only =>
      rw [perform, removeDependencies]
      split
      · rename_i unknown
        exact .refused (if_neg (get?_eq_none_iff.mp unknown))
      · rename_i found
        exact .removed only found
  | complete id date =>
      rw [perform, complete]
      split
      · rename_i unknown
        exact .refused (if_neg (get?_eq_none_iff.mp unknown))
      · rename_i found
        split
        · rename_i finished
          exact .again date found finished
        · rename_i unfinished
          exact .completed date found (by simpa [Task.isComplete] using unfinished)

theorem Ending.eq_of_not_accepted (ending : graph.Ending call outcome)
    (refused : outcome.2.accepted = false) : outcome.1 = graph := by
  cases ending with
  | refused missing => rfl
  | looped loop => rfl
  | again date found finished => rfl
  | _ => simp [GraphReply.accepted] at refused

theorem Ending.refused_iff (ending : graph.Ending call outcome) (id : TaskId) :
    outcome.2 = .refused (.unknownTask id) ↔ graph.missing? call = some id := by
  cases ending with
  | refused missing =>
      rw [missing, Option.some.injEq]
      constructor
      · intro same
        cases same
        rfl
      · rintro rfl
        rfl
  | added name role process => simp [missing?]
  | looped loop => simp [missing?, loop]
  | put apart known found => simp [missing?, apart, known, has_of_get? found]
  | removed only found => simp [missing?, has_of_get? found]
  | again date found finished => simp [missing?, has_of_get? found]
  | completed date found unfinished => simp [missing?, has_of_get? found]

theorem get?_addTask (graph : TaskGraph) (name : String) (role : TaskRole) (process : ProcessId)
    (id : TaskId) :
    (graph.addTask name role process).get? id =
      if id.index = graph.size then some { name, role, process } else graph.get? id :=
  getElem?_concat_eq graph.tasks _ id.index

theorem get?_addTask_cases (graph : TaskGraph) (name : String) (role : TaskRole)
    (process : ProcessId) (id : TaskId) :
    (graph.addTask name role process).get? id = graph.get? id ∨
      graph.get? id = none ∧
        (graph.addTask name role process).get? id = some { name, role, process } := by
  rw [get?_addTask]
  split
  · rename_i fresh
    exact .inr ⟨get?_eq_none_iff.mpr (by rw [Has, fresh]; exact Nat.lt_irrefl _), rfl⟩
  · exact .inl rfl

theorem edgesOf_addTask (graph : TaskGraph) (name : String) (role : TaskRole) (process : ProcessId)
    (id : TaskId) : (graph.addTask name role process).edgesOf id = graph.edgesOf id := by
  rw [edgesOf, edgesOf]
  rcases graph.get?_addTask_cases name role process id with same | ⟨unknown, fresh⟩
  · rw [same]
  · rw [unknown, fresh]
    rfl

theorem completedAt?_addTask (graph : TaskGraph) (name : String) (role : TaskRole)
    (process : ProcessId) (id : TaskId) :
    (graph.addTask name role process).completedAt? id = graph.completedAt? id := by
  rw [completedAt?, completedAt?]
  rcases graph.get?_addTask_cases name role process id with same | ⟨unknown, fresh⟩
  · rw [same]
  · rw [unknown, fresh]
    rfl

theorem edgesOf_of_get? (found : graph.get? id = some task) :
    graph.edgesOf id = task.predecessors := by
  rw [edgesOf, found, Option.elim_some]

theorem edgesOf_modify_edges (graph : TaskGraph) (id other : TaskId)
    (edit : List Dependency → List Dependency) (found : graph.get? id = some task) :
    (graph.modify id fun task =>
        { task with predecessors := edit task.predecessors }).edgesOf other =
      if id = other then edit (graph.edgesOf other) else graph.edgesOf other := by
  rw [edgesOf, edgesOf, get?_modify]
  by_cases own : id = other
  · subst own
    simp [found]
  · cases graph.get? other <;> simp [own, Ne.symm own]

theorem edgesOf_modify_of_kept (graph : TaskGraph) (id other : TaskId) {change : Task → Task}
    (kept : ∀ task, (change task).predecessors = task.predecessors) :
    (graph.modify id change).edgesOf other = graph.edgesOf other := by
  rw [edgesOf, edgesOf, get?_modify]
  cases graph.get? other with
  | none => rfl
  | some task => by_cases own : other = id <;> simp [own, kept]

theorem predecessors_eq (graph : TaskGraph) (id : TaskId) :
    graph.predecessors id = (graph.edgesOf id).map (·.predecessor) := by
  rw [predecessors, edgesOf]
  cases graph.get? id <;> rfl

theorem Ending.size_eq (ending : graph.Ending call outcome) :
    outcome.1.size = graph.size + call.addsTask.toNat := by
  cases ending with
  | refused missing => cases call <;> simp_all [missing?, GraphCall.addsTask]
  | added name role process => simp [addTask, size, GraphCall.addsTask]
  | _ => simp [GraphCall.addsTask]

theorem Ending.edgesOf_eq (ending : graph.Ending call outcome) (accepted : outcome.2.accepted)
    (id : TaskId) : outcome.1.edgesOf id = call.edit id (graph.edgesOf id) := by
  cases ending with
  | refused missing => simp [GraphReply.accepted] at accepted
  | added name role process => exact graph.edgesOf_addTask name role process id
  | @looped owner edge loop =>
      rw [GraphCall.edit, if_neg]
      rintro ⟨rfl, apart⟩
      exact apart loop
  | @put owner edge task apart known found =>
      rw [graph.edgesOf_modify_edges owner id (putEdge edge) found, GraphCall.edit]
      by_cases own : owner = id
      · subst own
        simp [apart]
      · simp [own]
  | @removed owner only task found =>
      exact graph.edgesOf_modify_edges owner id (keptEdges only) found
  | again date found finished => rfl
  | @completed owner date task found unfinished =>
      exact graph.edgesOf_modify_of_kept owner id fun _ => rfl

theorem completedAt?_modify_completed (graph : TaskGraph) (id other : TaskId) (date : Instant)
    (found : graph.get? id = some task) :
    (graph.modify id fun task => { task with completedAt := some date }).completedAt? other =
      if id = other then some date else graph.completedAt? other := by
  rw [completedAt?_modify, completedAt?]
  by_cases own : id = other
  · subst own
    simp [found]
  · simp [own, Ne.symm own]

theorem Ending.completedAt?_kept (ending : graph.Ending call outcome)
    (uncounted : outcome.2.tasksCompleted = 0) (id : TaskId) :
    outcome.1.completedAt? id = graph.completedAt? id := by
  cases ending with
  | refused missing => rfl
  | looped loop => rfl
  | again date found finished => rfl
  | added name role process => exact graph.completedAt?_addTask name role process id
  | @put owner edge task apart known found =>
      exact graph.completedAt?_modify_of_kept owner id fun _ => rfl
  | @removed owner only task found =>
      exact graph.completedAt?_modify_of_kept owner id fun _ => rfl
  | completed date found unfinished => simp [GraphReply.tasksCompleted] at uncounted

theorem Ending.completedAt?_eq (ending : graph.Ending call outcome) (accepted : outcome.2.accepted)
    (id : TaskId) :
    outcome.1.completedAt? id = (graph.completedAt? id).or (call.completes? id) := by
  have kept uncounted := ending.completedAt?_kept uncounted id
  cases ending with
  | refused missing => simp [GraphReply.accepted] at accepted
  | added name role process => exact (kept rfl).trans Option.or_none.symm
  | looped loop => exact (kept rfl).trans Option.or_none.symm
  | put apart known found => exact (kept rfl).trans Option.or_none.symm
  | removed only found => exact (kept rfl).trans Option.or_none.symm
  | @again owner date task found finished =>
      obtain ⟨before, finished⟩ := Option.isSome_iff_exists.mp finished
      rw [GraphCall.completes?]
      split
      · rename_i own
        subst own
        simp [completedAt?, found, finished]
      · rw [Option.or_none]
  | @completed owner date task found unfinished =>
      rw [graph.completedAt?_modify_completed owner id date found, GraphCall.completes?]
      split
      · rename_i own
        subst own
        simp [completedAt?, found, unfinished]
      · rw [Option.or_none]

/-! ### Edges made and taken away -/

inductive Shift (graph : TaskGraph) (outcome : TaskGraph × GraphReply) : Prop where
  | kept (same : ∀ id, outcome.1.predecessors id = graph.predecessors id)
      (created : outcome.2.edgesCreated = 0) (removed : outcome.2.edgesRemoved = 0)
  | opened {id predecessor : TaskId} (has : graph.Has id) (known : graph.Has predecessor)
      (apart : predecessor ≠ id) (fresh : predecessor ∉ graph.predecessors id)
      (row : outcome.1.predecessors id = graph.predecessors id ++ [predecessor])
      (others : ∀ other, other ≠ id → outcome.1.predecessors other = graph.predecessors other)
      (created : outcome.2.edgesCreated = 1) (removed : outcome.2.edgesRemoved = 0)
  | dropped {id : TaskId} (has : graph.Has id) (drops : TaskId → Bool)
      (row : outcome.1.predecessors id = (graph.predecessors id).filter fun other => !drops other)
      (others : ∀ other, other ≠ id → outcome.1.predecessors other = graph.predecessors other)
      (created : outcome.2.edgesCreated = 0)
      (removed : outcome.2.edgesRemoved = ((graph.predecessors id).filter drops).length)

theorem predecessors_modify_edges (graph : TaskGraph) (id other : TaskId)
    (edit : List Dependency → List Dependency) (found : graph.get? id = some task) :
    (graph.modify id fun task =>
        { task with predecessors := edit task.predecessors }).predecessors other =
      if id = other then (edit (graph.edgesOf other)).map (·.predecessor)
      else graph.predecessors other := by
  rw [predecessors_eq, edgesOf_modify_edges graph id other edit found, predecessors_eq]
  split <;> rfl

theorem map_predecessor_keptEdges (only : Option TaskSet) (edges : List Dependency) :
    (keptEdges only edges).map (·.predecessor) =
      (edges.map (·.predecessor)).filter fun other => !covers only other := by
  rw [keptEdges_eq, List.filter_map]
  rfl

theorem Ending.shift (ending : graph.Ending call outcome) : Shift graph outcome := by
  cases ending with
  | refused missing => exact .kept (fun _ => rfl) rfl rfl
  | added name role process =>
      refine .kept (fun id => ?_) rfl rfl
      rw [predecessors_eq, predecessors_eq, edgesOf_addTask]
  | looped loop => exact .kept (fun _ => rfl) rfl rfl
  | again date found finished => exact .kept (fun _ => rfl) rfl rfl
  | @completed id date task found unfinished =>
      refine .kept (fun other => ?_) rfl rfl
      rw [predecessors_eq, predecessors_eq]
      exact congrArg _ (graph.edgesOf_modify_of_kept id other fun _ => rfl)
  | @removed id only task found =>
      have row other := graph.predecessors_modify_edges id other (keptEdges only) found
      refine .dropped (has_of_get? found) (covers only) ?_ (fun other apart => ?_) rfl ?_
      · rw [row, if_pos rfl, map_predecessor_keptEdges, ← predecessors_eq]
      · rw [row, if_neg (Ne.symm apart)]
      · have parts := List.length_eq_length_filter_add (l := graph.predecessors id) (covers only)
        have length_kept : (keptEdges only task.predecessors).length =
            ((graph.predecessors id).filter fun other => !covers only other).length := by
          rw [predecessors_eq, edgesOf_of_get? found, ← map_predecessor_keptEdges, List.length_map]
        have length_all : task.predecessors.length = (graph.predecessors id).length := by
          rw [predecessors_eq, edgesOf_of_get? found, List.length_map]
        simp only [GraphReply.edgesRemoved]
        omega
  | @put id edge task apart known found =>
      have row other := graph.predecessors_modify_edges id other (putEdge edge) found
      have names : graph.predecessors id = task.predecessors.map (·.predecessor) := by
        rw [predecessors_eq, edgesOf_of_get? found]
      by_cases before : edge.predecessor ∈ graph.predecessors id
      · refine .kept (fun other => ?_) ?_ rfl
        · rw [row]
          split
          · rename_i own
            subst own
            rw [map_predecessor_putEdge, ← predecessors_eq, if_pos before]
          · rfl
        · rw [names] at before
          simpa [GraphReply.edgesCreated] using before
      · refine .opened (has_of_get? found) known apart before ?_ (fun other apart => ?_) ?_ rfl
        · rw [row, if_pos rfl, map_predecessor_putEdge, ← predecessors_eq, if_neg before]
        · rw [row, if_neg (Ne.symm apart)]
        · rw [names] at before
          simpa [GraphReply.edgesCreated] using before

/-- The predecessors of a task are different tasks of the graph, and other than itself. -/
structure SoundRow (graph : TaskGraph) (id : TaskId) (row : List TaskId) : Prop where
  distinct : row.Nodup
  apart : id ∉ row
  known : ∀ predecessor ∈ row, graph.Has predecessor

theorem SoundRow.concat {row : List TaskId} {predecessor : TaskId} (sound : graph.SoundRow id row)
    (known : graph.Has predecessor) (apart : predecessor ≠ id) (fresh : predecessor ∉ row) :
    graph.SoundRow id (row ++ [predecessor]) where
  distinct := List.nodup_append.mpr ⟨sound.distinct, List.nodup_singleton _, by
    rintro other inside _ last rfl
    exact fresh (List.mem_singleton.mp last ▸ inside)⟩
  apart := by simp [sound.apart, Ne.symm apart]
  known other member := by
    rcases List.mem_append.mp member with before | last
    · exact sound.known other before
    · rw [List.mem_singleton.mp last]
      exact known

theorem SoundRow.of_sublist {row rest : List TaskId} (sound : graph.SoundRow id row)
    (kept : rest.Sublist row) : graph.SoundRow id rest where
  distinct := kept.nodup sound.distinct
  apart member := sound.apart (kept.subset member)
  known other member := sound.known other (kept.subset member)

theorem Ending.has (ending : graph.Ending call outcome) (has : graph.Has id) :
    outcome.1.Has id := by
  rw [Has, ending.size_eq]
  exact Nat.lt_add_right _ has

theorem Ending.soundRow (ending : graph.Ending call outcome)
    (sound : ∀ id, graph.SoundRow id (graph.predecessors id)) (id : TaskId) :
    outcome.1.SoundRow id (outcome.1.predecessors id) := by
  suffices row : graph.SoundRow id (outcome.1.predecessors id) from
    { row with known := fun other member => ending.has (row.known other member) }
  cases ending.shift with
  | kept same created removed => exact same id ▸ sound id
  | @opened owner predecessor has known apart fresh row others created removed =>
      by_cases own : id = owner
      · subst own
        rw [row]
        exact (sound id).concat known apart fresh
      · exact others id own ▸ sound id
  | @dropped owner has drops row others created removed =>
      by_cases own : id = owner
      · subst own
        rw [row]
        exact (sound id).of_sublist List.filter_sublist
      · exact others id own ▸ sound id

/-- The edges of the second graph that the first one has not, by their owners and predecessors. -/
def edgesBeyond (first second : TaskGraph) : List (TaskId × TaskId) :=
  second.ids.flatMap fun id =>
    ((second.predecessors id).filter (· ∉ first.predecessors id)).map fun other => (id, other)

def completionsBeyond (first second : TaskGraph) : List TaskId :=
  second.ids.filter fun id => second.isComplete id && !first.isComplete id

theorem nodup_ids (graph : TaskGraph) : graph.ids.Nodup :=
  List.nodup_range.map fun _ _ same => TaskId.mk.inj same

theorem edgesBeyond_eq_nil (first second : TaskGraph)
    (inside : ∀ id, second.predecessors id ⊆ first.predecessors id) :
    first.edgesBeyond second = [] := by
  refine List.flatMap_eq_nil_iff.mpr fun id _ => ?_
  rw [List.map_eq_nil_iff, List.filter_eq_nil_iff]
  intro predecessor member
  simp [inside id member]

theorem length_edgesBeyond (first second : TaskGraph) (has : second.Has id)
    (others : ∀ other, other ≠ id → second.predecessors other ⊆ first.predecessors other) :
    (first.edgesBeyond second).length =
      ((second.predecessors id).filter (· ∉ first.predecessors id)).length := by
  obtain ⟨before, behind, split⟩ := List.append_of_mem (mem_ids.mpr has)
  have distinct := second.nodup_ids
  rw [split, List.nodup_middle, List.nodup_cons] at distinct
  have nothing {part : List TaskId} (elsewhere : part ⊆ before ++ behind) :
      part.flatMap (fun other => ((second.predecessors other).filter
        (· ∉ first.predecessors other)).map fun named => (other, named)) = [] := by
    refine List.flatMap_eq_nil_iff.mpr fun other member => ?_
    have apart : other ≠ id := fun same => distinct.1 (elsewhere (same ▸ member))
    rw [List.map_eq_nil_iff, List.filter_eq_nil_iff]
    intro predecessor inside
    simp [others other apart inside]
  rw [edgesBeyond, split, List.flatMap_append, List.flatMap_cons,
    nothing (List.subset_append_left _ _), nothing (List.subset_append_right _ _), List.nil_append,
    List.append_nil, List.length_map]

theorem Ending.edgesCreated_eq (ending : graph.Ending call outcome) :
    outcome.2.edgesCreated = (graph.edgesBeyond outcome.1).length := by
  cases ending.shift with
  | kept same created removed =>
      rw [created, edgesBeyond_eq_nil _ _ fun id => same id ▸ List.Subset.refl _, List.length_nil]
  | @opened id predecessor has known apart fresh row others created removed =>
      rw [created, length_edgesBeyond _ _ (ending.has has) fun other apart =>
        others other apart ▸ List.Subset.refl _, row]
      simp [List.filter_append, fresh]
  | @dropped id has drops row others created removed =>
      rw [created, edgesBeyond_eq_nil, List.length_nil]
      intro other
      by_cases own : other = id
      · subst own
        rw [row]
        exact List.filter_subset_self _
      · exact others other own ▸ List.Subset.refl _

theorem Ending.edgesRemoved_eq (ending : graph.Ending call outcome) :
    outcome.2.edgesRemoved = (outcome.1.edgesBeyond graph).length := by
  cases ending.shift with
  | kept same created removed =>
      rw [removed, edgesBeyond_eq_nil _ _ fun id => same id ▸ List.Subset.refl _, List.length_nil]
  | @opened id predecessor has known apart fresh row others created removed =>
      rw [removed, edgesBeyond_eq_nil, List.length_nil]
      intro other
      by_cases own : other = id
      · subst own
        rw [row]
        exact List.subset_append_left _ _
      · exact others other own ▸ List.Subset.refl _
  | @dropped id has drops row others created removed =>
      rw [removed, length_edgesBeyond _ _ has fun other apart =>
        others other apart ▸ List.Subset.refl _, row]
      congr 1
      refine List.filter_congr fun other member => ?_
      simp [member]

theorem completionsBeyond_eq_nil (first second : TaskGraph)
    (same : ∀ id, second.completedAt? id = first.completedAt? id) :
    first.completionsBeyond second = [] := by
  refine List.filter_eq_nil_iff.mpr fun id _ => ?_
  rw [isComplete, isComplete, same, Bool.and_not_self]
  exact Bool.false_ne_true

theorem Ending.tasksCompleted_eq (ending : graph.Ending call outcome) :
    outcome.2.tasksCompleted = (graph.completionsBeyond outcome.1).length := by
  by_cases uncounted : outcome.2.tasksCompleted = 0
  · rw [completionsBeyond_eq_nil _ _ (ending.completedAt?_kept uncounted), uncounted,
      List.length_nil]
  · cases ending with
    | @completed id date task found unfinished =>
        have fresh : graph.isComplete id = false := by
          simp [isComplete, completedAt?, found, unfinished]
        have has : (graph.modify id fun task => { task with completedAt := some date }).Has id := by
          rw [Has, size_modify]
          exact has_of_get? found
        rw [completionsBeyond, ← List.countP_eq_length_filter]
        refine ((List.countP_congr fun other _ => ?_).trans
          (List.count_eq_one_of_mem (nodup_ids _) (mem_ids.mpr has))).symm
        rw [isComplete, graph.completedAt?_modify_completed id other date found]
        by_cases own : id = other
        · subst own
          simp [fresh]
        · rw [if_neg own, ← isComplete, Bool.and_not_self]
          simp [Ne.symm own]
    | _ => exact absurd rfl uncounted

/-! ### Many calls -/

theorem performAll_concat (graph : TaskGraph) (calls : List GraphCall) (call : GraphCall) :
    graph.performAll (calls ++ [call]) = ((graph.performAll calls).perform call).1 :=
  List.foldl_concat ..

theorem accepted_concat (graph : TaskGraph) (calls : List GraphCall) (call : GraphCall) :
    graph.accepted (calls ++ [call]) =
      graph.accepted calls ++
        if ((graph.performAll calls).perform call).2.accepted then [call] else [] := by
  induction calls generalizing graph with
  | nil => rfl
  | cons first rest ih =>
      rw [List.cons_append, accepted, accepted, ih]
      split <;> rfl

/-- What accepted calls have made of a graph that started empty. -/
structure Follows (history : List GraphCall) (graph : TaskGraph) : Prop where
  edges : ∀ id, graph.edgesOf id = bookedEdges history id
  rows : ∀ id, graph.SoundRow id (graph.predecessors id)
  completedAt? : ∀ id, graph.completedAt? id = history.findSome? (·.completes? id)

theorem Follows.concat {history : List GraphCall} (follows : Follows history graph)
    (ending : graph.Ending call outcome) (accepted : outcome.2.accepted) :
    Follows (history ++ [call]) outcome.1 where
  edges id := by rw [ending.edgesOf_eq accepted, follows.edges, bookedEdges_edit]
  rows := ending.soundRow follows.rows
  completedAt? id := by
    rw [ending.completedAt?_eq accepted, follows.completedAt?, List.findSome?_append,
      List.findSome?_singleton]

theorem follows_accepted (calls : List GraphCall) :
    Follows (accepted {} calls) (performAll {} calls) := by
  induction calls using List.reverseRecOn with
  | nil =>
      refine ⟨fun _ => rfl, fun id => ?_, fun _ => rfl⟩
      exact ⟨List.nodup_nil, List.not_mem_nil, fun _ member => absurd member List.not_mem_nil⟩
  | append_singleton calls call ih =>
      rw [performAll_concat, accepted_concat]
      have ending := (performAll {} calls).perform_ending call
      cases accepted : ((performAll {} calls).perform call).2.accepted with
      | true => exact ih.concat ending accepted
      | false =>
          rw [ending.eq_of_not_accepted accepted, if_neg Bool.false_ne_true, List.append_nil]
          exact ih

theorem completedAt?_performAll {date : Instant} (completed : graph.completedAt? id = some date)
    (calls : List GraphCall) : (graph.performAll calls).completedAt? id = some date := by
  induction calls using List.reverseRecOn with
  | nil => exact completed
  | append_singleton calls call ih =>
      rw [performAll_concat]
      have ending := (graph.performAll calls).perform_ending call
      cases accepted : ((graph.performAll calls).perform call).2.accepted with
      | true => rw [ending.completedAt?_eq accepted, ih, Option.some_or]
      | false => rw [ending.eq_of_not_accepted accepted, ih]

theorem size_performAll (calls : List GraphCall) :
    (performAll {} calls).size = calls.countP (·.addsTask) := by
  induction calls using List.reverseRecOn with
  | nil => rfl
  | append_singleton calls call ih =>
      rw [performAll_concat, ((performAll {} calls).perform_ending call).size_eq, ih,
        List.countP_append, List.countP_singleton]
      cases call.addsTask <;> rfl

/-- What a graph that starts empty is after calls, and what one more call does to it. -/
structure Recorded (calls : List GraphCall) (graph : TaskGraph) : Prop where
  size : graph.size = calls.countP (·.addsTask)
  follows : Follows (accepted {} calls) graph
  kept : ∀ id date, graph.completedAt? id = some date →
    ∀ more, (graph.performAll more).completedAt? id = some date
  created : ∀ call,
    (graph.perform call).2.edgesCreated = (graph.edgesBeyond (graph.perform call).1).length
  removed : ∀ call,
    (graph.perform call).2.edgesRemoved = ((graph.perform call).1.edgesBeyond graph).length
  completed : ∀ call,
    (graph.perform call).2.tasksCompleted =
      (graph.completionsBeyond (graph.perform call).1).length
  refused_iff : ∀ call id,
    (graph.perform call).2 = .refused (.unknownTask id) ↔ graph.missing? call = some id
  unchanged : ∀ call error, (graph.perform call).2 = .refused error → (graph.perform call).1 = graph

theorem recorded_after (calls : List GraphCall) : Recorded calls (performAll {} calls) where
  size := size_performAll calls
  follows := follows_accepted calls
  kept _ _ completed := completedAt?_performAll completed
  created call := (perform_ending _ call).edgesCreated_eq
  removed call := (perform_ending _ call).edgesRemoved_eq
  completed call := (perform_ending _ call).tasksCompleted_eq
  refused_iff call := (perform_ending _ call).refused_iff
  unchanged call error refused := (perform_ending _ call).eq_of_not_accepted (by rw [refused]; rfl)

end TaskGraph

end PathDirectives
