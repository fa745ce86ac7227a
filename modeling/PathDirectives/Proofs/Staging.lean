import PathDirectives.Proofs.Completions
import PathDirectives.Proofs.Installation

/-!
The task graph on which a path is read. Some directives put edges between the tasks of their line
and other ones. Each directive of a path is read on the graph with the edges of those before it, and
installing the path leaves the graph with the edges of all of them, and else as it was.
-/

namespace PathDirectives

open Calendar

/-- An edge from each of the predecessors to each of the tasks, of which none is a predecessor. -/
structure Bundle where
  tasks : TaskSet
  predecessors : TaskSet
  delay : Span
  rule : String
  apart : ∀ task ∈ predecessors, task ∉ tasks

def Bundle.putTo (bundle : Bundle) (edges : List Dependency) : List Dependency :=
  bundle.predecessors.ids.foldl
    (fun edges predecessor => TaskGraph.putEdge ⟨predecessor, bundle.delay, bundle.rule⟩ edges)
    edges

def Bundle.KnownIn (bundle : Bundle) (graph : TaskGraph) : Prop :=
  ∀ task ∈ bundle.tasks, ∀ predecessor ∈ bundle.predecessors, graph.Has task

namespace TaskGraph

variable {graph next : TaskGraph} {delay : Span} {rule : String}

def withBundle (graph : TaskGraph) (bundle : Bundle) : TaskGraph :=
  ⟨graph.tasks.mapIdx fun index task =>
    if ⟨index⟩ ∈ bundle.tasks then { task with predecessors := bundle.putTo task.predecessors }
    else task⟩

theorem get?_withBundle (graph : TaskGraph) (bundle : Bundle) (id : TaskId) :
    (graph.withBundle bundle).get? id =
      (graph.get? id).map fun task =>
        if id ∈ bundle.tasks then { task with predecessors := bundle.putTo task.predecessors }
        else task := by
  simp only [get?, withBundle, List.getElem?_mapIdx]

theorem ext_get? (same : ∀ id, next.get? id = graph.get? id) : next = graph := by
  have tasks : next.tasks = graph.tasks := List.ext_getElem? fun index => same ⟨index⟩
  cases next
  cases graph
  exact congrArg TaskGraph.mk tasks

theorem map_predecessor_putEdge (edge : Dependency) (edges : List Dependency) :
    (putEdge edge edges).map (·.predecessor) =
      if edge.predecessor ∈ edges.map (·.predecessor) then edges.map (·.predecessor)
      else edges.map (·.predecessor) ++ [edge.predecessor] := by
  induction edges with
  | nil => rfl
  | cons other rest ih =>
      by_cases same : other.predecessor = edge.predecessor
      · simp [putEdge, same]
      · have different := Ne.symm same
        rw [putEdge, if_neg same, List.map_cons, ih]
        by_cases before : edge.predecessor ∈ rest.map (·.predecessor)
        · rw [if_pos before, List.map_cons, if_pos (List.mem_cons_of_mem _ before)]
        · simp only [List.map_cons, List.mem_cons, different, before, or_false, if_false,
            List.cons_append]

theorem mem_putEdge_predecessors {edge : Dependency} {edges : List Dependency} {id : TaskId} :
    id ∈ (putEdge edge edges).map (·.predecessor) ↔
      id = edge.predecessor ∨ id ∈ edges.map (·.predecessor) := by
  rw [map_predecessor_putEdge]
  split
  · rename_i before
    refine ⟨.inr, ?_⟩
    rintro (rfl | inside)
    · exact before
    · exact inside
  · simp [or_comm]

end TaskGraph

theorem Bundle.mem_putTo {bundle : Bundle} {edges : List Dependency} {id : TaskId} :
    id ∈ (bundle.putTo edges).map (·.predecessor) ↔
      id ∈ edges.map (·.predecessor) ∨ id ∈ bundle.predecessors := by
  rw [TaskSet.mem_iff]
  unfold putTo
  generalize bundle.predecessors.ids = ids
  induction ids generalizing edges with
  | nil => simp
  | cons first rest ih =>
      rw [List.foldl_cons, ih, TaskGraph.mem_putEdge_predecessors, List.mem_cons]
      constructor
      · rintro ((own | before) | later)
        · exact .inr (.inl own)
        · exact .inl before
        · exact .inr (.inr later)
      · rintro (before | own | later)
        · exact .inl (.inr before)
        · exact .inl (.inl own)
        · exact .inr later

namespace TaskGraph

variable {graph next : TaskGraph} {delay : Span} {rule : String}

theorem mem_predecessors_withBundle {bundle : Bundle} {id predecessor : TaskId} :
    predecessor ∈ (graph.withBundle bundle).predecessors id ↔
      predecessor ∈ graph.predecessors id ∨
        graph.Has id ∧ id ∈ bundle.tasks ∧ predecessor ∈ bundle.predecessors := by
  rw [predecessors, get?_withBundle, predecessors]
  cases found : graph.get? id with
  | none =>
      have missing := get?_eq_none_iff.mp found
      simp [missing]
  | some task =>
      have has := has_of_get? found
      simp only [Option.map_some, has, true_and]
      by_cases inside : id ∈ bundle.tasks
      · simp only [inside, if_true, true_and]
        exact Bundle.mem_putTo
      · simp [inside]

theorem mem_externalPredecessors {set : TaskSet} {other : TaskId} :
    other ∈ graph.externalPredecessors set ↔
      (∃ task ∈ set, other ∈ graph.predecessors task) ∧ other ∉ set := by
  simp only [externalPredecessors, TaskSet.mem_diff, TaskSet.mem_ofList, List.mem_flatMap,
    ← TaskSet.mem_iff]

theorem has_withBundle {bundle : Bundle} {id : TaskId} :
    (graph.withBundle bundle).Has id ↔ graph.Has id := by
  simp [Has, size, withBundle]

theorem addDependency_apart {id : TaskId} {edge : Dependency} {created : Bool}
    (apart : edge.predecessor ≠ id) (added : graph.addDependency id edge = .ok (next, created)) :
    graph.Has edge.predecessor ∧ graph.Has id ∧
      next = graph.modify id fun task =>
        { task with predecessors := putEdge edge task.predecessors } := by
  rw [addDependency, if_neg apart] at added
  split at added
  · simp at added
  · simp at added
  · rename_i first second foundFirst foundSecond
    simp only [Except.ok.injEq, Prod.mk.injEq] at added
    exact ⟨has_of_get? foundFirst, has_of_get? foundSecond, added.1.symm⟩

theorem addEdges_append {first second : List (TaskId × TaskId)}
    (added : graph.addEdges delay rule (first ++ second) = (next, .ok ())) :
    ∃ middle, graph.addEdges delay rule first = (middle, .ok ()) ∧
      middle.addEdges delay rule second = (next, .ok ()) := by
  induction first generalizing graph with
  | nil => exact ⟨graph, rfl, added⟩
  | cons pair rest ih =>
      obtain ⟨id, predecessor⟩ := pair
      rw [List.cons_append, addEdges] at added
      rw [addEdges]
      split at added
      · exact ih added
      · simp at added

theorem get?_modify (graph : TaskGraph) (id other : TaskId) (change : Task → Task) :
    (graph.modify id change).get? other =
      (graph.get? other).map fun task => if other = id then change task else task := by
  obtain ⟨place⟩ := id
  obtain ⟨index⟩ := other
  simp only [get?, modify, List.getElem?_modify, TaskId.mk.injEq, eq_comm (a := index)]
  rfl

theorem get?_addEdges_row {id : TaskId} {predecessors : List TaskId} (apart : id ∉ predecessors)
    (added : graph.addEdges delay rule (predecessors.map fun predecessor => (id, predecessor)) =
      (next, .ok ())) (other : TaskId) :
    next.get? other =
      (graph.get? other).map fun task =>
        if other = id then
          { task with
            predecessors :=
              predecessors.foldl
                (fun edges predecessor => putEdge ⟨predecessor, delay, rule⟩ edges)
                task.predecessors }
        else task := by
  induction predecessors generalizing graph with
  | nil =>
      simp only [List.map_nil, addEdges, Prod.mk.injEq, and_true] at added
      subst added
      simp
  | cons first rest ih =>
      rw [List.mem_cons, not_or] at apart
      rw [List.map_cons, addEdges] at added
      split at added
      · rename_i middle created own
        obtain ⟨-, -, rfl⟩ := addDependency_apart (Ne.symm apart.1) own
        rw [ih apart.2 added, get?_modify, Option.map_map]
        refine congrArg (Option.map · _) (funext fun task => ?_)
        by_cases same : other = id <;> simp [same]
      · simp at added

theorem get?_addEdges {tasks predecessors : List TaskId} (distinct : tasks.Nodup)
    (apart : ∀ id ∈ tasks, id ∉ predecessors)
    (added : graph.addEdges delay rule
        (tasks.flatMap fun id => predecessors.map fun predecessor => (id, predecessor)) =
      (next, .ok ())) (other : TaskId) :
    next.get? other =
      (graph.get? other).map fun task =>
        if other ∈ tasks then
          { task with
            predecessors :=
              predecessors.foldl
                (fun edges predecessor => putEdge ⟨predecessor, delay, rule⟩ edges)
                task.predecessors }
        else task := by
  induction tasks generalizing graph with
  | nil =>
      simp only [List.flatMap_nil, addEdges, Prod.mk.injEq, and_true] at added
      subst added
      simp
  | cons id rest ih =>
      rw [List.nodup_cons] at distinct
      rw [List.flatMap_cons] at added
      obtain ⟨middle, row, others⟩ := addEdges_append added
      have own := get?_addEdges_row (apart id List.mem_cons_self) row other
      have later := fun other member => apart other (List.mem_cons_of_mem id member)
      rw [ih distinct.2 later others, own, Option.map_map]
      refine congrArg (Option.map · _) (funext fun task => ?_)
      by_cases same : other = id
      · subst same
        simp [distinct.1]
      · simp [same]

theorem has_of_addEdges {pairs : List (TaskId × TaskId)} (apart : ∀ pair ∈ pairs, pair.2 ≠ pair.1)
    (added : graph.addEdges delay rule pairs = (next, .ok ())) :
    ∀ pair ∈ pairs, graph.Has pair.1 := by
  induction pairs generalizing graph with
  | nil => simp
  | cons pair rest ih =>
      obtain ⟨id, predecessor⟩ := pair
      rw [addEdges] at added
      split at added
      · rename_i middle created own
        obtain ⟨-, has, -⟩ := addDependency_apart (apart _ List.mem_cons_self) own
        intro pair member
        rcases List.mem_cons.mp member with rfl | later
        · exact has
        · have kept :=
            ih (fun pair member => apart pair (List.mem_cons_of_mem _ member)) added pair later
          rwa [Has, size_addDependency own] at kept
      · simp at added

theorem withBundle_of_nothing {bundle : Bundle}
    (nothing : (∀ id, id ∉ bundle.predecessors) ∨ ∀ id, id ∉ bundle.tasks) :
    graph.withBundle bundle = graph := by
  refine ext_get? fun id => ?_
  rw [get?_withBundle]
  cases graph.get? id with
  | none => rfl
  | some task =>
      rcases nothing with unasked | unasked
      · have none : bundle.predecessors.ids = [] := List.eq_nil_iff_forall_not_mem.mpr unasked
        simp [Bundle.putTo, none]
      · simp [unasked id]

theorem addEdges_bundle (bundle : Bundle)
    (added : graph.addEdges bundle.delay bundle.rule (pairs bundle.tasks bundle.predecessors) =
      (next, .ok ())) :
    next = graph.withBundle bundle ∧ bundle.KnownIn graph := by
  have apart : ∀ id ∈ bundle.tasks.ids, id ∉ bundle.predecessors.ids :=
    fun id own among => bundle.apart id among own
  constructor
  · refine ext_get? fun id => ?_
    rw [get?_withBundle, get?_addEdges bundle.tasks.nodup apart added]
    rfl
  · intro id own predecessor among
    have distinct : ∀ pair ∈ pairs bundle.tasks bundle.predecessors, pair.2 ≠ pair.1 := by
      intro pair member
      simp only [pairs, List.mem_flatMap, List.mem_map] at member
      obtain ⟨task, task_own, other, other_among, rfl⟩ := member
      intro same
      obtain rfl : other = task := same
      exact apart other task_own other_among
    refine has_of_addEdges distinct added (id, predecessor) ?_
    simp only [pairs, List.mem_flatMap, List.mem_map]
    exact ⟨id, own, predecessor, among, rfl⟩

end TaskGraph

/-! ### Bundles of directives -/

def Directive.bundle? (graph : TaskGraph) (tasks : TaskSet) : Directive → Option Bundle
  | .dependFree delay =>
      some
        { tasks
          predecessors := graph.externalPredecessors tasks
          delay
          rule := "dependfree"
          apart := fun _ member => (TaskSet.mem_diff.mp member).2 }
  | .dependOn predecessors delay =>
      some
        { tasks
          predecessors := predecessors.diff tasks
          delay
          rule := "dependon"
          apart := fun _ member => (TaskSet.mem_diff.mp member).2 }
  | _ => none

abbrev ReadDirective := WalkedLine × Directive

def ReadDirective.tasks (read : ReadDirective) : TaskSet := read.1.scope.tasks

namespace TaskGraph

def bundleOf? (graph : TaskGraph) (read : ReadDirective) : Option Bundle :=
  read.2.bundle? graph read.tasks

def after (graph : TaskGraph) (read : ReadDirective) : TaskGraph :=
  (graph.bundleOf? read).elim graph graph.withBundle

/-- A graph with the bundles of directives, each read on the graph with those before it. -/
def afterAll (graph : TaskGraph) (reads : List ReadDirective) : TaskGraph :=
  reads.foldl after graph

def bundles (graph : TaskGraph) : List ReadDirective → List Bundle
  | [] => []
  | read :: rest => (graph.bundleOf? read).toList ++ (graph.after read).bundles rest

theorem afterAll_cons (graph : TaskGraph) (read : ReadDirective) (rest : List ReadDirective) :
    graph.afterAll (read :: rest) = (graph.after read).afterAll rest := rfl

theorem afterAll_append (graph : TaskGraph) (first second : List ReadDirective) :
    graph.afterAll (first ++ second) = (graph.afterAll first).afterAll second :=
  List.foldl_append

theorem has_after {graph : TaskGraph} {read : ReadDirective} {id : TaskId} :
    (graph.after read).Has id ↔ graph.Has id := by
  unfold after
  cases graph.bundleOf? read with
  | none => exact Iff.rfl
  | some bundle => exact has_withBundle

theorem has_afterAll {graph : TaskGraph} {reads : List ReadDirective} {id : TaskId} :
    (graph.afterAll reads).Has id ↔ graph.Has id := by
  induction reads generalizing graph with
  | nil => rfl
  | cons read rest ih => rw [afterAll_cons, ih, has_after]

theorem mem_predecessors_after {graph : TaskGraph} {read : ReadDirective}
    {id predecessor : TaskId} :
    predecessor ∈ (graph.after read).predecessors id ↔
      predecessor ∈ graph.predecessors id ∨
        ∃ bundle ∈ graph.bundleOf? read,
          graph.Has id ∧ id ∈ bundle.tasks ∧ predecessor ∈ bundle.predecessors := by
  unfold after
  cases graph.bundleOf? read with
  | none => simp
  | some bundle => simp [mem_predecessors_withBundle]

theorem mem_predecessors_afterAll {graph : TaskGraph} {reads : List ReadDirective}
    {id predecessor : TaskId} :
    predecessor ∈ (graph.afterAll reads).predecessors id ↔
      predecessor ∈ graph.predecessors id ∨
        ∃ bundle ∈ graph.bundles reads,
          graph.Has id ∧ id ∈ bundle.tasks ∧ predecessor ∈ bundle.predecessors := by
  induction reads generalizing graph with
  | nil => simp [afterAll, bundles]
  | cons read rest ih =>
      rw [afterAll_cons, ih, mem_predecessors_after, or_assoc, bundles]
      simp only [has_after, List.mem_append, Option.mem_toList, Option.mem_def, or_and_right,
        exists_or]

end TaskGraph

def Effect.bringsEdges : Effect → Bool
  | .now (.addDependencies ..) => true
  | _ => false

namespace Run

variable {run : Run} {id : EquipmentId} {equipment : Equipment}

theorem stage_of_no_edges {graph : TaskGraph} {effects : List Effect}
    (others : ∀ effect ∈ effects, effect.bringsEdges = false) :
    stage graph effects = (graph, .ok ()) := by
  induction effects with
  | nil => rfl
  | cons effect rest ih =>
      have own := others effect List.mem_cons_self
      unfold stage
      split
      · rfl
      · rename_i same
        obtain ⟨rfl, -⟩ := List.cons.inj same
        simp [Effect.bringsEdges] at own
      · rename_i same
        obtain ⟨-, rfl⟩ := List.cons.inj same
        exact ih fun other member => others other (List.mem_cons_of_mem _ member)

theorem stage_edges {graph next : TaskGraph} {scope : LineScope} (bundle : Bundle)
    (own : bundle.tasks = scope.tasks)
    (staged : stage graph
        (Interpreter.edges scope bundle.predecessors bundle.delay bundle.rule).effects =
      (next, .ok ())) : next = graph.withBundle bundle ∧ bundle.KnownIn graph := by
  unfold Interpreter.edges at staged
  split at staged
  · rename_i nothing
    rw [← own, Bool.or_eq_true, TaskSet.isEmpty_iff, TaskSet.isEmpty_iff] at nothing
    simp only [stage, Prod.mk.injEq, and_true] at staged
    subst staged
    refine ⟨(TaskGraph.withBundle_of_nothing nothing).symm, fun task inside other among => ?_⟩
    rcases nothing with unasked | unasked
    · exact absurd among (unasked other)
    · exact absurd inside (unasked task)
  · simp only [stage] at staged
    split at staged
    · rename_i middle added
      simp only [Prod.mk.injEq, and_true] at staged
      subst staged
      rw [← own] at added
      exact TaskGraph.addEdges_bundle bundle added
    · simp at staged

end Run

namespace Interpreter

variable {interpreter : Interpreter} {line : WalkedLine} {directive : Directive}

theorem interpret_bundle {bundle : Bundle}
    (found : directive.bundle? interpreter.graph line.scope.tasks = some bundle) :
    bundle.tasks = line.scope.tasks ∧
      interpreter.interpret line directive =
        .ok (edges line.scope bundle.predecessors bundle.delay bundle.rule) := by
  cases directive with
  | dependFree delay | dependOn predecessors delay =>
      obtain rfl := Option.some.inj found
      exact ⟨rfl, rfl⟩
  | _ => simp [Directive.bundle?] at found

theorem stage_no_bundle {part : LineOutcome} (graph : TaskGraph)
    (none : directive.bundle? interpreter.graph line.scope.tasks = none)
    (interpreted : interpreter.interpret line directive = .ok part) :
    Run.stage graph part.effects = (graph, .ok ()) := by
  refine Run.stage_of_no_edges fun effect member => ?_
  cases (interpret_all interpreted).effects effect member with
  | dependFree | dependOn => simp [Directive.bundle?] at none
  | _ => rfl

theorem interpret_stage {part : LineOutcome} {next : TaskGraph}
    (interpreted : interpreter.interpret line directive = .ok part)
    (staged : Run.stage interpreter.graph part.effects = (next, .ok ())) :
    next = interpreter.graph.after (line, directive) ∧
      ∀ bundle ∈ interpreter.graph.bundleOf? (line, directive),
        bundle.KnownIn interpreter.graph := by
  cases found : directive.bundle? interpreter.graph line.scope.tasks with
  | none =>
      have unchanged := stage_no_bundle interpreter.graph found interpreted
      have same : interpreter.graph.bundleOf? (line, directive) = none := found
      obtain rfl : interpreter.graph = next := congrArg Prod.fst (unchanged.symm.trans staged)
      simp [TaskGraph.after, same]
  | some bundle =>
      obtain ⟨own, asked⟩ := interpret_bundle found
      obtain rfl := Except.ok.inj (asked.symm.trans interpreted)
      obtain ⟨reached, known⟩ := Run.stage_edges bundle own staged
      have same : interpreter.graph.bundleOf? (line, directive) = some bundle := found
      simp [TaskGraph.after, same, reached, known]

end Interpreter

/-! ### Reading a path -/

def LineOutcome.joined (parts : List LineOutcome) : LineOutcome :=
  ⟨parts.flatMap (·.registrations), parts.flatMap (·.effects)⟩

theorem LineOutcome.append_joined_cons (outcome part : LineOutcome) (parts : List LineOutcome) :
    (outcome.append part).append (joined parts) = outcome.append (joined (part :: parts)) := by
  simp [append, joined]

theorem LineOutcome.joined_append (first second : List LineOutcome) :
    joined (first ++ second) = (joined first).append (joined second) := by
  simp [append, joined]

def LineReport.reads (report : LineReport) : List ReadDirective :=
  report.directives.map fun directive => (report.line, directive)

namespace Run

/-- Directives are read one after the other, each on the graph with the bundles of those before it,
and each asks for a part. -/
inductive Reads (run : Run) (id : EquipmentId) (equipment : Equipment) :
    TaskGraph → List ReadDirective → List LineOutcome → Prop where
  | nil {graph : TaskGraph} : Reads run id equipment graph [] []
  | cons {graph : TaskGraph} {read : ReadDirective} {part : LineOutcome}
      {rest : List ReadDirective} {parts : List LineOutcome}
      (interpreted : (run.interpreter id equipment graph).interpret read.1 read.2 = .ok part)
      (known : ∀ bundle ∈ graph.bundleOf? read, bundle.KnownIn graph)
      (others : Reads run id equipment (graph.after read) rest parts) :
      Reads run id equipment graph (read :: rest) (part :: parts)

namespace Reads

variable {run : Run} {id : EquipmentId} {equipment : Equipment} {graph : TaskGraph}
  {reads more : List ReadDirective} {parts others : List LineOutcome}

theorem append (first : run.Reads id equipment graph reads parts)
    (second : run.Reads id equipment (graph.afterAll reads) more others) :
    run.Reads id equipment graph (reads ++ more) (parts ++ others) := by
  induction first with
  | nil => exact second
  | cons interpreted known _ ih => exact .cons interpreted known (ih second)

theorem length_eq (first : run.Reads id equipment graph reads parts) :
    parts.length = reads.length := by
  induction first with
  | nil => rfl
  | cons _ _ _ ih => simp [ih]

theorem at_place (first : run.Reads id equipment graph reads parts) {place : Nat}
    {read : ReadDirective} (found : reads[place]? = some read) :
    ∃ part, parts[place]? = some part ∧
      (run.interpreter id equipment (graph.afterAll (reads.take place))).interpret read.1 read.2 =
        .ok part := by
  induction first generalizing place with
  | nil => simp at found
  | @cons graph head part rest parts interpreted known _ ih =>
      cases place with
      | zero =>
          obtain rfl : head = read := by simpa using found
          exact ⟨part, rfl, interpreted⟩
      | succ place =>
          obtain ⟨own, placed, interpreted⟩ := ih (by simpa using found)
          exact ⟨own, by simpa using placed, interpreted⟩

theorem known (first : run.Reads id equipment graph reads parts) (place : Nat) :
    ∀ bundle ∈ graph.bundles (reads.take place), bundle.KnownIn graph := by
  induction first generalizing place with
  | nil => simp [TaskGraph.bundles]
  | @cons graph head part rest parts interpreted known _ ih =>
      cases place with
      | zero => simp [TaskGraph.bundles]
      | succ place =>
          intro bundle member
          rw [List.take_succ_cons, TaskGraph.bundles, List.mem_append, Option.mem_toList] at member
          rcases member with own | later
          · exact known bundle own
          · intro task inside predecessor among
            exact TaskGraph.has_after.mp (ih place bundle later task inside predecessor among)

end Reads

variable {run : Run} {id : EquipmentId} {equipment : Equipment}

theorem interpretAll_reads {line : WalkedLine} {graph last : TaskGraph}
    {outcome total : LineOutcome} {directives : List Directive}
    (done : run.interpretAll id equipment line graph outcome directives = .ok (last, total)) :
    ∃ parts,
      run.Reads id equipment graph (directives.map fun directive => (line, directive)) parts ∧
      last = graph.afterAll (directives.map fun directive => (line, directive)) ∧
        total = outcome.append (LineOutcome.joined parts) := by
  induction directives generalizing graph outcome with
  | nil =>
      simp only [interpretAll, Except.ok.injEq, Prod.mk.injEq] at done
      obtain ⟨rfl, rfl⟩ := done
      exact ⟨[], .nil, rfl, by simp [LineOutcome.joined, LineOutcome.append]⟩
  | cons directive rest ih =>
      simp only [interpretAll] at done
      split at done
      · simp at done
      · rename_i part interpreted
        split at done
        · simp at done
        · rename_i next staged
          obtain ⟨rfl, known⟩ := Interpreter.interpret_stage interpreted staged
          obtain ⟨parts, reads, ends, whole⟩ := ih done
          refine ⟨part :: parts, .cons interpreted known reads, ends, ?_⟩
          rw [whole, LineOutcome.append_joined_cons]

theorem readLine_reads {reading next : PathReading} {line : WalkedLine}
    (read : run.readLine id equipment reading line = .ok next) :
    ∃ report parts, next.reports = reading.reports ++ [report] ∧ report.line = line ∧
      run.Reads id equipment reading.graph report.reads parts ∧
        next.graph = reading.graph.afterAll report.reads ∧
          next.outcome = reading.outcome.append (LineOutcome.joined parts) := by
  unfold readLine at read
  split at read
  · simp at read
  · rename_i gate directives followed
    split at read
    · simp at read
    · rename_i graph outcome done
      obtain rfl := Except.ok.inj read
      obtain ⟨parts, reads, ends, whole⟩ := interpretAll_reads done
      refine ⟨_, parts, rfl, rfl, reads, ends, ?_⟩
      simp [whole, LineOutcome.append]

theorem readLines_reads {reading last : PathReading} {lines : List WalkedLine}
    (read : run.readLines id equipment reading lines = (last, .ok ())) :
    ∃ reports parts, last.reports = reading.reports ++ reports ∧ reports.map (·.line) = lines ∧
      run.Reads id equipment reading.graph (reports.flatMap LineReport.reads) parts ∧
        last.graph = reading.graph.afterAll (reports.flatMap LineReport.reads) ∧
          last.outcome = reading.outcome.append (LineOutcome.joined parts) := by
  induction lines generalizing reading with
  | nil =>
      simp only [readLines, Prod.mk.injEq, and_true] at read
      subst read
      exact ⟨[], [], by simp, rfl, .nil, rfl, by simp [LineOutcome.joined, LineOutcome.append]⟩
  | cons line more ih =>
      simp only [readLines] at read
      split at read
      · simp at read
      · rename_i next first
        obtain ⟨report, parts, reported, onLine, reads, reached, asked⟩ := readLine_reads first
        obtain ⟨reports, others, later, lines, follow, ends, whole⟩ := ih read
        rw [reached] at follow ends
        refine ⟨report :: reports, parts ++ others, ?_, ?_, reads.append follow, ?_, ?_⟩
        · simp [later, reported]
        · simp [onLine, lines]
        · rw [ends, List.flatMap_cons, TaskGraph.afterAll_append]
        · rw [whole, asked, LineOutcome.joined_append]
          simp [LineOutcome.append]

end Run

/-- A counter as it was put up, before it was told anything. -/
def WaitCounter.untold (counter : WaitCounter) : WaitCounter :=
  .new counter.predecessors counter.releaseDelay counter.origin

theorem WaitCounter.untold_taskCompleted (counter : WaitCounter) (task : TaskId) (date : Instant) :
    (counter.taskCompleted task date).untold = counter.untold := by
  unfold taskCompleted
  split <;> rfl

/-- The counters on an equipment and a task, as they were put up. -/
def HoldRegister.countersOn (register : HoldRegister) (key : HoldKey) : List WaitCounter :=
  (register.waitsOf key).counters.map WaitCounter.untold

namespace HoldRegister

variable {register next : HoldRegister} {key : HoldKey}

theorem countersOn_congr
    (same : ∀ handle, (next.counter? handle).map WaitCounter.untold =
      (register.counter? handle).map WaitCounter.untold) :
    next.countersOn key = register.countersOn key := by
  refine List.ext_getElem? fun index => ?_
  have here := same ⟨key, index⟩
  rw [counter?_eq, counter?_eq] at here
  rw [countersOn, countersOn, List.getElem?_map, List.getElem?_map]
  exact here

theorem countersOn_tell (task : TaskId) (date : Instant) (told : HoldRegister × Nat)
    (handle : CounterHandle) : (tell task date told handle).1.countersOn key =
      told.1.countersOn key := by
  obtain ⟨register, count⟩ := told
  unfold tell
  dsimp only
  split
  · refine countersOn_congr fun other => ?_
    rw [counter?_modifyCounter]
    split
    · rw [Option.map_map]
      exact congrArg (Option.map · _) (funext fun counter => counter.untold_taskCompleted task date)
    · rfl
  · rfl

theorem countersOn_taskCompleted (register : HoldRegister) (task : TaskId) (date : Instant) :
    (register.taskCompleted task date).1.countersOn key = register.countersOn key := by
  have telling : ∀ (handles : List CounterHandle) (told : HoldRegister × Nat),
      (handles.foldl (tell task date) told).1.countersOn key = told.1.countersOn key := by
    intro handles
    induction handles with
    | nil => exact fun _ => rfl
    | cons handle rest ih =>
        intro told
        rw [List.foldl_cons, ih, countersOn_tell]
  exact telling _ (register, 0)

theorem countersOn_completeAll (register : HoldRegister) (reports : List (TaskId × Instant)) :
    (register.completeAll reports).countersOn key = register.countersOn key := by
  induction reports generalizing register with
  | nil => rfl
  | cons report rest ih => exact (ih _).trans (register.countersOn_taskCompleted report.1 report.2)

end HoldRegister

def Registration.counterFor? (key : HoldKey) : Registration → Option WaitCounter
  | .wait other counter => if other = key then some counter else none
  | .window .. => none

def LineOutcome.countersFor (key : HoldKey) (outcome : LineOutcome) : List WaitCounter :=
  outcome.registrations.filterMap (Registration.counterFor? key)

namespace Run

variable {run : Run} {id : EquipmentId} {equipment : Equipment} {key : HoldKey}

theorem countersOn_register {registration : Registration} (fresh : registration.Fresh) :
    (run.register registration).holds.countersOn key =
      run.holds.countersOn key ++ (registration.counterFor? key).toList := by
  cases registration with
  | wait other counter =>
      obtain ⟨predecessors, delay, origin, -, rfl⟩ := fresh
      rw [holds_register_wait, HoldRegister.countersOn_completeAll, HoldRegister.countersOn,
        HoldRegister.waitsOf_addWait, Registration.counterFor?]
      by_cases same : key = other
      · subst same
        simp [HoldRegister.countersOn, WaitCounter.untold, WaitCounter.new]
      · simp [same, Ne.symm same, HoldRegister.countersOn]
  | window other dated =>
      refine (HoldRegister.countersOn_congr fun handle => ?_).trans (List.append_nil _).symm
      change ((run.holds.addWindow other dated).1.counter? handle).map _ = _
      rw [HoldRegister.counter?_addWindow]

theorem countersOn_registerAll {registrations : List Registration}
    (fresh : ∀ registration ∈ registrations, registration.Fresh) :
    (registrations.foldl register run).holds.countersOn key =
      run.holds.countersOn key ++ registrations.filterMap (Registration.counterFor? key) := by
  induction registrations generalizing run with
  | nil => simp
  | cons registration rest ih =>
      rw [List.foldl_cons, ih fun other member => fresh other (List.mem_cons_of_mem _ member),
        countersOn_register (fresh registration List.mem_cons_self), List.append_assoc]
      cases own : registration.counterFor? key <;> simp [own]

theorem countersOn_commit {outcome : LineOutcome}
    (fresh : ∀ registration ∈ outcome.registrations, registration.Fresh) :
    (run.commit outcome).1.holds.countersOn key =
      run.holds.countersOn key ++ outcome.countersFor key := by
  have same := (outcome.registrations.foldl register run).scheduleAll_sameRecords outcome.effects
  refine .trans ?_ (countersOn_registerAll fresh)
  exact HoldRegister.countersOn_congr fun handle => congrArg _ (same.counter? handle)

end Run

theorem Interpreter.countersFor_waits (interpreter : Interpreter) (scope : LineScope)
    (predecessors : TaskSet) (delay : Span) (origin : Origin) (key : HoldKey) :
    (interpreter.waits scope predecessors delay origin).countersFor key =
      if key.equipment = interpreter.id ∧ key.task ∈ scope.tasks ∧ predecessors.isEmpty = false then
        [WaitCounter.new predecessors delay origin]
      else [] := by
  obtain ⟨owner, task⟩ := key
  unfold waits
  cases predecessors.isEmpty with
  | true => simp [LineOutcome.countersFor]
  | false =>
      simp only [LineOutcome.countersFor, List.filterMap_map, Bool.false_eq_true, if_false,
        and_true, TaskSet.mem_iff]
      have distinct := scope.tasks.nodup
      generalize scope.tasks.ids = ids at distinct
      induction ids with
      | nil => simp
      | cons first rest ih =>
          rw [List.nodup_cons] at distinct
          rw [List.filterMap_cons, ih distinct.2]
          by_cases same : task = first
          · subst same
            by_cases own : owner = interpreter.id
            · subst own
              simp [Registration.counterFor?, distinct.1]
            · simp [Registration.counterFor?, own, Ne.symm own]
          · simp [Registration.counterFor?, same, Ne.symm same]

namespace Run

variable {run : Run} {id : EquipmentId} {equipment : Equipment}

/-- The tasks that the tasks of a line wait for when they wait for all their predecessors that are
not on the line: those that they had, and those of the bundles that any of them belongs to. -/
def IsAwaited (graph : TaskGraph) (before : List ReadDirective) (tasks : TaskSet)
    (predecessor : TaskId) : Prop :=
  predecessor ∉ tasks ∧
    ((∃ task ∈ tasks, predecessor ∈ graph.predecessors task) ∨
      ∃ bundle ∈ graph.bundles before, predecessor ∈ bundle.predecessors ∧
        ∃ task ∈ tasks, task ∈ bundle.tasks)

structure Staged (run : Run) (id : EquipmentId) (equipment : Equipment)
    (reads : List ReadDirective) (parts : List LineOutcome) (next : Run) : Prop where
  interpreted : ∀ place read, reads[place]? = some read → ∃ part, parts[place]? = some part ∧
    (run.interpreter id equipment (run.scenario.tasks.afterAll (reads.take place))).interpret
      read.1 read.2 = .ok part
  parts_length : parts.length = reads.length
  installed : ∃ last, run.commit (LineOutcome.joined parts) = (last, .ok ()) ∧
    next = { last with parsed := last.parsed ++ [id] }
  tasks : next.scenario.tasks = run.scenario.tasks.afterAll reads
  counters : ∀ key, next.holds.countersOn key =
    run.holds.countersOn key ++ parts.flatMap (LineOutcome.countersFor key)
  waitFree : ∀ place line delay, reads[place]? = some (line, .waitFree delay) →
    ∃ part predecessors, parts[place]? = some part ∧
      (∀ predecessor, predecessor ∈ predecessors ↔
        IsAwaited run.scenario.tasks (reads.take place) line.scope.tasks predecessor) ∧
        ∀ key, part.countersFor key =
          if key.equipment = id ∧ key.task ∈ line.scope.tasks ∧ predecessors.isEmpty = false then
            [WaitCounter.new predecessors delay ⟨line.number, line.text, "waitfree"⟩]
          else []

theorem Reads.mem_externalPredecessors {graph : TaskGraph} {reads : List ReadDirective}
    {parts : List LineOutcome} (followed : run.Reads id equipment graph reads parts) (place : Nat)
    (tasks : TaskSet) (predecessor : TaskId) :
    predecessor ∈ (graph.afterAll (reads.take place)).externalPredecessors tasks ↔
      IsAwaited graph (reads.take place) tasks predecessor := by
  rw [TaskGraph.mem_externalPredecessors, and_comm, IsAwaited]
  refine and_congr_right fun _ => ?_
  simp only [TaskGraph.mem_predecessors_afterAll, and_or_left, exists_or]
  refine or_congr_right ?_
  constructor
  · rintro ⟨task, own, bundle, member, _, inside, among⟩
    exact ⟨bundle, member, among, task, own, inside⟩
  · rintro ⟨bundle, member, among, task, own, inside⟩
    have has := followed.known place bundle member task inside predecessor among
    exact ⟨task, own, bundle, member, has, inside, among⟩

structure Followed (run : Run) (id : EquipmentId) (equipment : Equipment)
    (reports : List LineReport) (parts : List LineOutcome) (next : Run) : Prop where
  found : run.scenario.equipmentOf id = .ok equipment
  lines : reports.map (·.line) = walk equipment.pathText equipment.path.elements
  reads : run.Reads id equipment run.scenario.tasks (reports.flatMap LineReport.reads) parts
  installed : ∃ last, run.commit (LineOutcome.joined parts) = (last, .ok ()) ∧
    next = { last with parsed := last.parsed ++ [id] }
  tasks : next.scenario.tasks = run.scenario.tasks.afterAll (reports.flatMap LineReport.reads)
  fresh : ∀ registration ∈ (LineOutcome.joined parts).registrations, registration.Fresh

theorem parsePath_followed (parses : (run.parsePath id).2.2 = .ok true) :
    ∃ equipment parts,
      run.Followed id equipment (run.parsePath id).1 parts (run.parsePath id).2.1 := by
  cases run.parsing id with
  | again _ passes => simp [passes] at parses
  | failed _ _ fails => simp [fails] at parses
  | @installed equipment reading last _ found read committed installs =>
      rw [installs]
      obtain ⟨reports, parts, reported, lines, followed, ends, asked⟩ := readLines_reads read
      obtain ⟨same, recommitted, staged⟩ := commit_staged found read
      obtain rfl : same = last := congrArg Prod.fst (recommitted.symm.trans committed)
      simp only [List.nil_append] at reported
      have whole : reading.outcome = LineOutcome.joined parts := by
        simpa [LineOutcome.append] using asked
      have fresh := (readPath_fresh read).records
      subst reported
      rw [whole] at committed fresh
      exact ⟨equipment, parts, found, lines, followed, ⟨same, committed, rfl⟩, staged.trans ends,
        fresh⟩

theorem Followed.counters {reports : List LineReport} {parts : List LineOutcome} {next : Run}
    (followed : run.Followed id equipment reports parts next) (key : HoldKey) :
    next.holds.countersOn key =
      run.holds.countersOn key ++ parts.flatMap (LineOutcome.countersFor key) := by
  obtain ⟨last, committed, rfl⟩ := followed.installed
  have counted : (run.commit (LineOutcome.joined parts)).1.holds.countersOn key =
      run.holds.countersOn key ++ (LineOutcome.joined parts).countersFor key :=
    run.countersOn_commit followed.fresh
  rw [committed] at counted
  refine counted.trans ?_
  simp only [LineOutcome.countersFor, LineOutcome.joined, List.filterMap_flatMap]
  rfl

theorem parses_of_isOk (fresh : run.isParsed id = false)
    (succeeds : (run.parsePath id).2.2.isOk = true) : (run.parsePath id).2.2 = .ok true := by
  cases run.parsing id with
  | again known _ => simp [fresh] at known
  | failed _ _ fails => simp [fails, Except.isOk, Except.toBool] at succeeds
  | installed _ _ _ _ installs => rw [installs]

/-- Of every run and every equipment whose path is parsed now: the graph on which the path was read
is the graph on which it ends. -/
theorem parsePath_staged (parses : (run.parsePath id).2.2 = .ok true) :
    ∃ equipment parts, run.scenario.equipmentOf id = .ok equipment ∧
      (run.parsePath id).1.map (·.line) = walk equipment.pathText equipment.path.elements ∧
        run.Staged id equipment ((run.parsePath id).1.flatMap LineReport.reads) parts
          (run.parsePath id).2.1 := by
  obtain ⟨equipment, parts, followed⟩ := parsePath_followed parses
  refine ⟨equipment, parts, followed.found, followed.lines, ?_⟩
  exact
    { interpreted := fun place read placed => followed.reads.at_place placed
      parts_length := followed.reads.length_eq
      installed := followed.installed
      tasks := followed.tasks
      counters := followed.counters
      waitFree := by
        intro place line delay placed
        obtain ⟨part, own, interpreted⟩ := followed.reads.at_place placed
        obtain rfl := Except.ok.inj interpreted
        exact ⟨_, _, own, followed.reads.mem_externalPredecessors place line.scope.tasks,
          Interpreter.countersFor_waits _ _ _ _ _⟩ }

end Run

namespace Quarry

def stagedScenario : Scenario :=
  { scenario with
    equipment :=
      [{ name := "Loader"
         pathText := "Face '!dependon Hole delay=2h\nFace '!waitfree !dependfree"
         path := (Path.push {} 1 (.steps [{ source := loaded }])).push 2
           (.steps [{ source := loaded }]) }] }

def rehearsal : Run := Run.start config stagedScenario {}

theorem rehearsal_staged :
    (rehearsal.parsePath loader).2.2 = .ok true ∧
      ∃ equipment parts, rehearsal.scenario.equipmentOf loader = .ok equipment ∧
        (rehearsal.parsePath loader).1.map (·.line) =
            walk equipment.pathText equipment.path.elements ∧
          rehearsal.Staged loader equipment
            ((rehearsal.parsePath loader).1.flatMap LineReport.reads) parts
            (rehearsal.parsePath loader).2.1 := by
  obtain ⟨fresh, succeeds⟩ : rehearsal.isParsed loader = false ∧
      (rehearsal.parsePath loader).2.2.isOk = true := by
    decide +kernel
  have parses := Run.parses_of_isOk fresh succeeds
  exact ⟨parses, Run.parsePath_staged parses⟩

example :
    ((rehearsal.parsePath loader).2.1.holds.countersOn faceKey).map (·.predecessors.ids) =
        [[drilled]] ∧
      (rehearsal.parsePath loader).2.1.scenario.tasks.predecessors loaded = [drilled] := by
  decide +kernel

end Quarry

end PathDirectives
