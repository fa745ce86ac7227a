import PathDirectives.Proofs.Staging

/-!
No task waits for its own line. A directive that makes the tasks of its line wait for others, or
depend on others, leaves the tasks of the line out of those others. What it does with the rest, it
does to every task of the line in the same way.
-/

namespace PathDirectives

open Calendar

theorem WalkedLine.mem_tasks {line : WalkedLine} {task : TaskId} :
    task ∈ line.scope.tasks ↔ ∃ element ∈ line.elements, ∃ step ∈ element.steps,
      step.source = task ∨ step.destination = some task := by
  simp only [scope, TaskSet.mem_ofList, List.mem_flatMap, Element.tasks, Step.tasks]
  simp [eq_comm]

inductive Directive.Waits : Directive → Span → Prop where
  | free (delay : Span) : Waits (.waitFree delay) delay
  | on (range : TaskSet) (delay : Span) : Waits (.waitOn range delay) delay

inductive Directive.Depends : Directive → Span → Prop where
  | free (delay : Span) : Depends (.dependFree delay) delay
  | on (range : TaskSet) (delay : Span) : Depends (.dependOn range delay) delay

/-- The tasks that a directive makes the tasks of its line wait for or depend on: those of the range
that it names, or else the direct predecessors of the line's tasks, as far as they are not on the
line. -/
def Directive.Awaits (graph : TaskGraph) (tasks : TaskSet) (other : TaskId) : Directive → Prop
  | .waitOn range _ | .dependOn range _ => other ∈ range ∧ other ∉ tasks
  | .waitFree _ | .dependFree _ =>
      (∃ task ∈ tasks, other ∈ graph.predecessors task) ∧ other ∉ tasks
  | _ => False

theorem Directive.Awaits.outside {graph : TaskGraph} {tasks : TaskSet} {other : TaskId}
    {directive : Directive} (awaits : directive.Awaits graph tasks other) : other ∉ tasks := by
  cases directive with
  | waitFree delay | waitOn range delay | dependFree delay | dependOn range delay => exact awaits.2
  | _ => exact awaits.elim

namespace TaskGraph

variable {graph : TaskGraph} {read : ReadDirective}

theorem tasks_of_bundleOf? {bundle : Bundle} (found : bundle ∈ graph.bundleOf? read) :
    bundle.tasks = read.tasks := by
  obtain ⟨line, directive⟩ := read
  cases directive with
  | dependFree delay | dependOn predecessors delay =>
      obtain rfl := Option.some.inj found
      rfl
  | _ => simp [bundleOf?, Directive.bundle?] at found

theorem bundleOf?_depends {line : WalkedLine} {directive : Directive} {delay : Span}
    (depends : directive.Depends delay) :
    ∃ bundle, graph.bundleOf? (line, directive) = some bundle ∧ ∀ other,
      other ∈ bundle.predecessors ↔ directive.Awaits graph line.scope.tasks other := by
  cases depends with
  | free => exact ⟨_, rfl, fun _ => mem_externalPredecessors⟩
  | on range => exact ⟨_, rfl, fun _ => TaskSet.mem_diff⟩

/-- The edges of a task that come from members of a set. -/
def edgesFrom (graph : TaskGraph) (set : TaskSet) (id : TaskId) : List Dependency :=
  ((graph.get? id).elim [] (·.predecessors)).filter fun edge => edge.predecessor ∈ set

theorem filter_putEdge {edge : Dependency} {set : TaskSet} (outside : edge.predecessor ∉ set)
    (edges : List Dependency) :
    (putEdge edge edges).filter (fun other => other.predecessor ∈ set) =
      edges.filter fun other => other.predecessor ∈ set := by
  induction edges with
  | nil => simp [putEdge, outside]
  | cons other rest ih =>
      by_cases same : other.predecessor = edge.predecessor
      · simp [putEdge, same, outside]
      · rw [putEdge, if_neg same, List.filter_cons, List.filter_cons, ih]

theorem filter_putTo (bundle : Bundle) (edges : List Dependency) :
    (bundle.putTo edges).filter (fun edge => edge.predecessor ∈ bundle.tasks) =
      edges.filter fun edge => edge.predecessor ∈ bundle.tasks := by
  have apart : ∀ other ∈ bundle.predecessors.ids, other ∉ bundle.tasks := bundle.apart
  unfold Bundle.putTo
  generalize bundle.predecessors.ids = ids at apart
  induction ids generalizing edges with
  | nil => rfl
  | cons first rest ih =>
      rw [List.foldl_cons, ih _ fun other member => apart other (List.mem_cons_of_mem first member)]
      exact filter_putEdge (apart first List.mem_cons_self) edges

theorem edgesFrom_after (graph : TaskGraph) (read : ReadDirective) (id : TaskId) :
    (graph.after read).edgesFrom read.tasks id = graph.edgesFrom read.tasks id := by
  unfold after
  cases found : graph.bundleOf? read with
  | none => rfl
  | some bundle =>
      rw [← tasks_of_bundleOf? found]
      simp only [Option.elim_some, edgesFrom, get?_withBundle]
      cases graph.get? id with
      | none => rfl
      | some task =>
          simp only [Option.map_some, Option.elim_some]
          split
          · exact filter_putTo bundle task.predecessors
          · rfl

end TaskGraph

theorem Interpreter.interpret_waits {interpreter : Interpreter} {line : WalkedLine}
    {directive : Directive} {delay : Span} {part : LineOutcome} (waits : directive.Waits delay)
    (interpreted : interpreter.interpret line directive = .ok part) :
    ∃ others : TaskSet,
      (∀ other, other ∈ others ↔ directive.Awaits interpreter.graph line.scope.tasks other) ∧
        part.effects = [] ∧
          part.registrations =
            if others.isEmpty then []
            else
              line.scope.tasks.ids.map fun task =>
                .wait ⟨interpreter.id, task⟩
                  (WaitCounter.new others delay ⟨line.number, line.text, directive.kind.name⟩) := by
  cases waits with
  | free =>
      obtain rfl := Except.ok.inj interpreted
      refine ⟨_, fun _ => TaskGraph.mem_externalPredecessors, ?_, ?_⟩ <;>
        rw [Interpreter.waits] <;> split <;> rfl
  | on range =>
      obtain rfl := Except.ok.inj interpreted
      refine ⟨range.diff line.scope.tasks, fun _ => TaskSet.mem_diff, ?_, ?_⟩ <;>
        rw [Interpreter.waits] <;> split <;> rfl

/-! ### The path as a whole -/

namespace Run

variable {run : Run} {id : EquipmentId}

def graphAt (run : Run) (reads : List ReadDirective) (place : Nat) : TaskGraph :=
  run.scenario.tasks.afterAll (reads.take place)

theorem graphAt_succ {reads : List ReadDirective} {place : Nat} {read : ReadDirective}
    (placed : reads[place]? = some read) :
    run.graphAt reads (place + 1) = (run.graphAt reads place).after read := by
  rw [graphAt, List.take_add_one, placed, TaskGraph.afterAll_append]
  rfl

structure SelfExcluding (run : Run) (id : EquipmentId) (equipment : Equipment)
    (reads : List ReadDirective) (parts : List LineOutcome) (next : Run) : Prop where
  interpreted : ∀ place read, reads[place]? = some read → ∃ part, parts[place]? = some part ∧
    (run.interpreter id equipment (run.graphAt reads place)).interpret read.1 read.2 = .ok part
  parts_length : parts.length = reads.length
  counters : ∀ key, next.holds.countersOn key =
    run.holds.countersOn key ++ parts.flatMap (LineOutcome.countersFor key)
  tasks : next.scenario.tasks = run.graphAt reads reads.length
  scope : ∀ read ∈ reads, ∀ task, task ∈ read.tasks ↔ ∃ element ∈ read.1.elements,
    ∃ step ∈ element.steps, step.source = task ∨ step.destination = some task
  waits : ∀ (place : Nat) (line : WalkedLine) (directive : Directive) (delay : Span),
    reads[place]? = some (line, directive) → directive.Waits delay →
      ∃ (part : LineOutcome) (others : TaskSet), parts[place]? = some part ∧
        (∀ other, other ∈ others ↔
          directive.Awaits (run.graphAt reads place) line.scope.tasks other) ∧
          (∀ other ∈ others, other ∉ line.scope.tasks) ∧ part.effects = [] ∧
            part.registrations =
              if others.isEmpty then []
              else
                line.scope.tasks.ids.map fun task =>
                  .wait ⟨id, task⟩
                    (WaitCounter.new others delay ⟨line.number, line.text, directive.kind.name⟩)
  depends : ∀ (place : Nat) (line : WalkedLine) (directive : Directive) (delay : Span),
    reads[place]? = some (line, directive) → directive.Depends delay →
      (∀ task other, other ∈ (run.graphAt reads (place + 1)).predecessors task ↔
        other ∈ (run.graphAt reads place).predecessors task ∨
          run.scenario.tasks.Has task ∧ task ∈ line.scope.tasks ∧
            directive.Awaits (run.graphAt reads place) line.scope.tasks other) ∧
        ∀ task, (run.graphAt reads (place + 1)).edgesFrom line.scope.tasks task =
          (run.graphAt reads place).edgesFrom line.scope.tasks task

theorem Followed.selfExcluding {equipment : Equipment} {reports : List LineReport}
    {parts : List LineOutcome} {next : Run}
    (followed : run.Followed id equipment reports parts next) :
    run.SelfExcluding id equipment (reports.flatMap LineReport.reads) parts next where
  interpreted _ _ placed := followed.reads.at_place placed
  parts_length := followed.reads.length_eq
  counters := followed.counters
  tasks := by rw [followed.tasks, graphAt, List.take_length]
  scope _ _ _ := WalkedLine.mem_tasks
  waits place line directive delay placed waits := by
    obtain ⟨part, own, interpreted⟩ := followed.reads.at_place placed
    obtain ⟨others, awaited, silent, records⟩ := Interpreter.interpret_waits waits interpreted
    exact ⟨part, others, own, awaited, fun other member => ((awaited other).mp member).outside,
      silent, records⟩
  depends place line directive delay placed depends := by
    rw [graphAt_succ placed]
    refine ⟨fun task other => ?_, TaskGraph.edgesFrom_after _ (line, directive)⟩
    obtain ⟨bundle, found, awaited⟩ := TaskGraph.bundleOf?_depends depends
    have own := TaskGraph.tasks_of_bundleOf? found
    have known : (run.graphAt (reports.flatMap LineReport.reads) place).Has task ↔
        run.scenario.tasks.Has task := TaskGraph.has_afterAll
    rw [TaskGraph.mem_predecessors_after, ← awaited]
    simp only [found, Option.mem_some_iff, exists_eq_left', own, known]
    rfl

/-- Of every run and every equipment: a path that is parsed now makes no task wait for its own line
or depend on it, and any other call changes nothing. -/
theorem parsePath_selfExcluding (run : Run) (id : EquipmentId) :
    ((run.parsePath id).2.2 = .ok true ∧
      ∃ equipment parts, run.scenario.equipmentOf id = .ok equipment ∧
        (run.parsePath id).1.map (·.line) = walk equipment.pathText equipment.path.elements ∧
          run.SelfExcluding id equipment ((run.parsePath id).1.flatMap LineReport.reads) parts
            (run.parsePath id).2.1) ∨
      (run.parsePath id).2.2 ≠ .ok true ∧ (run.parsePath id).2.1 = run := by
  by_cases parses : (run.parsePath id).2.2 = .ok true
  · obtain ⟨equipment, parts, followed⟩ := parsePath_followed parses
    exact .inl ⟨parses, equipment, parts, followed.found, followed.lines, followed.selfExcluding⟩
  · exact .inr ⟨parses, parsePath_unchanged parses⟩

end Run

namespace Quarry

def crossedScenario : Scenario :=
  { scenario with
    equipment :=
      [{ name := "Loader"
         pathText := "Face '!waiton * !dependon * !waitfree !dependfree"
         path := Path.push {} 1 (.steps [{ source := loaded, destination := some blasted }]) }] }

example :
    let next := ((Run.start config crossedScenario {}).parsePath loader).2.1
    [blasted, loaded].map (fun task =>
        (next.holds.countersOn ⟨loader, task⟩).map (·.predecessors.ids)) =
          [[[drilled], [drilled]], [[drilled], [drilled]]] ∧
      [blasted, loaded].map next.scenario.tasks.predecessors = [[drilled], [drilled]] := by
  decide +kernel

end Quarry

end PathDirectives
