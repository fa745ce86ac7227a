import Mathlib.Data.List.Basic
import Mathlib.Data.List.Induction
import PathDirectives.Scenario.TaskGraph

/-!
Books of the edges of a task graph, kept from the calls on it. For each edge the books have the
place of the call that opened it and the edge as it was last given; removing an edge strikes it out.
The edges of a task are read off the books in order of their places, and each call edits what is
read off as it should edit the edges of a task.
-/

namespace PathDirectives

open Calendar

inductive GraphCall where
  | addTask (name : String) (role : TaskRole) (process : ProcessId)
  | addDependency (id : TaskId) (edge : Dependency)
  | removeDependencies (id : TaskId) (only : Option TaskSet)
  | complete (id : TaskId) (date : Instant)

/-- An edge in the books: the place of the call that opened it and the edge as it was last given. -/
structure BookedEdge where
  since : Nat
  edge : Dependency

def BookedEdge.openedAt (place : Nat) (entry : BookedEdge) : Option Dependency :=
  if entry.since = place then some entry.edge else none

def covers (only : Option TaskSet) (predecessor : TaskId) : Bool :=
  only.elim true (·.contains predecessor)

namespace GraphCall

/-- What a call at a place of the history does to the entry of one edge, which runs from
`predecessor` to `id`. -/
def book (id predecessor : TaskId) (place : Nat) (entry : Option BookedEdge) :
    GraphCall → Option BookedEdge
  | .addDependency owner edge =>
      if owner = id ∧ edge.predecessor = predecessor ∧ predecessor ≠ id then
        some ⟨entry.elim place (·.since), edge⟩
      else entry
  | .removeDependencies owner only =>
      if owner = id ∧ covers only predecessor then none else entry
  | .addTask .. | .complete .. => entry

def source? (id : TaskId) : GraphCall → Option TaskId
  | .addDependency owner edge => if owner = id then some edge.predecessor else none
  | _ => none

def completes? (id : TaskId) : GraphCall → Option Instant
  | .complete owner date => if owner = id then some date else none
  | _ => none

def addsTask : GraphCall → Bool
  | .addTask .. => true
  | _ => false

def edit (id : TaskId) (edges : List Dependency) : GraphCall → List Dependency
  | .addDependency owner edge =>
      if owner = id ∧ edge.predecessor ≠ id then TaskGraph.putEdge edge edges else edges
  | .removeDependencies owner only =>
      if owner = id then TaskGraph.keptEdges only edges else edges
  | .addTask .. | .complete .. => edges

end GraphCall

def booked (calls : List GraphCall) (id predecessor : TaskId) : Option BookedEdge :=
  calls.zipIdx.foldl (fun entry (call, place) => call.book id predecessor place entry) none

def openedEdge? (entries : TaskId → Option BookedEdge) (id : TaskId) :
    GraphCall × Nat → Option Dependency
  | (call, place) => ((call.source? id).bind entries).bind (·.openedAt place)

/-- The edges of a task that are in the books, in order of the places at which they were opened. -/
def bookedEdges (calls : List GraphCall) (id : TaskId) : List Dependency :=
  calls.zipIdx.filterMap (openedEdge? (booked calls id) id)

section

variable {calls : List GraphCall} {call : GraphCall} {id predecessor : TaskId} {edge : Dependency}

theorem booked_concat (calls : List GraphCall) (call : GraphCall) (id predecessor : TaskId) :
    booked (calls ++ [call]) id predecessor =
      call.book id predecessor calls.length (booked calls id predecessor) := by
  simp [booked, List.zipIdx_append]

theorem bookedEdges_concat (calls : List GraphCall) (call : GraphCall) (id : TaskId) :
    bookedEdges (calls ++ [call]) id =
      calls.zipIdx.filterMap (openedEdge? (booked (calls ++ [call]) id) id) ++
        (openedEdge? (booked (calls ++ [call]) id) id (call, calls.length)).toList := by
  rw [bookedEdges, List.zipIdx_append, List.filterMap_append]
  cases last : openedEdge? (booked (calls ++ [call]) id) id (call, calls.length) <;> simp [last]

structure BookedEdge.Genuine (calls : List GraphCall) (id predecessor : TaskId)
    (entry : BookedEdge) : Prop where
  opened : calls[entry.since]?.bind (·.source? id) = some predecessor
  own : entry.edge.predecessor = predecessor
  apart : predecessor ≠ id

theorem BookedEdge.Genuine.since_lt {entry : BookedEdge}
    (genuine : entry.Genuine calls id predecessor) : entry.since < calls.length := by
  have opened := genuine.opened
  rw [Option.bind_eq_some_iff] at opened
  obtain ⟨call, stored, -⟩ := opened
  exact (List.getElem?_eq_some_iff.mp stored).1

theorem BookedEdge.Genuine.concat {entry : BookedEdge}
    (genuine : entry.Genuine calls id predecessor) (call : GraphCall) :
    entry.Genuine (calls ++ [call]) id predecessor := by
  refine { genuine with opened := ?_ }
  rw [List.getElem?_append_left genuine.since_lt]
  exact genuine.opened

theorem genuine_of_booked {entry : BookedEdge} (found : booked calls id predecessor = some entry) :
    entry.Genuine calls id predecessor := by
  induction calls using List.reverseRecOn generalizing entry with
  | nil => simp [booked] at found
  | append_singleton calls call ih =>
      rw [booked_concat] at found
      cases call with
      | addTask name role process => exact (ih found).concat _
      | complete owner date => exact (ih found).concat _
      | removeDependencies owner only =>
          rw [GraphCall.book] at found
          split at found
          · simp at found
          · exact (ih found).concat _
      | addDependency owner edge =>
          rw [GraphCall.book] at found
          split at found
          · rename_i given
            obtain ⟨rfl, rfl, apart⟩ := given
            obtain rfl := Option.some.inj found
            refine ⟨?_, rfl, apart⟩
            cases before : booked calls owner edge.predecessor with
            | none => simp [GraphCall.source?]
            | some old => exact ((ih before).concat _).opened
          · exact (ih found).concat _

/-! ### One call against the books -/

theorem booked_of_openedEdge? {place : Nat}
    (opened : openedEdge? (booked calls id) id (call, place) = some edge) :
    booked calls id edge.predecessor = some ⟨place, edge⟩ := by
  simp only [openedEdge?, BookedEdge.openedAt, Option.bind_eq_some_iff,
    Option.ite_none_right_eq_some, Option.some.injEq] at opened
  obtain ⟨entry, ⟨predecessor, -, found⟩, rfl, rfl⟩ := opened
  exact (genuine_of_booked found).own ▸ found

theorem mem_bookedEdges :
    edge ∈ bookedEdges calls id ↔
      ∃ entry, booked calls id edge.predecessor = some entry ∧ entry.edge = edge := by
  rw [bookedEdges, List.mem_filterMap]
  constructor
  · rintro ⟨⟨call, place⟩, -, opened⟩
    exact ⟨⟨place, edge⟩, booked_of_openedEdge? opened, rfl⟩
  · rintro ⟨entry, found, rfl⟩
    have genuine := genuine_of_booked found
    obtain ⟨call, stored, named⟩ := Option.bind_eq_some_iff.mp genuine.opened
    refine ⟨(call, entry.since), ?_, by simp [openedEdge?, BookedEdge.openedAt, named, found]⟩
    exact List.mem_zipIdx_iff_getElem?.mpr stored

theorem any_bookedEdges (calls : List GraphCall) (id predecessor : TaskId) :
    (bookedEdges calls id).any (·.predecessor == predecessor) =
      (booked calls id predecessor).isSome := by
  rw [Bool.eq_iff_iff, List.any_eq_true, Option.isSome_iff_exists]
  constructor
  · rintro ⟨edge, member, same⟩
    obtain ⟨entry, found, -⟩ := mem_bookedEdges.mp member
    exact ⟨entry, eq_of_beq same ▸ found⟩
  · rintro ⟨entry, found⟩
    have own := (genuine_of_booked found).own
    exact ⟨entry.edge, mem_bookedEdges.mpr ⟨entry, by rw [own, found], rfl⟩, by simp [own]⟩

theorem nodup_bookedEdges (calls : List GraphCall) (id : TaskId) :
    ((bookedEdges calls id).map (·.predecessor)).Nodup := by
  have places : calls.zipIdx.Pairwise fun first second => first.2 ≠ second.2 := by
    rw [← List.pairwise_map, List.zipIdx_map_snd]
    exact List.nodup_range'
  rw [List.Nodup, List.pairwise_map, bookedEdges, List.pairwise_filterMap]
  refine places.imp fun {first second} apart edge opened other given same => apart ?_
  have found := booked_of_openedEdge? opened
  rw [same, booked_of_openedEdge? given] at found
  exact (congrArg BookedEdge.since (Option.some.inj found)).symm

theorem filterMap_openedEdge? {entries : TaskId → Option BookedEdge}
    {edit : Dependency → Option Dependency}
    (edited : ∀ predecessor place, place < calls.length →
      (entries predecessor).bind (·.openedAt place) =
        ((booked calls id predecessor).bind (·.openedAt place)).bind edit) :
    calls.zipIdx.filterMap (openedEdge? entries id) = (bookedEdges calls id).filterMap edit := by
  rw [bookedEdges, List.filterMap_filterMap]
  refine List.filterMap_congr fun pair member => ?_
  obtain ⟨call, place⟩ := pair
  have placed := List.mem_zipIdx_iff_getElem?.mp member
  have before : place < calls.length := (List.getElem?_eq_some_iff.mp placed).1
  dsimp only [openedEdge?]
  cases call.source? id with
  | none => rfl
  | some predecessor => exact edited predecessor place before

theorem bookedEdges_of_unchanged
    (same : ∀ predecessor, booked (calls ++ [call]) id predecessor = booked calls id predecessor)
    (unopened : ∀ predecessor, call.source? id = some predecessor →
      booked calls id predecessor = none) :
    bookedEdges (calls ++ [call]) id = bookedEdges calls id := by
  have books : booked (calls ++ [call]) id = booked calls id := funext same
  have last : openedEdge? (booked calls id) id (call, calls.length) = none := by
    cases named : call.source? id with
    | none => simp [openedEdge?, named]
    | some predecessor => simp [openedEdge?, named, unopened predecessor named]
  rw [bookedEdges_concat, books, last, Option.toList_none, List.append_nil]
  rfl

theorem putEdge_of_nodup {edges : List Dependency}
    (distinct : (edges.map (·.predecessor)).Nodup) :
    TaskGraph.putEdge edge edges =
      if edges.any (·.predecessor == edge.predecessor) then
        edges.map fun other => if other.predecessor = edge.predecessor then edge else other
      else edges ++ [edge] := by
  induction edges with
  | nil => rfl
  | cons other rest ih =>
      rw [List.map_cons, List.nodup_cons] at distinct
      by_cases same : other.predecessor = edge.predecessor
      · have others : ∀ later ∈ rest, later.predecessor ≠ edge.predecessor :=
          fun later member again => distinct.1 (same ▸ again ▸ List.mem_map_of_mem member)
        have kept : (rest.map fun later =>
            if later.predecessor = edge.predecessor then edge else later) = rest := by
          rw [List.map_congr_left fun later member => if_neg (others later member), List.map_id']
        simp [TaskGraph.putEdge, same, kept]
      · rw [TaskGraph.putEdge, if_neg same, ih distinct.2]
        simp only [List.any_cons, beq_eq_false_iff_ne.mpr same, Bool.false_or, List.map_cons,
          if_neg same]
        split <;> rfl

section Given

variable (apart : edge.predecessor ≠ id)

include apart

variable (calls) in
theorem booked_given :
    booked (calls ++ [.addDependency id edge]) id edge.predecessor =
      some ⟨(booked calls id edge.predecessor).elim calls.length (·.since), edge⟩ := by
  simp [booked_concat, GraphCall.book, apart]

omit apart in
theorem booked_given_of_ne (other : predecessor ≠ edge.predecessor) :
    booked (calls ++ [.addDependency id edge]) id predecessor = booked calls id predecessor := by
  simp [booked_concat, GraphCall.book, Ne.symm other]

theorem bookedEdges_open (fresh : booked calls id edge.predecessor = none) :
    bookedEdges (calls ++ [.addDependency id edge]) id = bookedEdges calls id ++ [edge] := by
  have opened := booked_given calls apart
  rw [fresh, Option.elim_none] at opened
  have last : openedEdge? (booked (calls ++ [.addDependency id edge]) id) id
      (.addDependency id edge, calls.length) = some edge := by
    simp [openedEdge?, GraphCall.source?, opened, BookedEdge.openedAt]
  rw [bookedEdges_concat, last, Option.toList_some]
  refine congrArg (· ++ [edge]) (Eq.trans ?_ List.filterMap_some)
  refine filterMap_openedEdge? fun predecessor place before => ?_
  rw [Option.bind_fun_some]
  by_cases same : predecessor = edge.predecessor
  · subst same
    simp [opened, fresh, BookedEdge.openedAt, Nat.ne_of_gt before]
  · rw [booked_given_of_ne same]

theorem bookedEdges_regive {entry : BookedEdge}
    (found : booked calls id edge.predecessor = some entry) :
    bookedEdges (calls ++ [.addDependency id edge]) id =
      (bookedEdges calls id).map fun other =>
        if other.predecessor = edge.predecessor then edge else other := by
  have given := booked_given calls apart
  rw [found, Option.elim_some] at given
  have before := (genuine_of_booked found).since_lt
  have last : openedEdge? (booked (calls ++ [.addDependency id edge]) id) id
      (.addDependency id edge, calls.length) = none := by
    simp [openedEdge?, GraphCall.source?, given, BookedEdge.openedAt, Nat.ne_of_lt before]
  rw [bookedEdges_concat, last, Option.toList_none, List.append_nil, ← List.filterMap_eq_map]
  refine filterMap_openedEdge? fun predecessor place _ => ?_
  by_cases same : predecessor = edge.predecessor
  · subst same
    have own := (genuine_of_booked found).own
    by_cases here : entry.since = place <;> simp [given, found, BookedEdge.openedAt, here, own]
  · rw [booked_given_of_ne same]
    cases other : booked calls id predecessor with
    | none => rfl
    | some kept =>
        have own := (genuine_of_booked other).own
        by_cases here : kept.since = place <;> simp [BookedEdge.openedAt, here, own, same]

end Given

theorem keptEdges_eq (only : Option TaskSet) (edges : List Dependency) :
    TaskGraph.keptEdges only edges = edges.filter fun edge => !covers only edge.predecessor := by
  cases only <;> rfl

theorem bookedEdges_strike (calls : List GraphCall) (id : TaskId) (only : Option TaskSet) :
    bookedEdges (calls ++ [.removeDependencies id only]) id =
      TaskGraph.keptEdges only (bookedEdges calls id) := by
  have struck (predecessor : TaskId) :
      booked (calls ++ [.removeDependencies id only]) id predecessor =
        if covers only predecessor then none else booked calls id predecessor := by
    simp [booked_concat, GraphCall.book]
  have last : openedEdge? (booked (calls ++ [.removeDependencies id only]) id) id
      (.removeDependencies id only, calls.length) = none := rfl
  rw [bookedEdges_concat, last, Option.toList_none, List.append_nil, keptEdges_eq,
    ← List.filterMap_eq_filter]
  refine filterMap_openedEdge? fun predecessor place _ => ?_
  rw [struck]
  cases found : booked calls id predecessor with
  | none => simp
  | some entry =>
      have own := (genuine_of_booked found).own
      cases covered : covers only predecessor <;>
        by_cases here : entry.since = place <;>
          simp [BookedEdge.openedAt, here, own, covered, Option.guard]

theorem bookedEdges_edit (calls : List GraphCall) (call : GraphCall) (id : TaskId) :
    bookedEdges (calls ++ [call]) id = call.edit id (bookedEdges calls id) := by
  cases call with
  | addTask name role process =>
      exact bookedEdges_of_unchanged (fun _ => booked_concat ..) (by simp [GraphCall.source?])
  | complete owner date =>
      exact bookedEdges_of_unchanged (fun _ => booked_concat ..) (by simp [GraphCall.source?])
  | removeDependencies owner only =>
      by_cases own : owner = id
      · subst own
        rw [bookedEdges_strike, GraphCall.edit, if_pos rfl]
      · rw [GraphCall.edit, if_neg own]
        exact bookedEdges_of_unchanged (by simp [booked_concat, GraphCall.book, own])
          (by simp [GraphCall.source?])
  | addDependency owner edge =>
      rw [GraphCall.edit]
      split
      · rename_i given
        obtain ⟨rfl, apart⟩ := given
        rw [putEdge_of_nodup (nodup_bookedEdges calls owner), any_bookedEdges]
        cases found : booked calls owner edge.predecessor with
        | none => exact bookedEdges_open apart found
        | some entry => exact bookedEdges_regive apart found
      · rename_i idle
        refine bookedEdges_of_unchanged (fun predecessor => ?_) fun predecessor named => ?_
        · rw [booked_concat, GraphCall.book, if_neg]
          rintro ⟨rfl, rfl, apart⟩
          exact idle ⟨rfl, apart⟩
        · obtain ⟨rfl, rfl⟩ : owner = id ∧ edge.predecessor = predecessor := by
            simpa [GraphCall.source?] using named
          refine Option.eq_none_iff_forall_ne_some.mpr fun entry found => idle ⟨rfl, ?_⟩
          exact (genuine_of_booked found).apart

end

/-- An edge that is given again stays where it is; one that is removed before goes to the end. -/
example :
    let given (place : Nat) (rule : String) : GraphCall := .addDependency ⟨2⟩ ⟨⟨place⟩, ⟨0⟩, rule⟩
    let calls := [given 0 "first", given 1 "second", given 0 "third"]
    let removal := GraphCall.removeDependencies ⟨2⟩ (some (TaskSet.ofList [⟨0⟩]))
    (bookedEdges calls ⟨2⟩).map (·.rule) = ["third", "second"] ∧
      (bookedEdges (calls ++ [removal, given 0 "fourth"]) ⟨2⟩).map (·.rule) =
        ["second", "fourth"] := by
  decide

end PathDirectives
