import PathDirectives.Scenario.Id

/-!
Finite sets of tasks, kept as increasing lists of ids, so that a set has one form. Members of
`insert`, `ofList`, `filter` and `diff` are what set theory says.
-/

namespace PathDirectives

structure TaskSet where
  ids : List TaskId
  increasing : ids.Pairwise fun left right => left.index < right.index
  deriving DecidableEq

namespace TaskSet

instance : Membership TaskId TaskSet := ⟨fun set id => id ∈ set.ids⟩

instance (id : TaskId) (set : TaskSet) : Decidable (id ∈ set) :=
  inferInstanceAs (Decidable (id ∈ set.ids))

theorem mem_iff {id : TaskId} {set : TaskSet} : id ∈ set ↔ id ∈ set.ids := Iff.rfl

def empty : TaskSet := ⟨[], List.Pairwise.nil⟩

def isEmpty (set : TaskSet) : Bool := set.ids.isEmpty

def size (set : TaskSet) : Nat := set.ids.length

def contains (set : TaskSet) (id : TaskId) : Bool := decide (id ∈ set)

def insertId (id : TaskId) : List TaskId → List TaskId
  | [] => [id]
  | head :: tail =>
      if id.index < head.index then id :: head :: tail
      else if id = head then head :: tail
      else head :: insertId id tail

theorem mem_insertId {id other : TaskId} {ids : List TaskId} :
    other ∈ insertId id ids ↔ other = id ∨ other ∈ ids := by
  induction ids with
  | nil => simp [insertId]
  | cons head tail ih =>
      rw [insertId]
      split
      · simp
      · split
        · rename_i same
          subst same
          simp
        · simp only [List.mem_cons, ih]
          constructor <;> rintro (first | second | third) <;> simp_all

theorem insertId_increasing {id : TaskId} {ids : List TaskId}
    (increasing : ids.Pairwise fun left right => left.index < right.index) :
    (insertId id ids).Pairwise fun left right => left.index < right.index := by
  induction ids with
  | nil => simp [insertId]
  | cons head tail ih =>
      rw [List.pairwise_cons] at increasing
      rw [insertId]
      split
      · rename_i below
        refine List.pairwise_cons.mpr ⟨?_, List.pairwise_cons.mpr increasing⟩
        intro other member
        rcases List.mem_cons.mp member with same | inTail
        · simpa [same] using below
        · exact Nat.lt_trans below (increasing.1 other inTail)
      · rename_i notBelow
        split
        · exact List.pairwise_cons.mpr increasing
        · rename_i different
          refine List.pairwise_cons.mpr ⟨?_, ih increasing.2⟩
          intro other member
          rcases mem_insertId.mp member with same | inTail
          · subst same
            have apart : other.index ≠ head.index := by
              intro sameIndex
              exact different (by cases other; cases head; simpa using sameIndex)
            omega
          · exact increasing.1 other inTail

def insert (id : TaskId) (set : TaskSet) : TaskSet :=
  ⟨insertId id set.ids, insertId_increasing set.increasing⟩

def ofList (ids : List TaskId) : TaskSet :=
  ids.foldr insert empty

def filter (test : TaskId → Bool) (set : TaskSet) : TaskSet :=
  ⟨set.ids.filter test, set.increasing.filter test⟩

def diff (set other : TaskSet) : TaskSet :=
  set.filter fun id => !other.contains id

@[simp] theorem not_mem_empty {id : TaskId} : ¬ id ∈ empty := by
  simp [mem_iff, empty]

@[simp] theorem mem_insert {id other : TaskId} {set : TaskSet} :
    other ∈ set.insert id ↔ other = id ∨ other ∈ set :=
  mem_insertId

@[simp] theorem mem_ofList {id : TaskId} {ids : List TaskId} : id ∈ ofList ids ↔ id ∈ ids := by
  induction ids with
  | nil => simp [ofList]
  | cons head tail ih =>
      rw [show ofList (head :: tail) = (ofList tail).insert head from rfl]
      simp [ih]

@[simp] theorem mem_filter {id : TaskId} {test : TaskId → Bool} {set : TaskSet} :
    id ∈ set.filter test ↔ id ∈ set ∧ test id = true := by
  simp [mem_iff, filter]

@[simp] theorem mem_diff {id : TaskId} {set other : TaskSet} :
    id ∈ set.diff other ↔ id ∈ set ∧ ¬ id ∈ other := by
  simp [diff, contains]

theorem isEmpty_iff {set : TaskSet} : set.isEmpty = true ↔ ∀ id, ¬ id ∈ set := by
  simp [isEmpty, mem_iff, List.eq_nil_iff_forall_not_mem]

end TaskSet

end PathDirectives
