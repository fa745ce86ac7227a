import PathDirectives.Hold.Counter

/-!
One wait counter against the completions that it has been told of.
-/

namespace PathDirectives

open Calendar

namespace TaskSet

theorem nodup (set : TaskSet) : set.ids.Nodup :=
  set.increasing.imp fun below same => by simp [same] at below

@[simp] theorem contains_eq_true {set : TaskSet} {id : TaskId} :
    set.contains id = true ↔ id ∈ set := by
  simp [contains]

theorem ext_members {left right : TaskSet} (same : ∀ id, id ∈ left ↔ id ∈ right) :
    left = right := by
  obtain ⟨leftIds, leftIncreasing⟩ := left
  obtain ⟨rightIds, rightIncreasing⟩ := right
  have permuted : leftIds.Perm rightIds := by
    rw [List.perm_ext_iff_of_nodup (nodup ⟨leftIds, leftIncreasing⟩)
      (nodup ⟨rightIds, rightIncreasing⟩)]
    exact same
  have equal : leftIds = rightIds := by
    refine permuted.eq_of_pairwise ?_ leftIncreasing rightIncreasing
    intro first second _ _ below above
    omega
  subst equal
  rfl

theorem size_insert {set : TaskSet} {id : TaskId} (fresh : ¬ id ∈ set) :
    (set.insert id).size = set.size + 1 := by
  have permuted : (set.insert id).ids.Perm (id :: set.ids) := by
    rw [List.perm_ext_iff_of_nodup (set.insert id).nodup
      (List.nodup_cons.mpr ⟨fresh, set.nodup⟩)]
    intro other
    rw [List.mem_cons]
    exact mem_insert
  simpa [size] using permuted.length_eq

theorem size_le_of_subset {inner outer : TaskSet} (inside : ∀ id ∈ inner, id ∈ outer) :
    inner.size ≤ outer.size := by
  have same : outer.filter inner.contains = inner := by
    refine ext_members fun id => ?_
    rw [mem_filter, contains_eq_true]
    exact ⟨fun both => both.2, fun member => ⟨inside id member, member⟩⟩
  have bound := List.length_filter_le inner.contains outer.ids
  rw [← same]
  exact bound

theorem size_filter (set : TaskSet) (test : TaskId → Bool) :
    (set.filter test).size + (set.filter (!test ·)).size = set.size := by
  simp only [size, filter, ← List.countP_eq_length_filter]
  rw [List.length_eq_countP_add_countP test]
  simp

end TaskSet

namespace WaitCounter

variable {counter : WaitCounter} {task : TaskId} {date : Instant}

theorem counts_iff :
    counter.counts task = true ↔ task ∈ counter.predecessors ∧ ¬ task ∈ counter.completed := by
  simp [counts, TaskSet.contains]

theorem taskCompleted_of_counts (counts : counter.counts task = true) (date : Instant) :
    counter.taskCompleted task date =
      { counter with
        remaining := counter.remaining - 1
        lastDecremented := some date
        completed := counter.completed.insert task } := by
  simp [taskCompleted, counts]

theorem taskCompleted_of_not_counts (passed : ¬ counter.counts task = true) (date : Instant) :
    counter.taskCompleted task date = counter := by
  simp [taskCompleted, passed]

theorem taskCompleted_of_not_mem (other : ¬ task ∈ counter.predecessors) (date : Instant) :
    counter.taskCompleted task date = counter :=
  taskCompleted_of_not_counts (fun counts => other (counts_iff.mp counts).1) date

@[simp] theorem taskCompleted_predecessors (counter : WaitCounter) (task : TaskId)
    (date : Instant) : (counter.taskCompleted task date).predecessors = counter.predecessors := by
  unfold taskCompleted
  split <;> rfl

@[simp] theorem taskCompleted_releaseDelay (counter : WaitCounter) (task : TaskId)
    (date : Instant) : (counter.taskCompleted task date).releaseDelay = counter.releaseDelay := by
  unfold taskCompleted
  split <;> rfl

@[simp] theorem taskCompleted_origin (counter : WaitCounter) (task : TaskId) (date : Instant) :
    (counter.taskCompleted task date).origin = counter.origin := by
  unfold taskCompleted
  split <;> rfl

theorem counts_taskCompleted (counter : WaitCounter) (task other : TaskId) (date : Instant) :
    (counter.taskCompleted other date).counts task =
      (counter.counts task && decide (task ≠ other)) := by
  by_cases counted : counter.counts other = true
  · rw [taskCompleted_of_counts counted]
    by_cases same : task = other
    · simp [counts, TaskSet.contains, same]
    · simp [counts, TaskSet.contains, same]
  · rw [taskCompleted_of_not_counts counted]
    by_cases same : task = other
    · simpa [same] using counted
    · simp [same]

/-- What a counter keeps however it is told: each completion that it has taken is of one of its
predecessors and took it down by one. -/
structure Sound (counter : WaitCounter) : Prop where
  inside : ∀ task ∈ counter.completed, task ∈ counter.predecessors
  remaining : counter.remaining + counter.completed.size = counter.predecessors.size
  lastDecremented : counter.lastDecremented = none ↔ counter.completed.size = 0

theorem sound_new (predecessors : TaskSet) (delay : Span) (origin : Origin) :
    (new predecessors delay origin).Sound where
  inside task member := absurd member TaskSet.not_mem_empty
  remaining := rfl
  lastDecremented := by simp [new, TaskSet.size, TaskSet.empty]

theorem Sound.remaining_pos (sound : counter.Sound) (counts : counter.counts task = true) :
    0 < counter.remaining := by
  obtain ⟨waited, fresh⟩ := counts_iff.mp counts
  have inside : ∀ id ∈ counter.completed.insert task, id ∈ counter.predecessors := by
    intro id member
    rcases TaskSet.mem_insert.mp member with same | before
    · exact same ▸ waited
    · exact sound.inside id before
  have bound := TaskSet.size_le_of_subset inside
  rw [TaskSet.size_insert fresh] at bound
  have total := sound.remaining
  omega

theorem Sound.taskCompleted (sound : counter.Sound) (task : TaskId) (date : Instant) :
    (counter.taskCompleted task date).Sound := by
  by_cases counts : counter.counts task = true
  · have positive := sound.remaining_pos counts
    have total := sound.remaining
    obtain ⟨waited, fresh⟩ := counts_iff.mp counts
    rw [taskCompleted_of_counts counts]
    constructor
    · intro id member
      rcases TaskSet.mem_insert.mp member with same | before
      · exact same ▸ waited
      · exact sound.inside id before
    · simp only [TaskSet.size_insert fresh]
      omega
    · simp [TaskSet.size_insert fresh]
  · rw [taskCompleted_of_not_counts counts]
    exact sound

theorem mem_completed_taskCompleted {other : TaskId} :
    other ∈ (counter.taskCompleted task date).completed ↔
      other ∈ counter.completed ∨ other ∈ counter.predecessors ∧ other = task := by
  by_cases counts : counter.counts task = true
  · obtain ⟨waited, _⟩ := counts_iff.mp counts
    rw [taskCompleted_of_counts counts, TaskSet.mem_insert]
    constructor
    · rintro (rfl | before)
      · exact .inr ⟨waited, rfl⟩
      · exact .inl before
    · rintro (before | ⟨_, same⟩)
      · exact .inr before
      · exact .inl same
  · rw [taskCompleted_of_not_counts counts]
    refine ⟨.inl, ?_⟩
    rintro (before | ⟨waited, rfl⟩)
    · exact before
    · rw [counts_iff, not_and, Decidable.not_not] at counts
      exact counts waited

def tellAll (counter : WaitCounter) (reports : List (TaskId × Instant)) : WaitCounter :=
  reports.foldl (fun counter report => counter.taskCompleted report.1 report.2) counter

variable {reports : List (TaskId × Instant)}

@[simp] theorem tellAll_predecessors (counter : WaitCounter)
    (reports : List (TaskId × Instant)) :
    (counter.tellAll reports).predecessors = counter.predecessors := by
  induction reports generalizing counter with
  | nil => rfl
  | cons report rest ih => exact (ih _).trans (taskCompleted_predecessors _ _ _)

@[simp] theorem tellAll_releaseDelay (counter : WaitCounter)
    (reports : List (TaskId × Instant)) :
    (counter.tellAll reports).releaseDelay = counter.releaseDelay := by
  induction reports generalizing counter with
  | nil => rfl
  | cons report rest ih => exact (ih _).trans (taskCompleted_releaseDelay _ _ _)

@[simp] theorem tellAll_origin (counter : WaitCounter) (reports : List (TaskId × Instant)) :
    (counter.tellAll reports).origin = counter.origin := by
  induction reports generalizing counter with
  | nil => rfl
  | cons report rest ih => exact (ih _).trans (taskCompleted_origin _ _ _)

theorem Sound.tellAll (sound : counter.Sound) (reports : List (TaskId × Instant)) :
    (counter.tellAll reports).Sound := by
  induction reports generalizing counter with
  | nil => exact sound
  | cons report rest ih => exact ih (sound.taskCompleted report.1 report.2)

theorem mem_completed_tellAll {other : TaskId} :
    other ∈ (counter.tellAll reports).completed ↔
      other ∈ counter.completed ∨
        other ∈ counter.predecessors ∧ other ∈ reports.map (·.1) := by
  induction reports generalizing counter with
  | nil => simp [tellAll]
  | cons report rest ih =>
      refine ih.trans ?_
      rw [mem_completed_taskCompleted, taskCompleted_predecessors, List.map_cons, List.mem_cons,
        and_or_left, or_assoc]

theorem tellAll_of_not_counts (passed : ∀ report ∈ reports, ¬ counter.counts report.1 = true) :
    counter.tellAll reports = counter := by
  induction reports with
  | nil => rfl
  | cons report rest ih =>
      have first := taskCompleted_of_not_counts (passed report List.mem_cons_self) report.2
      change (counter.taskCompleted report.1 report.2).tellAll rest = counter
      rw [first]
      exact ih fun other member => passed other (List.mem_cons_of_mem _ member)

end WaitCounter

end PathDirectives
