import PathDirectives.Run.Site

/-!
An agenda as one queue of dated items, and the drain as taking the due items off its front one after
the other.
-/

namespace PathDirectives

open Calendar

namespace Agenda

variable {α : Type} {agenda rest : Agenda α} {batch : Batch α} {now : Instant}

def queueOf (batches : List (Batch α)) : List (Instant × α) :=
  batches.flatMap fun batch => batch.2.map fun item => (batch.1, item)

def queue (agenda : Agenda α) : List (Instant × α) := queueOf agenda.batches

@[simp] theorem queueOf_nil : queueOf ([] : List (Batch α)) = [] := by simp [queueOf]

@[simp] theorem queueOf_cons (batch : Batch α) (rest : List (Batch α)) :
    queueOf (batch :: rest) = (batch.2.map fun item => (batch.1, item)) ++ queueOf rest := rfl

theorem mem_queueOf {batches : List (Batch α)} {entry : Instant × α} :
    entry ∈ queueOf batches ↔ ∃ batch ∈ batches, entry.1 = batch.1 ∧ entry.2 ∈ batch.2 := by
  obtain ⟨date, item⟩ := entry
  simp only [queueOf, List.mem_flatMap, List.mem_map, Prod.mk.injEq]
  constructor
  · rintro ⟨batch, member, other, inside, rfl, rfl⟩
    exact ⟨batch, member, rfl, inside⟩
  · rintro ⟨batch, member, rfl, inside⟩
    exact ⟨batch, member, item, inside, rfl, rfl⟩

theorem queueOf_place (date : Instant) (item : α) {batches : List (Batch α)}
    (ordered : batches.Pairwise fun earlier later => earlier.1 < later.1) :
    ∃ front back, queueOf batches = front ++ back ∧
      queueOf (place date item batches) = front ++ (date, item) :: back ∧
        (∀ entry ∈ front, entry.1 ≤ date) ∧ ∀ entry ∈ back, date < entry.1 := by
  induction batches with
  | nil => exact ⟨[], [], rfl, rfl, by simp, by simp⟩
  | cons batch rest ih =>
      obtain ⟨other, items⟩ := batch
      rw [List.pairwise_cons] at ordered
      have dates : ∀ entry ∈ queueOf rest, other < entry.1 := by
        intro entry member
        obtain ⟨batch, inside, sameDate, _⟩ := mem_queueOf.mp member
        exact sameDate ▸ ordered.1 batch inside
      have own : ∀ entry ∈ items.map fun item => (other, item), entry.1 = other := by
        intro entry member
        obtain ⟨item, _, rfl⟩ := List.mem_map.mp member
        rfl
      rw [place]
      split
      · rename_i before
        refine ⟨[], queueOf ((other, items) :: rest), rfl, rfl, by simp, ?_⟩
        intro entry member
        rcases List.mem_append.mp member with first | behind
        · exact (own entry first) ▸ before
        · exact Int.lt_trans before (dates entry behind)
      · rename_i notBefore
        split
        · rename_i same
          subst same
          refine ⟨_, queueOf rest, queueOf_cons _ _, by simp, ?_, dates⟩
          exact fun entry member => Int.le_of_eq (by rw [own entry member])
        · obtain ⟨front, back, split, placed, past, ahead⟩ := ih ordered.2
          refine ⟨(items.map fun item => (other, item)) ++ front, back, ?_, ?_, ?_, ahead⟩
          · rw [queueOf_cons, split, List.append_assoc]
          · rw [queueOf_cons, placed, List.append_assoc]
          · intro entry member
            rcases List.mem_append.mp member with first | later
            · exact own entry first ▸ Instant.not_lt.mp notBefore
            · exact past entry later

theorem queue_push (agenda : Agenda α) (date : Instant) (item : α) :
    ∃ front back, agenda.queue = front ++ back ∧
      (agenda.push date item).queue = front ++ (date, item) :: back ∧
        (∀ entry ∈ front, entry.1 ≤ date) ∧ ∀ entry ∈ back, date < entry.1 :=
  queueOf_place date item agenda.ordered

theorem queue_push_perm (agenda : Agenda α) (date : Instant) (item : α) :
    (agenda.push date item).queue.Perm ((date, item) :: agenda.queue) := by
  obtain ⟨front, back, parts, pushed, _⟩ := agenda.queue_push date item
  rw [pushed, parts]
  exact List.perm_middle

theorem queue_of_popDue (popped : agenda.popDue now = some (batch, rest)) :
    agenda.queue = (batch.2.map fun item => (batch.1, item)) ++ rest.queue ∧ batch.1 ≤ now := by
  obtain ⟨batches, total, ordered, filled, counted⟩ := agenda
  cases batches with
  | nil => simp [popDue] at popped
  | cons head tail =>
      simp only [popDue] at popped
      split at popped
      · rename_i due
        simp only [Option.some.injEq, Prod.mk.injEq] at popped
        obtain ⟨rfl, rfl⟩ := popped
        exact ⟨rfl, due⟩
      · simp at popped

theorem lt_of_popDue (popped : agenda.popDue now = some (batch, rest)) :
    ∀ entry ∈ rest.queue, batch.1 < entry.1 := by
  obtain ⟨batches, total, ordered, filled, counted⟩ := agenda
  cases batches with
  | nil => simp [popDue] at popped
  | cons head tail =>
      simp only [popDue] at popped
      split at popped
      · simp only [Option.some.injEq, Prod.mk.injEq] at popped
        obtain ⟨rfl, rfl⟩ := popped
        intro entry member
        obtain ⟨batch, inside, sameDate, _⟩ := mem_queueOf.mp member
        exact sameDate ▸ (List.pairwise_cons.mp ordered).1 batch inside
      · simp at popped

theorem lt_of_popDue_none (empty : agenda.popDue now = none) :
    ∀ entry ∈ agenda.queue, now < entry.1 := by
  obtain ⟨batches, total, ordered, filled, counted⟩ := agenda
  cases batches with
  | nil => simp [queue]
  | cons head tail =>
      simp only [popDue] at empty
      split at empty
      · simp at empty
      · rename_i ahead
        have headAhead := Instant.not_le.mp ahead
        intro entry member
        obtain ⟨batch, inside, sameDate, _⟩ := mem_queueOf.mp member
        rw [sameDate]
        rcases List.mem_cons.mp inside with same | behind
        · exact same ▸ headAhead
        · exact Int.lt_trans headAhead ((List.pairwise_cons.mp ordered).1 batch behind)

end Agenda

namespace Site

variable {site next : Site} {agenda rest : Agenda Action} {now : Instant}

theorem applyAll_append_ok {first second : List Action} {middle last : Site}
    (left : site.applyAll first = (middle, .ok ()))
    (right : middle.applyAll second = (last, .ok ())) :
    site.applyAll (first ++ second) = (last, .ok ()) := by
  induction first generalizing site with
  | nil =>
      simp only [applyAll, Prod.mk.injEq, and_true] at left
      rw [left]
      exact right
  | cons action more ih =>
      simp only [List.cons_append, applyAll] at left ⊢
      split at left
      · exact ih left
      · simp at left

theorem applyAll_preserves {Kept : Site → Prop}
    (step : ∀ site action, Kept site → Kept (site.apply action).1) (kept : Kept site)
    (actions : List Action) : Kept (site.applyAll actions).1 := by
  induction actions generalizing site with
  | nil => exact kept
  | cons action rest ih =>
      have first := step site action kept
      rw [applyAll]
      split
      · rename_i middle applied
        rw [applied] at first
        exact ih first
      · rename_i middle error failed
        rw [failed] at first
        exact first

theorem drain_preserves {Kept : Site → Prop}
    (step : ∀ site action, Kept site → Kept (site.apply action).1) (kept : Kept site)
    (agenda : Agenda Action) (now : Instant) : Kept (site.drain agenda now).1 := by
  fun_induction site.drain agenda now with
  | case1 site agenda empty => exact kept
  | case2 site agenda batch behind popped middle applied ih =>
      have first := applyAll_preserves step kept batch.2
      rw [applied] at first
      exact ih first
  | case3 site agenda batch behind popped middle error failed =>
      have first := applyAll_preserves step kept batch.2
      rw [failed] at first
      exact first

/-- A drain that succeeds has applied, in order, the due items at the front of the queue. -/
theorem drain_ok (drained : site.drain agenda now = (next, rest, .ok ())) :
    ∃ due, agenda.queue = due ++ rest.queue ∧ (∀ entry ∈ due, entry.1 ≤ now) ∧
      (∀ entry ∈ rest.queue, now < entry.1) ∧
        site.applyAll (due.map (·.2)) = (next, .ok ()) := by
  fun_induction site.drain agenda now with
  | case1 site agenda empty =>
      simp only [Prod.mk.injEq, and_true] at drained
      obtain ⟨rfl, rfl⟩ := drained
      exact ⟨[], rfl, by simp, Agenda.lt_of_popDue_none empty, rfl⟩
  | case2 site agenda batch behind popped middle applied ih =>
      obtain ⟨due, queued, past, ahead, rest⟩ := ih drained
      obtain ⟨split, batchPast⟩ := Agenda.queue_of_popDue popped
      refine ⟨(batch.2.map fun item => (batch.1, item)) ++ due, ?_, ?_, ahead, ?_⟩
      · rw [split, queued, List.append_assoc]
      · intro entry member
        rcases List.mem_append.mp member with first | later
        · obtain ⟨item, _, rfl⟩ := List.mem_map.mp first
          exact batchPast
        · exact past entry later
      · have items : ((batch.2.map fun item => (batch.1, item)).map (·.2)) = batch.2 := by
          simp [Function.comp_def]
        rw [List.map_append, items]
        exact applyAll_append_ok applied rest
  | case3 site agenda batch behind popped middle error failed => simp at drained

end Site

end PathDirectives
