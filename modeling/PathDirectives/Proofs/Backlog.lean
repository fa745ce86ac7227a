import Mathlib.Data.List.Dedup
import PathDirectives.Proofs.Queue

/-!
An agenda against a backlog, which keeps the dated items in one list, in the order in which they
were put in, and looks for the earliest date each time it is asked. An agenda that starts empty
answers every sequence of calls as the backlog does, and each item put in either came out in one
batch or is still there.
-/

namespace PathDirectives

open Calendar

inductive AgendaCall (α : Type) where
  | push (date : Instant) (item : α)
  | pop (now : Instant)

namespace Agenda

variable {α : Type}

def perform (agenda : Agenda α) : AgendaCall α → Agenda α × Option (Batch α)
  | .push date item => (agenda.push date item, none)
  | .pop now =>
      match agenda.popDue now with
      | some (batch, rest) => (rest, some batch)
      | none => (agenda, none)

def performAll (agenda : Agenda α) (calls : List (AgendaCall α)) : Agenda α :=
  calls.foldl (fun agenda call => (agenda.perform call).1) agenda

def replies (agenda : Agenda α) : List (AgendaCall α) → List (Option (Batch α))
  | [] => []
  | call :: rest => (agenda.perform call).2 :: (agenda.perform call).1.replies rest

end Agenda

abbrev Backlog (α : Type) := List (Instant × α)

namespace Backlog

variable {α : Type} {backlog : Backlog α} {date : Instant}

def earliest? : Backlog α → Option Instant
  | [] => none
  | (date, _) :: rest => some ((earliest? rest).elim date date.earlier)

def itemsOn (backlog : Backlog α) (date : Instant) : List α :=
  (backlog.filter fun entry => entry.1 = date).map (·.2)

def without (backlog : Backlog α) (date : Instant) : Backlog α :=
  backlog.filter fun entry => entry.1 ≠ date

def perform (backlog : Backlog α) : AgendaCall α → Backlog α × Option (Batch α)
  | .push date item => (backlog ++ [(date, item)], none)
  | .pop now =>
      match backlog.earliest? with
      | some date =>
          if date ≤ now then (backlog.without date, some (date, backlog.itemsOn date))
          else (backlog, none)
      | none => (backlog, none)

def performAll (backlog : Backlog α) (calls : List (AgendaCall α)) : Backlog α :=
  calls.foldl (fun backlog call => (backlog.perform call).1) backlog

def replies (backlog : Backlog α) : List (AgendaCall α) → List (Option (Batch α))
  | [] => []
  | call :: rest => (backlog.perform call).2 :: (backlog.perform call).1.replies rest

structure IsEarliest (backlog : Backlog α) (date : Instant) : Prop where
  member : date ∈ backlog.map (·.1)
  least : ∀ other ∈ backlog.map (·.1), date ≤ other

theorem IsEarliest.unique {other : Instant} (first : backlog.IsEarliest date)
    (second : backlog.IsEarliest other) : date = other :=
  Instant.le_antisymm (first.least other second.member) (second.least date first.member)

theorem earliest?_eq_none_iff : backlog.earliest? = none ↔ backlog = [] := by
  cases backlog <;> simp [earliest?]

theorem isEarliest_of_earliest? (found : backlog.earliest? = some date) :
    backlog.IsEarliest date := by
  induction backlog generalizing date with
  | nil => simp [earliest?] at found
  | cons entry rest ih =>
      obtain ⟨head, item⟩ := entry
      cases inRest : earliest? rest with
      | none =>
          obtain rfl := earliest?_eq_none_iff.mp inRest
          obtain rfl : head = date := by simpa [earliest?] using found
          exact ⟨by simp, by simp [Instant.le_refl]⟩
      | some behind =>
          obtain ⟨member, least⟩ := ih inRest
          simp only [earliest?, inRest, Option.elim_some, Instant.earlier,
            Option.some.injEq] at found
          split at found
          · rename_i before
            subst found
            refine ⟨by simp, fun other inside => ?_⟩
            rcases List.mem_cons.mp inside with rfl | later
            · exact Instant.le_refl _
            · exact Instant.le_trans before (least other later)
          · rename_i behindHead
            subst found
            refine ⟨List.mem_cons_of_mem _ member, fun other inside => ?_⟩
            rcases List.mem_cons.mp inside with rfl | later
            · exact (Instant.le_total _ _).resolve_left behindHead
            · exact least other later

theorem earliest?_eq_some_iff : backlog.earliest? = some date ↔ backlog.IsEarliest date := by
  refine ⟨isEarliest_of_earliest?, fun earliest => ?_⟩
  cases found : backlog.earliest? with
  | none =>
      have member := earliest.member
      simp [earliest?_eq_none_iff.mp found] at member
  | some other => rw [(isEarliest_of_earliest? found).unique earliest]

theorem pop_eq_some_iff {now : Instant} {batch : Batch α} :
    (backlog.perform (.pop now)).2 = some batch ↔
      backlog.IsEarliest batch.1 ∧ batch.1 ≤ now ∧ batch.2 = backlog.itemsOn batch.1 := by
  obtain ⟨date, items⟩ := batch
  rw [perform, ← earliest?_eq_some_iff]
  cases backlog.earliest? with
  | none => simp
  | some first =>
      by_cases due : first ≤ now
      · simp only [if_pos due, Option.some.injEq, Prod.mk.injEq]
        constructor
        · rintro ⟨rfl, rfl⟩
          exact ⟨rfl, due, rfl⟩
        · rintro ⟨rfl, -, rfl⟩
          exact ⟨rfl, rfl⟩
      · simp only [if_neg due, reduceCtorEq, Option.some.injEq, false_iff, not_and]
        rintro rfl early
        exact absurd early due

end Backlog

/-! ### The agenda and the backlog -/

namespace Agenda

variable {α : Type} {agenda rest : Agenda α} {batch : Batch α} {now : Instant}
  {backlog : Backlog α}

theorem filled_of_popDue (popped : agenda.popDue now = some (batch, rest)) : batch.2 ≠ [] := by
  obtain ⟨batches, total, ordered, filled, counted⟩ := agenda
  cases batches with
  | nil => simp [popDue] at popped
  | cons head tail =>
      simp only [popDue] at popped
      split at popped
      · simp only [Option.some.injEq, Prod.mk.injEq] at popped
        exact popped.1 ▸ filled head List.mem_cons_self
      · simp at popped

/-- An agenda holds a backlog: the same dated items, those of one date in the same order. -/
structure Holds (agenda : Agenda α) (backlog : Backlog α) : Prop where
  perm : agenda.queue.Perm backlog
  order : ∀ date, agenda.queue.filter (fun entry => entry.1 = date) =
    backlog.filter fun entry => entry.1 = date

theorem holds_empty : Holds ({} : Agenda α) [] := ⟨List.Perm.nil, fun _ => rfl⟩

theorem Holds.push (holds : agenda.Holds backlog) (date : Instant) (item : α) :
    (agenda.push date item).Holds (backlog ++ [(date, item)]) := by
  obtain ⟨front, back, parts, pushed, before, behind⟩ := agenda.queue_push date item
  constructor
  · exact (agenda.queue_push_perm date item).trans
      ((holds.perm.cons _).trans (List.perm_append_singleton _ _).symm)
  · intro other
    have own := holds.order other
    rw [parts, List.filter_append] at own
    rw [pushed, List.filter_append, List.filter_append, ← own, List.filter_cons]
    by_cases same : date = other
    · subst same
      have later : back.filter (fun entry => entry.1 = date) = [] := by
        rw [List.filter_eq_nil_iff]
        intro entry member equal
        have ahead := behind entry member
        rw [of_decide_eq_true equal] at ahead
        exact Instant.not_le.mpr ahead (Instant.le_refl _)
      simp [later]
    · simp [same]

theorem queue_filter_of_popDue (popped : agenda.popDue now = some (batch, rest)) :
    (agenda.queue.filter fun entry => entry.1 = batch.1) =
        (batch.2.map fun item => (batch.1, item)) ∧
      rest.queue = Backlog.without agenda.queue batch.1 := by
  obtain ⟨parts, -⟩ := queue_of_popDue popped
  have apart : ∀ entry ∈ rest.queue, entry.1 ≠ batch.1 := by
    intro entry member equal
    have ahead := lt_of_popDue popped entry member
    rw [equal] at ahead
    exact Instant.not_le.mpr ahead (Instant.le_refl _)
  rw [parts, Backlog.without, List.filter_append, List.filter_append]
  constructor
  · have gone : rest.queue.filter (fun entry => entry.1 = batch.1) = [] := by
      simpa [List.filter_eq_nil_iff] using apart
    rw [gone, List.append_nil, List.filter_eq_self]
    simp
  · have kept : rest.queue.filter (fun entry => entry.1 ≠ batch.1) = rest.queue := by
      simpa [List.filter_eq_self] using apart
    rw [kept]
    simp [List.filter_map, Function.comp_def]

theorem Holds.isEarliest (holds : agenda.Holds backlog)
    (popped : agenda.popDue now = some (batch, rest)) : backlog.IsEarliest batch.1 := by
  obtain ⟨parts, -⟩ := queue_of_popDue popped
  have dates : ∀ date, date ∈ backlog.map (·.1) ↔ date ∈ agenda.queue.map (·.1) :=
    fun date => (holds.perm.map (·.1)).mem_iff.symm
  constructor
  · obtain ⟨item, more, filled⟩ := List.exists_cons_of_ne_nil (filled_of_popDue popped)
    rw [dates, parts, filled]
    simp
  · intro date member
    rw [dates, parts, List.map_append, List.mem_append] at member
    rcases member with own | later
    · obtain ⟨entry, inside, rfl⟩ := List.mem_map.mp own
      obtain ⟨item, -, rfl⟩ := List.mem_map.mp inside
      exact Instant.le_refl _
    · obtain ⟨entry, inside, rfl⟩ := List.mem_map.mp later
      exact Int.le_of_lt (lt_of_popDue popped entry inside)

theorem Holds.without (holds : agenda.Holds backlog)
    (popped : agenda.popDue now = some (batch, rest)) :
    rest.Holds (backlog.without batch.1) := by
  obtain ⟨-, left⟩ := queue_filter_of_popDue popped
  constructor
  · rw [left]
    exact holds.perm.filter _
  · intro date
    rw [left, Backlog.without, Backlog.without, List.filter_comm, holds.order date,
      List.filter_comm]

theorem Holds.itemsOn (holds : agenda.Holds backlog)
    (popped : agenda.popDue now = some (batch, rest)) : backlog.itemsOn batch.1 = batch.2 := by
  obtain ⟨own, -⟩ := queue_filter_of_popDue popped
  rw [Backlog.itemsOn, ← holds.order, own]
  simp [Function.comp_def]

theorem Holds.perform (holds : agenda.Holds backlog) (call : AgendaCall α) :
    (agenda.perform call).2 = (backlog.perform call).2 ∧
      (agenda.perform call).1.Holds (backlog.perform call).1 := by
  cases call with
  | push date item => exact ⟨rfl, holds.push date item⟩
  | pop now =>
      rw [Agenda.perform, Backlog.perform]
      cases popped : agenda.popDue now with
      | none =>
          cases earliest : backlog.earliest? with
          | none => exact ⟨rfl, holds⟩
          | some date =>
              have member := (Backlog.isEarliest_of_earliest? earliest).member
              obtain ⟨entry, inside, rfl⟩ := List.mem_map.mp member
              have ahead := lt_of_popDue_none popped entry (holds.perm.mem_iff.mpr inside)
              simp only [if_neg (Instant.not_le.mpr ahead)]
              exact ⟨trivial, holds⟩
      | some result =>
          obtain ⟨batch, rest⟩ := result
          have due := (queue_of_popDue popped).2
          have earliest := Backlog.earliest?_eq_some_iff.mpr (holds.isEarliest popped)
          simp only [earliest, if_pos due, holds.itemsOn popped]
          exact ⟨trivial, holds.without popped⟩

theorem Holds.performAll (holds : agenda.Holds backlog) (calls : List (AgendaCall α)) :
    agenda.replies calls = backlog.replies calls ∧
      (agenda.performAll calls).Holds (backlog.performAll calls) := by
  induction calls generalizing agenda backlog with
  | nil => exact ⟨rfl, holds⟩
  | cons call rest ih =>
      obtain ⟨same, next⟩ := holds.perform call
      obtain ⟨behind, reached⟩ := ih next
      exact ⟨by rw [replies, Backlog.replies, same, behind], reached⟩

theorem Holds.size_eq (holds : agenda.Holds backlog) : agenda.size = backlog.length := by
  rw [← holds.perm.length_eq, size, agenda.counted]
  simp [queue, queueOf, List.length_flatMap]

theorem Holds.isEmpty_iff (holds : agenda.Holds backlog) :
    agenda.isEmpty = true ↔ backlog = [] := by
  rw [isEmpty, holds.size_eq, beq_iff_eq, List.length_eq_zero_iff]

theorem nextDate?_cases (agenda : Agenda α) :
    agenda.nextDate? = none ∧ agenda.queue = [] ∨
      ∃ batch rest, agenda.nextDate? = some batch.1 ∧
        agenda.popDue batch.1 = some (batch, rest) := by
  obtain ⟨batches, total, ordered, filled, counted⟩ := agenda
  cases batches with
  | nil => exact .inl ⟨rfl, rfl⟩
  | cons batch rest => exact .inr ⟨batch, _, rfl, if_pos (Instant.le_refl _)⟩

theorem Holds.nextDate?_eq (holds : agenda.Holds backlog) :
    agenda.nextDate? = backlog.earliest? := by
  rcases agenda.nextDate?_cases with ⟨missing, empty⟩ | ⟨batch, rest, next, popped⟩
  · obtain rfl : backlog = [] := List.nil_perm.mp (empty ▸ holds.perm)
    exact missing
  · rw [next, Backlog.earliest?_eq_some_iff.mpr (holds.isEarliest popped)]

theorem mem_dates_queue {date : Instant} :
    date ∈ agenda.queue.map (·.1) ↔ date ∈ agenda.batches.map (·.1) := by
  constructor
  · intro member
    obtain ⟨entry, inside, rfl⟩ := List.mem_map.mp member
    obtain ⟨batch, stored, same, -⟩ := mem_queueOf.mp inside
    exact same ▸ List.mem_map_of_mem stored
  · intro member
    obtain ⟨batch, stored, rfl⟩ := List.mem_map.mp member
    obtain ⟨item, more, filled⟩ := List.exists_cons_of_ne_nil (agenda.filled batch stored)
    have inside : (batch.1, item) ∈ agenda.queue :=
      mem_queueOf.mpr ⟨batch, stored, rfl, by simp [filled]⟩
    exact List.mem_map_of_mem (f := (·.1)) inside

theorem Holds.dateCount_eq (holds : agenda.Holds backlog) :
    agenda.dateCount = (backlog.map (·.1)).dedup.length := by
  have distinct : (agenda.batches.map (·.1)).Nodup := by
    rw [List.Nodup, List.pairwise_map]
    refine agenda.ordered.imp fun before same => ?_
    rw [same] at before
    exact Instant.not_le.mpr before (Instant.le_refl _)
  have same : (agenda.batches.map (·.1)).Perm (backlog.map (·.1)).dedup := by
    rw [List.perm_ext_iff_of_nodup distinct (List.nodup_dedup _)]
    intro date
    rw [List.mem_dedup, ← (holds.perm.map (·.1)).mem_iff, mem_dates_queue]
  rw [dateCount, ← List.length_map, same.length_eq]

end Agenda

section

variable {α : Type}

def AgendaCall.entries : AgendaCall α → List (Instant × α)
  | .push date item => [(date, item)]
  | .pop _ => []

def pushed (calls : List (AgendaCall α)) : List (Instant × α) :=
  calls.flatMap AgendaCall.entries

def returned (replies : List (Option (Batch α))) : List (Instant × α) :=
  replies.flatMap fun reply => Agenda.queueOf reply.toList

namespace Backlog

theorem itemsOn_append_without (backlog : Backlog α) (date : Instant) :
    (((backlog.itemsOn date).map fun item => (date, item)) ++ backlog.without date).Perm
      backlog := by
  have dated : ((backlog.itemsOn date).map fun item => (date, item)) =
      backlog.filter fun entry => entry.1 = date := by
    rw [itemsOn, List.map_map]
    conv_rhs => rw [← List.map_id (backlog.filter _)]
    refine List.map_congr_left fun entry member => ?_
    obtain rfl : entry.1 = date := by simpa using (List.mem_filter.mp member).2
    rfl
  rw [dated]
  simpa [without] using List.filter_append_perm (fun entry => entry.1 = date) backlog

theorem account_call (backlog : Backlog α) (call : AgendaCall α) :
    (backlog ++ call.entries).Perm
      (Agenda.queueOf (backlog.perform call).2.toList ++ (backlog.perform call).1) := by
  cases call with
  | push date item => exact List.Perm.refl _
  | pop now =>
      rw [AgendaCall.entries, List.append_nil, perform]
      cases backlog.earliest? with
      | none => exact List.Perm.refl _
      | some date =>
          by_cases due : date ≤ now
          · simpa [due] using (backlog.itemsOn_append_without date).symm
          · simp [due]

theorem account (backlog : Backlog α) (calls : List (AgendaCall α)) :
    (backlog ++ pushed calls).Perm
      (returned (backlog.replies calls) ++ backlog.performAll calls) := by
  induction calls generalizing backlog with
  | nil => simp [pushed, returned, replies, performAll]
  | cons call rest ih =>
      have here := (backlog.account_call call).append_right (pushed rest)
      have behind := (ih (backlog.perform call).1).append_left
        (Agenda.queueOf (backlog.perform call).2.toList)
      rw [List.append_assoc, List.append_assoc] at here
      rw [← List.append_assoc _ (returned _)] at behind
      exact here.trans behind

theorem sublist_pushed (backlog : Backlog α) (calls : List (AgendaCall α)) :
    (backlog.performAll calls).Sublist (backlog ++ pushed calls) := by
  induction calls generalizing backlog with
  | nil => simp [pushed, performAll]
  | cons call rest ih =>
      have kept : (backlog.perform call).1.Sublist (backlog ++ call.entries) := by
        cases call with
        | push date item => exact List.Sublist.refl _
        | pop now =>
            rw [AgendaCall.entries, List.append_nil, perform]
            cases backlog.earliest? with
            | none => exact List.Sublist.refl _
            | some date =>
                by_cases due : date ≤ now
                · simp only [if_pos due]
                  exact List.filter_sublist
                · simp [due]
      have behind := (ih (backlog.perform call).1).trans (kept.append_right (pushed rest))
      rwa [List.append_assoc] at behind

end Backlog

namespace Agenda

/-- What an empty agenda answers, and what it tells of itself, once it has answered `calls`. -/
structure Serves (calls : List (AgendaCall α)) : Prop where
  replies : replies {} calls = Backlog.replies [] calls
  pop : ∀ now batch, ((performAll {} calls).perform (.pop now)).2 = some batch ↔
    (Backlog.performAll [] calls).IsEarliest batch.1 ∧ batch.1 ≤ now ∧
      batch.2 = (Backlog.performAll [] calls).itemsOn batch.1
  account : (pushed calls).Perm (returned (Agenda.replies {} calls) ++ Backlog.performAll [] calls)
  order : (Backlog.performAll [] calls).Sublist (pushed calls)
  size : (performAll {} calls).size + (returned (Agenda.replies {} calls)).length =
    (pushed calls).length
  queued : (performAll {} calls).size = (Backlog.performAll [] calls).length
  isEmpty : (performAll {} calls).isEmpty = true ↔ Backlog.performAll [] calls = []
  nextDate : ∀ date, (performAll {} calls).nextDate? = some date ↔
    (Backlog.performAll [] calls).IsEarliest date
  dateCount : (performAll {} calls).dateCount =
    ((Backlog.performAll [] calls).map (·.1)).dedup.length

theorem serves_calls (calls : List (AgendaCall α)) : Serves calls where
  replies := (holds_empty.performAll calls).1
  pop now batch := by
    rw [((holds_empty.performAll calls).2.perform (.pop now)).1, Backlog.pop_eq_some_iff]
  account := by
    rw [(holds_empty.performAll calls).1]
    exact Backlog.account [] calls
  order := Backlog.sublist_pushed [] calls
  size := by
    obtain ⟨same, holds⟩ := holds_empty.performAll calls
    have account := (Backlog.account [] calls).length_eq
    rw [List.nil_append, List.length_append] at account
    rw [holds.size_eq, same]
    omega
  queued := (holds_empty.performAll calls).2.size_eq
  isEmpty := (holds_empty.performAll calls).2.isEmpty_iff
  nextDate date := by
    rw [(holds_empty.performAll calls).2.nextDate?_eq, Backlog.earliest?_eq_some_iff]
  dateCount := (holds_empty.performAll calls).2.dateCount_eq

end Agenda

end

end PathDirectives
