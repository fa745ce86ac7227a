import PathDirectives.Calendar.Instant

/-!
An agenda: items with a date, taken out in batches. The earliest date comes out first, with all its
items in the order in which they were put in. The agenda counts its items as they come and go.
-/

namespace PathDirectives

open Calendar

abbrev Batch (α : Type) := Instant × List α

structure Agenda (α : Type) where
  batches : List (Batch α) := []
  total : Nat := 0
  ordered : batches.Pairwise fun earlier later => earlier.1 < later.1 := by exact List.Pairwise.nil
  filled : ∀ batch ∈ batches, batch.2 ≠ [] := by simp
  counted : total = (batches.flatMap (·.2)).length := by rfl

namespace Agenda

variable {α : Type}

def place (date : Instant) (item : α) : List (Batch α) → List (Batch α)
  | [] => [(date, [item])]
  | (other, items) :: rest =>
      if date < other then (date, [item]) :: (other, items) :: rest
      else if date = other then (other, items ++ [item]) :: rest
      else (other, items) :: place date item rest

theorem mem_dates_place {date other : Instant} {item : α} {batches : List (Batch α)} :
    other ∈ (place date item batches).map (·.1) ↔ other = date ∨ other ∈ batches.map (·.1) := by
  induction batches with
  | nil => simp [place]
  | cons batch rest ih =>
      obtain ⟨head, items⟩ := batch
      rw [place]
      split
      · simp
      · split
        · rename_i same
          subst same
          simp
        · rw [List.map_cons, List.mem_cons, ih, List.map_cons, List.mem_cons]
          constructor <;> rintro (first | second | third) <;> simp_all

theorem place_ordered {date : Instant} {item : α} {batches : List (Batch α)}
    (ordered : batches.Pairwise fun earlier later => earlier.1 < later.1) :
    (place date item batches).Pairwise fun earlier later => earlier.1 < later.1 := by
  induction batches with
  | nil => simp [place]
  | cons batch rest ih =>
      obtain ⟨head, items⟩ := batch
      rw [List.pairwise_cons] at ordered
      rw [place]
      split
      · rename_i before
        refine List.pairwise_cons.mpr ⟨?_, List.pairwise_cons.mpr ordered⟩
        intro other member
        rcases List.mem_cons.mp member with same | inRest
        · subst same
          exact before
        · have behind := ordered.1 other inRest
          rw [Instant.lt_iff] at before behind ⊢
          exact Int.lt_trans before behind
      · rename_i notBefore
        split
        · exact List.pairwise_cons.mpr ordered
        · rename_i different
          refine List.pairwise_cons.mpr ⟨?_, ih ordered.2⟩
          intro other member
          have date' := mem_dates_place.mp (List.mem_map_of_mem (f := (·.1)) member)
          rcases date' with same | inRest
          · rw [same, ← Instant.not_le]
            intro below
            exact different (Instant.le_antisymm below (Instant.not_lt.mp notBefore))
          · obtain ⟨batch, inside, same⟩ := List.mem_map.mp inRest
            have behind := ordered.1 batch inside
            simpa [same] using behind

theorem place_filled {date : Instant} {item : α} {batches : List (Batch α)}
    (filled : ∀ batch ∈ batches, batch.2 ≠ []) :
    ∀ batch ∈ place date item batches, batch.2 ≠ [] := by
  induction batches with
  | nil => simp [place]
  | cons head rest ih =>
      obtain ⟨other, items⟩ := head
      intro batch member
      rw [place] at member
      split at member
      · rcases List.mem_cons.mp member with same | inRest
        · simp [same]
        · exact filled batch inRest
      · split at member
        · rcases List.mem_cons.mp member with same | inRest
          · simp [same]
          · exact filled batch (List.mem_cons_of_mem _ inRest)
        · rcases List.mem_cons.mp member with same | inRest
          · exact filled batch (by simp [same])
          · exact ih (fun batch inside => filled batch (List.mem_cons_of_mem _ inside)) batch inRest

theorem place_counted {date : Instant} {item : α} {batches : List (Batch α)} :
    ((place date item batches).flatMap (·.2)).length = (batches.flatMap (·.2)).length + 1 := by
  induction batches with
  | nil => rfl
  | cons head rest ih =>
      obtain ⟨other, items⟩ := head
      rw [place]
      split
      · simp [Nat.add_comm]
      · split
        · simp only [List.flatMap_cons, List.length_append, List.length_singleton]
          omega
        · simp only [List.flatMap_cons, List.length_append, ih]
          omega

theorem tail_counted {batch : Batch α} {rest : List (Batch α)} {total : Nat}
    (counted : total = ((batch :: rest).flatMap (·.2)).length) :
    total - batch.2.length = (rest.flatMap (·.2)).length := by
  rw [counted, List.flatMap_cons, List.length_append, Nat.add_sub_cancel_left]

def push (agenda : Agenda α) (date : Instant) (item : α) : Agenda α where
  batches := place date item agenda.batches
  total := agenda.total + 1
  ordered := place_ordered agenda.ordered
  filled := place_filled agenda.filled
  counted := by rw [place_counted, agenda.counted]

/-- The earliest batch, if it is due, and the agenda without it. -/
def popDue (agenda : Agenda α) (now : Instant) : Option (Batch α × Agenda α) :=
  match agenda with
  | { batches := [], .. } => none
  | { batches := batch :: rest, total, ordered, filled, counted } =>
      if batch.1 ≤ now then
        some
          (batch,
           { batches := rest
             total := total - batch.2.length
             ordered := ordered.of_cons
             filled := fun other member => filled other (List.mem_cons_of_mem _ member)
             counted := tail_counted counted })
      else none

def nextDate? (agenda : Agenda α) : Option Instant := agenda.batches.head?.map (·.1)

def size (agenda : Agenda α) : Nat := agenda.total

def isEmpty (agenda : Agenda α) : Bool := agenda.size == 0

def dateCount (agenda : Agenda α) : Nat := agenda.batches.length

theorem popDue_shorter {agenda rest : Agenda α} {now : Instant} {batch : Batch α}
    (popped : agenda.popDue now = some (batch, rest)) : rest.dateCount < agenda.dateCount := by
  obtain ⟨batches, total, ordered, filled, counted⟩ := agenda
  cases batches with
  | nil => simp [popDue] at popped
  | cons head tail =>
      simp only [popDue] at popped
      split at popped
      · simp only [Option.some.injEq, Prod.mk.injEq] at popped
        obtain ⟨-, rfl⟩ := popped
        simp [dateCount]
      · simp at popped

end Agenda

end PathDirectives
