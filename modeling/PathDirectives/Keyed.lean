/-!
Values under keys, kept in the order in which their keys first came. Only the first value under a
key counts, and no operation here puts a second one there.
-/

namespace PathDirectives.Keyed

variable {κ α : Type} [DecidableEq κ]

def find? (key : κ) : List (κ × α) → Option α
  | [] => none
  | (other, value) :: rest => if other = key then some value else find? key rest

def modify (key : κ) (change : α → α) : List (κ × α) → List (κ × α)
  | [] => []
  | (other, value) :: rest =>
      if other = key then (other, change value) :: rest
      else (other, value) :: modify key change rest

/-- Changes the value under a key, or puts the changed `initial` value under a new key. -/
def update (key : κ) (initial : α) (change : α → α) : List (κ × α) → List (κ × α)
  | [] => [(key, change initial)]
  | (other, value) :: rest =>
      if other = key then (other, change value) :: rest
      else (other, value) :: update key initial change rest

/-- Puts an item at the end of the list under each of several keys. -/
def file (item : α) (keys : List κ) (entries : List (κ × List α)) : List (κ × List α) :=
  keys.foldl (fun entries key => update key [] (· ++ [item]) entries) entries

def erase (key : κ) : List (κ × α) → List (κ × α)
  | [] => []
  | (other, value) :: rest =>
      if other = key then erase key rest else (other, value) :: erase key rest

@[simp] theorem find?_modify (key other : κ) (change : α → α) (entries : List (κ × α)) :
    find? other (modify key change entries) =
      if other = key then (find? other entries).map change else find? other entries := by
  induction entries with
  | nil => simp [modify, find?]
  | cons entry rest ih =>
      obtain ⟨head, value⟩ := entry
      simp only [modify, find?]
      by_cases here : head = key
      · subst here
        by_cases same : head = other
        · subst same
          simp [find?]
        · have apart : other ≠ head := fun equal => same equal.symm
          simp [find?, same, apart]
      · by_cases same : head = other
        · subst same
          simp [find?, here]
        · simp [find?, here, same, ih]

theorem modify_eq_self {key : κ} {change : α → α} {entries : List (κ × α)}
    (same : ∀ value, find? key entries = some value → change value = value) :
    modify key change entries = entries := by
  induction entries with
  | nil => rfl
  | cons entry rest ih =>
      obtain ⟨head, value⟩ := entry
      by_cases here : head = key
      · simp [modify, here, same value (by simp [find?, here])]
      · have later := ih (by simpa [find?, here] using same)
        simp [modify, here, later]

@[simp] theorem find?_update (key other : κ) (initial : α) (change : α → α)
    (entries : List (κ × α)) :
    find? other (update key initial change entries) =
      if other = key then some (change ((find? other entries).getD initial))
      else find? other entries := by
  induction entries with
  | nil =>
      by_cases same : other = key
      · subst same
        simp [update, find?]
      · have apart : key ≠ other := fun equal => same equal.symm
        simp [update, find?, same, apart]
  | cons entry rest ih =>
      obtain ⟨head, value⟩ := entry
      simp only [update, find?]
      by_cases here : head = key
      · subst here
        by_cases same : head = other
        · subst same
          simp [find?]
        · have apart : other ≠ head := fun equal => same equal.symm
          simp [find?, same, apart]
      · by_cases same : head = other
        · subst same
          simp [find?, here]
        · simp [find?, here, same, ih]

theorem find?_file (item : α) (key : κ) {keys : List κ} (distinct : keys.Nodup)
    (entries : List (κ × List α)) :
    (find? key (file item keys entries)).getD [] =
      (find? key entries).getD [] ++ if key ∈ keys then [item] else [] := by
  induction keys generalizing entries with
  | nil => simp [file]
  | cons first rest ih =>
      rw [List.nodup_cons] at distinct
      have step : file item (first :: rest) entries =
          file item rest (update first [] (· ++ [item]) entries) := rfl
      rw [step, ih distinct.2, find?_update]
      by_cases same : key = first
      · subst same
        simp [distinct.1]
      · simp [same]

@[simp] theorem find?_erase (key other : κ) (entries : List (κ × α)) :
    find? other (erase key entries) = if other = key then none else find? other entries := by
  induction entries with
  | nil => simp [erase, find?]
  | cons entry rest ih =>
      obtain ⟨head, value⟩ := entry
      simp only [erase, find?]
      by_cases here : head = key
      · subst here
        by_cases same : other = head
        · subst same
          simp [ih]
        · simp [ih, same, Ne.symm same]
      · by_cases same : head = other
        · subst same
          simp [find?, here]
        · simp [find?, here, same, ih]

end PathDirectives.Keyed
