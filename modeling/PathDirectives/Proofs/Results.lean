import Mathlib.Logic.Basic

/-!
Computations that can fail: what is known once a chain of them, or a list of them, has succeeded.
-/

namespace PathDirectives

variable {ε α β : Type}

theorem bind_eq_ok {first : Except ε α} {next : α → Except ε β} {result : β} :
    (first >>= next) = .ok result ↔ ∃ value, first = .ok value ∧ next value = .ok result := by
  cases first <;> simp [bind, Except.bind]

theorem map_eq_ok {first : Except ε α} {change : α → β} {result : β} :
    first.map change = .ok result ↔ ∃ value, first = .ok value ∧ change value = result := by
  cases first <;> simp [Except.map]

/-- Reading a list stops at the first error; without one, just what is read of each is there. -/
theorem mapM_cases (read : α → Except ε β) (inputs : List α) :
    ((∀ input ∈ inputs, ∃ result, read input = .ok result) ∧
        ∃ results, inputs.mapM read = .ok results ∧
          ∀ result, result ∈ results ↔ ∃ input ∈ inputs, read input = .ok result) ∨
      ∃ input ∈ inputs, ∃ error, read input = .error error ∧ inputs.mapM read = .error error := by
  induction inputs with
  | nil => exact .inl ⟨by simp, [], rfl, by simp⟩
  | cons first others ih =>
      rw [List.mapM_cons]
      cases own : read first with
      | error error => exact .inr ⟨first, List.mem_cons_self, error, own, rfl⟩
      | ok result =>
          rcases ih with ⟨each, results, done, among⟩ | ⟨input, inside, error, failed, stopped⟩
          · refine .inl ⟨List.forall_mem_cons.mpr ⟨⟨result, own⟩, each⟩, result :: results, ?_, ?_⟩
            · rw [done]
              rfl
            · intro other
              simp [among, own, eq_comm]
          · exact .inr ⟨input, List.mem_cons_of_mem _ inside, error, failed, by rw [stopped]; rfl⟩

theorem mem_of_mapM_ok {read : α → Except ε β} {inputs : List α} {results : List β}
    (done : inputs.mapM read = .ok results) :
    ∀ result ∈ results, ∃ input ∈ inputs, read input = .ok result := by
  rcases mapM_cases read inputs with ⟨-, others, also, among⟩ | ⟨-, -, error, -, stopped⟩
  · obtain rfl := Except.ok.inj (done.symm.trans also)
    exact fun result member => (among result).mp member
  · rw [stopped] at done
    simp at done

end PathDirectives
