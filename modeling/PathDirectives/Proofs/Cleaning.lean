import PathDirectives.Directive.Scan
import PathDirectives.Proofs.Trimming

/-!
What cleaning takes off a value and off the positional argument. A value is kept as it is, with a
comma or a closing parenthesis written behind it, just if it does not end in what cleaning takes for
a part of the layout.
-/

namespace PathDirectives

open Text

variable {text value blanks : List Char}

theorem dropTrailing_eq (c : Char) (text : List Char) :
    dropTrailing c text = text.rdropWhile (· == c) := rfl

theorem prefix_dropTrailing (c : Char) (text : List Char) : dropTrailing c text <+: text :=
  List.rdropWhile_prefix _ text

theorem dropTrailing_of_last {c : Char} (last : text.getLast? ≠ some c) :
    dropTrailing c text = text := by
  rw [dropTrailing_eq]
  refine rdropWhile_of_last fun d ends => ?_
  cases same : d == c with
  | false => rfl
  | true => exact absurd (eq_of_beq same ▸ ends) last

theorem dropLastIf_concat (c : Char) (text : List Char) : dropLastIf c (text ++ [c]) = text := by
  simp [dropLastIf]

theorem dropLastIf_of_last {c : Char} (last : text.getLast? ≠ some c) :
    dropLastIf c text = text := if_neg last

theorem prefix_dropLastIf (c : Char) (text : List Char) : dropLastIf c text <+: text := by
  unfold dropLastIf
  split
  · exact List.dropLast_prefix text
  · exact List.prefix_refl text

theorem isTrimmed_concat {c : Char} (trimmed : IsTrimmed value) (solid : isBlank c = false) :
    IsTrimmed (value ++ [c]) where
  first d head := by
    cases value with
    | nil =>
        obtain rfl : c = d := by simpa using head
        exact solid
    | cons e rest => exact trimmed.first d (by simpa using head)
  last d ends := by
    obtain rfl : c = d := by simpa using ends
    exact solid

theorem not_prefix_concat (c : Char) (text : List Char) : ¬ text ++ [c] <+: text := by
  intro within
  have shorter := within.length_le
  rw [List.length_append, List.length_singleton] at shorter
  omega

/-- What of a value without white space around it is kept. -/
def keepValue (text : List Char) : List Char :=
  let value := trimEnd (dropTrailing ',' text)
  let value :=
    if value.count '(' < value.count ')' then trimEnd (dropLastIf ')' value) else value
  trimEnd (dropTrailing ',' value)

theorem cleanValue_eq (raw : List Char) : cleanValue raw = keepValue (trim raw) := rfl

theorem cleanValue_padded (trimmed : IsTrimmed value) (areBlank : ∀ c ∈ blanks, isBlank c = true) :
    cleanValue (value ++ blanks) = keepValue value := by
  have padded : trim ([] ++ (value ++ blanks)) = value := trim_padded trimmed (by simp) areBlank
  rw [cleanValue_eq]
  exact congrArg keepValue padded

theorem prefix_keepValue_trailing (text : List Char) :
    keepValue text <+: trimEnd (dropTrailing ',' text) := by
  have last_step (value : List Char) : trimEnd (dropTrailing ',' value) <+: value :=
    (prefix_trimEnd _).trans (prefix_dropTrailing ',' value)
  unfold keepValue
  dsimp only
  split
  · exact (last_step _).trans ((prefix_trimEnd _).trans (prefix_dropLastIf ')' _))
  · exact last_step _

theorem prefix_keepValue (text : List Char) : keepValue text <+: text :=
  (prefix_keepValue_trailing text).trans ((prefix_trimEnd _).trans (prefix_dropTrailing ',' text))

theorem isTrimmed_keepValue (trimmed : IsTrimmed value) : IsTrimmed (keepValue value) :=
  isTrimmed_of_front trimmed (prefix_keepValue value) fun _ last => last_trimEnd last

theorem keepValue_comma (value : List Char) : keepValue (value ++ [',']) = keepValue value := by
  have dropped : dropTrailing ',' (value ++ [',']) = dropTrailing ',' value :=
    rdropWhile_append (by simp)
  simp only [keepValue, dropped]

theorem keepValue_of_plain (trimmed : IsTrimmed value) (comma : value.getLast? ≠ some ',') :
    keepValue value =
      if value.count '(' < value.count ')' then
        trimEnd (dropTrailing ',' (trimEnd (dropLastIf ')' value)))
      else value := by
  have whole : trimEnd (dropTrailing ',' value) = value := by
    rw [dropTrailing_of_last comma]
    exact trimEnd_of_last trimmed.last
  simp only [keepValue, whole]
  split
  · rfl
  · exact whole

theorem keepValue_eq_self_iff (trimmed : IsTrimmed value) :
    keepValue value = value ↔
      value.getLast? ≠ some ',' ∧
        (value.count '(' < value.count ')' → value.getLast? ≠ some ')') := by
  constructor
  · intro kept
    have comma : value.getLast? ≠ some ',' := by
      intro ends
      obtain ⟨front, rfl⟩ := List.getLast?_eq_some_iff.mp ends
      rw [keepValue_comma] at kept
      exact not_prefix_concat ',' front (kept ▸ prefix_keepValue front)
    refine ⟨comma, fun unbalanced ends => ?_⟩
    obtain ⟨front, rfl⟩ := List.getLast?_eq_some_iff.mp ends
    rw [keepValue_of_plain trimmed comma, if_pos unbalanced, dropLastIf_concat] at kept
    have shorter := ((prefix_trimEnd _).trans (prefix_dropTrailing ',' _)).trans
      (prefix_trimEnd front)
    exact not_prefix_concat ')' front (kept ▸ shorter)
  · rintro ⟨comma, closing⟩
    rw [keepValue_of_plain trimmed comma]
    split
    · rename_i unbalanced
      rw [dropLastIf_of_last (closing unbalanced), trimEnd_of_last trimmed.last,
        dropTrailing_of_last comma, trimEnd_of_last trimmed.last]
    · rfl

theorem keepValue_closed_iff (trimmed : IsTrimmed value) :
    keepValue (value ++ [')']) = value ↔
      value.getLast? ≠ some ',' ∧ value.count '(' ≤ value.count ')' := by
  have closed := isTrimmed_concat trimmed (c := ')') (by decide)
  have counts : (value ++ [')']).count '(' < (value ++ [')']).count ')' ↔
      value.count '(' ≤ value.count ')' := by
    have none_opens : [')'].count '(' = 0 := rfl
    have one_closes : [')'].count ')' = 1 := rfl
    rw [List.count_append, List.count_append]
    omega
  rw [keepValue_of_plain closed (by simp)]
  simp only [counts, dropLastIf_concat, trimEnd_of_last trimmed.last]
  split
  · rename_i balanced
    simp only [balanced, and_true]
    constructor
    · intro kept ends
      obtain ⟨front, rfl⟩ := List.getLast?_eq_some_iff.mp ends
      have dropped : dropTrailing ',' (front ++ [',']) = dropTrailing ',' front :=
        rdropWhile_append (by simp)
      have shorter := (prefix_trimEnd _).trans (prefix_dropTrailing ',' front)
      rw [← dropped, kept] at shorter
      exact not_prefix_concat ',' front shorter
    · intro comma
      rw [dropTrailing_of_last comma, trimEnd_of_last trimmed.last]
  · rename_i open_left
    simp [open_left]

theorem cleanPositional_padded {front : List Char} (trimmed : IsTrimmed value)
    (before : ∀ c ∈ front, isBlank c = true) (behind : ∀ c ∈ blanks, isBlank c = true) :
    cleanPositional (front ++ (value ++ blanks)) = trimEnd (dropLastIf '(' value) := by
  rw [cleanPositional, trim_padded trimmed before behind]

theorem keepPositional_eq_self_iff (trimmed : IsTrimmed value) :
    trimEnd (dropLastIf '(' value) = value ↔ value.getLast? ≠ some '(' := by
  constructor
  · intro kept ends
    obtain ⟨front, rfl⟩ := List.getLast?_eq_some_iff.mp ends
    rw [dropLastIf_concat] at kept
    exact not_prefix_concat '(' front (kept ▸ prefix_trimEnd front)
  · intro plain
    rw [dropLastIf_of_last plain, trimEnd_of_last trimmed.last]

theorem isTrimmed_cleanPositional (raw : List Char) : IsTrimmed (cleanPositional raw) :=
  isTrimmed_of_front (isTrimmed_trim raw) ((prefix_trimEnd _).trans (prefix_dropLastIf '(' _))
    fun _ last => last_trimEnd last

theorem infix_cleanPositional (raw : List Char) : cleanPositional raw <:+: raw :=
  ((prefix_trimEnd _).trans (prefix_dropLastIf '(' _)).isInfix.trans (infix_trim raw)

end PathDirectives
