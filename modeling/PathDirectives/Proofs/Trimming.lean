import Mathlib.Data.List.DropRight
import PathDirectives.Text.Blank

/-!
Text without white space at its ends, and what taking characters off an end leaves alone.
-/

namespace PathDirectives.Text

variable {text part front back : List Char} {test : Char → Bool}

structure IsTrimmed (text : List Char) : Prop where
  first : ∀ c, text.head? = some c → isBlank c = false
  last : ∀ c, text.getLast? = some c → isBlank c = false

theorem all_solid_iff {first : Option Char} :
    first.all (!isBlank ·) = true ↔ ∀ c, first = some c → isBlank c = false := by
  cases first <;> simp

instance (text : List Char) : Decidable (IsTrimmed text) :=
  decidable_of_iff
    (text.head?.all (!isBlank ·) = true ∧ text.getLast?.all (!isBlank ·) = true)
    ⟨fun both => ⟨all_solid_iff.mp both.1, all_solid_iff.mp both.2⟩,
      fun trimmed => ⟨all_solid_iff.mpr trimmed.first, all_solid_iff.mpr trimmed.last⟩⟩

theorem isTrimmed_nil : IsTrimmed [] := ⟨by simp, by simp⟩

theorem dropWhile_of_head (head : ∀ c, text.head? = some c → test c = false) :
    text.dropWhile test = text := by
  cases text with
  | nil => rfl
  | cons c rest => simp [head c rfl]

theorem head_dropWhile {c : Char} (head : (text.dropWhile test).head? = some c) :
    test c = false := by
  have stops := List.head?_dropWhile_not test text
  rw [head] at stops
  simpa using stops

theorem dropWhile_exact (passes : ∀ c ∈ front, test c = true)
    (stops : ∀ c, back.head? = some c → test c = false) : (front ++ back).dropWhile test = back := by
  rw [List.dropWhile_append_of_pos passes]
  exact dropWhile_of_head stops

theorem dropWhile_append_of_stops (stops : ∀ c, back.head? = some c → test c = false) :
    (front ++ back).dropWhile test = front.dropWhile test ++ back := by
  rw [List.dropWhile_append, dropWhile_of_head stops]
  split
  · rename_i gone
    simp [List.isEmpty_iff.mp gone]
  · rfl

theorem takeWhile_exact (passes : ∀ c ∈ front, test c = true)
    (stops : ∀ c, back.head? = some c → test c = false) :
    (front ++ back).takeWhile test = front := by
  rw [List.takeWhile_append_of_pos passes]
  cases back with
  | nil => simp
  | cons c rest => simp [stops c rfl]

theorem rdropWhile_of_last (last : ∀ c, text.getLast? = some c → test c = false) :
    text.rdropWhile test = text := by
  rw [List.rdropWhile_eq_self_iff]
  intro filled
  simp [last _ (List.getLast?_eq_some_getLast filled)]

theorem rdropWhile_append (all : ∀ c ∈ back, test c = true) :
    (text ++ back).rdropWhile test = text.rdropWhile test := by
  rw [List.rdropWhile, List.reverse_append, List.dropWhile_append_of_pos]
  · rfl
  · exact fun c member => all c (List.mem_reverse.mp member)

theorem last_rdropWhile {c : Char} (last : (text.rdropWhile test).getLast? = some c) :
    test c = false := by
  obtain ⟨filled, rfl⟩ := List.mem_getLast?_eq_getLast last
  simpa using List.rdropWhile_last_not test text filled

theorem trimEnd_eq (text : List Char) : trimEnd text = text.rdropWhile isBlank := rfl

theorem prefix_trimEnd (text : List Char) : trimEnd text <+: text :=
  List.rdropWhile_prefix isBlank text

theorem trimEnd_of_last (last : ∀ c, text.getLast? = some c → isBlank c = false) :
    trimEnd text = text :=
  rdropWhile_of_last last

theorem last_trimEnd {c : Char} (last : (trimEnd text).getLast? = some c) : isBlank c = false :=
  last_rdropWhile last

theorem trim_padded (trimmed : IsTrimmed text) (before : ∀ c ∈ front, isBlank c = true)
    (behind : ∀ c ∈ back, isBlank c = true) : trim (front ++ (text ++ back)) = text := by
  have start : trimStart (front ++ (text ++ back)) = trimStart (text ++ back) :=
    List.dropWhile_append_of_pos before
  rw [trim, start]
  cases text with
  | nil =>
      have gone : trimStart ([] ++ back) = [] := List.dropWhile_eq_nil_iff.mpr behind
      rw [gone]
      rfl
  | cons c rest =>
      have kept : trimStart (c :: rest ++ back) = c :: rest ++ back :=
        dropWhile_of_head (by simpa using trimmed.first c rfl)
      rw [kept, trimEnd_eq, rdropWhile_append behind]
      exact rdropWhile_of_last trimmed.last

theorem trim_of_isTrimmed (trimmed : IsTrimmed text) : trim text = text := by
  have padded : trim ([] ++ (text ++ [])) = text := trim_padded trimmed (by simp) (by simp)
  simpa using padded

theorem isTrimmed_of_front (trimmed : IsTrimmed text) (within : part <+: text)
    (last : ∀ c, part.getLast? = some c → isBlank c = false) : IsTrimmed part where
  first c head := by
    obtain ⟨more, rfl⟩ := within
    exact trimmed.first c (by simp [List.head?_append, head])
  last := last

theorem isTrimmed_append (starts : front ≠ []) (ends : back ≠ [])
    (first : ∀ c, front.head? = some c → isBlank c = false)
    (last : ∀ c, back.getLast? = some c → isBlank c = false) : IsTrimmed (front ++ back) where
  first c head := by
    rw [List.head?_append_of_ne_nil _ starts] at head
    exact first c head
  last c final := by
    rw [List.getLast?_append_of_ne_nil _ ends] at final
    exact last c final

theorem isTrimmed_trim (text : List Char) : IsTrimmed (trim text) where
  first c head := by
    obtain ⟨more, whole⟩ := prefix_trimEnd (trimStart text)
    have start : (trimStart text).head? = some c := by
      rw [← whole, List.head?_append, ← trim, head]
      rfl
    exact head_dropWhile start
  last _ last := last_trimEnd last

theorem infix_trim (text : List Char) : trim text <:+: text :=
  (prefix_trimEnd _).isInfix.trans (List.dropWhile_suffix isBlank).isInfix

end PathDirectives.Text
