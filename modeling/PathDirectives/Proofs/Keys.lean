import PathDirectives.Directive.Scan
import PathDirectives.Proofs.Trimming

/-!
Where keys stand in a body: an identifier behind a character that may lead one, and behind it an
equals sign. The search for the next key finds the first such place and nothing else, so that text
without a key can be put in front of another without hiding the other's keys.
-/

namespace PathDirectives

open Text

variable {text front rest key after word : List Char} {c lead : Char} {cut : KeyCut}

def IsIdentifier (word : List Char) : Prop :=
  ∃ c rest, word = c :: rest ∧ isKeyStart c = true ∧ ∀ d ∈ rest, isWordChar d = true

instance : Decidable (IsIdentifier word) :=
  match word with
  | [] => isFalse fun ⟨_, _, whole, _⟩ => by simp at whole
  | c :: rest =>
      decidable_of_iff (isKeyStart c = true ∧ rest.all isWordChar = true)
        ⟨fun both => ⟨c, rest, rfl, both.1, List.all_eq_true.mp both.2⟩,
          by rintro ⟨_, _, ⟨⟩, starts, follows⟩; exact ⟨starts, List.all_eq_true.mpr follows⟩⟩

/-- Somewhere in the text an identifier stands behind white space, a comma or an opening
parenthesis, with an equals sign and at most white space behind it. -/
def HoldsKey (text : List Char) : Prop :=
  ∃ before lead key blanks after, text = before ++ lead :: (key ++ (blanks ++ '=' :: after)) ∧
    isKeyLead lead = true ∧ IsIdentifier key ∧ ∀ c ∈ blanks, isBlank c = true

theorem isWordChar_range (isWord : isWordChar c = true) : 48 ≤ c.toNat ∧ c.toNat ≤ 122 := by
  have kinds : c.isUpper = true ∨ c.isLower = true ∨ c.isDigit = true ∨ c = '_' := by
    have parts : (((c.isUpper || c.isLower) || c.isDigit) || c == '_') = true := isWord
    simpa [or_assoc] using parts
  have within {low high : Char} (lower : low.val ≤ c.val) (upper : c.val ≤ high.val) :
      low.toNat ≤ c.toNat ∧ c.toNat ≤ high.toNat :=
    ⟨UInt32.le_iff_toNat_le.mp lower, UInt32.le_iff_toNat_le.mp upper⟩
  rcases kinds with upper | lower | digit | rfl
  · have range : 'A'.val ≤ c.val ∧ c.val ≤ 'Z'.val := of_decide_eq_true upper
    have bounds := within range.1 range.2
    exact ⟨Nat.le_trans (by decide) bounds.1, Nat.le_trans bounds.2 (by decide)⟩
  · have range := (Bool.and_eq_true _ _).mp lower
    have bounds := within (of_decide_eq_true range.1) (of_decide_eq_true range.2)
    exact ⟨Nat.le_trans (by decide) bounds.1, Nat.le_trans bounds.2 (by decide)⟩
  · have range := (Bool.and_eq_true _ _).mp digit
    have bounds := within (of_decide_eq_true range.1) (of_decide_eq_true range.2)
    exact ⟨Nat.le_trans (by decide) bounds.1, Nat.le_trans bounds.2 (by decide)⟩
  · decide

theorem isWordChar_of_isBlank (blank : isBlank c = true) : isWordChar c = false := by
  cases isWord : isWordChar c with
  | false => rfl
  | true =>
      have range := isWordChar_range isWord
      simp only [isBlank, Bool.or_eq_true, Bool.and_eq_true, decide_eq_true_eq, beq_iff_eq] at blank
      omega

theorem isWordChar_of_isKeyStart (starts : isKeyStart c = true) : isWordChar c = true := by
  simp only [isKeyStart, isWordChar, Char.isAlphanum, Bool.or_eq_true] at starts ⊢
  tauto

theorem isWordChar_of_isKeyLead (leads : isKeyLead lead = true) : isWordChar lead = false := by
  simp only [isKeyLead, Bool.or_eq_true, beq_iff_eq] at leads
  rcases leads with (blank | rfl) | rfl
  · exact isWordChar_of_isBlank blank
  · decide
  · decide

theorem isKeyStart_eq_false (notWord : isWordChar c = false) : isKeyStart c = false := by
  cases starts : isKeyStart c with
  | false => rfl
  | true => rw [isWordChar_of_isKeyStart starts] at notWord; exact notWord

theorem endsBody_of_isWordChar (isWord : isWordChar c = true) : endsBody c = false := by
  cases ends : endsBody c with
  | false => rfl
  | true =>
      have range := isWordChar_range isWord
      simp only [endsBody, Bool.or_eq_true, beq_iff_eq] at ends
      rcases ends with (rfl | rfl) | rfl <;> exact absurd range (by decide)

theorem endsBody_of_isBlank (blank : isBlank c = true) : endsBody c = false := by
  cases ends : endsBody c with
  | false => rfl
  | true =>
      simp only [endsBody, Bool.or_eq_true, beq_iff_eq] at ends
      rcases ends with (rfl | rfl) | rfl <;> exact absurd blank (by decide)

theorem IsIdentifier.isWordChar (identifier : IsIdentifier word) :
    ∀ c ∈ word, isWordChar c = true := by
  obtain ⟨c, rest, rfl, starts, follows⟩ := identifier
  intro d member
  rcases List.mem_cons.mp member with rfl | inRest
  · exact isWordChar_of_isKeyStart starts
  · exact follows d inRest

theorem keyHere?_eq_some_iff :
    keyHere? text = some (key, after) ↔
      ∃ blanks, text = key ++ (blanks ++ '=' :: after) ∧ IsIdentifier key ∧
        ∀ c ∈ blanks, isBlank c = true := by
  constructor
  · intro found
    cases text with
    | nil => simp [keyHere?] at found
    | cons c rest =>
        simp only [keyHere?] at found
        split at found
        · rename_i starts
          split at found
          · rename_i tail same
            simp only [Option.some.injEq, Prod.mk.injEq] at found
            obtain ⟨rfl, rfl⟩ := found
            refine ⟨(rest.dropWhile isWordChar).takeWhile isBlank, ?_, ⟨c, _, rfl, starts, ?_⟩, ?_⟩
            · have inner : (rest.dropWhile isWordChar).takeWhile isBlank ++ '=' :: tail =
                  rest.dropWhile isWordChar := by
                rw [← same]
                exact List.takeWhile_append_dropWhile
              rw [inner, List.cons_append, List.takeWhile_append_dropWhile]
            · exact fun d member => List.all_eq_true.mp List.all_takeWhile d member
            · exact fun d member => List.all_eq_true.mp List.all_takeWhile d member
          · simp at found
        · simp at found
  · rintro ⟨blanks, rfl, ⟨c, tail, rfl, starts, follows⟩, areBlank⟩
    have stops : ∀ d, (blanks ++ '=' :: after).head? = some d → isWordChar d = false := by
      intro d head
      cases blanks with
      | nil =>
          obtain rfl : '=' = d := by simpa using head
          decide
      | cons blank more =>
          obtain rfl : blank = d := by simpa using head
          exact isWordChar_of_isBlank (areBlank blank List.mem_cons_self)
    have dropped : (tail ++ (blanks ++ '=' :: after)).dropWhile isWordChar = blanks ++ '=' :: after :=
      dropWhile_exact follows stops
    have taken : (tail ++ (blanks ++ '=' :: after)).takeWhile isWordChar = tail :=
      takeWhile_exact follows stops
    have trimmed : trimStart (blanks ++ '=' :: after) = '=' :: after :=
      dropWhile_exact areBlank (by simp; decide)
    simp only [List.cons_append, keyHere?, starts, if_true, dropped, taken, trimmed]

theorem keyHere?_append_of_some (found : keyHere? text = some (key, after)) (rest : List Char) :
    keyHere? (text ++ rest) = some (key, after ++ rest) := by
  rw [keyHere?_eq_some_iff] at found ⊢
  obtain ⟨blanks, rfl, identifier, areBlank⟩ := found
  exact ⟨blanks, by simp, identifier, areBlank⟩

/-- Text that carries on neither a word nor the white space between a key and its equals sign. -/
structure Parts (rest : List Char) : Prop where
  word : ∀ c, rest.head? = some c → isWordChar c = false
  equals : (trimStart rest).head? ≠ some '='

theorem keyHere?_append_of_none (parts : Parts rest) (missing : keyHere? text = none) :
    keyHere? (text ++ rest) = none := by
  cases text with
  | nil =>
      cases rest with
      | nil => rfl
      | cons c tail => simp [keyHere?, isKeyStart_eq_false (parts.word c rfl)]
  | cons c tail =>
      have dropped : (tail ++ rest).dropWhile isWordChar = tail.dropWhile isWordChar ++ rest :=
        dropWhile_append_of_stops parts.word
      simp only [List.cons_append, keyHere?, dropped] at missing ⊢
      split
      · rename_i starts
        rw [if_pos starts] at missing
        cases inside : trimStart (tail.dropWhile isWordChar) with
        | nil =>
            have passed : trimStart (tail.dropWhile isWordChar ++ rest) = trimStart rest :=
              List.dropWhile_append_of_pos (List.dropWhile_eq_nil_iff.mp inside)
            rw [passed]
            split
            · rename_i same
              exact absurd (by rw [same]; rfl) parts.equals
            · rfl
        | cons d more =>
            have met : trimStart (tail.dropWhile isWordChar ++ rest) = d :: (more ++ rest) := by
              rw [trimStart, List.dropWhile_append]
              rw [trimStart] at inside
              simp [inside]
            rw [met]
            rw [inside] at missing
            split
            · rename_i same
              simp only [List.cons.injEq] at same
              rw [same.1] at missing
              simp at missing
            · rfl
      · rfl

/-! ### The next key -/

theorem keyBehind?_eq_none_iff :
    keyBehind? c rest = none ↔ (isKeyLead c = true → keyHere? rest = none) := by
  unfold keyBehind?
  split <;> simp_all

theorem nextKey?_cons_eq_none_iff :
    nextKey? (c :: rest) = none ↔ keyBehind? c rest = none ∧ nextKey? rest = none := by
  simp [nextKey?]

theorem nextKey?_eq_none_iff : nextKey? text = none ↔ ¬ HoldsKey text := by
  induction text with
  | nil =>
      simp only [nextKey?, true_iff]
      rintro ⟨before, lead, key, blanks, after, whole, _⟩
      simp at whole
  | cons c rest ih =>
      rw [nextKey?_cons_eq_none_iff, ih, keyBehind?_eq_none_iff]
      constructor
      · rintro ⟨here, behind⟩ ⟨before, lead, key, blanks, after, whole, leads, identifier, areBlank⟩
        cases before with
        | nil =>
            simp only [List.nil_append, List.cons.injEq] at whole
            obtain ⟨rfl, rfl⟩ := whole
            have found : keyHere? (key ++ (blanks ++ '=' :: after)) = some (key, after) :=
              keyHere?_eq_some_iff.mpr ⟨blanks, rfl, identifier, areBlank⟩
            rw [here leads] at found
            simp at found
        | cons d more =>
            simp only [List.cons_append, List.cons.injEq] at whole
            exact behind ⟨more, lead, key, blanks, after, whole.2, leads, identifier, areBlank⟩
      · intro keyless
        constructor
        · intro leads
          cases found : keyHere? rest with
          | none => rfl
          | some cut =>
              obtain ⟨blanks, rfl, identifier, areBlank⟩ := keyHere?_eq_some_iff.mp found
              exact absurd ⟨[], c, _, blanks, _, rfl, leads, identifier, areBlank⟩ keyless
        · rintro ⟨before, lead, key, blanks, after, rfl, leads, identifier, areBlank⟩
          exact keyless ⟨c :: before, lead, key, blanks, after, rfl, leads, identifier, areBlank⟩

instance : Decidable (HoldsKey text) :=
  decidable_of_iff (¬ (nextKey? text).isNone = true) (by
    rw [Option.isNone_iff_eq_none, nextKey?_eq_none_iff, not_not])

theorem HoldsKey.of_part {part : List Char} (within : part <:+: text) (holds : HoldsKey part) :
    HoldsKey text := by
  obtain ⟨before, lead, key, blanks, after, rfl, leads, identifier, areBlank⟩ := holds
  obtain ⟨front, back, rfl⟩ := within
  exact ⟨front ++ before, lead, key, blanks, after ++ back, by simp, leads, identifier, areBlank⟩

theorem nextKey?_of_part {part : List Char} (within : part <:+: text)
    (keyless : nextKey? text = none) : nextKey? part = none := by
  rw [nextKey?_eq_none_iff] at keyless ⊢
  exact fun holds => keyless (holds.of_part within)

theorem nextKey?_of_no_equals (plain : '=' ∉ text) : nextKey? text = none := by
  rw [nextKey?_eq_none_iff]
  rintro ⟨before, lead, key, blanks, after, rfl, _⟩
  simp at plain

theorem nextKey?_eq_some (found : nextKey? text = some cut) :
    IsIdentifier cut.key ∧ nextKey? cut.before = none ∧
      ∃ blanks, text = cut.before ++ (cut.key ++ (blanks ++ '=' :: cut.after)) := by
  induction text generalizing cut with
  | nil => simp [nextKey?] at found
  | cons c rest ih =>
      simp only [nextKey?, Option.or_eq_some_iff, Option.map_eq_some_iff] at found
      rcases found with here | ⟨missing, inner, inside, rfl⟩
      · unfold keyBehind? at here
        split at here
        · simp only [Option.map_eq_some_iff, Prod.exists] at here
          obtain ⟨key, after, opens, rfl⟩ := here
          obtain ⟨blanks, rfl, identifier, _⟩ := keyHere?_eq_some_iff.mp opens
          exact ⟨identifier, by simp [nextKey?, keyBehind?, keyHere?], blanks, rfl⟩
        · simp at here
      · obtain ⟨identifier, keyless, blanks, rfl⟩ := ih inside
        refine ⟨identifier, ?_, blanks, rfl⟩
        rw [KeyCut.behind, nextKey?_cons_eq_none_iff, keyBehind?_eq_none_iff]
        refine ⟨fun leads => ?_, keyless⟩
        have absent := keyBehind?_eq_none_iff.mp missing leads
        cases early : keyHere? inner.before with
        | none => rfl
        | some parts =>
            rw [keyHere?_append_of_some early] at absent
            simp at absent

def KeyCut.behindAll (front : List Char) (cut : KeyCut) : KeyCut :=
  { cut with before := front ++ cut.before }

theorem nextKey?_append (keyless : nextKey? front = none) (parts : Parts rest) :
    nextKey? (front ++ rest) = (nextKey? rest).map (KeyCut.behindAll front) := by
  induction front with
  | nil =>
      rw [List.nil_append]
      cases nextKey? rest <;> rfl
  | cons c more ih =>
      rw [nextKey?_cons_eq_none_iff, keyBehind?_eq_none_iff] at keyless
      have missing : keyBehind? c (more ++ rest) = none :=
        keyBehind?_eq_none_iff.mpr fun leads => keyHere?_append_of_none parts (keyless.1 leads)
      rw [List.cons_append, nextKey?, missing, ih keyless.2]
      cases nextKey? rest <;> rfl

/-- Text that parts what stands before it from a key right behind it, and is found with that key. -/
structure Separates (gap : List Char) : Prop where
  parts : ∀ {key after : List Char}, IsIdentifier key → Parts (gap ++ (key ++ '=' :: after))
  finds : ∀ {key after : List Char}, IsIdentifier key →
    nextKey? (gap ++ (key ++ '=' :: after)) = some ⟨gap, key, after⟩

theorem keyHere?_key (identifier : IsIdentifier key) (after : List Char) :
    keyHere? (key ++ '=' :: after) = some (key, after) :=
  keyHere?_eq_some_iff.mpr ⟨[], rfl, identifier, by simp⟩

theorem separates_lead (leads : isKeyLead lead = true) : Separates [lead] where
  parts {key after} identifier := by
    refine ⟨?_, ?_⟩
    · intro c head
      obtain rfl : lead = c := by simpa using head
      exact isWordChar_of_isKeyLead leads
    · obtain ⟨c, rest, rfl, starts, _⟩ := identifier
      have word := isWordChar_of_isKeyStart starts
      have notBlank : isBlank c = false := by
        cases blank : isBlank c with
        | false => rfl
        | true => rw [isWordChar_of_isBlank blank] at word; simp at word
      intro head
      simp only [List.cons_append, trimStart, List.dropWhile_cons] at head
      split at head
      · obtain rfl : c = '=' := by simpa [notBlank] using head
        simp [isKeyStart] at starts
      · obtain rfl : lead = '=' := by simpa using head
        simp [isKeyLead, isBlank] at leads
  finds {key after} identifier := by
    simp [nextKey?, keyBehind?, leads, keyHere?_key identifier]

theorem separates_comma : Separates [',', ' '] where
  parts _ := ⟨by simp; decide, by simp [trimStart, show isBlank ',' = false by decide]⟩
  finds {key after} identifier := by
    have notHere : keyBehind? ',' (' ' :: (key ++ '=' :: after)) = none := by
      simp [keyBehind?, keyHere?, isKeyStart]
    have behind : nextKey? (' ' :: (key ++ '=' :: after)) = some ⟨[' '], key, after⟩ :=
      (separates_lead (by decide)).finds identifier
    change nextKey? (',' :: ' ' :: (key ++ '=' :: after)) = _
    rw [nextKey?, notHere, behind]
    rfl

end PathDirectives
