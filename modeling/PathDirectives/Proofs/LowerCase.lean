import PathDirectives.Proofs.Letters
import PathDirectives.Proofs.Trimming

/-!
Lower case over all of Unicode. What has become lower case stays as it is, and the ASCII mapping does
the same as the full one just where no letters but ASCII ones are capitals.
-/

namespace PathDirectives.Text

variable {c d : Char} {before text other : List Char}

namespace CaseRange

variable {range next : CaseRange} {code : Nat}

def firstImage (range : CaseRange) : Nat := (range.first + range.shift).toNat

def lastImage (range : CaseRange) : Nat := (range.last + range.shift).toNat

/-- No image of a range is a capital of the next one: the two lie apart, or the capitals go by twos
and pass over the images. -/
def misses (range next : CaseRange) : Bool :=
  range.lastImage.blt next.first || next.last.blt range.firstImage ||
    next.stride == 2 && (range.stride == 2 || range.first == range.last) &&
      (range.firstImage + next.first) % 2 == 1

structure Lowers (range : CaseRange) : Prop where
  letter : 0x61 ≤ range.firstImage
  scalar : range.lastImage < 0xd800 ∨ 0xdfff < range.firstImage ∧ range.lastImage < 0x110000
  undotted : range.lastImage < 0x130 ∨ 0x130 < range.firstImage
  solid : ∀ gap ∈ [(0x80, 0xa0), (0x1680, 0x1680), (0x2000, 0x205f), (0x3000, 0x3000)],
    range.lastImage < gap.1 ∨ gap.2 < range.firstImage
  misses : lowerRanges.all range.misses = true

instance (range : CaseRange) : Decidable range.Lowers :=
  decidable_of_iff (0x61 ≤ range.firstImage ∧
      (range.lastImage < 0xd800 ∨ 0xdfff < range.firstImage ∧ range.lastImage < 0x110000) ∧
      (range.lastImage < 0x130 ∨ 0x130 < range.firstImage) ∧
      (∀ gap ∈ [(0x80, 0xa0), (0x1680, 0x1680), (0x2000, 0x205f), (0x3000, 0x3000)],
        range.lastImage < gap.1 ∨ gap.2 < range.firstImage) ∧
      lowerRanges.all range.misses = true)
    ⟨fun ⟨letter, scalar, undotted, solid, misses⟩ => ⟨letter, scalar, undotted, solid, misses⟩,
      fun own => ⟨own.letter, own.scalar, own.undotted, own.solid, own.misses⟩⟩

theorem lowers_of_mem : ∀ range ∈ lowerRanges, range.Lowers := by decide +kernel

theorem holds_iff : range.holds code = true ↔
    range.first ≤ code ∧ code ≤ range.last ∧ (code - range.first) % range.stride = 0 := by
  simp [holds, and_assoc]

theorem image_bounds (lowers : range.Lowers) (held : range.holds code = true) :
    range.firstImage ≤ (code + range.shift).toNat ∧
      (code + range.shift).toNat ≤ range.lastImage ∧
        (range.stride = 2 ∨ range.first = range.last →
          (code + range.shift).toNat % 2 = range.firstImage % 2) := by
  obtain ⟨lower, upper, step⟩ := holds_iff.mp held
  have letter := lowers.letter
  unfold firstImage lastImage at *
  refine ⟨by omega, by omega, ?_⟩
  rintro (twos | single)
  · rw [twos] at step
    omega
  · omega

theorem not_holds_image (lowers : range.Lowers) (held : range.holds code = true)
    (member : next ∈ lowerRanges) : next.holds (code + range.shift).toNat = false := by
  obtain ⟨lower, upper, steps⟩ := image_bounds lowers held
  have misses := List.all_eq_true.mp lowers.misses next member
  simp only [CaseRange.misses, Bool.or_eq_true, Bool.and_eq_true, Nat.blt_eq, beq_iff_eq] at misses
  rw [Bool.eq_false_iff, Ne, holds_iff]
  rintro ⟨above, below, even⟩
  rcases misses with (apart | apart) | ⟨⟨twos, steady⟩, odd⟩
  · omega
  · omega
  · have parity := steps steady
    rw [twos] at even
    omega

end CaseRange

theorem toLower_of_beyond (beyond : 0x80 ≤ c.toNat) : c.toLower = c := by
  apply Char.toLower_eq_of_not_isUpper
  simp only [Char.isUpper, decide_eq_true_eq, not_and]
  intro _ upper
  have bound : c.toNat ≤ 90 := upper
  omega

theorem ascii_of_isAlpha (letter : c.isAlpha = true) : c.toNat < 0x80 := by
  simp only [Char.isAlpha, Char.isUpper, Char.isLower, Bool.or_eq_true, Bool.and_eq_true,
    decide_eq_true_eq] at letter
  rcases letter with ⟨_, upper⟩ | ⟨_, upper⟩
  · have bound : c.toNat ≤ 90 := upper
    omega
  · have bound : c.toNat ≤ 122 := upper
    omega

theorem lowerChar_ascii (ascii : c.toNat < 0x80) : lowerChar c = [c.toLower] := if_pos ascii

theorem lowerChar_eq_self (beyond : 0x80 ≤ c.toNat) (undotted : c.toNat ≠ 0x130)
    (unlisted : ∀ range ∈ lowerRanges, range.holds c.toNat = false) : lowerChar c = [c] := by
  have missing : lowerRanges.find? (·.holds c.toNat) = none := by
    simpa [List.find?_eq_none] using unlisted
  rw [lowerChar, if_neg (by omega), if_neg undotted, missing]

theorem lowerChar_cases (c : Char) :
    lowerChar c = [c.toLower] ∨ lowerChar c = ['i', Char.ofNat 0x307] ∨
      ∃ range ∈ lowerRanges, range.holds c.toNat = true ∧
        lowerChar c = [Char.ofNat (c.toNat + range.shift).toNat] := by
  by_cases ascii : c.toNat < 0x80
  · exact .inl (lowerChar_ascii ascii)
  rw [lowerChar, if_neg ascii]
  split
  · exact .inr (.inl rfl)
  split
  · rename_i range found
    have held := List.find?_some found
    exact .inr (.inr ⟨range, List.mem_of_find?_eq_some found, held, rfl⟩)
  · rw [toLower_of_beyond (by omega)]
    exact .inl rfl

theorem lowerChar_toLower (c : Char) (plain : lowerChar c = [c.toLower]) :
    lowerChar c.toLower = [c.toLower] := by
  cases letter : c.isAlpha with
  | false => rwa [Char.toLower_eq_of_not_isUpper (not_isUpper_of_not_isAlpha letter)] at plain ⊢
  | true =>
      have ascii : c.toLower.toNat < 0x80 := ascii_of_isAlpha (by simpa using letter)
      rw [lowerChar_ascii ascii, Char.toLower_toLower_eq_toLower]

structure IsLow (c : Char) : Prop where
  kept : lowerChar c = [c]
  solid : isBlank c = false
  letter : 0x61 ≤ c.toNat

instance (c : Char) : Decidable (IsLow c) :=
  decidable_of_iff (lowerChar c = [c] ∧ isBlank c = false ∧ 0x61 ≤ c.toNat)
    ⟨fun ⟨kept, solid, letter⟩ => ⟨kept, solid, letter⟩,
      fun low => ⟨low.kept, low.solid, low.letter⟩⟩

theorem isLow_image {range : CaseRange} {code : Nat} (listed : range ∈ lowerRanges)
    (held : range.holds code = true) : IsLow (Char.ofNat (code + range.shift).toNat) := by
  have lowers := CaseRange.lowers_of_mem range listed
  obtain ⟨lower, upper, _⟩ := CaseRange.image_bounds lowers held
  have letter := lowers.letter
  have undotted := lowers.undotted
  have scalar : (code + range.shift).toNat.isValidChar := by
    rcases lowers.scalar with below | ⟨above, below⟩
    · exact .inl (by omega)
    · exact .inr ⟨by omega, by omega⟩
  have number : (Char.ofNat (code + range.shift).toNat).toNat = (code + range.shift).toNat := by
    rw [Char.ofNat, dif_pos scalar]
    rfl
  refine ⟨?_, ?_, by omega⟩
  · by_cases ascii : (code + range.shift).toNat < 0x80
    · rw [lowerChar_ascii (by omega), Char.toLower_eq_of_not_isUpper]
      simp only [Char.isUpper, decide_eq_true_eq, not_and]
      intro _ capital
      have bound : (Char.ofNat (code + range.shift).toNat).toNat ≤ 90 := capital
      omega
    · refine lowerChar_eq_self (by omega) (by omega) ?_
      intro next inside
      rw [number]
      exact CaseRange.not_holds_image lowers held inside
  · have solid := lowers.solid
    simp only [List.forall_mem_cons, List.not_mem_nil, false_implies, implies_true, and_true]
      at solid
    simp only [isBlank, number, Bool.or_eq_false_iff, Bool.and_eq_false_iff,
      decide_eq_false_iff_not, beq_eq_false_iff_ne]
    omega

theorem lowerChar_ne_nil (c : Char) : lowerChar c ≠ [] := by
  rcases lowerChar_cases c with plain | dotted | ⟨range, _, _, image⟩
  · simp [plain]
  · simp [dotted]
  · simp [image]

def Becomes (c d : Char) : Prop := d ∈ lowerChar c ∨ c = 'Σ' ∧ (d = 'ς' ∨ d = 'σ')

namespace Becomes

theorem toLower_or_low (becomes : Becomes c d) :
    lowerChar c = [c.toLower] ∧ d = c.toLower ∨ IsLow d := by
  rcases becomes with member | ⟨-, rfl | rfl⟩
  · rcases lowerChar_cases c with plain | dotted | ⟨range, listed, held, image⟩
    · rw [plain] at member
      exact .inl ⟨plain, List.mem_singleton.mp member⟩
    · rw [dotted] at member
      simp only [List.mem_cons, List.not_mem_nil, or_false] at member
      rcases member with rfl | rfl
      · exact .inr (by decide +kernel)
      · exact .inr (by decide +kernel)
    · rw [image] at member
      exact .inr (List.mem_singleton.mp member ▸ isLow_image listed held)
  · exact .inr (by decide +kernel)
  · exact .inr (by decide +kernel)

theorem kept (becomes : Becomes c d) : lowerChar d = [d] := by
  rcases becomes.toLower_or_low with ⟨plain, rfl⟩ | low
  · exact lowerChar_toLower c plain
  · exact low.kept

theorem solid (becomes : Becomes c d) (solid : isBlank c = false) : isBlank d = false := by
  rcases becomes.toLower_or_low with ⟨_, rfl⟩ | low
  · rwa [isBlank_toLower]
  · exact low.solid

theorem eq_star (becomes : Becomes c '*') : c = '*' := by
  rcases becomes.toLower_or_low with ⟨_, same⟩ | low
  · exact (toLower_eq_iff_of_not_isAlpha (by decide)).mp same.symm
  · have letter := low.letter
    simp at letter

end Becomes

theorem toLower_of_kept (kept : lowerChar c = [c]) : c.toLower = c := by
  by_cases ascii : c.toNat < 0x80
  · rw [lowerChar_ascii ascii] at kept
    exact List.singleton_inj.mp kept
  · exact toLower_of_beyond (by omega)

/-! ### Texts -/

theorem lowerAfter_cons (before : List Char) (c : Char) (rest : List Char) :
    ∃ letters, lowerAfter before (c :: rest) = letters ++ lowerAfter (c :: before) rest ∧
      letters ≠ [] ∧ ∀ d ∈ letters, Becomes c d := by
  refine ⟨if c = 'Σ' then [if meetsCased before && !meetsCased rest then 'ς' else 'σ']
    else lowerChar c, rfl, ?_, ?_⟩
  · split
    · simp
    · exact lowerChar_ne_nil c
  · intro d member
    split at member
    · rename_i sigma
      rw [List.mem_singleton] at member
      split at member
      · exact .inr ⟨sigma, .inl member⟩
      · exact .inr ⟨sigma, .inr member⟩
    · exact .inl member

theorem becomes_of_mem (member : d ∈ lowerAfter before text) : ∃ c ∈ text, Becomes c d := by
  induction text generalizing before with
  | nil => simp [lowerAfter] at member
  | cons c rest ih =>
      obtain ⟨letters, whole, _, each⟩ := lowerAfter_cons before c rest
      rw [whole, List.mem_append] at member
      rcases member with here | behind
      · exact ⟨c, List.mem_cons_self, each d here⟩
      · obtain ⟨other, inside, becomes⟩ := ih behind
        exact ⟨other, List.mem_cons_of_mem c inside, becomes⟩

theorem lowerAfter_eq_nil_iff : lowerAfter before text = [] ↔ text = [] := by
  cases text with
  | nil => simp [lowerAfter]
  | cons c rest =>
      obtain ⟨letters, whole, filled, _⟩ := lowerAfter_cons before c rest
      simp [whole, filled]

theorem last_lowerAfter (last : (lowerAfter before text).getLast? = some d) :
    ∃ c, text.getLast? = some c ∧ Becomes c d := by
  induction text generalizing before with
  | nil => simp [lowerAfter] at last
  | cons c rest ih =>
      obtain ⟨letters, whole, filled, each⟩ := lowerAfter_cons before c rest
      rw [whole] at last
      by_cases ends : rest = []
      · subst ends
        rw [lowerAfter, List.append_nil] at last
        exact ⟨c, rfl, each d (List.mem_of_getLast? last)⟩
      · rw [List.getLast?_append_of_ne_nil _ (mt lowerAfter_eq_nil_iff.mp ends)] at last
        obtain ⟨other, final, becomes⟩ := ih last
        exact ⟨other, by rw [List.getLast?_cons_of_ne_nil ends, final], becomes⟩

theorem isTrimmed_lower (trimmed : IsTrimmed text) : IsTrimmed (lower text) where
  first d head := by
    cases text with
    | nil => simp [lower, lowerAfter] at head
    | cons c rest =>
        obtain ⟨letters, whole, filled, each⟩ := lowerAfter_cons [] c rest
        rw [lower, whole, List.head?_append_of_ne_nil _ filled] at head
        exact (each d (List.mem_of_mem_head? head)).solid (trimmed.first c rfl)
  last d last := by
    obtain ⟨c, final, becomes⟩ := last_lowerAfter last
    exact becomes.solid (trimmed.last c final)

theorem lower_eq_star_iff : lower text = ['*'] ↔ text = ['*'] := by
  constructor
  · intro star
    cases text with
    | nil => simp [lower, lowerAfter] at star
    | cons c rest =>
        obtain ⟨letters, whole, filled, each⟩ := lowerAfter_cons [] c rest
        rw [lower, whole] at star
        rcases List.append_eq_singleton_iff.mp star with ⟨none, _⟩ | ⟨rfl, nothing⟩
        · exact absurd none filled
        · rw [lowerAfter_eq_nil_iff.mp nothing, (each '*' List.mem_cons_self).eq_star]
  · rintro rfl
    decide +kernel

/-- The only capitals of a text are ASCII letters. -/
def HasPlainCapitals (text : List Char) : Prop := ∀ c ∈ text, lowerChar c = [c.toLower]

instance (text : List Char) : Decidable (HasPlainCapitals text) :=
  List.decidableBAll (fun c => lowerChar c = [c.toLower]) text

theorem lowerAfter_of_plainCapitals (plain : HasPlainCapitals text) :
    lowerAfter before text = text.map Char.toLower := by
  induction text generalizing before with
  | nil => rfl
  | cons c rest ih =>
      obtain ⟨own, others⟩ := List.forall_mem_cons.mp plain
      have notSigma : c ≠ 'Σ' := by
        rintro rfl
        exact absurd own (by decide +kernel)
      simp [lowerAfter, notSigma, own, ih others]

theorem map_toLower_lower (text : List Char) : (lower text).map Char.toLower = lower text := by
  conv_rhs => rw [← List.map_id (lower text)]
  refine List.map_congr_left fun d member => ?_
  obtain ⟨c, _, becomes⟩ := becomes_of_mem member
  exact toLower_of_kept becomes.kept

/-- The ASCII mapping brings a text to another one's lower case just if the full one does and there
are no capitals but ASCII ones. -/
theorem map_toLower_eq_lower_iff :
    text.map Char.toLower = lower other ↔ lower text = lower other ∧ HasPlainCapitals text := by
  constructor
  · intro same
    have plain : HasPlainCapitals text := by
      intro c member
      have among : c.toLower ∈ lower other := same ▸ List.mem_map_of_mem member
      obtain ⟨origin, _, becomes⟩ := becomes_of_mem among
      by_cases ascii : c.toNat < 0x80
      · exact lowerChar_ascii ascii
      · have kept := becomes.kept
        rwa [toLower_of_beyond (by omega)] at kept ⊢
    exact ⟨(lowerAfter_of_plainCapitals plain).trans same, plain⟩
  · rintro ⟨same, plain⟩
    rw [← same]
    exact (lowerAfter_of_plainCapitals plain).symm

end PathDirectives.Text
