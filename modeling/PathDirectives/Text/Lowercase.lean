import PathDirectives.Text.CaseTables

/-!
Lower case: one letter at a time over ASCII, and the full Unicode mapping, in which a capital
sigma that ends a word has a form of its own.
-/

namespace PathDirectives.Text

/-- Equality up to the case of ASCII letters; every other character must be the same. -/
def sameWord (left right : String) : Bool :=
  left.toList.map Char.toLower == right.toList.map Char.toLower

def lowerAscii (text : String) : String :=
  String.ofList (text.toList.map Char.toLower)

def inRanges (ranges : List (Nat × Nat)) (c : Char) : Bool :=
  ranges.any fun (first, last) => first ≤ c.toNat && c.toNat ≤ last

def isCased (c : Char) : Bool :=
  if c.toNat < 0x80 then c.isAlpha else inRanges casedRanges c

def isCaseIgnorable (c : Char) : Bool :=
  if c.toNat < 0x80 then [0x27, 0x2E, 0x3A, 0x5E, 0x60].contains c.toNat
  else inRanges ignorableRanges c

/-- The lower case of one character, away from its neighbours. A capital I with a dot above keeps
its dot as a combining mark. -/
def lowerChar (c : Char) : List Char :=
  if c.toNat < 0x80 then [c.toLower]
  else if c.toNat = 0x130 then ['i', Char.ofNat 0x307]
  else
    match lowerRanges.find? (·.holds c.toNat) with
    | some range => [Char.ofNat (c.toNat + range.shift).toNat]
    | none => [c]

def meetsCased (text : List Char) : Bool :=
  match text.dropWhile isCaseIgnorable with
  | [] => false
  | c :: _ => isCased c

/-- The lower case of `text`, where `before` is what stands in front of it, last character first. -/
def lowerAfter (before : List Char) : List Char → List Char
  | [] => []
  | c :: rest =>
      let letter :=
        if c = 'Σ' then [if meetsCased before && !meetsCased rest then 'ς' else 'σ']
        else lowerChar c
      letter ++ lowerAfter (c :: before) rest

def lower (text : List Char) : List Char :=
  lowerAfter [] text

def lowercase (text : String) : String :=
  String.ofList (lower text.toList)

theorem lowerAfter_ascii {before text : List Char} (ascii : ∀ c ∈ text, c.toNat < 0x80) :
    lowerAfter before text = text.map Char.toLower := by
  induction text generalizing before with
  | nil => rfl
  | cons c rest ih =>
      have small : c.toNat < 0x80 := ascii c (by simp)
      have plain : c ≠ 'Σ' := by
        rintro rfl
        exact absurd small (by decide)
      have tail : lowerAfter (c :: before) rest = rest.map Char.toLower :=
        ih fun d member => ascii d (by simp [member])
      simp [lowerAfter, plain, lowerChar, small, tail]

theorem lower_ascii {text : List Char} (ascii : ∀ c ∈ text, c.toNat < 0x80) :
    lower text = text.map Char.toLower :=
  lowerAfter_ascii ascii

end PathDirectives.Text
