import PathDirectives.PathText.Compile
import PathDirectives.Proofs.Steps

/-!
The elements that a walk hands to the lines of a text. The walk passes once over the elements, so
that none is handed out twice; elements in the order of their lines, as compiling a text leaves
them, all go to the lines that they came from.
-/

namespace PathDirectives

open Calendar

def LinesAscend (elements : List Element) : Prop :=
  elements.Pairwise fun earlier later => earlier.line ≤ later.line

instance (elements : List Element) : Decidable (LinesAscend elements) :=
  inferInstanceAs (Decidable (List.Pairwise _ _))

theorem LinesAscend.cut {elements : List Element} (ordered : LinesAscend elements) (number : Nat) :
    elements = elements.filter (fun element => decide (element.line < number)) ++
      elements.filter (fun element => element.line == number) ++
        elements.filter fun element => decide (number < element.line) := by
  induction elements with
  | nil => rfl
  | cons head tail ih =>
      obtain ⟨bound, behind⟩ := List.pairwise_cons.mp ordered
      have parts := ih behind
      have none_below (reached : number ≤ head.line) :
          tail.filter (fun element => decide (element.line < number)) = [] := by
        apply List.filter_eq_nil_iff.mpr
        intro element member
        have later := bound element member
        simp only [decide_eq_true_eq]
        omega
      have none_here (passed : number < head.line) :
          tail.filter (fun element => element.line == number) = [] := by
        apply List.filter_eq_nil_iff.mpr
        intro element member
        have later := bound element member
        simp only [beq_iff_eq]
        omega
      by_cases below : head.line < number
      · have other : head.line ≠ number := by omega
        have passed : ¬ number < head.line := by omega
        simpa [below, other, passed] using parts
      · rw [none_below (by omega)] at parts
        by_cases here : head.line = number
        · simpa [here, none_below (by omega)] using parts
        · have passed : number < head.line := by omega
          rw [none_here passed] at parts
          simpa [below, here, passed, none_below (by omega), none_here passed] using parts

section Walk

variable {number : Nat} {lines : List (List Char)} {elements : List Element} {line : WalkedLine}

theorem numbers_walkFrom (number : Nat) (lines : List (List Char)) (elements : List Element) :
    (walkFrom number lines elements).map (·.number) = List.range' number lines.length := by
  induction lines generalizing number elements with
  | nil => rfl
  | cons text more ih =>
      rw [walkFrom, List.map_cons, ih, List.length_cons, List.range'_succ]

theorem texts_walkFrom (number : Nat) (lines : List (List Char)) (elements : List Element) :
    (walkFrom number lines elements).map (·.text) = lines.map String.ofList := by
  induction lines generalizing number elements with
  | nil => rfl
  | cons text more ih => rw [walkFrom, List.map_cons, ih, List.map_cons]

theorem number_bounds (member : line ∈ walkFrom number lines elements) :
    number ≤ line.number ∧ line.number < number + lines.length := by
  have inside : line.number ∈ (walkFrom number lines elements).map (·.number) :=
    List.mem_map_of_mem member
  rw [numbers_walkFrom, List.mem_range'_1] at inside
  exact inside

theorem line_eq_number (member : line ∈ walkFrom number lines elements) :
    ∀ element ∈ line.elements, element.line = line.number := by
  induction lines generalizing number elements with
  | nil => simp [walkFrom] at member
  | cons text more ih =>
      rw [walkFrom, List.mem_cons] at member
      rcases member with rfl | later
      · intro element inside
        have passes := List.all_eq_true.mp List.all_takeWhile element inside
        exact eq_of_beq passes
      · exact ih later

theorem slices_sublist (number : Nat) (lines : List (List Char)) (elements : List Element) :
    ((walkFrom number lines elements).flatMap (·.elements)).Sublist elements := by
  induction lines generalizing number elements with
  | nil => exact List.nil_sublist elements
  | cons text more ih =>
      let ahead := elements.dropWhile fun element => element.line < number
      let own (element : Element) : Bool := element.line == number
      have later := ih (number + 1) (ahead.dropWhile own)
      have both : (ahead.takeWhile own ++ ahead.dropWhile own).Sublist elements := by
        rw [List.takeWhile_append_dropWhile]
        exact List.dropWhile_sublist _
      rw [walkFrom, List.flatMap_cons]
      exact (later.append_left (ahead.takeWhile own)).trans both

theorem walkFrom_cons {front here behind : List Element}
    (passed : ∀ element ∈ front, element.line < number)
    (own : ∀ element ∈ here, element.line = number)
    (ahead : ∀ element ∈ behind, number < element.line) (text : List Char)
    (more : List (List Char)) :
    walkFrom number (text :: more) (front ++ here ++ behind) =
      { number
        text := String.ofList text
        comment := (splitComment text).2.map String.ofList
        elements := here } :: walkFrom (number + 1) more behind := by
  have front_gone : (front ++ here ++ behind).dropWhile (fun element => element.line < number) =
      here ++ behind := by
    rw [List.append_assoc, List.dropWhile_append_of_pos (by simpa using passed)]
    cases all : here ++ behind with
    | nil => rfl
    | cons head tail =>
        have inside : head ∈ here ++ behind := by simp [all]
        have reached : number ≤ head.line := by
          rcases List.mem_append.mp inside with same | later
          · have := own head same
            omega
          · have := ahead head later
            omega
        exact List.dropWhile_cons_of_neg (by simpa using reached)
  have none_taken : behind.takeWhile (fun element => element.line == number) = [] ∧
      behind.dropWhile (fun element => element.line == number) = behind := by
    cases behind with
    | nil => exact ⟨rfl, rfl⟩
    | cons head tail =>
        have later := ahead head List.mem_cons_self
        have other : ¬ (head.line == number) = true := by
          simp only [beq_iff_eq]
          omega
        exact ⟨List.takeWhile_cons_of_neg other, List.dropWhile_cons_of_neg other⟩
  have all_own : ∀ element ∈ here, (element.line == number) = true := by simpa using own
  rw [walkFrom, front_gone, List.takeWhile_append_of_pos all_own,
    List.dropWhile_append_of_pos all_own, none_taken.1, none_taken.2, List.append_nil]

theorem slice_eq_filter (ordered : LinesAscend elements)
    (member : line ∈ walkFrom number lines elements) :
    line.elements = elements.filter fun element => element.line == line.number := by
  induction lines generalizing number elements with
  | nil => simp [walkFrom] at member
  | cons text more ih =>
      rw [ordered.cut number, walkFrom_cons (by simp) (by simp) (by simp), List.mem_cons] at member
      rcases member with rfl | later
      · rfl
      · have bound := (number_bounds later).1
        rw [ih (ordered.filter _) later, List.filter_filter]
        apply List.filter_congr
        intro element _
        by_cases same : element.line = line.number
        · have passed : number < line.number := by omega
          simp [same, passed]
        · simp [same]

end Walk

/-- Elements that lines from a number on are compiled to: a walk hands out all of them, and to each
line what it is compiled to. -/
structure FromLines (scenario : Scenario) (number : Nat) (lines : List (List Char))
    (elements : List Element) : Prop where
  reached : ∀ element ∈ elements, number ≤ element.line
  whole : (walkFrom number lines elements).flatMap (·.elements) = elements
  compiled : ∀ line ∈ walkFrom number lines elements, ∃ kind,
    compileLine scenario line.text.toList = .ok kind ∧ line.elements.map (·.kind) = kind.toList

section Compiled

variable {scenario : Scenario} {number : Nat} {path result : Path} {lines : List (List Char)}

theorem FromLines.cons {text : List Char} {kind : Option ElementKind} {behind : List Element}
    (later : FromLines scenario (number + 1) lines behind) (here : List Element)
    (read : compileLine scenario text = .ok kind) (own : ∀ element ∈ here, element.line = number)
    (kinds : here.map (·.kind) = kind.toList) :
    FromLines scenario number (text :: lines) (here ++ behind) := by
  have none_before : ∀ element ∈ ([] : List Element), element.line < number := by simp
  have walked := walkFrom_cons none_before own later.reached text lines
  rw [List.nil_append] at walked
  constructor
  · intro element member
    rcases List.mem_append.mp member with first | others
    · exact Nat.le_of_eq (own element first).symm
    · exact Nat.le_of_succ_le (later.reached element others)
  · rw [walked, List.flatMap_cons, later.whole]
  · rw [walked]
    intro line member
    rcases List.mem_cons.mp member with rfl | others
    · exact ⟨kind, by simpa using read, kinds⟩
    · exact later.compiled line others

theorem fromLines_of_compileFrom (compiled : compileFrom scenario number path lines = .ok result) :
    ∃ added, result.elements = path.elements ++ added ∧ FromLines scenario number lines added := by
  induction lines generalizing number path with
  | nil =>
      simp only [compileFrom, Except.ok.injEq] at compiled
      subst compiled
      exact ⟨[], by simp, by simp, rfl, by simp [walkFrom]⟩
  | cons text more ih =>
      simp only [compileFrom] at compiled
      cases read : compileLine scenario text with
      | error fault => simp [read] at compiled
      | ok kind =>
          cases kind with
          | none =>
              simp only [read] at compiled
              obtain ⟨added, parts, later⟩ := ih compiled
              exact ⟨added, parts, later.cons [] read (by simp) rfl⟩
          | some kind =>
              simp only [read] at compiled
              obtain ⟨added, parts, later⟩ := ih compiled
              let own : Element := ⟨⟨path.nextId⟩, number, kind⟩
              refine ⟨own :: added, ?_, later.cons [own] read (by simp [own]) rfl⟩
              rw [parts, Path.push, List.append_assoc]
              rfl

/-- Ids that have been handed out in turn, and none taken off the path. -/
def Path.IdsInTurn (path : Path) : Prop :=
  path.ids = (List.range path.nextId).map ElementId.mk

theorem Path.IdsInTurn.push (inTurn : path.IdsInTurn) (line : Nat) (kind : ElementKind) :
    (path.push line kind).IdsInTurn := by
  unfold IdsInTurn Path.ids at inTurn ⊢
  rw [Path.push, List.map_append, inTurn, List.range_succ, List.map_append]
  rfl

theorem idsInTurn_compileFrom (inTurn : path.IdsInTurn)
    (compiled : compileFrom scenario number path lines = .ok result) : result.IdsInTurn := by
  induction lines generalizing number path with
  | nil =>
      simp only [compileFrom, Except.ok.injEq] at compiled
      exact compiled ▸ inTurn
  | cons text more ih =>
      simp only [compileFrom] at compiled
      split at compiled
      · simp at compiled
      · exact ih inTurn compiled
      · exact ih (inTurn.push number _) compiled

end Compiled

/-! ### What lines are handed -/

structure Slices (text : String) (elements : List Element) : Prop where
  numbers : (walk text elements).map (·.number) = List.range' 1 (Text.lines text.toList).length
  texts : (walk text elements).map (·.text) = (Text.lines text.toList).map String.ofList
  own : ∀ line ∈ walk text elements, ∀ element ∈ line.elements, element.line = line.number
  once : ((walk text elements).flatMap (·.elements)).Sublist elements
  exact : LinesAscend elements → ∀ line ∈ walk text elements,
    line.elements = elements.filter fun element => element.line == line.number
  outside : ∀ element ∈ elements,
    element.line = 0 ∨ (Text.lines text.toList).length < element.line →
      ∀ line ∈ walk text elements, element ∉ line.elements

structure CompiledSlices (scenario : Scenario) (text : String) (path : Path) : Prop where
  compiled : ∀ line ∈ walk text path.elements, ∃ kind,
    compileLine scenario line.text.toList = .ok kind ∧ line.elements.map (·.kind) = kind.toList
  whole : (walk text path.elements).flatMap (·.elements) = path.elements
  ids : path.IdsInTurn

/-- Every line of a text is walked in turn, with elements of its own and none of them twice: with
all of its own where the elements are in order, and with what it was compiled to where they are
those that the text was compiled to. -/
theorem walk_hands_out (text : String) :
    (∀ elements, Slices text elements) ∧
      ∀ scenario path, compilePath scenario text = .ok path →
        CompiledSlices scenario text path := by
  constructor
  · intro elements
    refine ⟨numbers_walkFrom _ _ _, texts_walkFrom _ _ _, fun line => line_eq_number,
      slices_sublist _ _ _, fun ordered line => slice_eq_filter ordered, ?_⟩
    intro element _ out line member inside
    have same := line_eq_number member element inside
    have bounds := number_bounds member
    omega
  · intro scenario path compiled
    obtain ⟨added, parts, fromLines⟩ := fromLines_of_compileFrom compiled
    rw [List.nil_append] at parts
    subst parts
    have none_yet : Path.IdsInTurn {} := rfl
    exact ⟨fromLines.compiled, fromLines.whole, idsInTurn_compileFrom none_yet compiled⟩

namespace Quarry

def shiftText : String := "{Hole,Shot}\n\n'note\ndelay 2h '!waitfree\nFace"

def shiftPath : Path :=
  match compilePath scenario shiftText with
  | .ok path => path
  | .error _ => {}

theorem shift_compiled : compilePath scenario shiftText = .ok shiftPath := by
  have compiles : (compilePath scenario shiftText).isOk = true := by decide +kernel
  unfold shiftPath
  cases compiled : compilePath scenario shiftText with
  | error error => simp [compiled, Except.isOk, Except.toBool] at compiles
  | ok path => rfl

def lost : Element := ⟨⟨1⟩, 0, .idle ⟨0⟩ Span.zero⟩

def strayElements : List Element :=
  [⟨⟨0⟩, 5, .idle ⟨0⟩ Span.zero⟩, lost, ⟨⟨2⟩, 1, .idle ⟨0⟩ Span.zero⟩]

theorem shift_handed_out :
    (compilePath scenario shiftText = .ok shiftPath ∧
        CompiledSlices scenario shiftText shiftPath ∧
          (walk shiftText shiftPath.elements).map (·.elements.map (·.line)) =
            [[1], [], [], [4], [5]]) ∧
      (LinesAscend shiftPath.elements ∧ ∀ line ∈ walk shiftText shiftPath.elements,
        line.elements = shiftPath.elements.filter fun element => element.line == line.number) ∧
        (walk shiftText strayElements).map (·.elements.map (·.line)) = [[], [], [], [], [5]] ∧
          lost ∈ strayElements ∧ ∀ line ∈ walk shiftText strayElements, lost ∉ line.elements := by
  obtain ⟨any, compiled⟩ := walk_hands_out shiftText
  have ascend : LinesAscend shiftPath.elements := by decide +kernel
  have member : lost ∈ strayElements := by simp [strayElements]
  exact ⟨⟨shift_compiled, compiled scenario shiftPath shift_compiled, by decide +kernel⟩,
    ⟨ascend, (any shiftPath.elements).exact ascend⟩, by decide +kernel, member,
    (any strayElements).outside lost member (.inl rfl)⟩

end Quarry

end PathDirectives
