import PathDirectives.Proofs.Cutting
import PathDirectives.Proofs.WrittenComments

/-!
Comments segment by segment. The marks cut a comment into segments, and scanning it finds what each
segment behind a mark says on its own: a segment makes one command or none, whatever stands in it
and in the others.
-/

namespace PathDirectives

open Text

variable {text segment first rest : List Char} {more : List (List Char)}

/-- The command of a segment: its name is the word right behind the mark, its body ends at the first
quote. -/
def segmentCommand? (segment : List Char) : Option Command :=
  let name := segment.takeWhile isWordChar
  if name.isEmpty then none
  else Command.ofBody? name ((segment.dropWhile isWordChar).takeWhile (!endsBody ·))

theorem head?_append_cases {front : List Char} {c : Char} (head : (front ++ rest).head? = some c) :
    front.head? = some c ∨ rest.head? = some c := by
  rw [List.head?_append, Option.or_eq_some_iff] at head
  exact head.imp_right And.right

theorem scan_unnamed (unnamed : ∀ c, text.head? = some c → isWordChar c = false) :
    scan ('!' :: text) = scan text := by
  have noName : text.takeWhile isWordChar = [] := by
    cases text with
    | nil => rfl
    | cons c behind => exact List.takeWhile_cons_of_neg (by simp [unnamed c rfl])
  rw [scan, if_pos rfl]
  simp [noName]

theorem scan_named (named : segment.takeWhile isWordChar ≠ []) (plain : '!' ∉ segment)
    (ends : ∀ c, rest.head? = some c → c = '!') :
    scan ('!' :: (segment ++ rest)) =
      (Command.ofBody? (segment.takeWhile isWordChar)
        ((segment.dropWhile isWordChar).takeWhile (!endsBody ·))).toList ++ scan rest := by
  generalize nameEq : segment.takeWhile isWordChar = name at named ⊢
  generalize tailEq : segment.dropWhile isWordChar = tail
  generalize bodyEq : tail.takeWhile (!endsBody ·) = body
  generalize remarkEq : tail.dropWhile (!endsBody ·) = remark
  have tailParts : tail = body ++ remark := by
    rw [← bodyEq, ← remarkEq, List.takeWhile_append_dropWhile]
  have whole : segment = name ++ (body ++ remark) := by
    rw [← tailParts, ← nameEq, ← tailEq, List.takeWhile_append_dropWhile]
  have word : ∀ c ∈ name, isWordChar c = true := by
    rw [← nameEq]
    exact fun c inside => List.all_eq_true.mp List.all_takeWhile c inside
  have within : ∀ c ∈ body, endsBody c = false := by
    rw [← bodyEq]
    exact fun c inside => by simpa using List.all_eq_true.mp List.all_takeWhile c inside
  have opens : ∀ c, body.head? = some c → isWordChar c = false := by
    intro c head
    have first : (segment.dropWhile isWordChar).head? = some c := by
      rw [tailEq, tailParts, List.head?_append, head]
      rfl
    exact head_dropWhile first
  have closes : ∀ c, (remark ++ rest).head? = some c → endsBody c = true := by
    intro c head
    rcases head?_append_cases head with own | behind
    · rw [← remarkEq] at own
      simpa using head_dropWhile own
    · rw [ends c behind]
      rfl
  have unmarked : '!' ∉ remark := fun inside => plain (by simp [whole, inside])
  rw [whole, List.append_assoc, List.append_assoc, scan_command named word opens within closes,
    scan_of_no_mark unmarked]

theorem scan_segment (plain : '!' ∉ segment) (ends : ∀ c, rest.head? = some c → c = '!') :
    scan ('!' :: (segment ++ rest)) = (segmentCommand? segment).toList ++ scan rest := by
  unfold segmentCommand?
  by_cases named : segment.takeWhile isWordChar = []
  · have unnamed : ∀ c, (segment ++ rest).head? = some c → isWordChar c = false := by
      intro c head
      rcases head?_append_cases head with own | behind
      · obtain ⟨others, rfl⟩ := List.head?_eq_some_iff.mp own
        simpa [List.takeWhile_cons] using named
      · rw [ends c behind]
        rfl
    simp [named, scan_unnamed unnamed, scan_of_no_mark plain]
  · simp [named, scan_named named plain ends]

theorem head?_flatMap_mark {c : Char} (head : (more.flatMap ('!' :: ·)).head? = some c) :
    c = '!' := by
  cases more with
  | nil => simp at head
  | cons segment others => simpa using head.symm

theorem scan_joined (plain : ∀ segment ∈ first :: more, '!' ∉ segment) :
    scan (joined '!' first more) = more.filterMap segmentCommand? := by
  rw [joined, scan_of_no_mark (plain first List.mem_cons_self)]
  have own : ∀ segment ∈ more, '!' ∉ segment :=
    fun segment member => plain segment (List.mem_cons_of_mem first member)
  clear plain
  induction more with
  | nil => rw [List.flatMap_nil, scan, List.filterMap_nil]
  | cons segment others ih =>
      have behind := ih fun other member => own other (List.mem_cons_of_mem segment member)
      rw [List.flatMap_cons, List.cons_append,
        scan_segment (own segment List.mem_cons_self) fun c => head?_flatMap_mark, behind]
      cases found : segmentCommand? segment with
      | none => simp [found]
      | some command => simp [found]

theorem scan_append_mark (front back : List Char) :
    scan (front ++ '!' :: back) = scan front ++ scan ('!' :: back) := by
  obtain ⟨first, before, rfl, plainFront⟩ := exists_joined '!' front
  obtain ⟨next, behind, rfl, plainBack⟩ := exists_joined '!' back
  have marked : '!' :: joined '!' next behind = joined '!' [] (next :: behind) := rfl
  have plainMarked : ∀ segment ∈ [] :: next :: behind, '!' ∉ segment :=
    List.forall_mem_cons.mpr ⟨by simp, plainBack⟩
  have plainAll : ∀ segment ∈ first :: (before ++ next :: behind), '!' ∉ segment := by
    intro segment member
    rw [← List.cons_append] at member
    exact (List.mem_append.mp member).elim (plainFront segment) (plainBack segment)
  rw [← joined_append, scan_joined plainAll, scan_joined plainFront, marked,
    scan_joined plainMarked, List.filterMap_append]

theorem scan_eq_cons {command : Command} {commands : List Command}
    (plain : ∀ segment ∈ first :: more, '!' ∉ segment)
    (found : scan (joined '!' first more) = command :: commands) :
    ∃ before segment behind, more = before ++ segment :: behind ∧
      scan (joined '!' first before) = [] ∧ segmentCommand? segment = some command ∧
        scan (behind.flatMap ('!' :: ·)) = commands := by
  rw [scan_joined plain] at found
  obtain ⟨before, segment, behind, rfl, unmade, made, left⟩ := List.filterMap_eq_cons_iff.mp found
  have plainBefore : ∀ other ∈ first :: before, '!' ∉ other := by
    intro other member
    refine plain other ?_
    rw [← List.cons_append]
    exact List.mem_append_left _ member
  have plainBehind : ∀ other ∈ [] :: behind, '!' ∉ other :=
    List.forall_mem_cons.mpr ⟨by simp, fun other member => plain other (by simp [member])⟩
  refine ⟨before, segment, behind, rfl, ?_, made, ?_⟩
  · rw [scan_joined plainBefore, List.filterMap_eq_nil_iff]
    exact unmade
  · exact (scan_joined plainBehind).trans left

/-! ### Comments -/

theorem count_joined (plain : ∀ segment ∈ first :: more, '!' ∉ segment) :
    (joined '!' first more).count '!' = more.length := by
  induction more generalizing first with
  | nil =>
      rw [joined_nil]
      exact List.count_eq_zero.mpr (plain first List.mem_cons_self)
  | cons segment others ih =>
      have own := List.count_eq_zero.mpr (plain first List.mem_cons_self)
      rw [joined_cons, List.count_append, own, List.count_cons_self,
        ih fun other member => plain other (List.mem_cons_of_mem first member)]
      simp

theorem intercalate_eq_joined (separator : Char) (first : List Char) (more : List (List Char)) :
    [separator].intercalate (first :: more) = joined separator first more := by
  induction more generalizing first with
  | nil => simp
  | cons next others ih =>
      rw [List.intercalate_cons_cons, ih next, joined_cons, List.append_assoc]
      rfl

/-- The segments of a comment. The first stands before all marks, and each other one behind a mark
of its own. -/
def segments (comment : String) : List String :=
  (pieces '!' comment.toList).map String.ofList

structure ScansBySegment (comment : String) : Prop where
  parts : ∀ front back, comment = front ++ "!" ++ back →
    scanComment comment = scanComment front ++ scanComment ("!" ++ back)
  whole : "!".intercalate (segments comment) = comment
  plain : ∀ segment ∈ segments comment, '!' ∉ segment.toList
  marks : (segments comment).tail.length = comment.toList.count '!'
  commands : scanComment comment =
    (segments comment).tail.flatMap fun segment => scanComment ("!" ++ segment)
  alone : ∀ segment ∈ segments comment,
    scanComment ("!" ++ segment) = (segmentCommand? segment.toList).toList
  single : ∀ segment ∈ segments comment, (scanComment ("!" ++ segment)).length ≤ 1
  ends : (scanComment comment).length ≤ comment.toList.count '!'
  next : ∀ command commands, scanComment comment = command :: commands →
    ∃ front segment back, comment = front ++ "!" ++ segment ++ back ∧ scanComment front = [] ∧
      '!' ∉ segment.toList ∧ scanComment ("!" ++ segment) = [command] ∧
        (∀ c, back.toList.head? = some c → c = '!') ∧ scanComment back = commands

theorem toList_mark (text : String) : ("!" ++ text).toList = '!' :: text.toList := by
  rw [String.toList_append]
  rfl

theorem scanComment_segment {segment : String} (plain : '!' ∉ segment.toList) :
    scanComment ("!" ++ segment) = (segmentCommand? segment.toList).toList := by
  have alone : scan ('!' :: (segment.toList ++ [])) =
      (segmentCommand? segment.toList).toList ++ scan [] := scan_segment plain (by simp)
  rw [List.append_nil, scan, List.append_nil] at alone
  rw [scanComment, toList_mark, alone]

theorem scanComment_eq_cons {comment : String} {command : Command} {commands : List Command}
    (found : scanComment comment = command :: commands) :
    ∃ front segment back, comment = front ++ "!" ++ segment ++ back ∧ scanComment front = [] ∧
      '!' ∉ segment.toList ∧ scanComment ("!" ++ segment) = [command] ∧
        (∀ c, back.toList.head? = some c → c = '!') ∧ scanComment back = commands := by
  obtain ⟨first, more, joins, plain⟩ := exists_joined '!' comment.toList
  rw [scanComment, joins] at found
  obtain ⟨before, segment, behind, rfl, unmade, made, left⟩ := scan_eq_cons plain found
  have own : '!' ∉ (String.ofList segment).toList := by simpa using plain segment (by simp)
  refine ⟨String.ofList (joined '!' first before), String.ofList segment,
    String.ofList (behind.flatMap ('!' :: ·)), ?_, ?_, own, ?_, ?_, ?_⟩
  · rw [← String.toList_inj, joins]
    simp [joined]
  · rw [scanComment, String.toList_ofList, unmade]
  · rw [scanComment_segment own, String.toList_ofList, made]
    rfl
  · intro c head
    rw [String.toList_ofList] at head
    exact head?_flatMap_mark head
  · rw [scanComment, String.toList_ofList, left]

/-- Scanning a comment is scanning its segments. -/
theorem scanComment_bySegment (comment : String) : ScansBySegment comment := by
  obtain ⟨first, more, joins, plain⟩ := exists_joined '!' comment.toList
  have parted : segments comment = (first :: more).map String.ofList := by
    rw [segments, joins, pieces_joined plain]
  have unmarked : ∀ segment ∈ segments comment, '!' ∉ segment.toList := by
    rw [parted]
    simpa using plain
  have alone : ∀ segment ∈ segments comment,
      scanComment ("!" ++ segment) = (segmentCommand? segment.toList).toList :=
    fun segment member => scanComment_segment (unmarked segment member)
  have scanned : scanComment comment = more.filterMap segmentCommand? := by
    rw [scanComment, joins, scan_joined plain]
  have marks : comment.toList.count '!' = more.length := by rw [joins, count_joined plain]
  refine
    { plain := unmarked
      alone := alone
      parts := ?_
      whole := ?_
      marks := ?_
      commands := ?_
      single := ?_
      ends := ?_
      next := fun _ _ => scanComment_eq_cons }
  · rintro front back rfl
    have cut : (front ++ "!" ++ back).toList = front.toList ++ '!' :: back.toList := by simp
    rw [scanComment, scanComment, scanComment, cut, toList_mark, scan_append_mark]
  · rw [← String.toList_inj, String.toList_intercalate, parted, joins, ← intercalate_eq_joined]
    simp
  · simp [parted, marks]
  · rw [scanned, List.filterMap_eq_flatMap_toList, parted, List.map_cons, List.tail_cons,
      List.flatMap_map]
    refine List.flatMap_congr fun segment member => ?_
    have own := plain segment (List.mem_cons_of_mem first member)
    rw [scanComment_segment (by simpa using own), String.toList_ofList]
  · intro segment member
    rw [alone segment member]
    cases segmentCommand? segment.toList <;> simp
  · rw [scanned, marks]
    exact List.length_filterMap_le _ _

example : (scanComment "wow! !=3 !bad =5 !on \"x!off 'y").map (·.name) = ["on", "off"] := by cbv

end PathDirectives
