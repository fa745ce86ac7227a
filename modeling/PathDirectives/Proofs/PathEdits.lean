import Mathlib.Data.List.Nodup
import PathDirectives.Proofs.LineSlices
import PathDirectives.Proofs.Views

/-!
What an action does to the path of an equipment. Ids are handed out once, so that an element that
an action does not put on the path has been there before; elements only leave by a removal that
lists them, and two of them change places only when one is moved to the front without the other.
-/

namespace PathDirectives

open Calendar

section Pairs

variable {α : Type} {items : List α} {first second : α}

theorem not_pair_of_pair (distinct : items.Nodup) (ordered : [first, second].Sublist items) :
    ¬ [second, first].Sublist items := by
  intro swapped
  induction items with
  | nil => simp at ordered
  | cons head tail ih =>
      obtain ⟨fresh, others⟩ := List.nodup_cons.mp distinct
      cases ordered with
      | cons _ ordered =>
          cases swapped with
          | cons _ swapped => exact ih others ordered swapped
          | cons_cons _ swapped => exact fresh (ordered.subset (by simp))
      | cons_cons _ ordered =>
          cases swapped with
          | cons _ swapped => exact fresh (swapped.subset (by simp))
          | cons_cons _ swapped => exact fresh (List.singleton_sublist.mp swapped)

end Pairs

namespace Path

variable {path after last : Path} {line : Nat}

/-- All ids on a path differ, and have been handed out. -/
structure Sound (path : Path) : Prop where
  distinct : path.ids.Nodup
  below : ∀ element ∈ path.elements, element.id.index < path.nextId

theorem IdsInTurn.sound (inTurn : path.IdsInTurn) : path.Sound where
  distinct := by
    rw [inTurn]
    refine List.nodup_range.map fun first second same => ?_
    exact congrArg ElementId.index same
  below element member := by
    have handed : element.id ∈ path.ids := List.mem_map_of_mem member
    rw [inTurn] at handed
    obtain ⟨index, inside, same⟩ := List.mem_map.mp handed
    rw [← same]
    exact List.mem_range.mp inside

theorem Sound.nodup (sound : path.Sound) : path.elements.Nodup := List.Nodup.of_map _ sound.distinct

theorem Sound.eq_of_id (sound : path.Sound) {first second : Element}
    (here : first ∈ path.elements) (there : second ∈ path.elements) (same : first.id = second.id) :
    first = second :=
  List.inj_on_of_nodup_map sound.distinct here there same

theorem Sound.of_sublist (sound : path.Sound) (inside : after.elements.Sublist path.elements)
    (same : after.nextId = path.nextId) : after.Sound where
  distinct := sound.distinct.sublist (inside.map _)
  below element member := same ▸ sound.below element (inside.subset member)

theorem elements_remove (sound : path.Sound) (id : ElementId) :
    (path.remove id).elements = path.elements.filter fun element => element.id != id := by
  have distinct : (path.elements.map (·.id)).Nodup := sound.distinct
  change path.elements.eraseP _ = _
  generalize path.elements = elements at distinct
  induction elements with
  | nil => rfl
  | cons head tail ih =>
      rw [List.map_cons, List.nodup_cons] at distinct
      by_cases same : head.id = id
      · have others : tail.filter (fun element => element.id != id) = tail := by
          apply List.filter_eq_self.mpr
          intro element member
          have apart : element.id ≠ id := by
            rintro rfl
            exact distinct.1 (same ▸ List.mem_map_of_mem member)
          simp [apart]
        simp [same, others]
      · simp [same, ih distinct.2]

theorem elements_removeAll (sound : path.Sound) (ids : List ElementId) :
    (path.removeAll ids).elements =
      path.elements.filter fun element => !ids.contains element.id := by
  induction ids generalizing path with
  | nil => simp [removeAll]
  | cons id rest ih =>
      have first := elements_remove sound id
      have kept : (path.remove id).Sound := sound.of_sublist (first ▸ List.filter_sublist) rfl
      have unfolds : path.removeAll (id :: rest) = (path.remove id).removeAll rest := rfl
      rw [unfolds, ih kept, first, List.filter_filter]
      apply List.filter_congr
      intro element _
      rw [List.contains_cons, Bool.not_or, Bool.and_comm, bne]

theorem nextId_removeAll (path : Path) (ids : List ElementId) :
    (path.removeAll ids).nextId = path.nextId := by
  induction ids generalizing path with
  | nil => rfl
  | cons id rest ih => exact ih (path.remove id)

theorem moveToFront_perm (path : Path) (ids : List ElementId) :
    (path.moveToFront ids).elements.Perm path.elements :=
  List.filter_append_perm _ _

theorem pair_moveToFront {first second : Element} {ids : List ElementId}
    (ordered : [first, second].Sublist path.elements) (alike : first.id ∈ ids ↔ second.id ∈ ids) :
    [first, second].Sublist (path.moveToFront ids).elements := by
  by_cases moved : first.id ∈ ids
  · have both : [first, second].filter (fun element => ids.contains element.id) =
        [first, second] := by
      simp [moved, alike.mp moved]
    exact (both ▸ ordered.filter _).trans (List.sublist_append_left _ _)
  · have both : [first, second].filter (fun element => !ids.contains element.id) =
        [first, second] := by
      simp [moved, mt alike.mpr moved]
    exact (both ▸ ordered.filter _).trans (List.sublist_append_right _ _)

structure ExtendsBy (line : Nat) (path after : Path) : Prop where
  kept : path.elements.Sublist after.elements
  nextId_le : path.nextId ≤ after.nextId
  new : ∀ element ∈ after.elements,
    element ∈ path.elements ∨ path.nextId ≤ element.id.index ∧ element.line = line
  sound : path.Sound → after.Sound

theorem ExtendsBy.refl (line : Nat) (path : Path) : ExtendsBy line path path where
  kept := List.Sublist.refl _
  nextId_le := Nat.le_refl _
  new _ member := .inl member
  sound := id

theorem ExtendsBy.trans (first : ExtendsBy line path after) (second : ExtendsBy line after last) :
    ExtendsBy line path last where
  kept := first.kept.trans second.kept
  nextId_le := Nat.le_trans first.nextId_le second.nextId_le
  new element member := by
    rcases second.new element member with before | ⟨fresh, own⟩
    · exact first.new element before
    · exact .inr ⟨Nat.le_trans first.nextId_le fresh, own⟩
  sound := second.sound ∘ first.sound

theorem extendsBy_of_perm (kind : ElementKind) (kept : path.elements.Sublist after.elements)
    (put : after.elements.Perm (⟨⟨path.nextId⟩, line, kind⟩ :: path.elements))
    (next : after.nextId = path.nextId + 1) : ExtendsBy line path after where
  kept := kept
  nextId_le := by omega
  new element member := by
    rcases List.mem_cons.mp (put.subset member) with rfl | before
    · exact .inr ⟨Nat.le_refl _, rfl⟩
    · exact .inl before
  sound sound := by
    constructor
    · refine (put.map Element.id).nodup_iff.mpr (List.nodup_cons.mpr ⟨?_, sound.distinct⟩)
      intro member
      obtain ⟨element, inside, same⟩ := List.mem_map.mp member
      have below := sound.below element inside
      rw [same] at below
      exact Nat.lt_irrefl _ below
    · intro element member
      rw [next]
      rcases List.mem_cons.mp (put.subset member) with rfl | before
      · exact Nat.lt_succ_self _
      · exact Nat.lt_succ_of_lt (sound.below element before)

theorem pushFirst_extendsBy (path : Path) (line : Nat) (kind : ElementKind) :
    ExtendsBy line path (path.pushFirst line kind) :=
  extendsBy_of_perm kind (List.sublist_cons_self _ _) (List.Perm.refl _) rfl

theorem placeAfter_perm (anchor : ElementId) (element : Element) (elements : List Element) :
    (placeAfter anchor element elements).Perm (element :: elements) := by
  induction elements with
  | nil => exact List.Perm.refl _
  | cons head tail ih =>
      rw [placeAfter]
      split
      · exact List.Perm.swap element head tail
      · exact (ih.cons head).trans (List.Perm.swap element head tail)

theorem sublist_placeAfter (anchor : ElementId) (element : Element) (elements : List Element) :
    elements.Sublist (placeAfter anchor element elements) := by
  induction elements with
  | nil => exact List.nil_sublist _
  | cons head tail ih =>
      rw [placeAfter]
      split
      · exact (List.sublist_cons_self element tail).cons_cons head
      · exact ih.cons_cons head

theorem insertSteps_extendsBy (path : Path) (line : Nat) (anchor : ElementId) (steps : List Step) :
    ExtendsBy line path (path.insertSteps line anchor steps) := by
  induction steps generalizing path anchor with
  | nil => exact .refl line path
  | cons step rest ih =>
      let own : Element := ⟨⟨path.nextId⟩, line, .steps [step]⟩
      let next : Path := ⟨placeAfter anchor own path.elements, path.nextId + 1⟩
      have first : ExtendsBy line path next :=
        extendsBy_of_perm _ (sublist_placeAfter anchor own _) (placeAfter_perm anchor own _) rfl
      exact first.trans (ih next own.id)

end Path

/-! ### Actions -/

def Action.adds? : Action → Option (EquipmentId × Nat)
  | .insertIdle id line _ _ => some (id, line)
  | .forceComplete id line _ _ => some (id, line)
  | .insertSteps id line _ _ => some (id, line)
  | _ => none

inductive Action.Edits (id : EquipmentId) (path : Path) : Action → Path → Prop where
  | keeps {action : Action} : Edits id path action path
  | removes {elements : List ElementId} :
      Edits id path (.removeElements id elements) (path.removeAll elements)
  | moves {elements : List ElementId} :
      Edits id path (.moveToFront id elements) (path.moveToFront elements)
  | adds {action : Action} {line : Nat} {after : Path} (owns : action.adds? = some (id, line))
      (extends_by : path.ExtendsBy line after) : Edits id path action after

namespace Action.Edits

variable {id : EquipmentId} {path after : Path} {action : Action} {first second element : Element}

theorem sound (edits : Edits id path action after) (sound : path.Sound) : after.Sound := by
  cases edits with
  | keeps => exact sound
  | @removes elements =>
      refine sound.of_sublist ?_ (path.nextId_removeAll elements)
      rw [Path.elements_removeAll sound]
      exact List.filter_sublist
  | @moves elements =>
      have same := path.moveToFront_perm elements
      exact ⟨(same.map Element.id).nodup_iff.mpr sound.distinct,
        fun element member => sound.below element (same.subset member)⟩
  | adds _ extends_by => exact extends_by.sound sound

theorem nextId_le (edits : Edits id path action after) : path.nextId ≤ after.nextId := by
  cases edits with
  | keeps | moves => exact Nat.le_refl _
  | @removes elements => exact Nat.le_of_eq (path.nextId_removeAll elements).symm
  | adds _ extends_by => exact extends_by.nextId_le

theorem old_or_new (edits : Edits id path action after) (sound : path.Sound)
    (member : element ∈ after.elements) :
    element ∈ path.elements ∨
      path.nextId ≤ element.id.index ∧ action.adds? = some (id, element.line) := by
  cases edits with
  | keeps => exact .inl member
  | @removes elements =>
      rw [Path.elements_removeAll sound] at member
      exact .inl (List.mem_filter.mp member).1
  | @moves elements => exact .inl ((path.moveToFront_perm elements).subset member)
  | adds owns extends_by =>
      rcases extends_by.new element member with before | ⟨fresh, own⟩
      · exact .inl before
      · exact .inr ⟨fresh, own ▸ owns⟩

theorem lost (edits : Edits id path action after) (sound : path.Sound)
    (member : element ∈ path.elements) (gone : element ∉ after.elements) :
    ∃ elements, action = .removeElements id elements ∧ element.id ∈ elements := by
  cases edits with
  | keeps => exact absurd member gone
  | @removes elements =>
      refine ⟨elements, rfl, ?_⟩
      rw [Path.elements_removeAll sound, List.mem_filter] at gone
      simpa [member] using gone
  | @moves elements => exact absurd ((path.moveToFront_perm elements).symm.subset member) gone
  | adds _ extends_by => exact absurd (extends_by.kept.subset member) gone

/-- Two elements change places only if just one of them is moved to the front. -/
theorem ordered (edits : Edits id path action after) (sound : path.Sound)
    (ordered : [first, second].Sublist path.elements) (here : first ∈ after.elements)
    (there : second ∈ after.elements) :
    [first, second].Sublist after.elements ∨
      ∃ elements, action = .moveToFront id elements ∧
        (first.id ∈ elements ↔ second.id ∉ elements) := by
  cases edits with
  | keeps => exact .inl ordered
  | @removes elements =>
      rw [Path.elements_removeAll sound] at here there ⊢
      have both : [first, second].filter (fun element => !elements.contains element.id) =
          [first, second] := by
        rw [List.filter_eq_self]
        intro element member
        rcases List.mem_pair.mp member with rfl | rfl
        · exact (List.mem_filter.mp here).2
        · exact (List.mem_filter.mp there).2
      exact .inl (both ▸ ordered.filter _)
  | @moves elements =>
      by_cases alike : first.id ∈ elements ↔ second.id ∈ elements
      · exact .inl (Path.pair_moveToFront ordered alike)
      · refine .inr ⟨elements, rfl, ?_⟩
        by_cases moved : first.id ∈ elements <;> simp_all
  | adds _ extends_by => exact .inl (ordered.trans extends_by.kept)

end Action.Edits

namespace Site

variable {site : Site} {id : EquipmentId} {path : Path}

def path? (site : Site) (id : EquipmentId) : Option Path :=
  (site.scenario.equipment? id).map (·.path)

theorem hasEquipment_of_path? (here : site.path? id = some path) : site.HasEquipment id := by
  obtain ⟨equipment, found, -⟩ := Option.map_eq_some_iff.mp here
  exact (List.getElem?_eq_some_iff.mp found).1

theorem equipment?_editPath (site : Site) (owner : EquipmentId) (change : Path → Path)
    (id : EquipmentId) :
    (site.editPath owner change).1.scenario.equipment? id =
      if id = owner then
        (site.scenario.equipment? id).map fun equipment =>
          { equipment with path := change equipment.path }
      else site.scenario.equipment? id := by
  unfold editPath Scenario.changePath
  cases found : site.scenario.equipment? owner with
  | none =>
      by_cases same : id = owner
      · simp [same, found]
      · simp [same]
  | some equipment => simp only [Scenario.equipment?_modifyEquipment]

theorem path?_editPath (site : Site) (owner : EquipmentId) (change : Path → Path)
    (id : EquipmentId) :
    (site.editPath owner change).1.path? id =
      if id = owner then (site.path? id).map change else site.path? id := by
  rw [path?, path?, equipment?_editPath]
  split
  · rw [Option.map_map, Option.map_map]
    rfl
  · rfl

theorem path?_changeWindow (site : Site) (handle : WindowHandle)
    (change : TimeWindow → TimeWindow) (id : EquipmentId) :
    (site.editHolds (site.holds.changeWindow handle change)).1.path? id = site.path? id := by
  unfold editHolds
  split <;> rfl

theorem apply_edits (site : Site) (action : Action) (here : site.path? id = some path) :
    ∃ after, (site.apply action).1.path? id = some after ∧ action.Edits id path after := by
  have edited {owner : EquipmentId} {change : Path → Path} {action : Action}
      (edits : owner = id → action.Edits id path (change path)) :
      ∃ after, (site.editPath owner change).1.path? id = some after ∧
        action.Edits id path after := by
    rw [path?_editPath]
    by_cases own : id = owner
    · exact ⟨change path, by simp [own, own ▸ here], edits own.symm⟩
    · exact ⟨path, by simp [own, here], .keeps⟩
  cases action with
  | addDependencies tasks predecessors delay rule | removeDependencies tasks only =>
      exact ⟨path, here, .keeps⟩
  | removeElements owner elements => exact edited fun own => own ▸ .removes
  | insertIdle owner line process duration =>
      exact edited fun own => .adds (own ▸ rfl) (path.pushFirst_extendsBy line _)
  | forceComplete owner line steps ignoreConstraints =>
      simp only [apply]
      split
      · exact ⟨path, here, .keeps⟩
      · exact edited fun own => .adds (own ▸ rfl) (path.pushFirst_extendsBy line _)
  | moveToFront owner elements => exact edited fun own => own ▸ .moves
  | insertSteps owner line anchor steps =>
      exact edited fun own => .adds (own ▸ rfl) (path.insertSteps_extendsBy line anchor steps)
  | activateWindow handle | deactivateWindow handle =>
      exact ⟨path, (site.path?_changeWindow handle _ id).trans here, .keeps⟩

end Site

end PathDirectives
