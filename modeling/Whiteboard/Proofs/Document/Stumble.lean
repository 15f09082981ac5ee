import Whiteboard.Arrow
import Whiteboard.Proofs.Board.Content
import Whiteboard.Proofs.Document.Proper

/-!
# Changes that are refused unchecked

Changes are completed before they are checked, and there an element may stumble over them: a text
over a style that is no record, an arrow over a size that is an integer out of range
(`Element.stumble?`). Whatever else is wrong with changes the checks find
(`Element.apply_of_stumble?_eq_none`).
-/

namespace Whiteboard

variable {α : Type} [Scalar α]

namespace Changes

/-- Whether a new size is an integer beyond the range of numbers, where an old one is there to
compare it with. -/
def overflows (key : String) (old : α) (changes : Changes α) : Bool :=
  !Scalar.isZero old &&
    match Entries.get? key changes with
    | some (.int i) => !Scalar.holdsInt α i
    | _ => false

/-- Whether a new style is there, but neither null nor a record. -/
def misstyles (changes : Changes α) : Bool :=
  match Entries.get? "style" changes with
  | none | some .null | some (.obj _) => false
  | some _ => true

/-- There is a growth unless the size is out of range. -/
theorem growth_cases (key : String) (old : α) (changes : Changes α) :
    (changes.overflows key old = true ∧ growth key old changes = .error .outOfRange) ∨
      (changes.overflows key old = false ∧ ∃ x, growth key old changes = .ok x) := by
  unfold growth overflows
  cases hzero : Scalar.isZero old with
  | true => exact .inr ⟨rfl, 1, rfl⟩
  | false =>
    rw [if_neg Bool.false_ne_true]
    cases hsize : Entries.get? key changes with
    | none => exact .inr ⟨rfl, 1, rfl⟩
    | some v =>
      cases v with
      | num x => exact .inr ⟨rfl, _, rfl⟩
      | bool b => exact .inr ⟨rfl, _, rfl⟩
      | int i =>
        dsimp only
        cases hholds : Scalar.holdsInt α i with
        | true => exact .inr ⟨rfl, _, rfl⟩
        | false => exact .inl ⟨rfl, rfl⟩
      | _ => exact .inr ⟨rfl, 1, rfl⟩

/-- Ends are put in unless a size is out of range. -/
theorem putEnds_cases (f : Frame α) (s : Shape α) (changes : Changes α) :
    ((changes.overflows "width" f.width || changes.overflows "height" f.height) = true ∧
        putEnds f s changes = .error .outOfRange) ∨
      ((changes.overflows "width" f.width || changes.overflows "height" f.height) = false ∧
        ∃ changes', putEnds f s changes = .ok changes') := by
  unfold putEnds
  rcases growth_cases "width" f.width changes with ⟨hwidth, hsx⟩ | ⟨hwidth, sx, hsx⟩
  · rw [hwidth, hsx]
    exact .inl ⟨rfl, rfl⟩
  · rcases growth_cases "height" f.height changes with ⟨hheight, hsy⟩ | ⟨hheight, sy, hsy⟩
    · rw [hwidth, hheight, hsx, hsy]
      exact .inl ⟨rfl, rfl⟩
    · rw [hwidth, hheight, hsx, hsy]
      exact .inr ⟨rfl, _, rfl⟩

omit [Scalar α] in
theorem putStyle_cases (t : TextBlock α) (changes : Changes α) :
    (changes.misstyles = true ∧ putStyle t changes = .error .styleExpected) ∨
      (changes.misstyles = false ∧ ∃ changes', putStyle t changes = .ok changes') := by
  unfold putStyle misstyles
  cases hstyle : Entries.get? "style" changes with
  | none => exact .inr ⟨rfl, _, rfl⟩
  | some v =>
    cases v with
    | null => exact .inr ⟨rfl, _, rfl⟩
    | obj ms => exact .inr ⟨rfl, _, rfl⟩
    | _ => exact .inl ⟨rfl, rfl⟩

theorem overflows_erase_id {key : String} (hkey : "id" ≠ key) (old : α) (changes : Changes α) :
    overflows key old (Entries.erase "id" changes) = changes.overflows key old := by
  rw [overflows, Entries.get?_erase, if_neg hkey, overflows]

omit [Scalar α] in
theorem misstyles_erase_id (changes : Changes α) :
    misstyles (Entries.erase "id" changes) = changes.misstyles := by
  rw [misstyles, Entries.get?_erase, if_neg (by decide), misstyles]

end Changes

namespace Element

/-- An element that the checks of a reader let through. -/
def Admitted (e : Element α) : Prop := ∃ v, ofJson maxNesting v = .ok e

/-- What an element stumbles over before changes are checked. -/
def stumble? (e : Element α) (changes : Changes α) : Option EditError :=
  match e with
  | .shape f .arrow _ =>
    if changes.overflows "width" f.width || changes.overflows "height" f.height then
      some .outOfRange
    else none
  | .text .. => if changes.misstyles then some .styleExpected else none
  | _ => none

variable {e e' : Element α} {changes : Changes α} {err : EditError}

theorem Admitted.proper [LawfulScalar α] (h : e.Admitted) : e.Proper := by
  obtain ⟨v, hread⟩ := h
  exact fun hfin => valid_of_ofJson maxNesting v e hread hfin

theorem stumble?_erase_id (e : Element α) (changes : Changes α) :
    e.stumble? (Entries.erase "id" changes) = e.stumble? changes := by
  cases e with
  | shape f k s =>
    cases k with
    | arrow =>
      rw [stumble?, Changes.overflows_erase_id (by decide), Changes.overflows_erase_id (by decide),
        stumble?]
    | _ => rfl
  | text f t => rw [stumble?, Changes.misstyles_erase_id, stumble?]
  | _ => rfl

/-- Changes are completed unless the element stumbles. -/
theorem completed_cases (e : Element α) (changes : Changes α) :
    (∃ err, e.stumble? changes = some err ∧ Changes.completed e changes = .error err) ∨
      (e.stumble? changes = none ∧ ∃ changes', Changes.completed e changes = .ok changes') := by
  cases e with
  | shape f k s =>
    cases k with
    | arrow =>
      rcases Changes.putEnds_cases f s changes with ⟨hover, hput⟩ | ⟨hover, hput⟩
      · exact .inl ⟨.outOfRange, if_pos hover, hput⟩
      · exact .inr ⟨by rw [stumble?, hover, if_neg Bool.false_ne_true], hput⟩
    | _ => exact .inr ⟨rfl, changes, rfl⟩
  | text f t =>
    rcases Changes.putStyle_cases t changes with ⟨hstyle, hput⟩ | ⟨hstyle, hput⟩
    · exact .inl ⟨.styleExpected, if_pos hstyle, hput⟩
    · exact .inr ⟨by rw [stumble?, hstyle, if_neg Bool.false_ne_true], hput⟩
  | _ => exact .inr ⟨rfl, changes, rfl⟩

theorem admitted_of_apply {ids ids' : IdSupply} (h : e.apply ids changes = (.ok e', ids')) :
    e'.Admitted := by
  obtain ⟨_, ms, -, -, hread⟩ := ofJson_of_apply h
  exact ⟨.obj ms, hread⟩

/-- What an element stumbles over is what comes of the changes. -/
theorem apply_of_stumble? (h : e.stumble? changes = some err) (ids : IdSupply) :
    e.apply ids changes = (.error err, ids) := by
  rw [← stumble?_erase_id] at h
  rcases completed_cases e (Entries.erase "id" changes) with ⟨err', herr, hcompleted⟩ | ⟨hnone, -⟩
  · rw [h] at herr
    cases herr
    rw [apply, hcompleted]
  · rw [h] at hnone
    contradiction

/-- An element that does not stumble passes the checks with its changes, under its id, or is refused
with what the checks found. -/
theorem apply_of_stumble?_eq_none (h : e.stumble? changes = none) (ids : IdSupply) :
    (∃ e' ids', e.apply ids changes = (.ok e', ids') ∧ e'.Admitted ∧ e'.id = e.id) ∨
      ∃ issues ids', e.apply ids changes = (.error (.invalid issues), ids') := by
  generalize happly : e.apply ids changes = result
  obtain ⟨err | e', ids'⟩ := result
  · right
    rw [← stumble?_erase_id] at h
    rcases completed_cases e (Entries.erase "id" changes) with
      ⟨err', herr, -⟩ | ⟨-, changes', hcompleted⟩
    · rw [h] at herr
      contradiction
    · rw [apply, hcompleted] at happly
      dsimp only at happly
      generalize Element.read (α := α) ids _ = result at happly
      obtain ⟨read, rest⟩ := result
      cases read with
      | ok e' => cases happly
      | bad issues =>
        cases happly
        exact ⟨issues, _, rfl⟩
  · exact .inl ⟨e', ids', rfl, admitted_of_apply happly, id_of_apply happly⟩

/-- A refusal tells what the checks found, or what an element stumbled over. -/
theorem refusal_of_apply {ids ids' : IdSupply} (h : e.apply ids changes = (.error err, ids')) :
    (∃ issues, err = .invalid issues) ∨ e.stumble? changes = some err := by
  cases hstumble : e.stumble? changes with
  | some err' =>
    rw [apply_of_stumble? hstumble] at h
    cases h
    exact .inr rfl
  | none =>
    rcases apply_of_stumble?_eq_none hstumble ids with
      ⟨e', ids'', happly, -⟩ | ⟨issues, ids'', happly⟩ <;> rw [happly] at h <;> cases h
    exact .inl ⟨issues, rfl⟩

/-- No element stumbles over the geometry of an arrow. -/
theorem stumble?_toChanges (e : Element α) (g : ArrowGeometry α) :
    e.stumble? g.toChanges = none := by
  cases e with
  | shape f k s =>
    cases k with
    | arrow => simp [stumble?, Changes.overflows, ArrowGeometry.toChanges, Entries.get?]
    | _ => rfl
  | _ => rfl

/-- Where one after the other is changed, a refusal is that of one of them. -/
theorem exists_of_applyEach_eq_error {changesOf : Element α → Option (Changes α)}
    {ids ids' : IdSupply} {es es' : List (Element α)}
    (h : applyEach changesOf ids es = (some err, es', ids')) :
    ∃ e ∈ es, ∃ changes ids₁, changesOf e = some changes ∧ (e.apply ids₁ changes).1 = .error err := by
  induction es generalizing ids ids' es' with
  | nil => cases h
  | cons e rest ih =>
    have hrest {ids₁ : IdSupply} (hfailed : (applyEach changesOf ids₁ rest).1 = some err) :
        ∃ e' ∈ e :: rest, ∃ changes ids₂,
          changesOf e' = some changes ∧ (e'.apply ids₂ changes).1 = .error err := by
      obtain ⟨e', he', hrefused⟩ := ih (Prod.ext hfailed rfl)
      exact ⟨e', List.mem_cons_of_mem _ he', hrefused⟩
    rw [applyEach] at h
    split at h
    · exact hrest (congrArg Prod.fst h)
    · next changes hchanges =>
      split at h
      · next happly =>
        cases h
        exact ⟨e, List.mem_cons_self, changes, ids, hchanges, congrArg Prod.fst happly⟩
      · exact hrest (congrArg Prod.fst h)

/-- What a refused batch tells is what the checks found, or what an element stumbled over. -/
theorem refusal_of_applyEach {changesOf : Element α → Option (Changes α)} {ids ids' : IdSupply}
    {es es' : List (Element α)} (h : applyEach changesOf ids es = (some err, es', ids')) :
    (∃ issues, err = .invalid issues) ∨
      ∃ e ∈ es, ∃ changes, changesOf e = some changes ∧ e.stumble? changes = some err := by
  obtain ⟨e, he, changes, ids₁, hchanges, hrefused⟩ := exists_of_applyEach_eq_error h
  rcases refusal_of_apply (Prod.ext hrefused rfl) with hissues | hstumble
  · exact .inl hissues
  · exact .inr ⟨e, he, changes, hchanges, hstumble⟩

end Element

end Whiteboard
