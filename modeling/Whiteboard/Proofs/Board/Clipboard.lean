import Mathlib
import Whiteboard.Proofs.Board.Identity
import Whiteboard.Proofs.Board.Range
import Whiteboard.Proofs.Board.Topmost
import Whiteboard.Proofs.Document.Attachment
import Whiteboard.Proofs.Document.Supply

/-!
# Copies

Only copying and pasting touch the clipboard (`Board.clipboard_of_neither`), and each time it is
pasted it becomes what was pasted. So the copies lie one step further off their models each time,
whatever became of the models meanwhile (`Board.exists_pasted`).
-/

namespace Whiteboard

namespace Edit

variable {α : Type}

def isCopy : Edit α → Bool
  | .copy => true
  | _ => false

def isPaste : Edit α → Bool
  | .paste => true
  | _ => false

end Edit

namespace Element

variable {α : Type}

/-! ## Copied elements -/

mutual

theorem anonymous_renamed (ids : IdSupply) (e : Element α) :
    (renamed ids e).1.anonymous = e.anonymous := by
  cases e with
  | group f cs => rw [renamed, anonymous, anonymous, anonymousAll_renamedAll]
  | _ => rfl

theorem anonymousAll_renamedAll (ids : IdSupply) (es : List (Element α)) :
    anonymousAll (renamedAll ids es).1 = anonymousAll es := by
  cases es with
  | nil => rfl
  | cons e rest =>
    rw [renamedAll, anonymousAll, anonymousAll, anonymous_renamed, anonymousAll_renamedAll]

end

theorem forall₂_renamedAll (ids : IdSupply) (es : List (Element α)) :
    List.Forall₂ (fun e e' => e'.anonymous = e.anonymous) es (renamedAll ids es).1 := by
  induction es generalizing ids with
  | nil => exact .nil
  | cons e rest ih =>
    rw [renamedAll]
    exact .cons (anonymous_renamed ids e) (ih (renamed ids e).2)

variable [Scalar α]

/-- An element that lies as far off another one to the right as to the bottom, and differs from it
in nothing else but its ids, at whatever depth. -/
def CopyOf (offset : α) (e e' : Element α) : Prop :=
  e'.anonymous = (e.shift offset offset).anonymous

theorem anonymous_shift (dx dy : α) (e : Element α) :
    (e.shift dx dy).anonymous = e.anonymous.shift dx dy := by
  cases e <;> rfl

theorem allIds_map_shift (dx dy : α) (es : List (Element α)) :
    allIds (es.map (shift dx dy)) = allIds es := by
  rw [allIds_eq, allIds_eq]
  exact congrArg _ (rosterOf_map fun e _ => roster_withFrame e rfl)

theorem forall₂_copyOf (ids : IdSupply) (offset : α) (es : List (Element α)) :
    List.Forall₂ (CopyOf offset) es ((renamedAll ids es).1.map (shift offset offset)) := by
  rw [List.forall₂_map_right_iff]
  refine (forall₂_renamedAll ids es).imp fun e e' h => ?_
  rw [CopyOf, anonymous_shift, h, anonymous_shift]

end Element

namespace Board

open Element

variable {α β γ : Type} [Scalar α] {b c : Board α}

/-! ## What leaves the clipboard alone -/

theorem clipboard_applyBatch (batch : Batch α) (b : Board α) :
    (b.applyBatch batch).2.clipboard = b.clipboard := by
  unfold applyBatch
  split <;> rfl

/-- The last step of an edit that may have been refused. -/
theorem clipboard_of_changed {o : Outcome α β} (h : o.2.clipboard = b.clipboard) (f : β → γ) :
    (o.andThen fun v c => (.ok (f v), c.changed)).2.clipboard = b.clipboard := by
  obtain ⟨err | v, c⟩ := o
  · exact h
  · exact clipboard_changed.trans h

theorem clipboard_refreshed (h : c.clipboard = b.clipboard) (moved : List String) (v : β) :
    ((c.refreshBindings moved).andThen fun _ d => (.ok v, d.changed)).2.clipboard
      = b.clipboard :=
  clipboard_of_changed ((clipboard_applyBatch _ c).trans h) fun _ => v

theorem clipboard_followed (h : c.clipboard = b.clipboard) (batch : Batch α) (rebind : Bool)
    (v : β) : ((if rebind then c.followBatch batch else (.ok (), c)).andThen
      fun _ d => (.ok v, d.changed)).2.clipboard = b.clipboard := by
  cases rebind with
  | false => exact clipboard_changed.trans h
  | true => exact clipboard_of_changed ((clipboard_applyBatch _ c).trans h) fun _ => v

theorem clipboard_update (id : String) (changes : Changes α) (rebind : Bool) :
    (b.update id changes rebind).2.clipboard = b.clipboard := by
  unfold update
  split
  · rfl
  · dsimp only
    split
    · rfl
    · exact clipboard_followed rfl ..

theorem clipboard_updateAll (batch : Batch α) (rebind : Bool) :
    (b.updateAll batch rebind).2.clipboard = b.clipboard := by
  have happlied := clipboard_applyBatch batch b
  unfold updateAll
  split
  · rfl
  · generalize b.applyBatch batch = o at happlied
    obtain ⟨err | _, c⟩ := o
    · exact happlied
    · exact clipboard_followed happlied ..

theorem clipboard_turnTogether (ids : List String) (angle : α) :
    (b.turnTogether ids angle).2.clipboard = b.clipboard := by
  unfold turnTogether
  split
  · rfl
  · exact clipboard_refreshed rfl ..

theorem clipboard_rotate (ids : List String) (angle : α) :
    (b.rotate ids angle).2.clipboard = b.clipboard := by
  unfold rotate
  split
  · rfl
  · exact clipboard_refreshed rfl ..
  · exact clipboard_turnTogether ..

theorem clipboard_setRotation (ids : List String) (target : α) :
    (b.setRotation ids target).2.clipboard = b.clipboard := by
  unfold setRotation
  split
  · rfl
  · exact clipboard_refreshed rfl ..
  · dsimp only
    split
    · rfl
    · exact clipboard_turnTogether ..

theorem clipboard_updateViewport (changes : Changes α) :
    (b.updateViewport changes).2.clipboard = b.clipboard := by
  unfold updateViewport
  dsimp only
  split
  · rfl
  · exact clipboard_changed

theorem clipboard_create (kind : ElementKind) (draft : Draft α) :
    (b.create kind draft).2.clipboard = b.clipboard := by
  unfold create
  split
  · rfl
  · exact clipboard_changed

theorem clipboard_createArrow (start finish : Point α)
    (startBinding finishBinding : Option Binding) :
    (b.createArrow start finish startBinding finishBinding).2.clipboard = b.clipboard := by
  unfold createArrow
  dsimp only
  generalize Frame.checked (α := α) _ = checked
  cases checked with
  | bad issues => rfl
  | ok f => exact clipboard_changed

theorem clipboard_moveEnd (id : String) (side : ArrowEnd) (p : Point α)
    (binding : Option Binding) : (b.moveEnd id side p binding).2.clipboard = b.clipboard := by
  unfold moveEnd
  split
  · rfl
  · exact clipboard_update ..

theorem clipboard_group (ids : List String) : (b.group ids).2.clipboard = b.clipboard := by
  unfold group
  dsimp only
  split
  · rfl
  · generalize groupOf b.ids.elementId (among ids b.elements) = made
    cases made with
    | bad issues => rfl
    | ok g => exact clipboard_refreshed rfl ..

theorem clipboard_ungroup (ids : List String) : (b.ungroup ids).2.clipboard = b.clipboard := by
  unfold ungroup
  dsimp only
  split
  · rfl
  · exact clipboard_refreshed rfl ..

theorem clipboard_restack (ids : List String)
    (order : (Element α → Bool) → List (Element α) → List (Element α)) :
    (b.restack ids order).clipboard = b.clipboard := by
  unfold restack
  split
  · rfl
  · exact clipboard_changed

/-- All edits but copying and pasting leave the clipboard alone, also those that are refused. -/
theorem clipboard_of_neither {e : Edit α} (hcopy : e.isCopy = false) (hpaste : e.isPaste = false) :
    (b.perform e).2.clipboard = b.clipboard := by
  cases e with
  | add | insert | delete => exact clipboard_changed
  | update id changes rebind => exact clipboard_update ..
  | updateAll batch rebind => exact clipboard_updateAll ..
  | load d reset =>
    cases reset with
    | false => exact clipboard_changed
    | true => rfl
  | rotate ids angle => exact clipboard_rotate ..
  | setRotation ids target => exact clipboard_setRotation ..
  | select | toggle | clearSelection => rfl
  | view changes => exact clipboard_updateViewport ..
  | copy | paste => contradiction
  | create kind draft => exact clipboard_create ..
  | createArrow start finish startBinding finishBinding => exact clipboard_createArrow ..
  | moveEnd id side p binding => exact clipboard_moveEnd ..
  | group ids => exact clipboard_group ids
  | ungroup ids => exact clipboard_ungroup ids
  | bringToFront | sendToBack | bringForward | sendBackward => exact clipboard_restack ..
  | undo | redo | beginBatch | endBatch => exact clipboard_perform rfl

omit [Scalar α] in
/-- What was copied is on the clipboard. -/
theorem clipboard_copy {n : Nat} (h : b.copy.1 = .ok n) :
    b.copy.2.clipboard = b.selectedElements ∧ b.selectedElements.length = n := by
  unfold copy copyable at h ⊢
  dsimp only at h ⊢
  split at h
  · next hshallow =>
    rw [if_pos hshallow]
    cases h
    exact ⟨rfl, rfl⟩
  · cases h

/-! ## New ids -/

omit [Scalar α] in
/-- An id that occurs on a board, at whatever depth: in its document, on its clipboard or in a state
of its history. -/
def Knows (b : Board α) (id : String) : Prop :=
  id ∈ allIds b.elements ∨ id ∈ allIds b.clipboard ∨
    ∃ d ∈ b.history.timeline, id ∈ allIds d.elements

/-- The ids that an edit draws differ from each other and occur nowhere on the board. -/
structure DrawsUnused (b : Board α) (e : Edit α) : Prop where
  distinct : (newIds b (b.perform e).2).Nodup
  unknown : ∀ id ∈ newIds b (b.perform e).2, ¬ b.Knows id

omit [Scalar α] in
instance (b : Board α) (id : String) : Decidable (b.Knows id) :=
  inferInstanceAs (Decidable (_ ∨ _ ∨ ∃ d ∈ b.history.timeline, id ∈ allIds d.elements))

instance (b : Board α) (e : Edit α) : Decidable (b.DrawsUnused e) :=
  decidable_of_iff ((newIds b (b.perform e).2).Nodup ∧
      ∀ id ∈ newIds b (b.perform e).2, ¬ b.Knows id)
    ⟨fun h => ⟨h.1, h.2⟩, fun h => ⟨h.distinct, h.unknown⟩⟩

/-- What is pasted has the ids that were drawn for it. -/
theorem allIds_paste (b : Board α) : allIds b.paste.1 = newIds b b.paste.2 := by
  unfold paste
  split
  · rw [newIds, Nat.sub_self]
    rfl
  · obtain ⟨hids, hsupply⟩ := allIds_renamedAll b.ids b.clipboard
    have hdrawn (es : List (Element α)) : newIds b
          ({ b with clipboard := es, ids := (renamedAll b.ids b.clipboard).2 }.insert es)
        = b.ids.elementIds (partsOf b.clipboard).length := by
      rw [newIds, insert, (sameRoster_changed _).ids]
      simp only [withSelected, withElements, hsupply, IdSupply.advance, Nat.add_sub_cancel_left]
    exact (allIds_map_shift ..).trans (hids.trans (hdrawn _).symm)

theorem forall₂_paste (b : Board α) :
    List.Forall₂ (CopyOf pasteOffset) b.clipboard b.paste.1 := by
  unfold paste
  split
  · next hempty =>
    rw [List.isEmpty_iff.mp hempty]
    exact .nil
  · exact forall₂_copyOf b.ids pasteOffset b.clipboard

theorem clipboard_paste (b : Board α) : b.paste.2.clipboard = b.paste.1 := by
  unfold paste
  split
  · next hempty => exact List.isEmpty_iff.mp hempty
  · exact clipboard_changed

end Board

/-! ## Exact numbers -/

section Exact

variable {α : Type} [Field α] [LinearOrder α] [FloorRing α] [Trigonometry α]

namespace Element

variable {x y : α} {e e' e'' : Element α}

theorem copyOf_zero (e : Element α) : CopyOf (0 : α) e e := by
  have hsame : e.shift 0 0 = e := by
    cases e <;>
      simp only [shift, moveTo, mapFrame, withFrame, Element.x, Element.y, frame, add_zero]
  rw [CopyOf, hsame]

theorem CopyOf.trans (h : CopyOf x e e') (h' : CopyOf y e' e'') : CopyOf (x + y) e e'' := by
  have htwice : (e.shift x x).shift y y = e.shift (x + y) (x + y) := by
    cases e <;>
      simp only [shift, moveTo, mapFrame, withFrame, Element.x, Element.y, frame, add_assoc]
  rw [CopyOf] at h h' ⊢
  rw [h', anonymous_shift, h, ← anonymous_shift, htwice]

end Element

namespace Board

open Element

variable {b : Board α}

theorem pasteOffset_eq : (pasteOffset : α) = 20 := rfl

/-- After edits other than copying, the clipboard is a copy of what it was, as far off as it was
often pasted. -/
theorem forall₂_clipboard_performAll {edits : List (Edit α)}
    (hedits : ∀ e ∈ edits, e.isCopy = false) :
    List.Forall₂ (CopyOf (20 * edits.countP Edit.isPaste : α)) b.clipboard
      (b.performAll edits).clipboard := by
  induction edits generalizing b with
  | nil =>
    have hnone : (20 * ([] : List (Edit α)).countP Edit.isPaste : α) = 0 := by simp
    rw [hnone]
    exact List.forall₂_same.mpr fun e _ => copyOf_zero e
  | cons e rest ih =>
    rw [List.forall_mem_cons] at hedits
    have hrest := ih (b := (b.perform e).2) hedits.2
    cases hpaste : e.isPaste with
    | false =>
      rw [clipboard_of_neither hedits.1 hpaste] at hrest
      rw [List.countP_cons_of_neg (by simp [hpaste])]
      exact hrest
    | true =>
      cases e with
      | paste =>
        have hcount : (20 * (Edit.paste :: rest).countP Edit.isPaste : α)
            = pasteOffset + 20 * rest.countP Edit.isPaste := by
          rw [List.countP_cons_of_pos hpaste, pasteOffset_eq]
          push_cast
          ring
        rw [hcount]
        have hstep := forall₂_paste b
        rw [← clipboard_paste] at hstep
        exact forall₂_comp (fun _ _ _ => .trans) hstep hrest
      | _ => contradiction

variable [IsStrictOrderedRing α]

theorem document_paste (h : b.clipboard ≠ []) : b.paste.2.document = { b.document with
    elements := b.elements ++ b.paste.1, selected := b.paste.1.map Element.id } := by
  have hsome : ¬ b.clipboard.isEmpty = true := fun hempty => h (List.isEmpty_iff.mp hempty)
  unfold paste
  rw [if_neg hsome]
  exact document_changed (finite_of_exact _)

end Board

end Exact

end Whiteboard
