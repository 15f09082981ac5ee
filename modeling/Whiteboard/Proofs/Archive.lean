import Whiteboard.Archive
import Whiteboard.Proofs.Document.Legible
import Whiteboard.Proofs.Document.Placed
import Whiteboard.Proofs.Document.Proper
import Whiteboard.Proofs.Text.Blank

/-!
# Kept documents

What is written to a disk is read there. A valid document with finite numbers comes back as it was
from its values, from its text, from the history of a board and from the file where it was saved
(`Archive.kept_of_valid`).
-/

namespace Whiteboard

namespace Disk

variable {d d' : Disk} {p : DiskPath} {text : String}

/-- Names are followed through folders only, whatever the files. -/
theorem follow_withFiles (files : List (DiskPath × String)) {place q : DiskPath}
    {names : List String} (h : d.follow place names = .ok q) :
    follow { d with files } place names = .ok q := by
  have hfolder (place : DiskPath) : hasFolder { d with files } place = d.hasFolder place := rfl
  induction names generalizing place with
  | nil => exact h
  | cons name rest ih =>
    rw [follow] at h ⊢
    rw [hfolder]
    split at h
    · contradiction
    · next hplace =>
      rw [if_neg hplace]
      split at h
      · contradiction
      · next hname =>
        rw [if_neg hname]
        exact ih h

/-- A file stands where its path leads, with the text that was written last. -/
theorem locate_of_write (h : d.write p text = .ok d') :
    ∃ place, d'.locate p = .ok place ∧ d'.text? place = some text := by
  simp only [write, locate, bind, Except.bind, pure, Except.pure] at h
  cases hcheck : p.check with
  | error e => simp [hcheck] at h
  | ok u =>
    cases hfollow : d.follow p.start p.names with
    | error e => simp [hcheck, hfollow] at h
    | ok place =>
      simp only [hcheck, hfollow] at h
      split at h
      · contradiction
      · cases h
        refine ⟨place, ?_, by simp [text?]⟩
        simp only [locate, hcheck, bind, Except.bind]
        exact follow_withFiles _ hfollow

theorem has_of_write (h : d.write p text = .ok d') : d'.has p = .ok true := by
  obtain ⟨place, hlocate, htext⟩ := locate_of_write h
  simp [has, hlocate, holds, htext]

theorem read_of_write (h : d.write p text = .ok d') : d'.read p = .ok text := by
  obtain ⟨place, hlocate, htext⟩ := locate_of_write h
  simp [read, hlocate, htext, bind, Except.bind, pure, Except.pure]

end Disk

namespace Document

variable {α : Type}

/-- Documents have all their ids when they are written. -/
theorem nameMissing_toJson (ids : IdSupply) (d : Document α) :
    nameMissing ids d.toJson = (d.toJson, ids) := by
  simp [nameMissing, toJson, toMembers, Entries.get?, Entries.set, Element.nameAll_toJsons]

theorem read_toJson [Scalar α] {d : Document α} (h : d.Valid) (hw : d.Writable) (ids : IdSupply) :
    read ids d.toJson = (.ok d, ids) := by
  rw [read, nameMissing_toJson]
  exact congrArg (·, ids) (ofJson_toJson h hw)

end Document

namespace Archive

theorem documentOf?_toJson {α : Type} [Scalar α] {d : Document α} (h : d.Valid) (hw : d.Writable)
    (ids : IdSupply) : documentOf? ids d.toJson = (some d, ids) := by
  have helements : hasElements d.toJson = true := rfl
  rw [documentOf?, helements, Document.read_toJson h hw]
  rfl

theorem write_of_save {α : Type} [NumberText α] {d : Document α} {p : DiskPath} {disk disk' : Disk}
    (h : save d p disk = (.ok (), disk')) :
    ∃ made : Disk, made.write p (write d) = .ok disk' := by
  rw [save] at h
  split at h
  · cases h
  · next made _ =>
    split at h
    · cases h
    · next written hwritten =>
      cases h
      exact ⟨made, hwritten⟩

variable {d : Document Double}

theorem parse_write (h : d.Valid) (hw : d.Writable) (hfin : d.Finite) (hshort : d.Short)
    (ids : IdSupply) : parse ids (write d) = (.ok (some d), ids) := by
  have hread : Json.read (write d).toList = .ok d.toJson := by
    rw [write, String.toList_ofList]
    exact (Document.read_write hw hfin hshort).2
  rw [parse, hread]
  dsimp only
  rw [documentOf?_toJson h hw]

/-- A document is loaded as it was saved, and the file stays. -/
theorem load_of_save (h : d.Valid) (hw : d.Writable) (hfin : d.Finite) (hshort : d.Short)
    {p : DiskPath} {disk disk' : Disk} (hsave : save d p disk = (.ok (), disk')) (ids : IdSupply) :
    load ids p disk' = (.ok (some d), disk', ids) := by
  obtain ⟨made, hmade⟩ := write_of_save hsave
  rw [load, Disk.has_of_write hmade, Disk.read_of_write hmade]
  have htrim : (Text.trim (write d).toList).isEmpty = false := by
    rw [write, String.toList_ofList, List.isEmpty_eq_false_iff]
    exact Text.trim_ne_nil (by decide) _
  simp only [htrim, Bool.false_eq_true, if_false, parse_write h hw hfin hshort]

end Archive

namespace Document

/-! ## Valid documents -/

/-- Valid documents with room for their groups are those that readers let pass. -/
theorem exists_ofJson_iff {α : Type} [Scalar α] [LawfulScalar α] {d : Document α}
    (hfin : d.Finite) : (∃ v, ofJson v = .ok d) ↔ d.Valid ∧ d.Writable := by
  refine ⟨fun h => ?_, fun h => ⟨d.toJson, ofJson_toJson h.1 h.2⟩⟩
  obtain ⟨v, h⟩ := h
  obtain ⟨ms, -, h⟩ := Checked.andThen_eq_ok_iff.mp h
  simp only [Checked.seq_eq_ok_iff, Checked.map_eq_ok_iff] at h
  obtain ⟨_, viewport, ⟨_, selected, ⟨elements, helements, rfl⟩, -, rfl⟩, hviewport, rfl⟩ := h
  have hview : viewport.Valid := by
    refine Schema.withDefault_of_forall (P := Viewport.Valid) ?_
      (fun _ _ hv => Viewport.valid_of_ofJson hv) hviewport
    exact Scalar.ofNat_pos (by decide) (by decide)
  rw [elementsOf] at helements
  split at helements
  · cases helements
    exact ⟨⟨List.forall_mem_nil _, hview⟩, Nat.zero_le _⟩
  · next items _ =>
    rw [Checked.under_eq_ok_iff] at helements
    have hes := Element.valid_of_ofJsons _ 0 items elements helements (finite_iff.mp hfin).1
    exact ⟨⟨hes, hview⟩, Element.nestingOf_le_of_read _ 0 items elements helements⟩
  · simp [Checked.fail] at helements

/-- What becomes of a document that is written and read again. -/
structure Kept (d : Document Double) : Prop where
  /-- Its value is read as the document itself, -/
  read : ofJson d.toJson = .ok d
  /-- and is written again as it was. -/
  rewritten : (ofJson d.toJson).map toJson = .ok d.toJson
  /-- A board that goes to a state of its history with the same document keeps it. -/
  applied : ∀ (b : Board Double) move r, b.document = d → move b.history = some r →
    r.current = d → b.travel move = (.ok true, { b with history := r }.notify)
  /-- Once it was saved, it is loaded from there, and the file stays. -/
  loaded : d.Short → ∀ p disk disk', Archive.save d p disk = (.ok (), disk') →
    disk'.read p = .ok (Archive.write d) ∧
      ∀ ids, Archive.load ids p disk' = (.ok (some d), disk', ids)

end Document

namespace Archive

/-- A valid document with finite numbers comes back from wherever it was written, from values
whatever the depth of its groups. -/
theorem kept_of_valid {d : Document Double} (h : d.Valid) (hfin : d.Finite) :
    (d == d) = true ∧
      (∀ room, Element.nestingOf d.elements ≤ room →
        Element.ofJsons room 0 (Element.toJsons d.elements) = .ok d.elements) ∧
      (d.Writable → d.Kept) := by
  refine ⟨hfin.beq_self, fun room hroom => ?_, fun hw => ?_⟩
  · refine Element.ofJsons_toJsons (fun e he => ?_) 0
    exact Element.ofJson_toJson (h.elements e he) ((Element.nesting_le_nestingOf he).trans hroom)
  have hread : Document.ofJson d.toJson = .ok d := Document.ofJson_toJson h hw
  refine ⟨hread, by rw [hread]; rfl, fun b move r hb hmove hr => ?_,
    fun hshort p disk disk' hsave => ⟨?_, load_of_save h hw hfin hshort hsave⟩⟩
  · rw [Board.travel, hmove]
    dsimp only
    rw [hr, Document.reread_eq h hw, ← hb]
  · obtain ⟨made, hmade⟩ := write_of_save hsave
    exact Disk.read_of_write hmade

/-- A rectangle, and an image in a group, in a new file. -/
theorem kept_of_valid_gallery :
    let d : Document Double :=
      ⟨[.newShape "a" .rectangle { x := 0.1, y := -20 },
        .group ⟨"g", 5, 5, 300, 200, 0, 1⟩ [.image ⟨"i", 0, 0, 300, 200, 0, 2⟩ ⟨"cat.png", .sepia⟩]],
        ["g"], ⟨0, 0, 2⟩⟩
    let p : DiskPath := .ofText "boards/one.json"
    let saved := save d p ⟨[], []⟩
    saved.1 = .ok () ∧ load .counting p saved.2 = (.ok (some d), saved.2, .counting) := by
  intro d p saved
  have hsaved : saved.1 = .ok () := by decide +kernel
  have hd : d.Valid := by
    refine ⟨List.forall_mem_cons.mpr ⟨Element.valid_newShape .., List.forall_mem_singleton.mpr
      (.group ?_ (List.forall_mem_singleton.mpr (.image ?_)))⟩, by decide +kernel⟩
    · exact ⟨by decide +kernel, by decide +kernel, Scalar.normalizeAngle_zero⟩
    · exact ⟨by decide +kernel, by decide +kernel, Scalar.normalizeAngle_zero⟩
  have hkept := (kept_of_valid hd (by decide +kernel)).2.2 (by decide)
  exact ⟨hsaved, (hkept.loaded (by decide +kernel) p _ saved.2 (Prod.ext hsaved rfl)).2 .counting⟩

end Archive

end Whiteboard
