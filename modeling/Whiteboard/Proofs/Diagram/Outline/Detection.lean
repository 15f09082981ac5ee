import Whiteboard.Proofs.Diagram.Outline.Indentation
import Whiteboard.Proofs.Text.PlainLine

/-!
# Sources that show an outline

The format of a source is guessed from a plain line, and plain lines end at more characters than the
lines of an outline do. An outline is read all the same from every source that shows one
(`Outline.parse_of_detect`), unless the plain line belongs to the line of a comment: then it counts
for nothing.
-/

namespace Whiteboard.Diagram

open Text

variable {c : Char} {cs line k : List Char}

/-! ## Comments -/

/-- The marks that begin a comment. -/
def commentMarks : List (List Char) := [['%', '%'], ['\'']]

theorem isSilent_iff : isSilent line = true ↔ line = [] ∨ ∃ mark ∈ commentMarks, mark <+: line := by
  simp [isSilent, commentMarks, or_assoc]

theorem isBlank_of_mem_commentMarks {mark : List Char} (h : mark ∈ commentMarks) :
    ∀ c ∈ mark.getLast?, isBlank c = false := by
  revert mark
  decide

/-- A comment is one however far it goes on. -/
theorem isSilent_of_isPrefix (hc : isBlank c = false) (hk : k <+: cs)
    (h : isSilent (trim (c :: k)) = true) : isSilent (trim (c :: cs)) = true := by
  have htrim (rest : List Char) : trim (c :: rest) = dropEndWhile isBlank (c :: rest) := by
    rw [trim, trimLeft_cons hc]
  obtain ⟨mark, hmark, hfront⟩ := (isSilent_iff.mp h).resolve_left (trim_ne_nil hc k)
  rw [htrim] at hfront ⊢
  refine isSilent_iff.mpr (.inr ⟨mark, hmark, ?_⟩)
  refine isPrefix_dropEndWhile (isBlank_of_mem_commentMarks hmark) ?_
  exact (hfront.trans (List.rdropWhile_prefix _ _)).trans (List.cons_prefix_cons.mpr ⟨rfl, hk⟩)

/-! ## The line that tells the format -/

/-- Whether a plain line is one to guess the format from. -/
def isTelling (line : List Char) : Bool := !isSilent (trim line)

theorem isTelling_cons_of_blank (hc : isBlank c = true) (cs : List Char) :
    isTelling (c :: cs) = isTelling cs := by
  rw [isTelling, trim_cons_of_blank hc, isTelling]

/-- What stands before a plain line on its line: only blanks, or else a comment. -/
def LeadsTo (line k : List Char) : Prop :=
  (∃ u v, (∀ c ∈ u, isBlank c = true) ∧ line = u ++ k ++ v) ∨
    (trim line ≠ [] ∧ isSilent (trim line) = true)

theorem LeadsTo.cons_of_blank (hc : isBlank c = true) (h : LeadsTo cs k) : LeadsTo (c :: cs) k := by
  rw [LeadsTo, trim_cons_of_blank hc]
  refine h.imp_left ?_
  rintro ⟨u, v, hu, rfl⟩
  exact ⟨c :: u, v, List.forall_mem_cons.mpr ⟨hc, hu⟩, rfl⟩

theorem leadsTo_headD (c : Char) (cs : List Char) :
    LeadsTo (c :: cs) (c :: (plainLines cs).headD []) := by
  obtain ⟨v, hv⟩ := isPrefix_headD_plainLines cs
  exact .inl ⟨[], v, by simp, congrArg (c :: ·) hv.symm⟩

/-- A blank in front belongs to the plain line that tells the format, or to none that does. -/
theorem eq_or_find?_of_blank (hc : isBlank c = true)
    (h : (plainLines (c :: cs)).find? isTelling = some k) :
    k = c :: (plainLines cs).headD [] ∨ (plainLines cs).find? isTelling = some k := by
  cases hend : isLineEnd c with
  | true =>
    obtain ⟨ks, hks, htail | htail⟩ := plainLines_cons_of_isLineEnd hend cs
    · rw [hks] at h
      rw [htail]
      exact .inr h
    · rw [htail, ← hks]
      exact .inr h
  | false =>
    rw [plainLines_cons hend] at h
    cases htells : isTelling (c :: (plainLines cs).headD []) with
    | true =>
      rw [List.find?_cons_of_pos htells] at h
      exact .inl (Option.some.inj h).symm
    | false =>
      rw [List.find?_cons_of_neg (Bool.eq_false_iff.mp htells)] at h
      rw [isTelling_cons_of_blank hc] at htells
      cases hks : plainLines cs with
      | nil =>
        rw [hks] at h
        contradiction
      | cons first ks =>
        rw [hks] at htells h
        have hpassed : ¬ isTelling first = true := Bool.eq_false_iff.mp htells
        rw [List.find?_cons_of_neg hpassed]
        exact .inr h

theorem leadsTo_of_find? (h : (plainLines line).find? isTelling = some k) : LeadsTo line k := by
  induction line with
  | nil => cases h
  | cons c cs ih =>
    cases hc : isBlank c with
    | true =>
      rcases eq_or_find?_of_blank hc h with rfl | hrest
      · exact leadsTo_headD c cs
      · exact (ih hrest).cons_of_blank hc
    | false =>
      have hend : isLineEnd c = false := by
        by_contra hend
        rw [isBlank_of_isLineEnd (by simpa using hend)] at hc
        contradiction
      rw [plainLines_cons hend] at h
      cases htells : isTelling (c :: (plainLines cs).headD []) with
      | true =>
        rw [List.find?_cons_of_pos htells] at h
        exact Option.some.inj h ▸ leadsTo_headD c cs
      | false =>
        -- The first plain line is a comment, and so is the whole line.
        have hsilent : isSilent (trim (c :: (plainLines cs).headD [])) = true := by
          simpa [isTelling] using htells
        exact .inr ⟨trim_ne_nil hc cs,
          isSilent_of_isPrefix hc (isPrefix_headD_plainLines cs) hsilent⟩

namespace Outline

/-! ## Lines that begin an item -/

/-- A line with a marker, a gap behind it, and a content. -/
inductive BeginsItem : List Char → Prop where
  | intro {u marker gap : List Char} {c : Char} {content : List Char} :
    (∀ d ∈ u, isBlank d = true) → IsMarker marker → gap ≠ [] → (∀ d ∈ gap, isBlank d = true) →
    isBlank c = false → BeginsItem (u ++ (marker ++ (gap ++ c :: content)))

theorem exists_isMarker {rest : List Char} (h : dropMarker? cs = some rest) :
    ∃ marker, IsMarker marker ∧ cs = marker ++ rest := by
  unfold dropMarker? at h
  split at h
  · cases h
    exact ⟨_, .dash, rfl⟩
  · cases h
    exact ⟨_, .star, rfl⟩
  · cases h
    exact ⟨_, .plus, rfl⟩
  · split at h
    · cases h
    · next digits after hne hspan =>
      cases h
      have hcs := append_span isDigit cs
      have hdigits : cs.takeWhile isDigit = digits := congrArg Prod.fst hspan
      rw [hspan] at hcs
      refine ⟨digits ++ ['.'], .number hne fun d hd => ?_, ?_⟩
      · rw [← hdigits] at hd
        exact List.mem_takeWhile_imp hd
      · rw [← hcs, List.append_assoc]
        rfl
    · cases h

theorem exists_gap {rest : List Char} (h : dropBlanks? cs = some rest) :
    ∃ gap, gap ≠ [] ∧ (∀ d ∈ gap, isBlank d = true) ∧ cs = gap ++ rest ∧
      ∀ d ∈ rest.head?, isBlank d = false := by
  rw [dropBlanks?, spanBlank, span] at h
  obtain ⟨hne, hrest⟩ := Option.ite_none_left_eq_some.mp h
  obtain rfl := Option.some.inj hrest
  refine ⟨cs.takeWhile isBlank, by simpa using hne, fun d hd => List.mem_takeWhile_imp hd,
    List.takeWhile_append_dropWhile.symm, fun d hd => ?_⟩
  have hnot := List.head?_dropWhile_not isBlank cs
  rw [hd] at hnot
  exact hnot

theorem beginsItem_of_beginsOutline (h : beginsOutline line = true) : BeginsItem line := by
  unfold beginsOutline at h
  split at h
  · next c content hbehind =>
    obtain ⟨marked, hmarked, hgap⟩ := Option.bind_eq_some_iff.mp hbehind
    obtain ⟨marker, hmarker, hline⟩ := exists_isMarker hmarked
    obtain ⟨gap, hne, hblank, rfl, hc⟩ := exists_gap hgap
    have hindent : line = line.takeWhile isBlank ++ (marker ++ (gap ++ c :: content)) := by
      rw [← hline]
      exact List.takeWhile_append_dropWhile.symm
    rw [hindent]
    exact .intro (fun d hd => List.mem_takeWhile_imp hd) hmarker hne hblank (hc c rfl)
  · contradiction

theorem BeginsItem.pad {u v : List Char} (h : BeginsItem line) (hu : ∀ d ∈ u, isBlank d = true) :
    BeginsItem (u ++ line ++ v) := by
  cases h with
  | @intro u' marker gap c content hu' hmarker hne hgap hc =>
    have hsplit : u ++ (u' ++ (marker ++ (gap ++ c :: content))) ++ v
        = (u ++ u') ++ (marker ++ (gap ++ c :: (content ++ v))) := by simp
    rw [hsplit]
    exact .intro (List.forall_mem_append.mpr ⟨hu, hu'⟩) hmarker hne hgap hc

theorem BeginsItem.trim (h : BeginsItem line) : BeginsItem (trim line) := by
  cases h with
  | @intro u marker gap c content hu hmarker hne hgap hc =>
    obtain ⟨content', hcontent⟩ : [c] <+: dropEndWhile isBlank (c :: content) :=
      isPrefix_dropEndWhile (by simpa using hc) (List.prefix_append [c] content)
    obtain ⟨m, marks, hhead, hm⟩ := hmarker.exists_head
    have htrim : Text.trim (u ++ (marker ++ (gap ++ c :: content)))
        = [] ++ (marker ++ (gap ++ c :: content')) := by
      have hleft : trimLeft (marker ++ (gap ++ c :: content)) = marker ++ (gap ++ c :: content) :=
        trimLeft_of_head (by simpa [hhead] using hm)
      rw [Text.trim, trimLeft_append hu, hleft, ← List.append_assoc,
        dropEndWhile_append_of_mem ⟨c, List.mem_cons_self, hc⟩, ← hcontent, List.append_assoc]
      rfl
    rw [htrim]
    exact .intro (by simp) hmarker hne hgap hc

theorem BeginsItem.isSome_item? (h : BeginsItem line) : (item? line).isSome = true := by
  cases h with
  | @intro u marker gap c content hu hmarker hne hgap hc =>
    obtain ⟨m, marks, hhead, hm⟩ := hmarker.exists_head
    have hindent : spanBlank (u ++ (marker ++ (gap ++ c :: content)))
        = (u, marker ++ (gap ++ c :: content)) :=
      span_append hu (by simpa [hhead] using hm)
    have hbehind : spanBlank (gap ++ c :: content) = (gap, c :: content) :=
      span_append hgap (by simpa using hc)
    obtain ⟨g, gs, rfl⟩ := List.exists_cons_of_ne_nil hne
    simp only [item?, hindent, hmarker.dropMarker?_append, hbehind]
    rfl

theorem BeginsItem.trim_ne_nil (h : BeginsItem line) : Text.trim line ≠ [] := by
  cases h with
  | @intro u marker gap c content _ _ _ _ hc =>
    exact trim_ne_nil_iff.mpr ⟨c, by simp, hc⟩

/-- Blanks around a line do not tell whether it begins an item. -/
theorem BeginsItem.of_trim (h : BeginsItem (Text.trim line)) : BeginsItem line := by
  obtain ⟨u, v, hu, -, hpad, -⟩ := exists_pad line
  rw [hpad]
  exact h.pad hu

/-! ## Reading what shows an outline -/

/-- A comment that goes on behind the end of a plain line, with a plain line that tells the format
and begins an outline. -/
structure HidesItem (line : List Char) : Prop where
  ne_nil : Text.trim line ≠ []
  silent : isSilent (Text.trim line) = true
  item : ∃ k ∈ plainLines line, isTelling k = true ∧ beginsOutline k = true

variable {source : Option String}

theorem beginsOutline_of_formatOfLine (h : formatOfLine line = .outline) :
    beginsOutline line = true := by
  simp only [formatOfLine] at h
  split_ifs at h with _ _ hbegins
  exact hbegins

theorem exists_line_of_detect (h : detect source = .outline) :
    ∃ line ∈ lines (source.getD "").toList, BeginsItem line ∨ HidesItem line := by
  unfold detect at h
  split at h
  · next k hfind =>
    have hbegins := beginsOutline_of_formatOfLine h
    obtain ⟨line, hline, hk⟩ := exists_line_of_find?_plainLines (p := isTelling) rfl hfind
    refine ⟨line, hline, ?_⟩
    rcases leadsTo_of_find? hk with ⟨u, v, hu, rfl⟩ | ⟨hne, hsilent⟩
    · exact .inl ((beginsItem_of_beginsOutline hbegins).pad hu)
    · exact .inr ⟨hne, hsilent, k, List.mem_of_find?_eq_some hk, List.find?_some hk, hbegins⟩
  · cases h

/-- A source that is not blank is read unless it has no item. -/
theorem parse_of_trim_ne_nil (h : Text.trim (source.getD "").toList ≠ []) :
    parse source = if itemsOf (lines (Text.trim (source.getD "").toList)) = []
      then .error (.noNodes .outline)
      else .ok (readLines (lines (Text.trim (source.getD "").toList))) := by
  rw [parse, sourceLines_eq, if_neg h]
  generalize lines (Text.trim (source.getD "").toList) = ls
  have hnodes : (readLines ls).nodes = [] ↔ itemsOf ls = [] := by
    rw [nodes_readLines, ← List.length_eq_zero_iff, length_nodesOf, List.length_eq_zero_iff]
  simp only [← hnodes]
  exact finish_of_wellFormed (wellFormed_readLines ls) .outline

/-- A line that begins an item is one, wherever it stands in a source. -/
theorem itemsOf_ne_nil (hline : line ∈ lines cs) (h : BeginsItem line) :
    itemsOf (lines (Text.trim cs)) ≠ [] := by
  have hfilled : Text.trim line ∈ filledLines (Text.trim cs) := by
    rw [filledLines_trim]
    exact mem_filledLines hline h.trim_ne_nil
  obtain ⟨line', hline', htrim⟩ := List.mem_map.mp (List.mem_of_mem_filter hfilled)
  have hbegins : BeginsItem line' := .of_trim (htrim ▸ h.trim)
  obtain ⟨item, hitem⟩ := Option.isSome_iff_exists.mp hbegins.isSome_item?
  exact List.ne_nil_of_mem (List.mem_filterMap.mpr ⟨line', hline', hitem⟩)

/-- What is guessed to be an outline is read as one. This fails only if it has no items and the
guess rests on a plain line that is hidden in a comment. -/
theorem parse_of_detect (h : detect source = .outline) :
    Diagram.parse source none = parse source ∧
      ((∃ g, parse source = .ok g) ∨ parse source = .error (.noNodes .outline) ∧
        ∃ line ∈ lines (source.getD "").toList, HidesItem line) := by
  obtain ⟨line, hline, hcase⟩ := exists_line_of_detect h
  have htext : Text.trim (source.getD "").toList ≠ [] := by
    have hne : Text.trim line ≠ [] := hcase.elim BeginsItem.trim_ne_nil HidesItem.ne_nil
    exact mt filledLines_eq_nil_iff.mpr (List.ne_nil_of_mem (mem_filledLines hline hne))
  have hparse := parse_of_trim_ne_nil htext
  refine ⟨by rw [Diagram.parse, h]; rfl, ?_⟩
  by_cases hitems : itemsOf (lines (Text.trim (source.getD "").toList)) = []
  · have hhides := hcase.resolve_left fun hbegins => itemsOf_ne_nil hline hbegins hitems
    exact .inr ⟨hparse.trans (if_pos hitems), line, hline, hhides⟩
  · exact .inl ⟨_, hparse.trans (if_neg hitems)⟩

/-- A comment on a line of its own. -/
theorem parse_of_detect_comment :
    let source := some "%% tasks\n- a\n  - b"
    detect source = .outline ∧ ∃ g, Diagram.parse source none = .ok g := by
  intro source
  have hdetect : detect source = .outline := by decide +kernel
  have hplain : ∀ line ∈ lines (source.getD "").toList, isSilent (Text.trim line) = true →
      ∀ k ∈ plainLines line, isTelling k = false := by
    decide +kernel
  obtain ⟨hparse, ⟨g, hg⟩ | ⟨-, line, hline, -, hsilent, k, hk, htells, -⟩⟩ :=
    parse_of_detect hdetect
  · exact ⟨hdetect, g, hparse.trans hg⟩
  · rw [hplain line hline hsilent k hk] at htells
    contradiction

/-- A comment that ends with a carriage return: the item behind it is what the format is guessed
from, and no item is found. -/
theorem not_parse_of_detect :
    let source := some "%% tasks\r- a"
    detect source = .outline ∧ parse source = .error (.noNodes .outline) ∧
      Diagram.parse source none = .error (.noNodes .outline) := by
  decide +kernel

end Outline

end Whiteboard.Diagram
