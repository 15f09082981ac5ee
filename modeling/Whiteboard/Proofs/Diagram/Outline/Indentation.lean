import Whiteboard.Proofs.Diagram.Outline.Ancestry
import Whiteboard.Proofs.Text.Line
import Whiteboard.Proofs.Text.Scan

/-!
# The indentation of outlines

A list of items that is written one item a line is read back: each item gives a node with its
content as its label, and its level is told by the blanks before it (`Outline.levels_of_textOf`).
The blanks around the whole text are taken away before, and with them those of the first item, which
therefore is on level zero however far it is indented (`Outline.exists_parse_indented`).
-/

namespace Whiteboard.Diagram.Outline

open Whiteboard.Graph Text

/-! ## Items -/

/-- The marks that begin an item. -/
inductive IsMarker : List Char → Prop where
  | dash : IsMarker ['-']
  | star : IsMarker ['*']
  | plus : IsMarker ['+']
  | number {digits : List Char} : digits ≠ [] → (∀ d ∈ digits, isDigit d = true) →
    IsMarker (digits ++ ['.'])

variable {marker cs : List Char}

theorem IsMarker.dropMarker?_append (h : IsMarker marker) (rest : List Char) :
    dropMarker? (marker ++ rest) = some rest := by
  cases h with
  | dash | star | plus => rfl
  | @number digits hne hdigits =>
    obtain ⟨d, ds, rfl⟩ := List.exists_cons_of_ne_nil hne
    have hd : isDigit d = true := hdigits d List.mem_cons_self
    have hmark {c : Char} (hc : isDigit c = false) (rest' : List Char)
        (heq : d :: ds ++ ['.'] ++ rest = c :: rest') : False := by
      rw [(List.cons.inj heq).1, hc] at hd
      contradiction
    have hspan : span isDigit (d :: ds ++ ['.'] ++ rest) = (d :: ds, '.' :: rest) := by
      rw [List.append_assoc]
      refine span_append hdigits ?_
      intro c hc
      cases hc
      decide
    rw [dropMarker?.eq_4 _ (hmark (by decide)) (hmark (by decide)) (hmark (by decide)), hspan]
    rfl

theorem IsMarker.exists_head (h : IsMarker marker) :
    ∃ c rest, marker = c :: rest ∧ isBlank c = false := by
  cases h with
  | dash | star | plus => exact ⟨_, [], rfl, by decide⟩
  | @number digits hne hdigits =>
    obtain ⟨d, ds, rfl⟩ := List.exists_cons_of_ne_nil hne
    exact ⟨d, ds ++ ['.'], rfl, isBlank_of_isDigit (hdigits d List.mem_cons_self)⟩

theorem IsMarker.not_mem (h : IsMarker marker) : '\n' ∉ marker := by
  cases h with
  | dash | star | plus => decide
  | number _ hdigits =>
    rw [List.mem_append, not_or]
    refine ⟨?_, by decide⟩
    intro hmem
    have := hdigits _ hmem
    contradiction

/-- An item of a written outline: how many spaces stand before its marker, and what is behind it. -/
structure Item where
  indent : Nat
  marker : List Char
  content : List Char
  isMarker : IsMarker marker
  not_blank : trim content ≠ []
  not_mem : '\n' ∉ content

namespace Item

/-- A line of spaces, a marker and a content. -/
def lineOf (indent : Nat) (marker content : List Char) : List Char :=
  List.replicate indent ' ' ++ (marker ++ ' ' :: content)

def line (item : Item) : List Char := lineOf item.indent item.marker item.content

def label (item : Item) : String := String.ofList (trim item.content)

/-- Every two spaces are a level. -/
def level (item : Item) : Int := (item.indent / 2 : Nat)

/-- The item behind more spaces. -/
def indented (n : Nat) (item : Item) : Item := { item with indent := item.indent + n }

end Item

/-- Items, one a line. -/
def textOf (items : List Item) : List Char := ['\n'].intercalate (items.map Item.line)

variable {item : Item} {items : List Item} {line : List Char}

/-! ## Lines of items -/

theorem Item.not_mem_lineOf (hmarker : IsMarker marker) (hcs : '\n' ∉ cs) (indent : Nat) :
    '\n' ∉ lineOf indent marker cs := by
  intro hmem
  simp only [lineOf, List.mem_append, List.mem_cons, List.mem_replicate] at hmem
  rcases hmem with ⟨-, hspace⟩ | hmark | hspace | hcontent
  · contradiction
  · exact hmarker.not_mem hmark
  · contradiction
  · exact hcs hcontent

/-- A line that reads as an item, but for blanks around the content. -/
def Shows (item : Item) (line : List Char) : Prop :=
  ∃ content, item? line = some (item.indent, content) ∧ trim content = trim item.content

/-- Blanks before the content belong to the gap behind the marker. -/
theorem shows_lineOf (hcs : trim cs = trim item.content) :
    Shows item (Item.lineOf item.indent item.marker cs) := by
  obtain ⟨c, mark, hhead, hc⟩ := item.isMarker.exists_head
  have hindent : spanBlank (Item.lineOf item.indent item.marker cs)
      = (List.replicate item.indent ' ', item.marker ++ ' ' :: cs) := by
    refine span_append ?_ ?_
    · intro d hd
      rw [List.eq_of_mem_replicate hd]
      decide
    · rw [hhead]
      simpa using hc
  have hgap : spanBlank (' ' :: cs) = (' ' :: cs.takeWhile isBlank, trimLeft cs) := rfl
  have hne : trimLeft cs ≠ [] := trimLeft_ne_nil (hcs ▸ item.not_blank)
  obtain ⟨d, content, hcontent⟩ := List.exists_cons_of_ne_nil hne
  refine ⟨trimLeft cs, ?_, (trim_trimLeft cs).trans hcs⟩
  rw [hcontent] at hgap ⊢
  simp only [item?, hindent, item.isMarker.dropMarker?_append, hgap, List.length_replicate]

/-- A carriage return at the end of an item is a blank at the end of its content. -/
theorem shows_of_front {front : List Char} (h : item.line = front ∨ item.line = front ++ ['\r']) :
    Shows item front := by
  rcases h with rfl | h
  · exact shows_lineOf rfl
  · obtain hnil | ⟨cs, c, hcontent⟩ := List.eq_nil_or_concat item.content
    · exact absurd (by rw [hnil]; rfl) item.not_blank
    · rw [List.concat_eq_append] at hcontent
      have hsplit : item.line = Item.lineOf item.indent item.marker cs ++ [c] := by
        simp [Item.line, Item.lineOf, hcontent]
      obtain ⟨rfl, rfl⟩ := List.append_singleton_inj.mp (hsplit.symm.trans h)
      apply shows_lineOf
      rw [hcontent, trim_append_of_blank (by decide)]

/-- Blanks at the end of an item are blanks at the end of its content. -/
theorem dropEndWhile_line (item : Item) : dropEndWhile isBlank item.line
    = Item.lineOf item.indent item.marker (dropEndWhile isBlank item.content) := by
  have hsplit (cs : List Char) : Item.lineOf item.indent item.marker cs
      = (List.replicate item.indent ' ' ++ item.marker ++ [' ']) ++ cs := by
    simp [Item.lineOf]
  rw [Item.line, hsplit, hsplit, dropEndWhile_append_of_mem (trim_ne_nil_iff.mp item.not_blank)]

theorem Item.exists_mem_line (item : Item) : ∃ c ∈ item.line, isBlank c = false := by
  obtain ⟨c, hc, hblank⟩ := trim_ne_nil_iff.mp item.not_blank
  exact ⟨c, by simp [line, lineOf, hc], hblank⟩

theorem exists_mem_textOf (item : Item) (items : List Item) :
    ∃ c ∈ textOf (item :: items), isBlank c = false := by
  obtain ⟨c, hc, hblank⟩ := item.exists_mem_line
  refine ⟨c, ?_, hblank⟩
  cases items with
  | nil => simpa [textOf] using hc
  | cons next items => simp [textOf, List.intercalate_cons_cons, hc]

theorem textOf_cons_cons (item next : Item) (items : List Item) :
    textOf (item :: next :: items) = item.line ++ '\n' :: textOf (next :: items) := by
  rw [textOf, List.map_cons, List.map_cons, List.intercalate_cons_cons, List.append_assoc,
    List.singleton_append, textOf, List.map_cons]

/-- Each line of the text, without the blanks at its end, shows its item. -/
theorem forall₂_shows (item : Item) (items : List Item) :
    List.Forall₂ Shows (item :: items) (lines (dropEndWhile isBlank (textOf (item :: items)))) := by
  induction items generalizing item with
  | nil =>
    have htext : textOf [item] = item.line := by simp [textOf]
    have hcontent : '\n' ∉ dropEndWhile isBlank item.content := fun hmem =>
      item.not_mem ((List.rdropWhile_prefix _ _).subset hmem)
    rw [htext, dropEndWhile_line, lines_of_not_mem
      (Item.not_mem_lineOf item.isMarker hcontent item.indent)]
    exact .cons (shows_lineOf (trim_dropEndWhile _)) .nil
  | cons next items ih =>
    have hfeed : dropEndWhile isBlank (item.line ++ '\n' :: textOf (next :: items))
        = item.line ++ '\n' :: dropEndWhile isBlank (textOf (next :: items)) := by
      rw [← List.singleton_append, ← List.append_assoc,
        dropEndWhile_append_of_mem (exists_mem_textOf next items), List.append_assoc,
        List.singleton_append]
    obtain ⟨front, hlines, hfront⟩ := exists_lines_append
      (Item.not_mem_lineOf item.isMarker item.not_mem item.indent)
      (dropEndWhile isBlank (textOf (next :: items)))
    rw [textOf_cons_cons, hfeed, Item.line, hlines]
    exact .cons (shows_of_front hfront) (ih next)

/-! ## Reading a written outline -/

/-- The item without the spaces before it. -/
def Item.flush (item : Item) : Item := { item with indent := 0 }

/-- An item as it is read. -/
def Item.entry (item : Item) : Nat × List Char := (item.indent, item.content)

/-- The spaces before the first item are blanks around the text. -/
theorem trim_textOf (item : Item) (items : List Item) :
    trim (textOf (item :: items)) = dropEndWhile isBlank (textOf (item.flush :: items)) := by
  have hspaces : ∀ c ∈ List.replicate item.indent ' ', isBlank c = true := by
    intro c hc
    rw [List.eq_of_mem_replicate hc]
    decide
  have htext : textOf (item :: items)
      = List.replicate item.indent ' ' ++ textOf (item.flush :: items) := by
    cases items with
    | nil => simp [textOf, Item.line, Item.lineOf, Item.flush]
    | cons next items =>
      rw [textOf_cons_cons, textOf_cons_cons]
      simp [Item.line, Item.lineOf, Item.flush]
  have hhead : ∀ c ∈ (textOf (item.flush :: items)).head?, isBlank c = false := by
    obtain ⟨c, mark, hmark, hblank⟩ := item.isMarker.exists_head
    have hline : item.flush.line = c :: (mark ++ ' ' :: item.content) := by
      simp [Item.line, Item.lineOf, Item.flush, hmark]
    cases items with
    | nil => simpa [textOf, hline] using hblank
    | cons next items => simpa [textOf_cons_cons, hline] using hblank
  rw [trim, htext, trimLeft_append hspaces, trimLeft_of_head hhead]

theorem nodesOf_congr {as bs : List (Nat × List Char)}
    (h : as.map (fun item => (item.1, trim item.2)) = bs.map fun item => (item.1, trim item.2)) :
    nodesOf as = nodesOf bs := by
  have hnodes (items : List (Nat × List Char)) : nodesOf items
      = (items.map fun item => (item.1, trim item.2)).zipIdx.map fun entry =>
        nodeOf entry.2 (entry.1.1 / 2) (String.ofList entry.1.2) := by
    rw [List.zipIdx_map, List.map_map]
    rfl
  rw [hnodes, hnodes, h]

theorem nodesOf_itemsOf {ls : List (List Char)} (h : List.Forall₂ Shows items ls) :
    nodesOf (itemsOf ls) = nodesOf (items.map Item.entry) := by
  apply nodesOf_congr
  induction h with
  | nil => rfl
  | cons hshows _ ih =>
    obtain ⟨content, hitem, htrim⟩ := hshows
    rw [itemsOf, List.filterMap_cons, hitem, List.map_cons, List.map_cons, List.map_cons, htrim]
    exact congrArg _ ih

/-- The first item is read without the spaces before it. -/
theorem parse_textOf (item : Item) (items : List Item) : ∃ g : Graph,
    parse (some (String.ofList (textOf (item :: items)))) = .ok g ∧
      g.nodes.map (·.label) = (item :: items).map Item.label ∧
      g.nodes.map (·.level) = some 0 :: items.map (fun item => some item.level) ∧
      g.edges = links (0 :: items.map Item.level) := by
  have hnodes := (nodes_readLines _).trans (nodesOf_itemsOf (forall₂_shows item.flush items))
  generalize hlines : lines (dropEndWhile isBlank (textOf (item.flush :: items))) = ls at hnodes
  have hflush : item.flush.level = 0 := by simp [Item.level, Item.flush]
  have hlabels : (readLines ls).nodes.map (·.label) = (item :: items).map Item.label := by
    rw [hnodes, map_nodesOf (fun item => String.ofList (trim item.2)) fun _ _ => rfl,
      List.map_map]
    rfl
  have hlevels : (readLines ls).nodes.map (·.level)
      = some item.flush.level :: items.map fun item => some item.level := by
    rw [hnodes, map_nodesOf (fun item => some ((item.1 / 2 : Nat) : Int)) fun _ _ => rfl,
      List.map_map]
    rfl
  have hedges : (readLines ls).edges = links (item.flush.level :: items.map Item.level) := by
    rw [edges_readLines, hnodes,
      map_nodesOf (fun item => ((item.1 / 2 : Nat) : Int)) fun _ _ => rfl, List.map_map]
    rfl
  rw [hflush] at hlevels hedges
  have hne : (readLines ls).nodes ≠ [] := by
    rw [hnodes]
    exact List.ne_nil_of_length_pos (by simp)
  have hfilled : trim (textOf (item :: items)) ≠ [] :=
    trim_ne_nil_iff.mpr (exists_mem_textOf item items)
  refine ⟨readLines ls, ?_, hlabels, hlevels, hedges⟩
  rw [parse, sourceLines_eq, Option.getD_some, String.toList_ofList, if_neg hfilled, trim_textOf,
    hlines]
  exact (finish_of_wellFormed (wellFormed_readLines ls) .outline).trans (if_neg hne)

/-! ## Items that all move -/

theorem IsParent.of_lt_iff {ls ls' : List Int} {i j : Nat} (hlength : ls.length = ls'.length)
    (h : ∀ i j (hij : i < j) (hj : j < ls.length), ls[i] < ls[j] ↔ ls'[i] < ls'[j])
    (hparent : IsParent ls i j) : IsParent ls' i j := by
  obtain ⟨l, m, hl, hm, hij, hlt, hbetween⟩ := hparent
  obtain ⟨hi, rfl⟩ := List.getElem?_eq_some_iff.mp hl
  obtain ⟨hj, rfl⟩ := List.getElem?_eq_some_iff.mp hm
  refine ⟨ls'[i], ls'[j], List.getElem?_eq_getElem _, List.getElem?_eq_getElem _, hij,
    (h i j hij hj).mp hlt, ?_⟩
  intro k l' hik hkj hl'
  obtain ⟨hk, rfl⟩ := List.getElem?_eq_some_iff.mp hl'
  have hle := hbetween k ls[k] hik hkj (List.getElem?_eq_getElem _)
  exact not_lt.mp (mt (h k j hkj hj).mpr hle.not_gt)

/-- The edges are told by which items before an item are less deep than it. -/
theorem links_congr {ls ls' : List Int} (hlength : ls.length = ls'.length)
    (h : ∀ i j (hij : i < j) (hj : j < ls.length), ls[i] < ls[j] ↔ ls'[i] < ls'[j]) :
    links ls = links ls' := by
  have hparent (j : Nat) : parent? ls j = parent? ls' j := by
    apply Option.ext
    intro i
    rw [parent?_eq_some_iff, parent?_eq_some_iff]
    exact ⟨.of_lt_iff hlength h,
      .of_lt_iff hlength.symm fun i j hij hj => (h i j hij (hlength ▸ hj)).symm⟩
  simp only [links, hlength, hparent]

/-- If all items but the first get deeper by a level, no edge changes exactly if they were all
deeper than it: else the ones on its level come to belong to it. -/
theorem links_deeper_iff {ls : List Int} (h : ∀ l ∈ ls, 0 ≤ l) :
    links (0 :: ls.map (· + 1)) = links (0 :: ls) ↔ ∀ l ∈ ls, 1 ≤ l := by
  constructor
  · intro hlinks l hl
    obtain ⟨j, hj⟩ := List.mem_iff_getElem?.mp hl
    by_contra hlt
    have hzero : l = 0 := by
      have := h l hl
      omega
    have hparent : IsParent (0 :: ls.map (· + 1)) 0 (j + 1) := by
      refine ⟨0, 1, rfl, ?_, Nat.succ_pos j, by decide, ?_⟩
      · rw [List.getElem?_cons_succ, List.getElem?_map, hj, hzero]
        rfl
      · intro k l' hk _ hl'
        obtain ⟨k, rfl⟩ := Nat.exists_eq_succ_of_ne_zero hk.ne'
        rw [List.getElem?_cons_succ, List.getElem?_map] at hl'
        obtain ⟨l'', hl'', rfl⟩ := Option.map_eq_some_iff.mp hl'
        have := h l'' (List.mem_of_getElem? hl'')
        omega
    have hmem := mem_links_iff.mpr (parent?_eq_some_iff.mpr hparent)
    rw [hlinks, mem_links_iff, parent?_eq_some_iff] at hmem
    obtain ⟨a, b, ha, hb, -, hab, -⟩ := hmem
    rw [List.getElem?_cons_zero, Option.some.injEq] at ha
    rw [List.getElem?_cons_succ, hj, Option.some.injEq] at hb
    omega
  · intro hpos
    refine links_congr (by simp) ?_
    intro i j hij hj
    obtain ⟨j, rfl⟩ := Nat.exists_eq_succ_of_ne_zero (Nat.ne_zero_of_lt hij)
    rw [List.length_cons, List.length_map] at hj
    have hj : j < ls.length := by omega
    have hdeep := hpos ls[j] (List.getElem_mem hj)
    cases i with
    | zero =>
      simp only [List.getElem_cons_zero, List.getElem_cons_succ, List.getElem_map]
      omega
    | succ i => simp

/-- The levels of a written outline. The spaces before the first item are blanks around the text, so
it is on level zero; every other item is on the level that its spaces tell. So all levels are right
exactly if the first item is not indented by a level, and two more spaces before every line put all
items but the first a level deeper. -/
theorem levels_of_textOf (item : Item) (items : List Item) : ∃ g g' : Graph,
    parse (some (String.ofList (textOf (item :: items)))) = .ok g ∧
      parse (some (String.ofList (textOf ((item :: items).map (Item.indented 2))))) = .ok g' ∧
      g.nodes.map (·.label) = (item :: items).map Item.label ∧
      g.nodes.map (·.level) = some 0 :: items.map (fun item => some item.level) ∧
      (g.nodes.map (·.level) = (item :: items).map (fun item => some item.level) ↔
        item.indent < 2) ∧
      g'.nodes.map (·.level) = some 0 :: items.map (fun item => some (item.level + 1)) ∧
      (g'.edges = g.edges ↔ ∀ item ∈ items, 2 ≤ item.indent) := by
  obtain ⟨g, hparse, hlabels, hlevels, hedges⟩ := parse_textOf item items
  obtain ⟨g', hparse', -, hlevels', hedges'⟩ :=
    parse_textOf (item.indented 2) (items.map (Item.indented 2))
  have hdeeper (item : Item) : (item.indented 2).level = item.level + 1 := by
    simp only [Item.level, Item.indented]
    omega
  rw [List.map_map] at hlevels' hedges'
  refine ⟨g, g', hparse, hparse', hlabels, hlevels, ?_, ?_, ?_⟩
  · rw [hlevels, List.map_cons, List.cons.injEq, Option.some.injEq, Item.level]
    constructor
    · rintro ⟨hzero, -⟩
      omega
    · intro hlt
      exact ⟨by omega, rfl⟩
  · rw [hlevels']
    congr 1
    exact List.map_congr_left fun item _ => congrArg some (hdeeper item)
  · have hmoved : items.map (Item.level ∘ Item.indented 2)
        = (items.map Item.level).map (· + 1) := by
      rw [List.map_map]
      exact List.map_congr_left fun item _ => hdeeper item
    have hnonneg : ∀ l ∈ items.map Item.level, 0 ≤ l := by
      intro l hl
      obtain ⟨item, -, rfl⟩ := List.mem_map.mp hl
      exact Int.natCast_nonneg _
    rw [hedges, hedges', hmoved, links_deeper_iff hnonneg, List.forall_mem_map]
    refine forall₂_congr fun item _ => ?_
    simp only [Item.level]
    omega

/-- Two items behind two spaces each are on different levels, and an edge joins them; without the
spaces none does. -/
theorem exists_parse_indented : ∃ (items : List Item) (g g' : Graph),
    textOf items = "  - a\n  - b".toList ∧ items.map Item.indent = [2, 2] ∧
      parse (some "  - a\n  - b") = .ok g ∧ g.nodes.map (·.level) = [some 0, some 1] ∧
      g.edges = [{ source := "node0", target := "node1" }] ∧
      parse (some "- a\n- b") = .ok g' ∧ g'.nodes.map (·.level) = [some 0, some 0] ∧
      g'.edges = [] := by
  refine ⟨[⟨2, ['-'], ['a'], .dash, by decide, by decide⟩,
      ⟨2, ['-'], ['b'], .dash, by decide, by decide⟩],
    readLines ["- a".toList, "  - b".toList], readLines ["- a".toList, "- b".toList], ?_, rfl, ?_⟩
  · decide
  · decide +kernel

end Whiteboard.Diagram.Outline
