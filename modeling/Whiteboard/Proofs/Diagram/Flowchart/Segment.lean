import Whiteboard.Proofs.Diagram.Flowchart.Statement

/-!
# Declarations from left to right

Declarations are taken out of a statement one kind of brackets after the other. Read from left to
right instead, a statement is a row of declarations, each in the first kind of brackets that fits,
and of characters that begin none (`Flowchart.segments`). As long as labels hold no marks and what
follows a declaration neither goes on its id nor opens brackets, each pass takes out the
declarations of its own kind and leaves the others as they are (`Flowchart.declarations_spell`), so
both ways of reading find the same declarations in another order
(`Flowchart.allDeclarations_of_clear`).
-/

namespace Whiteboard.Diagram.Flowchart

deriving instance DecidableEq for Bracket

/-- A declaration as it is written. -/
structure Declaration where
  bracket : Bracket
  id : List Char
  label : List Char
  deriving DecidableEq

namespace Declaration

def text (d : Declaration) : List Char := declarationText d.bracket d.id d.label

def node (d : Declaration) : Node := d.bracket.node d.id d.label

end Declaration

variable {cs id rest : List Char} {c : Char} {b : Bracket} {d : Declaration}
  {earlier later : List Bracket}

/-! ## Segments -/

/-- A piece of a statement: a declaration, or a character that begins none. -/
inductive Segment where
  | other (c : Char)
  | declaration (d : Declaration)

/-- The declaration at the front of a text, in the first kind of brackets that fits. -/
def firstDeclaration? (cs : List Char) : Option Declaration :=
  brackets.findSome? fun b => (declaration? b cs).map fun (id, label, _) => ⟨b, id, label⟩

/-- The segments of a text behind its first characters. -/
def segmentsFrom : Nat → List Char → List Segment
  | _, [] => []
  | skip + 1, _ :: cs => segmentsFrom skip cs
  | 0, c :: cs =>
    match firstDeclaration? (c :: cs) with
    | some d => .declaration d :: segmentsFrom (d.text.length - 1) cs
    | none => .other c :: segmentsFrom 0 cs

/-- A statement from left to right. -/
def segments (cs : List Char) : List Segment := segmentsFrom 0 cs

/-- The declarations among segments. -/
def found : List Segment → List Declaration
  | [] => []
  | .other _ :: segs => found segs
  | .declaration d :: segs => d :: found segs

/-- The text of segments from which the declarations in some kinds of brackets are taken out. -/
def spell (taken : List Bracket) : List Segment → List Char
  | [] => []
  | .other c :: segs => c :: spell taken segs
  | .declaration d :: segs => (if d.bracket ∈ taken then d.id else d.text) ++ spell taken segs

/-- A text in front of which a declaration ends, also when only its id is left. -/
def Parted (rest : List Char) : Prop :=
  Halts rest ∧ rest.head? ∉ [some '[', some '(', some '{']

instance : DecidablePred Parted := fun _ => instDecidableAnd

/-- Labels hold no marks, and declarations are parted from what follows them. -/
def Clear : List Segment → Prop
  | [] => True
  | .other _ :: segs => Clear segs
  | .declaration d :: segs =>
    (∀ c ∈ d.label, c ∉ marks) ∧ Parted (spell [] segs) ∧ Clear segs

def decidableClear : (segs : List Segment) → Decidable (Clear segs)
  | [] => isTrue trivial
  | .other _ :: segs => decidableClear segs
  | .declaration _ :: segs =>
    @instDecidableAnd _ _ _ (@instDecidableAnd _ _ _ (decidableClear segs))

instance : DecidablePred Clear := decidableClear

theorem Declaration.text_append (d : Declaration) (rest : List Char) : d.text ++ rest
    = d.id ++ (d.bracket.opening ++ (d.label ++ (d.bracket.closing ++ rest))) := by
  simp only [text, declarationText, List.append_assoc]

theorem firstDeclaration?_eq_some (h : firstDeclaration? cs = some d) :
    d.bracket ∈ brackets ∧ ∃ rest, declaration? d.bracket cs = some (d.id, d.label, rest) := by
  obtain ⟨b, hb, hdecl⟩ := List.exists_of_findSome?_eq_some h
  obtain ⟨⟨id, label, rest⟩, hdecl, hd⟩ := Option.map_eq_some_iff.mp hdecl
  rw [← hd]
  exact ⟨hb, rest, hdecl⟩

theorem firstDeclaration?_eq_none_iff :
    firstDeclaration? cs = none ↔ ∀ b ∈ brackets, declaration? b cs = none := by
  rw [firstDeclaration?, List.findSome?_eq_none_iff]
  exact forall₂_congr fun b _ => Option.map_eq_none_iff

theorem segmentsFrom_eq (skip : Nat) (cs : List Char) :
    segmentsFrom skip cs = segments (cs.drop skip) := by
  induction cs generalizing skip with
  | nil => cases skip <;> rfl
  | cons c cs ih =>
    cases skip with
    | zero => rfl
    | succ skip => exact ih skip

theorem segments_of_some (h : firstDeclaration? (d.text ++ rest) = some d) :
    segments (d.text ++ rest) = .declaration d :: segments rest := by
  cases htext : d.text with
  | nil =>
    -- an id is not empty
    obtain ⟨-, rest, hdecl⟩ := firstDeclaration?_eq_some h
    obtain ⟨-, front, c, hid, -⟩ := eq_of_declaration? hdecl
    rw [Declaration.text, declarationText, hid] at htext
    simp at htext
  | cons c cs =>
    rw [htext] at h
    rw [List.cons_append] at h ⊢
    rw [segments, segmentsFrom, h]
    simp only [htext, List.length_cons, Nat.add_sub_cancel, segmentsFrom_eq, List.drop_left]

theorem segments_of_none (h : firstDeclaration? (c :: cs) = none) :
    segments (c :: cs) = .other c :: segments cs := by
  rw [segments, segmentsFrom, h]
  rfl

/-- Segments as they come from a text. -/
inductive Proper : List Segment → Prop
  | nil : Proper []
  | other {c segs} : firstDeclaration? (c :: spell [] segs) = none → Proper segs →
      Proper (.other c :: segs)
  | declaration {d segs} : d.bracket ∈ brackets → IsId d.id → Proper segs →
      Proper (.declaration d :: segs)

/-- Every text is the text of its segments. -/
theorem spell_segments (cs : List Char) : spell [] (segments cs) = cs ∧ Proper (segments cs) := by
  induction hlen : cs.length using Nat.strong_induction_on generalizing cs with
  | _ n ih =>
    cases hfirst : firstDeclaration? cs with
    | some d =>
      obtain ⟨hb, rest, hdecl⟩ := firstDeclaration?_eq_some hfirst
      have hid : IsId d.id := by
        obtain ⟨_, _, hid, -⟩ := declaration?_eq_some_iff.mp hdecl
        exact isId_of_takeId? hid
      have hlt : rest.length < n := hlen ▸ length_declaration? hdecl
      have hcs : cs = d.text ++ rest := by
        rw [(eq_of_declaration? hdecl).1, Declaration.text_append]
        simp only [List.append_assoc]
      obtain ⟨hspell, hproper⟩ := ih _ hlt rest rfl
      rw [hcs] at hfirst ⊢
      rw [segments_of_some hfirst]
      exact ⟨by rw [spell, if_neg List.not_mem_nil, hspell], .declaration hb hid hproper⟩
    | none =>
      cases cs with
      | nil => exact ⟨rfl, .nil⟩
      | cons c cs =>
        have hlt : cs.length < n := by
          rw [← hlen]
          exact Nat.lt_succ_self _
        obtain ⟨hspell, hproper⟩ := ih _ hlt cs rfl
        rw [segments_of_none hfirst]
        exact ⟨by rw [spell, hspell], .other (by rwa [hspell]) hproper⟩

/-! ## Texts without some of their declarations -/

variable {taken : List Bracket} {segs : List Segment} {mark inner : List Char}

theorem exists_cons_taken (hid : IsId d.id) (taken : List Bracket) :
    ∃ c cs, (if d.bracket ∈ taken then d.id else d.text) = c :: cs ∧
      d.id.head? = some c ∧ isIdChar c = true := by
  obtain ⟨c, cs, hcons, hc⟩ := hid.exists_cons
  split
  · exact ⟨c, cs, hcons, by rw [hcons]; rfl, hc⟩
  · exact ⟨c, _, by rw [Declaration.text, declarationText, hcons, List.cons_append],
      by rw [hcons]; rfl, hc⟩

theorem head?_spell (h : Proper segs) (taken : List Bracket) :
    (spell taken segs).head? = (spell [] segs).head? := by
  cases h with
  | nil => rfl
  | other => rfl
  | @declaration d segs _ hid _ =>
    obtain ⟨c, cs, hcons, hhead, -⟩ := exists_cons_taken hid taken
    obtain ⟨c', cs', hcons', hhead', -⟩ := exists_cons_taken hid []
    rw [spell, spell, hcons, hcons']
    exact hhead.symm.trans hhead'

/-- Marks in front of a text are characters that begin no declaration. -/
theorem exists_of_spell_eq_append (h : Proper segs) (hmark : ∀ c ∈ mark, c ∈ marks)
    (heq : spell taken segs = mark ++ rest) :
    ∃ segs', Proper segs' ∧ spell taken segs' = rest ∧ spell [] segs = mark ++ spell [] segs' := by
  induction mark generalizing segs with
  | nil => exact ⟨segs, h, heq, rfl⟩
  | cons m mark ih =>
    rw [List.forall_mem_cons] at hmark
    cases h with
    | nil => cases heq
    | @other c segs _ h =>
      obtain ⟨rfl, hspelled⟩ := List.cons.inj heq
      obtain ⟨segs', hproper, hrest, hspell⟩ := ih h hmark.2 hspelled
      exact ⟨segs', hproper, hrest, by rw [spell, hspell, List.cons_append]⟩
    | @declaration d segs _ hid h =>
      obtain ⟨c, cs, hcons, -, hc⟩ := exists_cons_taken hid taken
      rw [spell, hcons] at heq
      obtain ⟨rfl, -⟩ := List.cons.inj heq
      have hstops : Stops [c] := stops_of_mem_marks hmark.1
      exact absurd hc (by simp [(hstops c rfl).1])

/-- Marks that stand side by side when declarations are taken out did so before. -/
theorem isInfix_spell (h : Proper segs) (hmark : ∀ c ∈ mark, c ∈ marks) {front : List Char}
    (hpiece : mark <:+: front ++ spell taken segs) : mark <:+: front ++ spell [] segs := by
  induction h generalizing front with
  | nil => exact hpiece
  | @other c segs _ _ ih =>
    rw [spell, List.append_cons] at hpiece ⊢
    exact ih hpiece
  | @declaration d segs _ hid _ ih =>
    rw [spell] at hpiece ⊢
    rw [if_neg List.not_mem_nil]
    split at hpiece
    · obtain ⟨c, cs, hconcat, hc⟩ := hid.exists_concat
      have hnot : c ∉ mark := fun hmem =>
        hid.not_mem_marks (by simp [hconcat]) (hmark c hmem)
      rw [hconcat, List.append_assoc, ← List.append_assoc] at hpiece
      rcases Text.isInfix_or_isInfix hnot hpiece with hleft | hright
      · refine hleft.trans ⟨[], c :: (d.bracket.opening ++ (d.label ++
          (d.bracket.closing ++ spell [] segs))), ?_⟩
        rw [Declaration.text_append, hconcat]
        simp only [List.nil_append, List.append_assoc, List.cons_append]
      · have hpiece' : mark <:+: [] ++ spell [] segs := ih hright
        exact hpiece'.trans ⟨front ++ d.text, [], by simp⟩
    · rw [← List.append_assoc] at hpiece ⊢
      exact ih hpiece

/-- An id that ends before all declarations is read alike; any other runs into a declaration. -/
theorem takeIdTail_spell (h : Proper segs) (taken : List Bracket) :
    (∃ tail segs', Proper segs' ∧ takeIdTail (spell taken segs) = (tail, spell taken segs') ∧
      takeIdTail (spell [] segs) = (tail, spell [] segs')) ∨
    ∃ id rest, ∃ d : Declaration, id ≠ [] ∧ d.bracket ∈ brackets ∧ takeIdTail (spell [] segs)
      = (id, d.bracket.opening ++ (d.label ++ (d.bracket.closing ++ rest))) := by
  induction h with
  | nil => exact .inl ⟨[], [], .nil, rfl, rfl⟩
  | @declaration d segs hb hid _ _ =>
    refine .inr ⟨d.id, spell [] segs, d, ?_, hb, ?_⟩
    · obtain ⟨c, cs, hcons, -⟩ := hid.exists_cons
      simp [hcons]
    · have hstops := Bracket.stops_opening hb (d.label ++ (d.bracket.closing ++ spell [] segs))
      rw [spell, if_neg List.not_mem_nil, Declaration.text_append,
        takeIdTail_append hstops.halts, takeIdTail_isId hid]
      rfl
  | @other c segs hnone h ih =>
    rw [spell, spell, takeIdTail_cons_eq, takeIdTail_cons_eq, head?_spell h taken]
    split
    · rcases ih with ⟨tail, segs', hproper, htaken, hspell⟩ | ⟨id, rest, d, -, hb, hspell⟩
      · rw [htaken, hspell]
        exact .inl ⟨c :: tail, segs', hproper, rfl, rfl⟩
      · rw [hspell]
        exact .inr ⟨c :: id, rest, d, List.cons_ne_nil _ _, hb, rfl⟩
    · exact .inl ⟨[], .other c :: segs, .other hnone h, rfl, rfl⟩

theorem Halts.spell (h : Proper segs) (hhalts : Halts (spell [] segs)) (taken : List Bracket) :
    Halts (spell taken segs) := by
  rcases takeIdTail_spell h taken with
    ⟨tail, segs', -, htaken, hspell⟩ | ⟨id, rest, d, hne, -, hspell⟩
  · rw [hhalts, Prod.mk.injEq] at hspell
    have hwhole := (append_takeIdTail (Flowchart.spell taken segs)).1
    rw [htaken, ← hspell.1] at hwhole
    rw [Halts, htaken, ← hspell.1]
    exact congrArg (Prod.mk []) hwhole
  · rw [hhalts, Prod.mk.injEq] at hspell
    exact absurd hspell.1.symm hne

theorem Parted.spell (h : Proper segs) (hparted : Parted (spell [] segs)) (taken : List Bracket) :
    Parted (spell taken segs) :=
  ⟨hparted.1.spell h taken, by rw [head?_spell h taken]; exact hparted.2⟩

/-- Where no declaration begins, none does when others are taken out. -/
theorem declaration?_spell_eq_none (h : Proper segs)
    (hnone : firstDeclaration? (c :: spell [] segs) = none) (hb : b ∈ brackets)
    (taken : List Bracket) : declaration? b (c :: spell taken segs) = none := by
  rw [firstDeclaration?_eq_none_iff] at hnone
  refine Option.eq_none_iff_forall_ne_some.mpr fun (id, label, rest) hdecl => ?_
  obtain ⟨after, inner, hid, hword, hcut⟩ := declaration?_eq_some_iff.mp hdecl
  by_cases hc : isIdChar c = true
  · rw [takeId?_cons hc, takeIdTail_cons hc, Option.some.injEq, Prod.mk.injEq] at hid
    rcases takeIdTail_spell h taken with
      ⟨tail, segs', hproper, htaken, hspell⟩ | ⟨tail, rest, d, -, hd, hspell⟩
    · have hid' : takeId? (c :: spell [] segs) = some (c :: tail, spell [] segs') := by
        rw [takeId?_cons hc, takeIdTail_cons hc, hspell]
      rw [htaken] at hid
      have hspelled : spell taken segs' = b.opening ++ inner :=
        hid.2.trans (Text.dropWord?_eq_some_iff.mp hword)
      obtain ⟨segs'', hproper'', hinner, hspell'⟩ := exists_of_spell_eq_append hproper
        (fun m hm => Bracket.mem_marks b hb m (List.mem_append_left _ hm)) hspelled
      have hspelling : b.closing <:+: [] ++ spell taken segs'' := by
        rw [List.nil_append, hinner, Text.cutAt?_eq_some hcut]
        exact ⟨label, rest, rfl⟩
      have hclosing : b.closing <:+: [] ++ spell [] segs'' :=
        isInfix_spell hproper''
          (fun m hm => Bracket.mem_marks b hb m (List.mem_append_right _ hm)) hspelling
      rw [hspell'] at hid'
      obtain ⟨decl, hsome⟩ := exists_declaration?_of_takeId? hid' hclosing
      exact nomatch (hnone b hb).symm.trans hsome
    · -- the id would have run into a declaration
      have hid' : takeId? (c :: spell [] segs) = some (c :: tail,
          d.bracket.opening ++ (d.label ++ (d.bracket.closing ++ rest))) := by
        rw [takeId?_cons hc, takeIdTail_cons hc, hspell]
      obtain ⟨decl, hsome⟩ := exists_declaration?_of_takeId? hid'
        ⟨d.label, rest, List.append_assoc _ _ _⟩
      exact nomatch (hnone d.bracket hd).symm.trans hsome
  · rw [takeId?_of_head fun e he => by cases he; simpa using hc] at hid
    cases hid

/-! ## One kind of brackets after the other -/

/-- The first of two kinds passes over a declaration in the second. -/
theorem declarations_text (hb : brackets = earlier ++ d.bracket :: later) (he : b ∈ earlier)
    (hid : IsId d.id) (hlabel : ∀ c ∈ d.label, c ∉ marks) (cs : List Char) :
    declarations b (d.text ++ cs)
      = (d.text ++ (declarations b cs).1, (declarations b cs).2) := by
  have hmem : b ∈ brackets := hb ▸ List.mem_append_left _ he
  have hmem' : d.bracket ∈ brackets := hb ▸ List.mem_append_right _ List.mem_cons_self
  obtain ⟨o, os, hopening⟩ := List.exists_cons_of_ne_nil (Bracket.opening_ne_nil b hmem)
  obtain ⟨m, ms, hclosing⟩ := List.exists_cons_of_ne_nil (Bracket.closing_ne_nil _ hmem')
  have hmarks : ∀ c ∈ d.bracket.opening ++ d.bracket.closing, c ∈ marks :=
    Bracket.mem_marks d.bracket hmem'
  have hopen : ¬ b.opening <+: d.bracket.closing ++ cs := by
    rw [hopening, hclosing]
    rintro ⟨behind, heq⟩
    have hhead := (Bracket.head?_opening_ne b hmem).1
    have hhead' := (Bracket.head?_opening_ne _ hmem').2
    rw [hopening, List.head?_cons, (List.cons.inj heq).1] at hhead
    rw [hclosing] at hhead'
    exact hhead' hhead
  have hhalts : Halts (d.bracket.closing ++ cs) := by
    rw [hclosing]
    exact (stops_of_mem_marks (hmarks m (by simp [hclosing]))).halts
  rw [Declaration.text_append, declarations_unmarked hmem (Bracket.stops_opening hmem' _).halts
      (Bracket.not_isPrefix_opening hb he (fun c hc => hlabel c (List.mem_of_mem_head? hc)) cs)
      fun _ => hid.not_mem_marks,
    declarations_marks fun c hc => hmarks c (List.mem_append_left _ hc),
    declarations_unmarked hmem hhalts hopen hlabel,
    declarations_marks fun c hc => hmarks c (List.mem_append_right _ hc), Declaration.text_append]

/-- A pass over a statement takes out the declarations in one kind of brackets. -/
theorem declarations_spell (hb : brackets = earlier ++ b :: later) (h : Proper segs)
    (hclear : Clear segs) : declarations b (spell earlier segs)
      = (spell (earlier ++ [b]) segs,
        ((found segs).filter (·.bracket = b)).map Declaration.node) := by
  have hmem : b ∈ brackets := hb ▸ List.mem_append_right _ List.mem_cons_self
  induction h with
  | nil => exact declarations_nil
  | @other c segs hnone h ih =>
    rw [spell, declarations_of_none (declaration?_spell_eq_none h hnone hmem earlier), ih hclear]
    rfl
  | @declaration d segs hd hid h ih =>
    obtain ⟨hlabel, hparted, hclear⟩ := hclear
    have hparted := hparted.spell h earlier
    have hnodup : brackets.Nodup := by decide
    rw [hb, List.nodup_append, List.nodup_cons] at hnodup
    rw [hb, List.mem_append, List.mem_cons] at hd
    rw [spell, spell, found]
    rcases hd with hearlier | hsame | hlater
    · have hne : d.bracket ≠ b := hnodup.2.2 _ hearlier _ List.mem_cons_self
      have hopen : ¬ b.opening <+: spell earlier segs := by
        rintro ⟨behind, heq⟩
        have hhead := (Bracket.head?_opening_ne b hmem).1
        have hhead' := hparted.2
        rw [← heq, List.head?_append_of_ne_nil _ (Bracket.opening_ne_nil b hmem)] at hhead'
        exact hhead' hhead
      rw [if_pos hearlier, if_pos (List.mem_append_left _ hearlier),
        declarations_unmarked hmem hparted.1 hopen fun _ => hid.not_mem_marks, ih hclear,
        List.filter_cons_of_neg (by simpa using hne)]
    · have hnot : d.bracket ∉ earlier := fun hearlier =>
        hnodup.2.2 _ hearlier _ List.mem_cons_self hsame
      have hdecl := declaration?_bracketed hmem hid
        (fun m hm hin => hlabel m hin (Bracket.mem_marks b hmem m
          (List.mem_append_right _ (List.mem_of_mem_head? hm)))) (spell earlier segs)
      rw [if_neg hnot, if_pos (by simp [hsame]), List.filter_cons_of_pos (by simpa using hsame),
        Declaration.text_append, hsame]
      simp only [List.append_assoc] at hdecl
      rw [declarations_of_some hdecl, ih hclear, List.map_cons, Declaration.node, hsame]
    · have hne : d.bracket ≠ b := by
        rintro rfl
        exact hnodup.2.1.1 hlater
      have hnot : d.bracket ∉ earlier := fun hearlier =>
        hnodup.2.2 _ hearlier _ (List.mem_cons_of_mem _ hlater) rfl
      obtain ⟨between, behind, rfl⟩ := List.append_of_mem hlater
      have hb' : brackets = (earlier ++ b :: between) ++ d.bracket :: behind := by
        rw [hb, List.append_assoc, List.cons_append]
      rw [if_neg hnot, if_neg (by simp [hnot, hne]), declarations_text hb' (by simp) hid hlabel,
        ih hclear, List.filter_cons_of_neg (by simpa using hne)]

/-- Declarations in the order in which they are read: kind by kind, and each kind from left to
right. -/
def byKind (ds : List Declaration) : List Declaration :=
  brackets.flatMap fun b => ds.filter (·.bracket = b)

theorem foldl_takeOut_spell (hb : brackets = earlier ++ later) (h : Proper segs)
    (hclear : Clear segs) (ns : List Node) : later.foldl takeOut (spell earlier segs, ns)
      = (spell brackets segs, ns ++
        (later.flatMap fun b => (found segs).filter (·.bracket = b)).map Declaration.node) := by
  induction later generalizing earlier ns with
  | nil => simp [hb]
  | cons b later ih =>
    have hb' : brackets = (earlier ++ [b]) ++ later := by rw [hb, List.append_cons]
    rw [List.foldl_cons, takeOut, declarations_spell hb h hclear, ih hb', List.flatMap_cons,
      List.map_append, List.append_assoc]

/-- The declarations on a clear statement are those that stand on it from left to right. -/
theorem allDeclarations_of_clear (h : Clear (segments cs)) : allDeclarations cs
    = (spell brackets (segments cs), (byKind (found (segments cs))).map Declaration.node) := by
  obtain ⟨hspell, hproper⟩ := spell_segments cs
  have hbrackets : brackets = [] ++ brackets := rfl
  have hfold := foldl_takeOut_spell hbrackets hproper h []
  rwa [hspell] at hfold

end Whiteboard.Diagram.Flowchart
