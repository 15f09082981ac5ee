import Mathlib.Data.List.DropRight
import Whiteboard.Proofs.Diagram.Uml.Line
import Whiteboard.Proofs.Diagram.Uml.Symbol

/-!
# Messages between names

Names may hold blanks and other characters than those of words. A line with an arrow between two
names is first searched for a relation, which joins the last word of the first name and the first
word of the second one, if there are such words; else it is a message, which joins the names
(`Uml.joins_messageText`). An arrow with two heads is read as one that points to the left, with the
other head as a part of the name behind it. So a message joins the names of its participants exactly
if it is no relation or both names are words, and the arrow has one head
(`Uml.readAll_messageText`).
-/

namespace Whiteboard.Diagram.Uml

variable {f : RelationForm} {p q cs rest u taken : List Char} {lines : List (List Char)} {c : Char}
  {n : Nat}

/-! ## Texts of messages -/

/-- The arrows of messages: to the right, to the left, and with two heads. -/
inductive MessageArrow where
  | forth
  | back
  | both
  deriving DecidableEq

namespace MessageArrow

/-- An arrow with `n + 1` dashes. -/
def text (n : Nat) : MessageArrow → List Char
  | forth => List.replicate (n + 1) '-' ++ ['>']
  | back => '<' :: List.replicate (n + 1) '-'
  | both => '<' :: List.replicate (n + 1) '-' ++ ['>']

def strokes : MessageArrow → List Stroke
  | forth => [.many '-', .one '>']
  | back => [.one '<', .many '-']
  | both => [.one '<', .many '-', .one '>']

/-- The edge between the names on both sides of an arrow. -/
def edge (left right : List Char) : MessageArrow → Edge
  | back => { source := String.ofList right, target := String.ofList left }
  | _ => { source := String.ofList left, target := String.ofList right }

end MessageArrow

variable {a : MessageArrow}

/-- A name of a participant, which begins with no keyword. -/
structure IsName (p : List Char) : Prop where
  ne_nil : p ≠ []
  trimmed : Text.Trimmed p
  plain : ∀ c ∈ p, c ∉ ['"', '\'', ':', ';', '.', '|', '*', '-', '<', '>', '\n']
  keyword : firstWord p ∉
    ["class".toList, "participant".toList, "actor".toList, "if".toList]

/-- The word at the end of a text. -/
def lastWord (cs : List Char) : List Char := cs.rtakeWhile Text.isWord

def messageText (p : List Char) (a : MessageArrow) (n : Nat) (q : List Char) : List Char :=
  p ++ ' ' :: (a.text n ++ ' ' :: q)

def participantText (p : List Char) : List Char := "participant".toList ++ ' ' :: p

/-- The edge of a line that holds no relation. The second head of an arrow goes to the name. -/
def MessageArrow.message (p q : List Char) (a : MessageArrow) : Edge :=
  if a = .both then MessageArrow.back.edge p ('>' :: ' ' :: q) else a.edge p q

/-- The edge that is read from a line with an arrow between two names. -/
def heard (p : List Char) (a : MessageArrow) (q : List Char) : Edge :=
  if a = .both ∨ lastWord p = [] ∨ firstWord q = [] then a.message p q
  else a.edge (lastWord p) (firstWord q)

theorem IsName.not_mem (h : IsName p)
    (hc : c ∈ ['"', '\'', ':', ';', '.', '|', '*', '-', '<', '>', '\n']) : c ∉ p :=
  fun hmem => h.plain c hmem hc

theorem IsName.arrowless (h : IsName p) : ∀ c ∈ p, c ∉ ['-', '<', '>'] := by
  intro c hc hmem
  exact h.plain c hc (List.mem_of_mem_drop (i := 7) (List.mem_of_mem_take (i := 3) hmem))

theorem IsName.exists_head (h : IsName p) :
    ∃ c cs, p = c :: cs ∧ Text.isBlank c = false := by
  obtain ⟨c, cs, rfl⟩ := List.exists_cons_of_ne_nil h.ne_nil
  exact ⟨c, cs, rfl, h.trimmed.head c rfl⟩

theorem IsName.exists_last (h : IsName p) :
    ∃ cs c, p = cs ++ [c] ∧ Text.isBlank c = false := by
  obtain ⟨cs, c, hp⟩ := (List.eq_nil_or_concat p).resolve_left h.ne_nil
  rw [List.concat_eq_append] at hp
  exact ⟨cs, c, hp, h.trimmed.last c (by rw [hp, List.getLast?_concat]; rfl)⟩

theorem lastWord_append (p : List Char) : p.rdropWhile Text.isWord ++ lastWord p = p :=
  List.rdropWhile_append_rtakeWhile ..

theorem isWord_lastWord (h : lastWord p ≠ []) : IsWord (lastWord p) :=
  ⟨h, fun _ hc => List.mem_rtakeWhile_imp hc⟩

theorem isWord_firstWord (h : firstWord p ≠ []) : IsWord (firstWord p) :=
  ⟨h, fun _ hc => List.mem_takeWhile_imp hc⟩

theorem head_of_firstWord (h : firstWord p = []) : ∀ c ∈ p.head?, Text.isWord c = false := by
  cases p with
  | nil => exact nofun
  | cons c p =>
    rintro d ⟨⟩
    by_contra hc
    rw [firstWord, List.takeWhile_cons_of_pos (by simpa using hc)] at h
    cases h

namespace MessageArrow

theorem writes (a : MessageArrow) (n : Nat) : Writes a.strokes (a.text n) := by
  have hrun : Writes [.many '-'] (List.replicate (n + 1) '-') := by
    simpa using Writes.many n .nil
  cases a with
  | forth => exact .many n (.one .nil)
  | back => exact .one hrun
  | both => exact .one (.many n (.one .nil))

theorem head_text (a : MessageArrow) (n : Nat) :
    ∃ c ∈ (a.text n).head?, Text.isBlank c = false := by
  cases a with
  | forth => exact ⟨'-', by rw [text, List.replicate_succ]; rfl, by decide⟩
  | back => exact ⟨'<', rfl, by decide⟩
  | both => exact ⟨'<', rfl, by decide⟩

theorem mem_text (h : c ∈ a.text n) : c ∈ ['-', '<', '>'] := by
  obtain ⟨s, hs, rfl⟩ := (a.writes n).exists_char h
  have hall : ∀ a ∈ [forth, back, both], ∀ s ∈ a.strokes, s.char ∈ ['-', '<', '>'] := by decide
  exact hall a (by cases a <;> decide) s hs

end MessageArrow

/-- A symbol of a relation is read from an arrow if it is this arrow, or up to its head. -/
theorem dropStrokes?_text (hf : f ∈ relationForms) (a : MessageArrow) (n : Nat) :
    dropStrokes? f.strokes (a.text n) = none ∨
      dropStrokes? f.strokes (a.text n) = some ['>'] ∨
        f.strokes = a.strokes ∧ dropStrokes? f.strokes (a.text n) = some [] := by
  have hall : ∀ f ∈ relationForms, ∀ a ∈ [MessageArrow.forth, .back, .both],
      separate a.strokes = true ∧ (clash f.strokes a.strokes = true ∨
        a.strokes = f.strokes ++ [.one '>'] ∨ f.strokes = a.strokes) := by decide
  obtain ⟨hs, hclash | hless | hsame⟩ := hall f hf a (by cases a <;> decide)
  · exact .inl ((a.writes n).dropStrokes?_of_clash hs hclash)
  · have hwrites := a.writes n
    rw [hless] at hs hwrites
    obtain ⟨rest, hdrop, hhead⟩ := hwrites.exists_dropStrokes? hs
    cases hhead with
    | one hnil =>
      cases hnil
      exact .inr (.inl hdrop)
  · refine .inr (.inr ⟨hsame, ?_⟩)
    rw [hsame]
    exact (a.writes n).dropStrokes?_eq hs

/-! ## Relations in messages -/

theorem IsName.plain_of_subset (h : IsName p) (hcs : cs ⊆ p) : ∀ c ∈ cs, c ∉ ['-', '>'] := by
  have hall : ∀ c ∈ ['-', '>'], c ∈ ['-', '<', '>'] := by decide
  exact fun c hc hmem => h.arrowless c (hcs hc) (hall c hmem)

theorem dropStrokes?_messageText (hf : f ∈ relationForms) (a : MessageArrow) (n : Nat)
    (q : List Char) : dropStrokes? f.strokes (Text.trimLeft (' ' :: (a.text n ++ ' ' :: q)))
      = (dropStrokes? f.strokes (a.text n)).map (· ++ ' ' :: q) := by
  rw [Text.trimLeft_space, Text.trimLeft_append_of_head (a.head_text n),
    dropStrokes?_append (not_blank_of_mem f hf)]

/-- Behind the first name no relation goes on, unless its symbol is the arrow and its right word is
the one at the front of the second name. -/
theorem behind?_messageText_eq_none (hf : f ∈ relationForms) (hq : IsName q)
    (h : f.strokes = a.strokes → firstWord q = []) (left : List Char) :
    f.behind? left (' ' :: (a.text n ++ ' ' :: q)) = none := by
  have hdrop := dropStrokes?_messageText hf a n q
  rcases dropStrokes?_text hf a n with hnone | hhead | ⟨hsame, hnil⟩
  · rw [hnone] at hdrop
    exact RelationForm.behind?_of_none hdrop
  · rw [hhead] at hdrop
    have hspan : Text.span Text.isWord (Text.trimLeft ('>' :: ' ' :: q))
        = ([], '>' :: ' ' :: q) := by
      rw [Text.trimLeft_cons (by decide)]
      rfl
    simp only [RelationForm.behind?, hdrop, Option.map_some, List.cons_append, List.nil_append,
      hspan]
  · rw [hnil] at hdrop
    have hspan : Text.span Text.isWord (Text.trimLeft (' ' :: q)) = ([], q) := by
      rw [Text.trimLeft_space, Text.trimLeft_of_head hq.trimmed.head]
      exact Text.span_append (List.forall_mem_nil _) (head_of_firstWord (h hsame))
    simp only [RelationForm.behind?, hdrop, Option.map_some, List.nil_append, hspan]

/-- A symbol that is not the arrow, or has no words on its sides, is found nowhere. -/
theorem find?_messageText_eq_none (hf : f ∈ relationForms) (hp : IsName p) (hq : IsName q)
    (h : f.strokes = a.strokes → lastWord p = [] ∨ firstWord q = []) :
    f.find? (messageText p a n q) = none := by
  refine RelationForm.find?_eq_none fun u c rest hcs hc left => ?_
  have hgap : c ∉ ' ' :: (a.text n ++ [' ']) := by
    have hall : ∀ c ∈ [' ', '-', '<', '>'], Text.isWord c = false := by decide
    intro hmem
    have hout : c ∈ [' ', '-', '<', '>'] := by
      rcases List.mem_cons.mp hmem with rfl | hmem
      · exact List.mem_cons_self
      · rcases List.mem_append.mp hmem with hmem | hmem
        · exact List.mem_cons_of_mem _ (MessageArrow.mem_text hmem)
        · rw [List.mem_singleton.mp hmem]
          exact List.mem_cons_self
    exact Bool.false_ne_true ((hall c hout).symm.trans hc)
  have hsplit : p ++ (' ' :: (a.text n ++ [' ']) ++ q) = u ++ c :: rest := by
    rw [← hcs, messageText]
    simp
  rcases Text.exists_of_append_eq hgap hsplit with ⟨t, hp', rfl⟩ | ⟨t, hq'⟩
  · rcases List.eq_nil_or_concat' t with rfl | ⟨t, d, rfl⟩
    · -- the last word of the first name ends here
      have hlast : lastWord p ≠ [] := by
        rw [hp', lastWord, List.rtakeWhile_concat_pos _ _ _ hc]
        simp
      have hnone := behind?_messageText_eq_none (n := n) hf hq
        (fun hsame => (h hsame).resolve_left hlast) left
      simpa using hnone
    · have hsub : t ++ [d] ⊆ p := by
        rw [hp']
        exact fun x hx => List.mem_append_right u (List.mem_cons_of_mem c hx)
      have hblank : Text.isBlank d = false := by
        rw [← List.cons_append, ← List.append_assoc] at hp'
        exact hp.trimmed.last d (by rw [hp', List.getLast?_concat]; rfl)
      exact RelationForm.behind?_of_none (dropStrokes?_append_plain hf (hp.plain_of_subset hsub)
        ⟨d, by simp, hblank⟩ _)
  · refine RelationForm.behind?_of_none (dropStrokes?_plain hf (hq.plain_of_subset fun d hd => ?_))
    rw [hq']
    exact List.mem_append_right t (List.mem_cons_of_mem c ((List.dropWhile_suffix _).subset hd))

/-- The arrow joins the last word before it to the first word behind it. -/
theorem find?_messageText (hf : f ∈ relationForms) (hp : IsName p) (hq : IsName q)
    (hsame : f.strokes = a.strokes) (hleft : lastWord p ≠ []) (hright : firstWord q ≠ []) :
    f.find? (messageText p a n q) = some (f.edge (lastWord p) (firstWord q) []) := by
  have hdrop : dropStrokes? f.strokes (a.text n) = some [] := by
    rw [hsame]
    exact (a.writes n).dropStrokes?_eq (by cases a <;> decide)
  have htail : ∀ c ∈ (q.dropWhile Text.isWord).head?, Text.isWord c = false := by
    intro c hc
    have hnot := List.head?_dropWhile_not Text.isWord q
    rw [Option.mem_def.mp hc] at hnot
    exact hnot
  have hcolon : ':' ∉ q.dropWhile Text.isWord := fun hmem =>
    hq.not_mem (by decide) ((List.dropWhile_suffix _).subset hmem)
  have hlabel : (if f.labelled then (labelBehind? (q.dropWhile Text.isWord)).getD [] else [])
      = [] := by
    rw [labelBehind?_of_not_mem hcolon, Option.getD_none, ite_self]
  have hsplit : messageText p a n q = p.rdropWhile Text.isWord ++ (lastWord p ++ ' ' ::
      (a.text n ++ ' ' :: (firstWord q ++ q.dropWhile Text.isWord))) := by
    rw [firstWord, List.takeWhile_append_dropWhile, ← List.append_assoc, lastWord_append,
      messageText]
  have hfront : ∀ c ∈ (p.rdropWhile Text.isWord).getLast?, Text.isWord c = false := by
    intro c hc
    obtain ⟨hne, rfl⟩ := List.mem_getLast?_eq_getLast hc
    simpa using List.rdropWhile_last_not Text.isWord p hne
  rw [hsplit, RelationForm.find?_append hfront, RelationForm.find?_between hf (a.head_text n) hdrop
    (isWord_lastWord hleft) (isWord_firstWord hright) htail, hlabel]
  intro v c t hv _ left
  have hsub : t ++ lastWord p ⊆ p := by
    intro x hx
    rw [← lastWord_append p, hv]
    rcases List.mem_append.mp hx with hx | hx
    · exact List.mem_append_left _ (List.mem_append_right v (List.mem_cons_of_mem c hx))
    · exact List.mem_append_right _ hx
  obtain ⟨d, hd, hblank⟩ := (isWord_lastWord hleft).head
  rw [← List.append_assoc]
  exact RelationForm.behind?_of_none (dropStrokes?_append_plain hf (hp.plain_of_subset hsub)
    ⟨d, List.mem_append_right t (List.mem_of_mem_head? hd), hblank⟩ _)

/-- Relations are looked for before messages. -/
theorem relation?_messageText (hp : IsName p) (hq : IsName q) (a : MessageArrow) (n : Nat) :
    relation? (messageText p a n q) =
      if a = .both ∨ lastWord p = [] ∨ firstWord q = [] then none
      else some (a.edge (lastWord p) (firstWord q)) := by
  split
  · next hnone =>
    refine List.findSome?_eq_none_iff.mpr fun f hf => ?_
    have hboth : ∀ f ∈ relationForms, f.strokes ≠ MessageArrow.both.strokes := by decide
    refine find?_messageText_eq_none hf hp hq fun hsame => hnone.resolve_left ?_
    rintro rfl
    exact hboth f hf hsame
  · next hsome =>
    rw [not_or, not_or] at hsome
    obtain ⟨hone, hleft, hright⟩ := hsome
    obtain ⟨earlier, f, later, hforms, hearlier, hsame, hedge⟩ : ∃ earlier f later,
        relationForms = earlier ++ f :: later ∧ (∀ e ∈ earlier, e.strokes ≠ a.strokes) ∧
          f.strokes = a.strokes ∧ ∀ left right, f.edge left right [] = a.edge left right := by
      cases a with
      | forth =>
        exact ⟨relationForms.take 6, _, relationForms.drop 7, rfl, by decide, rfl, fun _ _ => rfl⟩
      | back =>
        exact ⟨relationForms.take 7, _, relationForms.drop 8, rfl, by decide, rfl, fun _ _ => rfl⟩
      | both => exact absurd rfl hone
    have hf : f ∈ relationForms := hforms ▸ List.mem_append_right _ List.mem_cons_self
    have hnone : earlier.findSome? (·.find? (messageText p a n q)) = none := by
      refine List.findSome?_eq_none_iff.mpr fun e he => ?_
      exact find?_messageText_eq_none (hforms ▸ List.mem_append_left _ he) hp hq
        fun hsame => absurd hsame (hearlier e he)
    rw [relation?, hforms, List.findSome?_append, hnone, Option.none_or, List.findSome?_cons,
      find?_messageText hf hp hq hsame hleft hright, hedge]

/-! ## Messages that are no relations -/

theorem arrowsAt_of_head (h : ∀ c ∈ cs.head?, c ∉ ['-', '<']) : arrowsAt cs = [] := by
  have hspan : Text.span (· == '-') cs = ([], cs) := by
    refine Text.span_append (List.forall_mem_nil _) fun c hc => beq_false_of_ne ?_
    rintro rfl
    exact h '-' hc (by decide)
  unfold arrowsAt
  rw [hspan]
  cases cs with
  | nil => rfl
  | cons c cs =>
    have hc : c ≠ '<' := by
      rintro rfl
      exact h '<' rfl (by decide)
    simp [hc]

/-- No arrow stands behind a beginning of a name. -/
theorem messageFrom?_append
    (h : ∀ v c t, u = v ++ c :: t → arrowsAt (Text.trimLeft (t ++ rest)) = [])
    (taken : List Char) :
    messageFrom? taken (u ++ rest) = messageFrom? (u.reverse ++ taken) rest := by
  induction u generalizing taken with
  | nil => rfl
  | cons c u ih =>
    have hnone : messageBehind? (c :: taken).reverse (u ++ rest) = none := by
      rw [messageBehind?, h [] c u rfl]
      rfl
    rw [List.cons_append, messageFrom?, hnone, Option.none_or,
      ih fun v d t hu => h (c :: v) d t (congrArg (c :: ·) hu), List.reverse_cons,
      List.append_assoc, List.singleton_append]

theorem receiverFrom_of_not_mem (h : ':' ∉ cs) (taken : List Char) :
    receiverFrom taken cs = (taken.reverse ++ cs, []) := by
  induction cs generalizing taken with
  | nil => simp [receiverFrom]
  | cons c cs ih =>
    rw [List.mem_cons, not_or] at h
    rw [receiverFrom, labelBehind?_of_not_mem h.2]
    simp only [ih h.2, List.reverse_cons, List.append_assoc, List.singleton_append]

/-- An arrow to the left is read with as few dashes as can be, and ends before a second head. -/
theorem find?_arrowsAt (a : MessageArrow) (n : Nat) (q : List Char) :
    (arrowsAt (a.text n ++ ' ' :: q)).find? (!·.2.isEmpty) = some (match a with
      | .forth => (false, ' ' :: q)
      | .back => (true, ' ' :: q)
      | .both => (true, '>' :: ' ' :: q)) := by
  have hrun (rest : List Char) (hrest : ∀ c ∈ rest.head?, c ≠ '-') :
      Text.span (· == '-') (List.replicate (n + 1) '-' ++ rest)
        = (List.replicate (n + 1) '-', rest) :=
    Text.span_append (by simp) fun c hc => beq_false_of_ne (hrest c hc)
  have hstop {rest : List Char} : Text.span (· == '-') ('<' :: rest) = ([], '<' :: rest) := rfl
  cases a with
  | forth =>
    have hspan := hrun ('>' :: ' ' :: q) (by simp)
    have htext : MessageArrow.forth.text n ++ ' ' :: q
        = List.replicate (n + 1) '-' ++ '>' :: ' ' :: q := by
      rw [MessageArrow.text, List.append_assoc]
      rfl
    rw [htext, arrowsAt, hspan]
    · rw [List.replicate_succ]
      rfl
    · intro rest heq
      rw [List.replicate_succ] at heq
      exact absurd (List.cons.inj heq).1 (by decide)
  | back =>
    have hspan := hrun (' ' :: q) (by simp)
    have htext : MessageArrow.back.text n ++ ' ' :: q
        = '<' :: (List.replicate (n + 1) '-' ++ ' ' :: q) := rfl
    rw [htext, arrowsAt, hstop]
    simp only [hspan, List.length_replicate, List.range_succ_eq_map]
    rfl
  | both =>
    have hspan := hrun ('>' :: ' ' :: q) (by simp)
    have htext : MessageArrow.both.text n ++ ' ' :: q
        = '<' :: (List.replicate (n + 1) '-' ++ '>' :: ' ' :: q) := by
      rw [MessageArrow.text, List.append_assoc]
      rfl
    rw [htext, arrowsAt, hstop]
    simp only [hspan, List.length_replicate, List.range_succ_eq_map]
    rw [List.replicate_succ]
    rfl

theorem messageBehind?_text (hp : IsName p) (hq : IsName q) (a : MessageArrow) (n : Nat) :
    messageBehind? p (' ' :: (a.text n ++ ' ' :: q)) = some (a.message p q) := by
  have harrow := find?_arrowsAt a n q
  have hcolon : ':' ∉ q := hq.not_mem (by decide)
  have hleft : Text.trimLeft q = q := Text.trimLeft_of_head hq.trimmed.head
  rw [messageBehind?, Text.trimLeft_space, Text.trimLeft_append_of_head (a.head_text n), harrow]
  cases a with
  | forth | back =>
    simp only [Text.trimLeft_space, hleft, receiverFrom_of_not_mem hcolon, List.reverse_nil,
      List.nil_append, hp.trimmed.trim_eq, hq.trimmed.trim_eq]
    rfl
  | both =>
    obtain ⟨ds, d, hd, hblank⟩ := hq.exists_last
    have htrimmed : Text.Trimmed ('>' :: ' ' :: q) :=
      Text.trimmed_append (u := ['>']) ⟨'>', [], rfl, by decide⟩
        ⟨d, ' ' :: ds, by rw [hd, List.cons_append], hblank⟩
    have hcolon' : ':' ∉ '>' :: ' ' :: q := by simp [hcolon]
    simp only [Text.trimLeft_of_head htrimmed.head, receiverFrom_of_not_mem hcolon',
      List.reverse_nil, List.nil_append, hp.trimmed.trim_eq, htrimmed.trim_eq]
    rfl

/-- The sender is the whole first name. -/
theorem message?_messageText (hp : IsName p) (hq : IsName q) (a : MessageArrow) (n : Nat) :
    message? (messageText p a n q) = some (a.message p q) := by
  obtain ⟨cs, c, hcs, hblank⟩ := hp.exists_last
  have hskip : ∀ v d t, cs = v ++ d :: t →
      arrowsAt (Text.trimLeft (t ++ c :: ' ' :: (a.text n ++ ' ' :: q))) = [] := by
    intro v d t ht
    have hplain : ∀ x ∈ t ++ [c], x ∉ ['-', '<'] := by
      have hall : ∀ x ∈ ['-', '<'], x ∈ ['-', '<', '>'] := by decide
      refine fun x hx hmem => hp.arrowless x ?_ (hall x hmem)
      rw [hcs, ht, List.append_assoc]
      exact List.mem_append_right v (List.mem_cons_of_mem d hx)
    have hmem : ∃ x ∈ t ++ [c], Text.isBlank x = false := ⟨c, by simp, hblank⟩
    refine arrowsAt_of_head fun x hx => hplain x ?_
    rw [List.append_cons, Text.trimLeft_append_of_mem hmem,
      List.head?_append_of_ne_nil _ (Text.trimLeft_ne_nil_of_mem hmem)] at hx
    exact (List.dropWhile_suffix _).subset (List.mem_of_mem_head? hx)
  have hbehind := messageBehind?_text hp hq a n
  have hname : (c :: cs.reverse).reverse = p := by rw [List.reverse_cons, List.reverse_reverse, hcs]
  have htext : messageText p a n q = cs ++ c :: ' ' :: (a.text n ++ ' ' :: q) := by
    rw [messageText, hcs, List.append_assoc, List.singleton_append]
  rw [message?, htext, messageFrom?_append hskip, List.append_nil, messageFrom?, hname, hbehind,
    Option.some_or]

theorem joins_messageText (hp : IsName p) (hq : IsName q) (a : MessageArrow) (n : Nat) :
    Joins (messageText p a n q) (heard p a q) := by
  have hhead : ∃ c ∈ p.head?, c ≠ ':' := by
    obtain ⟨c, cs, rfl, -⟩ := hp.exists_head
    refine ⟨c, rfl, ?_⟩
    rintro rfl
    exact hp.not_mem (c := ':') (by decide) List.mem_cons_self
  have hedge : (relation? (messageText p a n q)).or (message? (messageText p a n q))
      = some (heard p a q) := by
    rw [relation?_messageText hp hq, message?_messageText hp hq, heard]
    split <;> rfl
  have hkey := hp.keyword
  refine joins_of_firstWord hhead ?_ (.inl ?_) hedge
  · exact fun hmem => hkey (List.mem_of_mem_take (i := 3) hmem)
  · intro hif
    rw [hif] at hkey
    exact hkey (by decide)

/-! ## Participants -/

theorem alias?_of_not_mem (h : '"' ∉ cs) : alias? cs = none := by
  unfold alias?
  split
  · next rest heq =>
    obtain ⟨after, hafter, hblanks⟩ := Option.bind_eq_some_iff.mp heq
    obtain ⟨before, hbefore, hword⟩ := Option.bind_eq_some_iff.mp hafter
    have hquote : '"' ∈ after := (Text.isSuffix_dropBlanks? hblanks).subset List.mem_cons_self
    have hquote' : '"' ∈ before := by
      rw [Text.dropWord?_eq_some_iff.mp hword]
      exact List.mem_append_right _ hquote
    exact absurd ((Text.isSuffix_dropBlanks? hbefore).subset hquote') h
  · rfl

theorem nameFrom?_of_not_mem (h : '"' ∉ cs) (hne : cs ≠ []) (taken : List Char) :
    nameFrom? taken cs = some (taken.reverse ++ cs, none) := by
  induction cs generalizing taken with
  | nil => contradiction
  | cons c cs ih =>
    rw [List.mem_cons, not_or] at h
    rw [nameFrom?, alias?_of_not_mem h.2]
    cases cs with
    | nil => simp
    | cons d cs => simp [ih h.2 (List.cons_ne_nil d cs)]

theorem unquote_of_not_mem (h : '"' ∉ cs) : unquote cs = cs := by
  have hleft : cs.dropWhile (· == '"') = cs := by
    cases cs with
    | nil => rfl
    | cons c cs =>
      rw [List.mem_cons, not_or] at h
      exact List.dropWhile_cons_of_neg (by simpa using Ne.symm h.1)
  rw [unquote, hleft]
  refine List.rdropWhile_eq_self_iff.mpr fun hne hlast => h ?_
  rw [← beq_iff_eq.mp hlast]
  exact List.getLast_mem hne

theorem participant?_participantText (hp : IsName p) :
    participant? (participantText p) = some (.bare (String.ofList p)) := by
  have hquote : '"' ∉ p := hp.not_mem (by decide)
  have hblanks : Text.dropBlanks? (' ' :: p) = some p :=
    Text.dropBlanks?_append (u := [' ']) (List.cons_ne_nil _ _) (by decide) hp.trimmed.head
  have hhead : Text.dropWord? "participant".toList (participantText p) = some (' ' :: p) :=
    Text.dropWord?_append_self _ _
  simp only [participant?, hhead, hblanks, Option.bind_some, nameFrom?_of_not_mem hquote hp.ne_nil,
    List.reverse_nil, List.nil_append, hp.trimmed.trim_eq, unquote_of_not_mem hquote]
  rfl

theorem readStatement_participantText (hp : IsName p) (state : Progress) :
    readStatement state (participantText p) = state.addNode (.bare (String.ofList p)) := by
  have hclass : classHead? (participantText p) = none := classHead?_of_firstWord (by decide) p
  simp only [readStatement, hclass, participant?_participantText hp]

/-- A participant of this name is declared outside of class blocks. -/
def Named (lines : List (List Char)) (p : List Char) : Prop :=
  ∃ before behind, lines = before ++ participantText p :: behind ∧
    (readAll before).openClass = none

theorem Named.mem_nodeIds (h : Named lines p) (hp : IsName p) :
    String.ofList p ∈ (readAll lines).graph.nodeIds := by
  obtain ⟨before, behind, rfl, hopen⟩ := h
  obtain ⟨ds, d, hd, hblank⟩ := hp.exists_last
  have htrimmed : Text.Trimmed (participantText p) :=
    Text.trimmed_append ⟨'p', "articipant".toList, rfl, by decide⟩
      ⟨d, ' ' :: ds, by rw [hd, List.cons_append], hblank⟩
  have hword : IsWord "participant".toList := by decide
  have hstatement : isStatement (Text.trim (participantText p)) = true := by
    rw [htrimmed.trim_eq]
    exact isStatement_word hword _
  have hread : String.ofList p ∈ (readAll (before ++ [participantText p])).graph.nodeIds := by
    rw [readAll_concat hstatement hopen, htrimmed.trim_eq, readStatement_participantText hp]
    exact Graph.mem_nodeIds_addNode.mpr (.inr rfl)
  rw [List.append_cons]
  exact ((isPrefix_readAll _ behind).map Node.id).subset hread

/-! ## Messages between participants -/

theorem isStatement_append (hp : p ≠ []) (rest : List Char) :
    isStatement (p ++ ' ' :: rest) = isStatement p := by
  have hempty : (p ++ ' ' :: rest).isEmpty = p.isEmpty := by
    obtain ⟨c, cs, rfl⟩ := List.exists_cons_of_ne_nil hp
    rfl
  have hspace : ∀ word ∈ ["'".toList, "//".toList, "@startuml".toList, "@enduml".toList],
      ' ' ∉ word := by decide
  simp only [List.forall_mem_cons] at hspace
  obtain ⟨hquote, hslash, hstart, hend, -⟩ := hspace
  rw [isStatement, hempty, Text.isPrefixOf_append_cons hquote, Text.isPrefixOf_append_cons hslash,
    Text.isPrefixOf_append_cons hstart, Text.isPrefixOf_append_cons hend, isStatement]

theorem trimmed_messageText (hp : IsName p) (hq : IsName q) (a : MessageArrow) (n : Nat) :
    Text.Trimmed (messageText p a n q) := by
  obtain ⟨ds, d, hd, hblank⟩ := hq.exists_last
  exact Text.trimmed_append hp.exists_head ⟨d, ' ' :: (a.text n ++ ' ' :: ds), by simp [hd], hblank⟩

/-- A message adds the edge that is heard, unless its first name begins a comment. -/
theorem readAll_concat_messageText (hp : IsName p) (hq : IsName q)
    (hopen : (readAll lines).openClass = none) (a : MessageArrow) (n : Nat) :
    readAll (lines ++ [messageText p a n q]) = if isStatement p = true then
      (readAll lines).addEdge (heard p a q) else readAll lines := by
  have htrim := (trimmed_messageText hp hq a n).trim_eq
  have hstatement : isStatement (Text.trim (messageText p a n q)) = isStatement p := by
    rw [htrim]
    exact isStatement_append hp.ne_nil _
  split
  · next h =>
    rw [readAll_concat (hstatement.trans h) hopen, htrim,
      (joins_messageText hp hq a n).readStatement]
  · next h =>
    exact readAll_concat_of_not_statement (hstatement.trans (Bool.eq_false_iff.mpr h))

theorem MessageArrow.edge_inj {left right left' right' : List Char} :
    a.edge left right = a.edge left' right' ↔ left = left' ∧ right = right' := by
  cases a <;> simp only [edge, Edge.mk.injEq, String.ofList_inj, and_true]
  exact and_comm

/-- When the edge that is heard joins the names. -/
theorem heard_eq_edge_iff (hp : IsName p) (a : MessageArrow) (q : List Char) :
    heard p a q = a.edge p q ↔
      a ≠ .both ∧ (IsWord p ∧ IsWord q ∨ lastWord p = [] ∨ firstWord q = []) := by
  by_cases hboth : a = .both
  · subst hboth
    have hhead : '>' ∉ p := hp.not_mem (by decide)
    rw [heard, if_pos (.inl rfl), MessageArrow.message, if_pos rfl]
    refine iff_of_false (fun heq => hhead ?_) fun h => h.1 rfl
    have hsource : '>' :: ' ' :: q = p := String.ofList_inj.mp (congrArg Edge.source heq)
    rw [← hsource]
    exact List.mem_cons_self
  · by_cases hword : lastWord p = [] ∨ firstWord q = []
    · rw [heard, if_pos (.inr hword), MessageArrow.message, if_neg hboth]
      exact iff_of_true rfl ⟨hboth, .inr hword⟩
    · rw [heard, if_neg (not_or_intro hboth hword), MessageArrow.edge_inj]
      rw [not_or] at hword
      constructor
      · rintro ⟨hleft, hright⟩
        refine ⟨hboth, .inl ⟨?_, ?_⟩⟩
        · rw [← hleft]
          exact isWord_lastWord hword.1
        · rw [← hright]
          exact isWord_firstWord hword.2
      · rintro ⟨-, ⟨hleft, hright⟩ | hnone⟩
        · exact ⟨List.rtakeWhile_eq_self_iff.mpr hleft.2, hright.firstWord_eq⟩
        · exact absurd hnone (not_or_intro hword.1 hword.2)

/-- A source that ends with a message. -/
theorem parse_of_message (hp : IsName p) (hq : IsName q) (hopen : (readAll lines).openClass = none)
    (hne : (readAll lines).graph.nodes ≠ []) {s : String}
    (hs : Text.lines s.toList = lines ++ [messageText p a n q]) :
    parse (some s) = .ok (readAll (lines ++ [messageText p a n q])).graph := by
  have hclosed : (readAll (lines ++ [messageText p a n q])).openClass = none := by
    rw [readAll_concat_messageText hp hq hopen]
    split <;> exact hopen
  have hlines : readLines (Text.lines s.toList)
      = (readAll (lines ++ [messageText p a n q])).graph := by
    rw [hs, readLines_eq, closeClass_of_none hclosed]
  have hnodes : (readAll (lines ++ [messageText p a n q])).graph.nodes ≠ [] := by
    intro hnil
    have hprefix := isPrefix_readAll lines [messageText p a n q]
    rw [hnil, List.prefix_nil] at hprefix
    exact hne hprefix
  rw [parse_of_ne_nil (hlines ▸ hnodes), hlines]

/-- After its participants, a message joins them and no other nodes exactly if it is no comment, its
arrow has one head, and no relation is found in it but one between the whole names. -/
theorem readAll_messageText (hp : IsName p) (hq : IsName q) (hnamed : Named lines p)
    (hnamed' : Named lines q) (hopen : (readAll lines).openClass = none) (a : MessageArrow)
    (n : Nat) :
    String.ofList p ∈ (readAll lines).graph.nodeIds ∧
    String.ofList q ∈ (readAll lines).graph.nodeIds ∧
    readAll (lines ++ [messageText p a n q]) = (if isStatement p = true then
      (readAll lines).addEdge (heard p a q) else readAll lines) ∧
    (∀ s : String, Text.lines s.toList = lines ++ [messageText p a n q] →
      parse (some s) = .ok (readAll (lines ++ [messageText p a n q])).graph) ∧
    ((readAll (lines ++ [messageText p a n q])).graph
        = (readAll lines).graph.addEdge (a.edge p q) ↔
      isStatement p = true ∧ a ≠ .both ∧
        (IsWord p ∧ IsWord q ∨ lastWord p = [] ∨ firstWord q = [])) := by
  have hmem := hnamed.mem_nodeIds hp
  have hmem' := hnamed'.mem_nodeIds hq
  have hread := readAll_concat_messageText hp hq hopen a n
  have hne : (readAll lines).graph.nodes ≠ [] := Graph.nodes_ne_nil_of_mem hmem
  have hadd : ((readAll lines).addEdge (a.edge p q)).graph
      = (readAll lines).graph.addEdge (a.edge p q) := by
    have hends : (a.edge p q).source ∈ (readAll lines).graph.nodeIds ∧
        (a.edge p q).target ∈ (readAll lines).graph.nodeIds := by
      cases a with
      | back => exact ⟨hmem', hmem⟩
      | forth | both => exact ⟨hmem, hmem'⟩
    have hstay : ∀ id ∈ (readAll lines).graph.nodeIds,
        (readAll lines).graph.ensureNode id = (readAll lines).graph :=
      fun id hid => Graph.addNode_of_mem hid
    rw [Progress.addEdge, hstay _ hends.1, hstay _ hends.2]
  refine ⟨hmem, hmem', hread, fun s hs => parse_of_message hp hq hopen hne hs, ?_⟩
  rw [← heard_eq_edge_iff hp, hread]
  split
  · next hstatement =>
    constructor
    · intro heq
      have hedges : (readAll lines).graph.edges ++ [heard p a q]
          = (readAll lines).graph.edges ++ [a.edge p q] := by
        have hedges := congrArg Graph.edges heq
        rwa [Progress.addEdge, Graph.edges_addEdge, Graph.edges_ensureNode, Graph.edges_ensureNode,
          Graph.edges_addEdge] at hedges
      exact ⟨hstatement, List.singleton_inj.mp (List.append_cancel_left hedges)⟩
    · rintro ⟨-, heq⟩
      rw [heq, hadd]
  · next hcomment =>
    refine iff_of_false (fun heq => ?_) fun h => hcomment h.1
    have hedges := congrArg (List.length ∘ Graph.edges) heq
    simp [Graph.addEdge] at hedges

theorem readAll_messageText_brackets :
    parse (some "participant Ann\nparticipant (Web Shop)\nAnn <-- (Web Shop)") = .ok {
      nodes := [.bare "Ann", .bare "(Web Shop)"]
      edges := [{ source := "(Web Shop)", target := "Ann" }] } := by
  have hann : IsName "Ann".toList := ⟨by decide, ⟨by decide, by decide⟩, by decide, by decide⟩
  have hshop : IsName "(Web Shop)".toList :=
    ⟨by decide, ⟨by decide, by decide⟩, by decide, by decide⟩
  have hread : (readAll ["participant Ann".toList, "participant (Web Shop)".toList]).graph
      = { nodes := [.bare "Ann", .bare "(Web Shop)"] } := by decide
  have hnamed : Named ["participant Ann".toList, "participant (Web Shop)".toList] "Ann".toList :=
    ⟨[], ["participant (Web Shop)".toList], rfl, rfl⟩
  have hnamed' : Named ["participant Ann".toList, "participant (Web Shop)".toList]
      "(Web Shop)".toList :=
    ⟨["participant Ann".toList], [], rfl, by decide⟩
  obtain ⟨-, -, -, hparse, hiff⟩ :=
    readAll_messageText hann hshop hnamed hnamed' (by decide) .back 1
  rw [hparse _ (by decide), hiff.mpr ⟨by decide, by decide, .inr (.inr (by decide))⟩, hread]
  rfl

/-- The second head goes to the name behind it, and of a name of two words only one is read. -/
theorem parse_message_twice :
    parse (some "participant A\nparticipant B\nA <-> B") = .ok {
      nodes := [.bare "A", .bare "B", .bare "> B"]
      edges := [{ source := "> B", target := "A" }] } ∧
    parse (some "participant Alice Smith\nparticipant Bob\nAlice Smith -> Bob") = .ok {
      nodes := [.bare "Alice Smith", .bare "Bob", .bare "Smith"]
      edges := [{ source := "Smith", target := "Bob" }] } := by
  constructor
  · decide
  · decide

end Whiteboard.Diagram.Uml
