import Mathlib
import Whiteboard.Proofs.Drawing.Edge

/-!
# Drawn graphs

The drawing of a well-formed graph is complete (`Drawing.complete_ofLayout`): one shape for each
node, one arrow for each edge between the shapes of its ends, and for an outline of several levels a
stub for each node of the trunk and two rails. Their ids are distinct if the marks are.
-/

namespace Whiteboard.Drawing

variable {α : Type}

/-- The elements of a drawing by what they stand for. -/
structure Parts (α : Type) where
  nodes : List (Element α)
  stubs : List (Element α)
  arrows : List (Element α)
  rails : List (Element α)

namespace Parts

/-- All elements, one upon the other. -/
def all (p : Parts α) : List (Element α) := p.nodes ++ p.stubs ++ p.arrows ++ p.rails

/-- The shape of the node with an id. -/
def StandsFor (p : Parts α) (g : Graph) (id : String) (e : Element α) : Prop :=
  ∃ (i : Nat) (n : Node), g.nodes[i]? = some n ∧ n.id = id ∧ p.nodes[i]? = some e

/-- Whether there are stubs and rails. -/
def hasRails (g : Graph) (layers : Nat) : Bool := g.isOutline && 1 < layers

/-- How many marks a drawing takes. -/
def markCount (g : Graph) (layers : Nat) : Nat :=
  g.nodes.length + g.edges.length + if hasRails g layers then 2 else 0

/-- Each part of a graph has its elements, told apart by the marks that a supply of ids issues. -/
structure Complete (p : Parts α) (g : Graph) (layers : Nat) (ids : IdSupply) : Prop where
  nodes : List.Forall₂ (fun m e => Draws m.1 m.2 e)
    (g.nodes.zip (ids.shortIds g.nodes.length)) p.nodes
  arrows : List.Forall₂ (fun m e => ∃ source target, p.StandsFor g m.1.source source ∧
      p.StandsFor g m.1.target target ∧ Joins m.1 m.2 source.id target.id e)
    (g.edges.zip ((ids.advance g.nodes.length).shortIds g.edges.length)) p.arrows
  scaffolding : if hasRails g layers then
      List.Forall₂ (fun n stub => ∃ e, p.StandsFor g n.id e ∧ Leads IsLine e stub)
        (g.nodes.filter fun n => !n.isOffTrunk) p.stubs ∧
      List.Forall₂ IsLine ["guide-left-" ++ (ids.advance (g.nodes.length + g.edges.length)).shortId,
        "guide-right-" ++ (ids.advance (g.nodes.length + g.edges.length + 1)).shortId] p.rails
    else p.stubs = [] ∧ p.rails = []

end Parts

/-! ## Levels on the page -/

/-- An element on another level. -/
def Restacked (e e' : Element α) : Prop := ∃ z, e' = e.withZIndex z

theorem Restacked.id_eq {e e' : Element α} (h : Restacked e e') : e'.id = e.id := by
  obtain ⟨z, rfl⟩ := h
  cases e <;> rfl

theorem Restacked.box_eq {e e' : Element α} (h : Restacked e e') : e'.frame.box = e.frame.box := by
  obtain ⟨z, rfl⟩ := h
  rw [Element.withZIndex, Element.frame_mapFrame]
  rfl

theorem Draws.restacked {n : Node} {mark : String} {e e' : Element α} (h : Draws n mark e)
    (he : Restacked e e') : Draws n mark e' := by
  have hid := he.id_eq
  obtain ⟨z, rfl⟩ := he
  refine ⟨hid.trans h.id, ?_, ?_⟩
  · have hkind := h.kind
    cases e <;> exact hkind
  · have hcontent := h.content
    cases e <;> exact hcontent

theorem Joins.restacked {edge : Edge} {mark source target : String} {e e' : Element α}
    (h : Joins edge mark source target e) (he : Restacked e e') :
    Joins edge mark source target e' := by
  have hid := he.id_eq
  obtain ⟨z, rfl⟩ := he
  refine ⟨hid.trans h.id, ?_⟩
  have harrow := h.arrow
  cases e with
  | shape f k s => cases k <;> exact harrow
  | _ => exact harrow

theorem IsLine.restacked {id : String} {e e' : Element α} (h : IsLine id e) (he : Restacked e e') :
    IsLine id e' := by
  have hid := he.id_eq
  obtain ⟨z, rfl⟩ := he
  refine ⟨hid.trans h.id, ?_⟩
  have harrow := h.arrow
  cases e with
  | shape f k s => cases k <;> exact harrow
  | _ => exact harrow

/-- Elements on the levels from `i` on. -/
def numberedFrom (i : Nat) (es : List (Element α)) : List (Element α) :=
  (es.zipIdx i).map fun (e, i) => e.withZIndex i

theorem numberedFrom_append (i : Nat) (es es' : List (Element α)) :
    numberedFrom i (es ++ es') = numberedFrom i es ++ numberedFrom (i + es.length) es' := by
  rw [numberedFrom, List.zipIdx_append, List.map_append]
  rfl

theorem restacked_numberedFrom (i : Nat) (es : List (Element α)) :
    List.Forall₂ Restacked es (numberedFrom i es) := by
  induction es generalizing i with
  | nil => exact .nil
  | cons e rest ih => exact .cons ⟨i, rfl⟩ (ih (i + 1))

theorem zIndex_renumbered {es : List (Element α)} {i : Nat} {e : Element α}
    (h : (Element.renumbered es)[i]? = some e) : e.zIndex = i := by
  rw [Element.renumbered, List.getElem?_map, List.getElem?_zipIdx] at h
  cases hi : es[i]? with
  | none =>
    rw [hi] at h
    cases h
  | some e' =>
    rw [hi] at h
    cases h
    cases e' <;> simp [Element.withZIndex, Element.zIndex, Element.mapFrame, Element.withFrame,
      Element.frame]

namespace Parts

variable {p p' : Parts α} {g : Graph} {layers : Nat} {ids : IdSupply}

/-- The parts of a drawing, each element on the level of its position. -/
def numbered (p : Parts α) : Parts α where
  nodes := numberedFrom 0 p.nodes
  stubs := numberedFrom p.nodes.length p.stubs
  arrows := numberedFrom (p.nodes ++ p.stubs).length p.arrows
  rails := numberedFrom (p.nodes ++ p.stubs ++ p.arrows).length p.rails

theorem all_numbered (p : Parts α) : p.numbered.all = Element.renumbered p.all := by
  have hall : Element.renumbered p.all = numberedFrom 0 p.all := rfl
  rw [hall, all, all, numberedFrom_append, numberedFrom_append, numberedFrom_append]
  simp only [numbered, Nat.zero_add]

theorem StandsFor.numbered {id : String} {e : Element α} (h : p.StandsFor g id e) :
    ∃ e', p.numbered.StandsFor g id e' ∧ Restacked e e' := by
  obtain ⟨i, n, hn, hid, he⟩ := h
  have hlt := (List.getElem?_eq_some_iff.mp he).1
  have hlength := (restacked_numberedFrom 0 p.nodes).length_eq
  have hrestacked := (List.forall₂_iff_get.mp (restacked_numberedFrom 0 p.nodes)).2 i hlt
    (hlength ▸ hlt)
  refine ⟨_, ⟨i, n, hn, hid, List.getElem?_eq_getElem (hlength ▸ hlt)⟩, ?_⟩
  rw [List.getElem?_eq_getElem hlt, Option.some_inj] at he
  exact he ▸ hrestacked

/-- A row of shapes keeps its boxes when all elements get their levels. -/
theorem exists_row_numbered {layer : List String}
    {row : List (Element α)} (h : List.Forall₂ (p.StandsFor g) layer row) :
    ∃ row', List.Forall₂ (p.numbered.StandsFor g) layer row' ∧
      (row'.map fun e => e.frame.box) = row.map fun e => e.frame.box := by
  induction h with
  | nil => exact ⟨[], .nil, rfl⟩
  | @cons id e _ _ he _ ih =>
    obtain ⟨row', hrow', hboxes⟩ := ih
    obtain ⟨e', he', hlevel⟩ := he.numbered
    exact ⟨_ :: row', .cons he' hrow', congrArg₂ List.cons hlevel.box_eq hboxes⟩

/-- Which parts there are does not depend on the levels. -/
theorem Complete.numbered (h : p.Complete g layers ids) : p.numbered.Complete g layers ids := by
  refine ⟨?_, ?_, ?_⟩
  · exact forall₂_comp (fun _ _ _ hm he => hm.restacked he) h.nodes (restacked_numberedFrom _ _)
  · refine forall₂_comp (fun m e e' hm he => ?_) h.arrows (restacked_numberedFrom _ _)
    obtain ⟨source, target, hsource, htarget, hjoins⟩ := hm
    obtain ⟨source', hsource', hs⟩ := hsource.numbered
    obtain ⟨target', htarget', ht⟩ := htarget.numbered
    exact ⟨source', target', hsource', htarget', hs.id_eq ▸ ht.id_eq ▸ hjoins.restacked he⟩
  · have hscaffolding := h.scaffolding
    split at hscaffolding
    · next hrails =>
      rw [if_pos hrails]
      obtain ⟨hstubs, hlines⟩ := hscaffolding
      refine ⟨forall₂_comp (fun n e e' hn he => ?_) hstubs (restacked_numberedFrom _ _),
        forall₂_comp (fun _ _ _ hm he => hm.restacked he) hlines (restacked_numberedFrom _ _)⟩
      obtain ⟨shape, hshape, hleads⟩ := hn
      obtain ⟨shape', hshape', hs⟩ := hshape.numbered
      refine ⟨shape', hshape', ?_⟩
      rw [Leads, hs.id_eq]
      exact hleads.imp (IsLine.restacked · he) (IsLine.restacked · he)
    · next hrails =>
      rw [if_neg hrails]
      obtain ⟨hstubs, hlines⟩ := hscaffolding
      simp [Parts.numbered, hstubs, hlines, numberedFrom]

/-! ## Distinct ids -/

theorem append_inj_of_length {s s' mark mark' : String} (h : s ++ mark = s' ++ mark')
    (hlength : mark.length = mark'.length) : s = s' ∧ mark = mark' := by
  have hlist : s.toList ++ mark.toList = s'.toList ++ mark'.toList := by
    rw [← String.toList_append, ← String.toList_append, h]
  obtain ⟨hs, hmark⟩ := List.append_inj' hlist (by rwa [String.length_toList, String.length_toList])
  exact ⟨String.toList_inj.mp hs, String.toList_inj.mp hmark⟩

/-- The id of a stub tells the shape that it belongs to. -/
theorem Leads.id_inj {e e' stub stub' : Element α} (h : Leads IsLine e stub)
    (h' : Leads IsLine e' stub') (hid : stub.id = stub'.id) : e.id = e'.id := by
  have hsides : ∀ s s' : String, s ++ "-left" ≠ s' ++ "-right" := by
    intro s s' heq
    have hsplit : s ++ "-left" = (s' ++ "-") ++ "right" := by rw [heq, String.append_assoc]; rfl
    have hright := (append_inj_of_length hsplit (by decide)).2
    revert hright
    decide
  have hprefix : ∀ s s' : String, "connector-" ++ s = "connector-" ++ s' → s = s' := by
    intro s s' heq
    simpa [← String.toList_inj] using heq
  rcases h with h | h <;> rcases h' with h' | h' <;> rw [h.id, h'.id] at hid
  · exact hprefix _ _ (append_inj_of_length hid rfl).1
  · exact absurd hid (hsides _ _)
  · exact absurd hid.symm (hsides _ _)
  · exact hprefix _ _ (append_inj_of_length hid rfl).1

/-- Items have distinct keys if those that they belong to have. -/
theorem nodup_map_of_forall₂ {β γ δ ε : Type} {R : β → γ → Prop} {f : β → δ} {k : γ → ε}
    {bs : List β} {cs : List γ} (h : List.Forall₂ R bs cs) (hnodup : (bs.map f).Nodup)
    (hk : ∀ b ∈ bs, ∀ b' ∈ bs, ∀ c c', R b c → R b' c' → k c = k c' → f b = f b') :
    (cs.map k).Nodup := by
  induction h with
  | nil => exact List.nodup_nil
  | @cons b c bs cs hR hrest ih =>
    rw [List.map_cons, List.nodup_cons] at hnodup ⊢
    refine ⟨fun hmem => hnodup.1 ?_, ih hnodup.2 fun b hb b' hb' => hk b
      (List.mem_cons_of_mem _ hb) b' (List.mem_cons_of_mem _ hb')⟩
    obtain ⟨c', hc', hkey⟩ := List.mem_map.mp hmem
    obtain ⟨b', hb', hR'⟩ := exists_of_mem_right hrest hc'
    rw [hk b List.mem_cons_self b' (List.mem_cons_of_mem _ hb') c c' hR hR' hkey.symm]
    exact List.mem_map_of_mem hb'

/-- The first letter of a text. -/
def initial (s : String) : Option Char := s.toList.head?

theorem disjoint_of_initial {l l' : List String} {c c' : Char} (h : ∀ s ∈ l, initial s = some c)
    (h' : ∀ s ∈ l', initial s = some c') (hne : c ≠ c') : l.Disjoint l' := fun s hs hs' =>
  hne (Option.some.inj ((h s hs).symm.trans (h' s hs')))

theorem Complete.initial_nodes (h : p.Complete g layers ids) :
    ∀ s ∈ p.nodes.map Element.id, initial s = some 'n' := by
  intro s hs
  obtain ⟨e, he, rfl⟩ := List.mem_map.mp hs
  obtain ⟨m, -, hm⟩ := exists_of_mem_right h.nodes he
  rw [hm.id]
  simp [initial]

theorem Complete.initial_arrows (h : p.Complete g layers ids) :
    ∀ s ∈ p.arrows.map Element.id, initial s = some 'a' := by
  intro s hs
  obtain ⟨e, he, rfl⟩ := List.mem_map.mp hs
  obtain ⟨m, -, _, _, -, -, hm⟩ := exists_of_mem_right h.arrows he
  rw [hm.id]
  simp [initial]

theorem Complete.initial_stubs (h : p.Complete g layers ids) :
    ∀ s ∈ p.stubs.map Element.id, initial s = some 'c' := by
  have hscaffolding := h.scaffolding
  split at hscaffolding
  · intro s hs
    obtain ⟨stub, hstub, rfl⟩ := List.mem_map.mp hs
    obtain ⟨n, -, e, -, hleads⟩ := exists_of_mem_right hscaffolding.1 hstub
    rcases hleads with hline | hline <;> rw [hline.id] <;> simp [initial]
  · simp [hscaffolding.1]

theorem Complete.initial_rails (h : p.Complete g layers ids) :
    ∀ s ∈ p.rails.map Element.id, initial s = some 'g' := by
  have hscaffolding := h.scaffolding
  split at hscaffolding
  · intro s hs
    obtain ⟨rail, hrail, rfl⟩ := List.mem_map.mp hs
    obtain ⟨id, hid, hline⟩ := exists_of_mem_right hscaffolding.2 hrail
    rw [hline.id]
    simp only [List.mem_cons, List.not_mem_nil, or_false] at hid
    rcases hid with rfl | rfl <;> simp [initial]
  · simp [hscaffolding.2]

/-- Ids that end with distinct marks of one length are distinct. -/
theorem nodup_of_marks {β : Type} {R : β × String → Element α → Prop} {bs : List β}
    {marks : List String} {es : List (Element α)} (h : List.Forall₂ R (bs.zip marks) es)
    (hlength : ∀ mark ∈ marks, mark.length = 9) (hnodup : marks.Nodup)
    (hcount : marks.length ≤ bs.length) (hid : ∀ m e, R m e → ∃ s, e.id = s ++ m.2) :
    (es.map Element.id).Nodup := by
  refine nodup_map_of_forall₂ (f := (·.2)) h ?_ fun m hm m' hm' e e' hR hR' heq => ?_
  · rwa [List.map_snd_zip hcount]
  · obtain ⟨s, hs⟩ := hid m e hR
    obtain ⟨s', hs'⟩ := hid m' e' hR'
    rw [hs, hs'] at heq
    refine (append_inj_of_length heq ?_).2
    rw [hlength _ (List.of_mem_zip hm).2, hlength _ (List.of_mem_zip hm').2]

/-- Distinct nodes have shapes with distinct ids. -/
theorem StandsFor.id_inj {id id' : String} {e e' : Element α} (h : p.StandsFor g id e)
    (h' : p.StandsFor g id' e') (hnodup : (p.nodes.map Element.id).Nodup) (hid : e.id = e'.id) :
    id = id' := by
  obtain ⟨i, n, hn, rfl, he⟩ := h
  obtain ⟨i', n', hn', rfl, he'⟩ := h'
  have hlt : i < (p.nodes.map Element.id).length := by
    rw [List.length_map]
    exact (List.getElem?_eq_some_iff.mp he).1
  have hi : i = i' := (List.getElem?_inj hlt hnodup).mp (by
    rw [List.getElem?_map, List.getElem?_map, he, he']
    exact congrArg some hid)
  rw [hi, hn'] at hn
  rw [Option.some.inj hn]

theorem nodup_rails {left right : String} {rails : List (Element α)}
    (h : List.Forall₂ IsLine ["guide-left-" ++ left, "guide-right-" ++ right] rails)
    (hlength : left.length = right.length) : (rails.map Element.id).Nodup := by
  have hne : "guide-left-" ++ left ≠ "guide-right-" ++ right := by
    intro heq
    have hprefix := (append_inj_of_length heq hlength).1
    revert hprefix
    decide
  refine nodup_map_of_forall₂ (f := fun id => id) h (by simpa using hne) ?_
  intro id _ id' _ e e' he he' hid
  rw [← he.id, ← he'.id, hid]

/-- Stubs are told apart by what they lead to, rails by their names. -/
theorem Complete.nodup_scaffolding (h : p.Complete g layers ids) (hg : g.nodeIds.Nodup)
    (hnodes : (p.nodes.map Element.id).Nodup)
    (hlength : ∀ mark ∈ (ids.advance (g.nodes.length + g.edges.length)).shortIds
      (if hasRails g layers then 2 else 0), mark.length = 9) :
    (p.stubs.map Element.id).Nodup ∧ (p.rails.map Element.id).Nodup := by
  have hscaffolding := h.scaffolding
  split at hscaffolding
  · next hhas =>
    rw [if_pos hhas] at hlength
    obtain ⟨hstubs, hrails⟩ := hscaffolding
    constructor
    · have htrunk : ((g.nodes.filter fun n => !n.isOffTrunk).map (·.id)).Nodup :=
        hg.sublist (List.filter_sublist.map _)
      refine nodup_map_of_forall₂ hstubs htrunk ?_
      rintro n - n' - stub stub' ⟨e, he, hleads⟩ ⟨e', he', hleads'⟩ hid
      exact he.id_inj he' hnodes (Leads.id_inj hleads hleads' hid)
    · have hleft := hlength _ List.mem_cons_self
      have hright := hlength _ (List.mem_cons_of_mem _ List.mem_cons_self)
      exact nodup_rails hrails (hleft.trans hright.symm)
  · simp [hscaffolding.1, hscaffolding.2]

/-- Ids of different parts begin with different letters. -/
theorem Complete.nodup_all (h : p.Complete g layers ids)
    (hnodes : (p.nodes.map Element.id).Nodup) (hstubs : (p.stubs.map Element.id).Nodup)
    (harrows : (p.arrows.map Element.id).Nodup) (hrails : (p.rails.map Element.id).Nodup) :
    (p.all.map Element.id).Nodup := by
  have hall : p.all.map Element.id = [p.nodes.map Element.id, p.stubs.map Element.id,
      p.arrows.map Element.id, p.rails.map Element.id].flatten := by
    simp [all]
  rw [hall, List.nodup_flatten]
  constructor
  · simp [hnodes, hstubs, harrows, hrails]
  · have hn := h.initial_nodes
    have hc := h.initial_stubs
    have ha := h.initial_arrows
    have hr := h.initial_rails
    simp only [List.pairwise_cons, List.forall_mem_cons, List.Pairwise.nil, List.not_mem_nil,
      false_imp_iff, implies_true, and_true]
    exact ⟨⟨disjoint_of_initial hn hc (by decide), disjoint_of_initial hn ha (by decide),
      disjoint_of_initial hn hr (by decide)⟩, ⟨disjoint_of_initial hc ha (by decide),
      disjoint_of_initial hc hr (by decide)⟩, disjoint_of_initial ha hr (by decide)⟩

/-- The parts of a drawing begin their ids with different letters, and within a part the marks or
the shapes tell them apart. -/
theorem Complete.nodup_ids (h : p.Complete g layers ids) (hg : g.nodeIds.Nodup)
    (hlength : ∀ mark ∈ ids.shortIds (markCount g layers), mark.length = 9)
    (hnodup : (ids.shortIds (markCount g layers)).Nodup) : (p.all.map Element.id).Nodup := by
  rw [markCount, ids.shortIds_add, ids.shortIds_add] at hlength hnodup
  obtain ⟨hmarks, -, -⟩ := List.nodup_append.mp hnodup
  obtain ⟨hmarks, hmarks', -⟩ := List.nodup_append.mp hmarks
  rw [List.forall_mem_append, List.forall_mem_append] at hlength
  obtain ⟨⟨hlength, hlength'⟩, hlength''⟩ := hlength
  have hnodes : (p.nodes.map Element.id).Nodup := by
    refine nodup_of_marks h.nodes hlength hmarks (ids.length_shortIds _).le ?_
    exact fun m e hm => ⟨_, hm.id⟩
  have harrows : (p.arrows.map Element.id).Nodup := by
    refine nodup_of_marks h.arrows hlength' hmarks' (IdSupply.length_shortIds _ _).le ?_
    exact fun m e ⟨_, _, _, _, hm⟩ => ⟨_, hm.id⟩
  obtain ⟨hstubs, hrails⟩ := h.nodup_scaffolding hg hnodes hlength''
  exact h.nodup_all hnodes hstubs harrows hrails

end Parts

/-! ## What is drawn -/

variable {g : Graph} {ids : IdSupply} {V : Element α → Prop} {drawn drawn' : Entries (Element α)}

/-- The nodes of a graph are drawn, in their order. -/
structure DrawnNodes (V : Element α → Prop) (g : Graph) (ids : IdSupply)
    (drawn : Entries (Element α)) : Prop where
  keys : drawn.keys = g.nodeIds
  nodes : List.Forall₂ (fun m entry => Draws m.1 m.2 entry.2 ∧ V entry.2)
    (g.nodes.zip (ids.shortIds g.nodes.length)) drawn

/-- What is found under the id of a node stands for it. -/
theorem DrawnNodes.standsFor (h : DrawnNodes V g ids drawn)
    {p : Parts α} (hp : p.nodes = drawn.map (·.2)) {id : String} {e : Element α}
    (he : Entries.get? id drawn = some e) : p.StandsFor g id e := by
  obtain ⟨i, hi⟩ := List.mem_iff_getElem?.mp (Entries.mem_of_get? he)
  have hkey : g.nodeIds[i]? = some id := by
    rw [← h.keys, Entries.keys, List.getElem?_map, hi]
    rfl
  rw [Graph.nodeIds, List.getElem?_map, Option.map_eq_some_iff] at hkey
  obtain ⟨n, hn, hid⟩ := hkey
  refine ⟨i, n, hn, hid, ?_⟩
  rw [hp, List.getElem?_map, hi]
  rfl

/-- The edges of a graph are drawn between these nodes, in their order. -/
def DrawnArrows (V : Element α → Prop) (g : Graph) (ids : IdSupply) (drawn : Entries (Element α))
    (arrows : List (Element α)) : Prop :=
  List.Forall₂ (fun m e => (∃ source target, Entries.get? m.1.source drawn = some source ∧
      Entries.get? m.1.target drawn = some target ∧ Joins m.1 m.2 source.id target.id e) ∧ V e)
    (g.edges.zip (ids.shortIds g.edges.length)) arrows

/-- Stubs and rails are drawn beside these nodes, where an outline has several levels. -/
def DrawnLines (V : Element α → Prop) (g : Graph) (layers : Nat) (ids : IdSupply)
    (drawn : Entries (Element α)) (lines : List (Element α) × List (Element α)) : Prop :=
  if Parts.hasRails g layers then
    List.Forall₂ (fun n stub => ∃ e, Entries.get? n.id drawn = some e ∧
        Leads (fun id e => IsLine id e ∧ V e) e stub)
      (g.nodes.filter fun n => !n.isOffTrunk) lines.1 ∧
    List.Forall₂ (fun id e => IsLine id e ∧ V e)
      ["guide-left-" ++ ids.shortId, "guide-right-" ++ ids.next.shortId] lines.2
  else lines.1 = [] ∧ lines.2 = []

/-- The shapes of the trunk. -/
theorem forall₂_trunkOf (h : DrawnNodes V g ids drawn) :
    List.Forall₂ (fun n e => Entries.get? n.id drawn = some e)
      (g.nodes.filter fun n => !n.isOffTrunk) (trunkOf g drawn) := by
  have hkeys : ∀ n ∈ g.nodes.filter fun n => !n.isOffTrunk, n.id ∈ drawn.keys := fun n hn =>
    h.keys ▸ List.mem_map_of_mem (List.mem_of_mem_filter hn)
  unfold trunkOf
  generalize g.nodes.filter (fun n => !n.isOffTrunk) = nodes at hkeys
  induction nodes with
  | nil => exact .nil
  | cons n rest ih =>
    rw [List.forall_mem_cons] at hkeys
    obtain ⟨e, he⟩ := Entries.exists_get?_of_mem_keys hkeys.1
    rw [List.filterMap_cons, he]
    exact .cons he (ih hkeys.2)

/-- The parts that are drawn of a graph are complete. -/
theorem complete_of_drawn {arrows stubs rails : List (Element α)} {layers : Nat}
    (h : DrawnNodes V g ids drawn)
    (harrows : DrawnArrows V g (ids.advance g.nodes.length) drawn arrows)
    (hlines : DrawnLines V g layers (ids.advance (g.nodes.length + g.edges.length)) drawn
      (stubs, rails)) :
    (Parts.mk (drawn.map (·.2)) stubs arrows rails).Complete g layers ids := by
  refine ⟨?_, ?_, ?_⟩
  · exact List.forall₂_map_right_iff.mpr (h.nodes.imp fun m entry hm => hm.1)
  · refine harrows.imp fun m e ⟨⟨source, target, hsource, htarget, hjoins⟩, _⟩ => ?_
    exact ⟨source, target, h.standsFor rfl hsource, h.standsFor rfl htarget, hjoins⟩
  · unfold DrawnLines at hlines
    split at hlines
    · next hhas =>
      rw [if_pos hhas]
      refine ⟨hlines.1.imp fun n stub ⟨e, he, hleads⟩ => ?_, hlines.2.imp fun _ _ h => h.1⟩
      exact ⟨e, h.standsFor rfl he, hleads.imp (fun h => h.1) fun h => h.1⟩
    · next hhas =>
      rw [if_neg hhas]
      exact hlines

theorem forall_of_drawn {arrows stubs rails : List (Element α)} {layers : Nat}
    {ids' ids'' : IdSupply} (h : DrawnNodes V g ids drawn)
    (harrows : DrawnArrows V g ids' drawn arrows)
    (hlines : DrawnLines V g layers ids'' drawn (stubs, rails)) :
    ∀ e ∈ (Parts.mk (drawn.map (·.2)) stubs arrows rails).all, V e := by
  have hnodes : ∀ e ∈ drawn.map (·.2), V e := by
    intro e he
    obtain ⟨entry, hentry, rfl⟩ := List.mem_map.mp he
    obtain ⟨m, -, hm⟩ := exists_of_mem_right h.nodes hentry
    exact hm.2
  have harrow : ∀ e ∈ arrows, V e := by
    intro e he
    obtain ⟨m, -, hm⟩ := exists_of_mem_right harrows he
    exact hm.2
  have hline : (∀ e ∈ stubs, V e) ∧ ∀ e ∈ rails, V e := by
    unfold DrawnLines at hlines
    split at hlines
    · constructor
      · intro e he
        obtain ⟨n, -, shape, -, hleads⟩ := exists_of_mem_right hlines.1 he
        exact hleads.elim (fun h => h.2) fun h => h.2
      · intro e he
        obtain ⟨id, -, hid⟩ := exists_of_mem_right hlines.2 he
        exact hid.2
    · obtain ⟨rfl, rfl⟩ : stubs = [] ∧ rails = [] := hlines
      simp
  simp only [Parts.all, List.forall_mem_append]
  exact ⟨⟨⟨hnodes, hline.1⟩, harrow⟩, hline.2⟩

variable [Scalar α] {style : DrawingStyle α} {l : Layout α}

/-- A property that all elements have when they are drawn and keep when they are moved. -/
structure Keeps (V : Element α → Prop) (style : DrawingStyle α) (g : Graph) : Prop where
  node : ∀ {origin : Point α} {place : Place α} {n : Node} {mark : String} {e : Element α},
    place.Sized → nodeElement style origin g.isOutline place n mark = .ok e → V e
  edge : ∀ {before : List Edge} {edge : Edge} {source target : Element α} {mark : String}
    {e : Element α},
    edgeElement edge source target (curveOf style g before edge) mark = .ok e → V e
  line : ∀ {id : String} {p : Point α} {dx dy : α} {color : String} {stroke : α} {e : Element α},
    line id p dx dy color stroke = .ok e → V e
  moved : ∀ {e e' : Element α}, V e → Moved e e' → V e'

theorem meets_drawnNodes (hV : Keeps V style g) (hl : l.Covers g) (hg : g.nodeIds.Nodup)
    (hfill : ∀ n ∈ g.nodes, HexOrAbsent n) (ids : IdSupply) (origin : Point α) :
    MeetsDraft α (fun drawn ids' => ids' = ids.advance g.nodes.length ∧ DrawnNodes V g ids drawn)
      (nodeElements style origin g.isOutline l.places g.nodes [] ids) := by
  have hnodup : (Entries.keys ([] : Entries (Element α)) ++ g.nodes.map (·.id)).Nodup := hg
  have hplaces : ∀ n ∈ g.nodes, n.id ∈ l.places.keys := fun n hn =>
    hl.place _ (List.mem_map_of_mem hn)
  refine (meets_nodeElements (P := fun n mark e => Draws n mark e ∧ V e) ids hplaces hnodup
    fun n hn place hplace mark => ?_).mono ?_
  · refine (meets_nodeElement style origin g.isOutline place (hfill n hn) mark).and fun e he => ?_
    exact hV.node (hl.sized _ (Entries.mem_of_get? hplace)) he
  · rintro _ ⟨hids, made, rfl, hkeys, hmade⟩
    exact ⟨hids, hkeys, hmade⟩

theorem DrawnNodes.alike (hV : Keeps V style g)
    (h : DrawnNodes V g ids drawn) (halike : Entries.Alike Moved drawn drawn') :
    DrawnNodes V g ids drawn' := by
  refine ⟨halike.keys_eq.trans h.keys, forall₂_comp ?_ h.nodes halike⟩
  rintro m entry entry' ⟨hdraws, hv⟩ ⟨-, hmoved⟩
  exact ⟨hdraws.moved hmoved, hV.moved hv hmoved⟩

theorem trunkOf_ne_nil (h : DrawnNodes V g ids drawn) (hl : l.Covers g)
    (hhas : Parts.hasRails g l.layers.length = true) : trunkOf g drawn ≠ [] := by
  obtain ⟨houtline, hlayers⟩ := Bool.and_eq_true_iff.mp hhas
  have hlayers : l.layers ≠ [] := by
    rintro hnil
    rw [hnil] at hlayers
    cases hlayers
  obtain ⟨n, hn, hoff⟩ := hl.trunk houtline hlayers
  have hmem : n ∈ g.nodes.filter fun n => !n.isOffTrunk :=
    List.mem_filter.mpr ⟨hn, by simp [hoff]⟩
  intro hnil
  have htrunk := forall₂_trunkOf h
  rw [hnil, List.forall₂_nil_right_iff] at htrunk
  rw [htrunk] at hmem
  cases hmem

theorem meets_scaffolding (hV : Keeps V style g) (hl : l.Covers g) (h : DrawnNodes V g ids drawn)
    (ids' : IdSupply) :
    MeetsDraft α (fun lines _ => DrawnLines V g l.layers.length ids' drawn lines)
      (scaffolding g l.layers.length drawn ids') := by
  have hline : ∀ id p dx dy color stroke, Meets α (fun e : Element α => IsLine id e ∧ V e)
      (line id p dx dy color stroke) := fun id p dx dy color stroke =>
    (meets_line id p dx dy color stroke).and fun e he => hV.line he
  have heq : scaffolding g l.layers.length drawn ids' =
      if Parts.hasRails g l.layers.length then rails (trunkOf g drawn) ids'
      else (.ok ([], []), ids') := rfl
  unfold DrawnLines
  rw [heq]
  by_cases hhas : Parts.hasRails g l.layers.length = true
  · simp only [if_pos hhas]
    refine (meets_rails hline (trunkOf_ne_nil h hl hhas) ids').mono fun v hv => ⟨?_, hv.2⟩
    exact forall₂_comp (fun n e stub he hstub => ⟨e, he, hstub⟩) (forall₂_trunkOf h) hv.1
  · simp only [if_neg hhas]
    exact ⟨rfl, rfl⟩

theorem meets_arrows (hV : Keeps V style g) (hg : g.WellFormed) (h : DrawnNodes V g ids drawn)
    (ids' : IdSupply) :
    MeetsDraft α (fun arrows ids'' => ids'' = ids'.advance g.edges.length ∧
      DrawnArrows V g ids' drawn arrows) (arrowsAfter style g drawn [] g.edges ids') := by
  refine meets_arrowsAfter (P := fun edge mark e => (∃ source target,
    Entries.get? edge.source drawn = some source ∧ Entries.get? edge.target drawn = some target ∧
      Joins edge mark source.id target.id e) ∧ V e) ids' ?_ ?_
  · intro e he
    rw [h.keys]
    exact ⟨hg.source_mem e he, hg.target_mem e he⟩
  · intro edge _ source target hsource htarget before mark
    refine ((meets_edgeElement edge source target _ mark).and fun e he => hV.edge he).mono ?_
    exact fun e he => ⟨⟨source, target, hsource, htarget, he.1⟩, he.2⟩

/-- The parts that are drawn of a graph. Its layers are packed once all nodes are drawn, and all
else is drawn around the packed nodes. -/
structure DrawnParts (V : Element α → Prop) (style : DrawingStyle α) (g : Graph) (l : Layout α)
    (ids : IdSupply) (origin : Point α) (drawn packed : Entries (Element α)) (p : Parts α) :
    Prop where
  before : DrawnNodes V g ids drawn
  pack : packLayers style origin g.direction l.layers.length 0 l.layers drawn = .ok packed
  after : DrawnNodes V g ids packed
  nodes : p.nodes = packed.map (·.2)
  complete : p.Complete g l.layers.length ids
  all : ∀ e ∈ p.all, V e

theorem meets_drawnParts (hV : Keeps V style g) (hl : l.Covers g) (hg : g.WellFormed)
    (hfill : ∀ n ∈ g.nodes, HexOrAbsent n) (ids : IdSupply) (origin : Point α) :
    Meets α (fun es => ∃ drawn packed p, DrawnParts V style g l ids origin drawn packed p ∧
        es = Element.renumbered p.all)
      (ofLayout ids g l origin style).1 := by
  refine MeetsDraft.andThen (R := fun es _ => ∃ drawn packed p,
    DrawnParts V style g l ids origin drawn packed p ∧ es = Element.renumbered p.all)
    (meets_drawnNodes hV hl hg.nodup hfill ids origin) ?_
  rintro drawn _ ⟨rfl, hdrawn⟩
  have hkeys : ∀ id ∈ l.layers.flatten, id ∈ drawn.keys := fun id hid =>
    hdrawn.keys ▸ hl.layer id hid
  obtain ⟨packed, hpacked, halike⟩ := alike_packLayers hkeys style origin g.direction
    l.layers.length 0
  have hnodes : DrawnNodes V g ids packed := hdrawn.alike hV halike
  rw [hpacked]
  refine MeetsDraft.andThen (d := arrowsAfter style g packed [] g.edges _)
    (meets_arrows hV hg hnodes _) ?_
  rintro arrows _ ⟨rfl, harrows⟩
  refine (meets_scaffolding hV hl hnodes _).andThen ?_
  rintro ⟨stubs, rails⟩ _ hlines
  have hparts := forall_of_drawn hnodes harrows hlines
  rw [ids.advance_advance] at hlines
  have hcomplete := complete_of_drawn hnodes harrows hlines
  exact ⟨drawn, packed, _, ⟨hdrawn, hpacked, hnodes, rfl, hcomplete, hparts⟩, rfl⟩

/-- What is drawn of a well-formed graph, whatever the numbers. -/
theorem meets_ofLayout (hV : Keeps V style g) (hl : l.Covers g) (hg : g.WellFormed)
    (hfill : ∀ n ∈ g.nodes, HexOrAbsent n) (ids : IdSupply) (origin : Point α) :
    Meets α (fun es => ∃ p : Parts α, es = Element.renumbered p.all ∧
        p.Complete g l.layers.length ids ∧ ∀ e ∈ p.all, V e)
      (ofLayout ids g l origin style).1 :=
  (meets_drawnParts hV hl hg hfill ids origin).mono
    fun _ ⟨_, _, p, hp, hes⟩ => ⟨p, hes, hp.complete, hp.all⟩

/-- The drawing of a valid graph whose colors can be read is complete: for each node a shape, for
each edge an arrow that is bound to the shapes of its ends, and with that nothing but the stubs and
rails of an outline. It breaks off only at a number out of range, which unbounded numbers never
are. -/
theorem complete_ofLayout {spacing : Spacing α} (hne : g.nodes ≠ [])
    (hvalid : ∀ f ∈ g.findings, f.severity ≠ .error) (hfill : ∀ n ∈ g.nodes, HexOrAbsent n)
    (hl : Layout.choose g spacing = .ok l)
    (hlength : ∀ mark ∈ ids.shortIds (Parts.markCount g l.layers.length), mark.length = 9)
    (hnodup : (ids.shortIds (Parts.markCount g l.layers.length)).Nodup) (origin : Point α)
    (style : DrawingStyle α) :
    (∃ es, (ofLayout ids g l origin style).1 = .ok es ∧
      (∃ p : Parts α, es = p.all ∧ p.Complete g l.layers.length ids) ∧
      (∀ (i : Nat) (e : Element α), es[i]? = some e → e.zIndex = i) ∧
      (es.map Element.id).Nodup) ∨
    ¬ UnboundedScalar α ∧ ∃ e, (ofLayout ids g l origin style).1 = .error e ∧ e.IsNumeric := by
  have hg : g.WellFormed := (Graph.wellFormed_iff_findings hne).mpr hvalid
  have hV : Keeps (fun _ : Element α => True) style g :=
    ⟨fun _ _ => trivial, fun _ => trivial, fun _ => trivial, fun _ _ => trivial⟩
  have hdrawn := meets_ofLayout hV (Layout.covers_of_choose hg hne hl) hg hfill ids origin
  cases hout : (ofLayout ids g l origin style).1 with
  | ok es =>
    rw [hout] at hdrawn
    obtain ⟨p, rfl, hp, -⟩ := hdrawn
    refine .inl ⟨_, rfl, ⟨p.numbered, p.all_numbered.symm, hp.numbered⟩, ?_, ?_⟩
    · exact fun i e he => zIndex_renumbered he
    · rw [← p.all_numbered]
      exact hp.numbered.nodup_ids hg.nodup hlength hnodup
  | error e =>
    rw [hout] at hdrawn
    exact .inr ⟨hdrawn.2, e, rfl, hdrawn.1⟩

/-- An outline of two levels with a decision, parallel edges and a loop, one of whose ids holds
another one. -/
theorem complete_ofLayout_outline :
    let g : Graph :=
      { nodes := [{ Node.bare "a" with level := some 0 },
          { Node.bare "a-a" with level := some 1, fill := some "#FB7185" },
          { Node.bare "d" with level := some 1, shape := .diamond, fill := some "" }]
        edges := [⟨"a", "a-a", "", .arrow⟩, ⟨"a", "a-a", "again", .dotted⟩,
          ⟨"d", "d", "", .thick⟩] }
    ∃ l : Layout ℝ, Layout.choose g Layout.defaultSpacing = .ok l ∧
      ∃ es, (ofLayout .counting g l ⟨100, 100⟩ .initial).1 = .ok es ∧
        (∃ p : Parts ℝ, es = p.all ∧ p.Complete g l.layers.length .counting) ∧
        (∀ (i : Nat) (e : Element ℝ), es[i]? = some e → e.zIndex = i) ∧
        (es.map Element.id).Nodup := by
  intro g
  have hne : g.nodes ≠ [] := List.cons_ne_nil _ _
  have hvalid : ∀ f ∈ g.findings, f.severity ≠ .error := by decide
  have hα : UnboundedScalar ℝ := Scalar.unboundedScalar_ofField
  obtain ⟨l, hl⟩ := Layout.exists_choose hα.holdsInt
    ((Graph.wellFormed_iff_findings hne).mpr hvalid) hne (Layout.defaultSpacing : Spacing ℝ)
  let marks := IdSupply.counting.shortIds (Parts.markCount g l.layers.length)
  have hmarks : (∀ mark ∈ marks, mark.length = 9) ∧ marks.Nodup := by
    unfold marks Parts.markCount
    split <;> decide
  have hfill : ∀ n ∈ g.nodes, HexOrAbsent n := by decide
  refine ⟨l, hl, ?_⟩
  exact (complete_ofLayout hne hvalid hfill hl hmarks.1 hmarks.2 ⟨100, 100⟩ .initial).resolve_right
    fun h => h.1 hα

/-- Nothing is drawn of a graph whose first node is on a level beyond all numbers. -/
theorem ofLayout_of_outOfRange {n : Node} {rest : List Node} {place : Place α}
    (hnodes : g.nodes = n :: rest) (hplace : Entries.get? n.id l.places = some place)
    (h : Scalar.holdsInt α n.depth = false) (ids : IdSupply) (origin : Point α)
    (style : DrawingStyle α) :
    (ofLayout ids g l origin style).1 = .error (.layout .outOfRange) := by
  rw [ofLayout, hnodes, nodeElements, hplace]
  dsimp only
  rw [nodeElement_of_outOfRange h]
  rfl

/-- With doubles nothing is drawn of a graph one of whose levels is beyond all of them. -/
theorem exists_not_complete :
    let deep : Node := { id := "a", label := "a", level := some (Nat.pow 10 400) }
    let g : Graph := { nodes := [deep, .bare "b"] }
    g.nodes ≠ [] ∧ (∀ f ∈ g.findings, f.severity ≠ .error) ∧ (∀ n ∈ g.nodes, HexOrAbsent n) ∧
      (∀ mark ∈ IdSupply.counting.shortIds 2, mark.length = 9) ∧
      (IdSupply.counting.shortIds 2).Nodup ∧
      ∃ l : Layout Double, Layout.choose g Layout.defaultSpacing = .ok l ∧
        Parts.markCount g l.layers.length = 2 ∧
        (ofLayout .counting g l ⟨100, 100⟩ .initial).1 = .error (.layout .outOfRange) := by
  intro deep g
  have hne : g.nodes ≠ [] := List.cons_ne_nil _ _
  have hvalid : ∀ f ∈ g.findings, f.severity ≠ .error := by decide
  refine ⟨hne, hvalid, by decide, by decide, by decide, ?_⟩
  have hg : g.WellFormed := (Graph.wellFormed_iff_findings hne).mpr hvalid
  obtain ⟨l, hl, -⟩ := Layout.exists_layered hg hne (Layout.defaultSpacing : Spacing Double)
  have hchoose : Layout.choose g Layout.defaultSpacing = .ok l := hl
  obtain ⟨place, hplace⟩ := Entries.exists_get?_of_mem_keys
    ((Layout.covers_of_choose hg hne hchoose).place "a" (by decide))
  have hrange : Scalar.holdsInt Double deep.depth = false := by decide +kernel
  exact ⟨l, hchoose, rfl, ofLayout_of_outOfRange (n := deep) rfl hplace hrange _ _ _⟩

end Whiteboard.Drawing
