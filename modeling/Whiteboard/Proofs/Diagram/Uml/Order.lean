import Whiteboard.Proofs.Diagram.Uml.Line
import Whiteboard.Proofs.Diagram.Uml.Symbol

/-!
# Declarations before and behind relations

Lines that add nodes whatever was read before them are taken together (`Uml.Adds`): those of a class
declaration, in each of its layouts, and those of relations, which add bare nodes for their ends at
once. Of the nodes with an id the first one stays, so a relation that stands before the declaration
of a class takes the members from it. The order of declarations and relations does not matter
exactly if no class with members takes part in a relation (`Uml.parse_orders`).
-/

namespace Whiteboard.Diagram.Uml

variable {lines before behind : List (List Char)} {blocks : List (List (List Char))}
  {line cs gap name space last rest : List Char} {ns ms : List Node} {e : Edge} {es : List Edge}
  {d : String × List String} {ds : List (String × List String)} {c : Char} {id : String}
  {members : List String} {p : Progress}

/-! ## Lines that add nodes -/

/-- Lines outside of class blocks that add nodes in turn, whatever was read before them. -/
def Adds (lines : List (List Char)) (ns : List Node) : Prop :=
  ∀ p : Progress, p.openClass = none → (lines.foldl readLine p).openClass = none ∧
    (lines.foldl readLine p).graph.nodes = (ns.foldl Graph.addNode p.graph).nodes

namespace Adds

theorem nil : Adds [] [] := fun _ hp => ⟨hp, rfl⟩

theorem append (h : Adds before ns) (h' : Adds behind ms) : Adds (before ++ behind) (ns ++ ms) := by
  intro p hp
  obtain ⟨hclosed, hnodes⟩ := h p hp
  obtain ⟨hclosed', hnodes'⟩ := h' _ hclosed
  rw [List.foldl_append, List.foldl_append]
  exact ⟨hclosed', hnodes'.trans (Graph.nodes_foldl_addNode_congr hnodes ms)⟩

/-- A source of such lines is read, and shows the first of the nodes with an id. -/
theorem exists_parse {s : String} (h : Adds (statements (Text.lines s.toList)) ns) (hne : ns ≠ []) :
    ∃ g : Graph, parse (some s) = .ok g ∧ g.WellFormed ∧
      ∀ id, g.node? id = ns.find? (·.id == id) := by
  have hread : (readLines (Text.lines s.toList)).nodes = (ns.foldl Graph.addNode {}).nodes := by
    obtain ⟨hclosed, hnodes⟩ := h {} rfl
    rw [readLines_eq, readAll, closeClass_of_none hclosed]
    exact hnodes
  have hlookup : ∀ id, (readLines (Text.lines s.toList)).node? id = ns.find? (·.id == id) := by
    intro id
    have hfold := Graph.node?_foldl_addNode {} ns id
    rwa [Graph.node?, ← hread] at hfold
  refine ⟨_, parse_of_ne_nil ?_, wellFormed_readLines _, hlookup⟩
  obtain ⟨n, ns, rfl⟩ := List.exists_cons_of_ne_nil hne
  have hfirst : (readLines (Text.lines s.toList)).node? n.id = some n := by
    rw [hlookup, List.find?_cons, beq_self_eq_true]
  exact List.ne_nil_of_mem (List.mem_of_find?_eq_some hfirst)

end Adds

/-! ## Relations -/

/-- The ids that edges join. -/
def endIds (es : List Edge) : List String := es.flatMap fun e => [e.source, e.target]

theorem Joins.adds (h : Joins line e) : Adds [line] [.bare e.source, .bare e.target] := by
  intro p hp
  have hread : [line].foldl readLine p = p.addEdge e := by
    rw [List.foldl_cons, List.foldl_nil, readLine, hp]
    exact h.readStatement p
  rw [hread]
  exact ⟨hp, rfl⟩

theorem adds_of_joins (h : List.Forall₂ Joins lines es) :
    Adds lines ((endIds es).map Node.bare) := by
  induction h with
  | nil => exact .nil
  | cons hline _ ih => exact hline.adds.append ih

/-! ## Class declarations -/

/-- The head of a class declaration, with what stands behind the name. -/
def classText (gap name rest : List Char) : List Char := "class".toList ++ (gap ++ (name ++ rest))

/-- A member, unless the text is empty. -/
def memberOf (cs : List Char) : List String := if cs.isEmpty then [] else [String.ofList cs]

/-- Blanks and a word, as they stand behind the keyword of a class declaration. -/
structure IsHead (gap name : List Char) : Prop where
  ne_nil : gap ≠ []
  blank : ∀ c ∈ gap, Text.isBlank c = true
  word : IsWord name

/-- The lines of a class declaration, with the name and the members of the class. It has no block, a
block on its line, or one of several lines, where members may stand beside the braces. -/
inductive Declares : List (List Char) → String × List String → Prop where
  | bare {gap name : List Char} : IsHead gap name →
      Declares [classText gap name []] (String.ofList name, [])
  | inline {gap name space body after : List Char} : IsHead gap name →
      (∀ c ∈ space, Text.isBlank c = true) → '}' ∉ body →
      Declares [classText gap name (space ++ '{' :: (body ++ '}' :: after))]
        (String.ofList name, inlineMembers body)
  | block {gap name space first last after : List Char} {lines : List (List Char)} :
      IsHead gap name → (∀ c ∈ space, Text.isBlank c = true) → '}' ∉ first →
      (∀ line ∈ lines, '}' ∉ line) → '}' ∉ last →
      Declares (classText gap name (space ++ '{' :: first) :: (lines ++ [last ++ '}' :: after]))
        (String.ofList name,
          memberOf (Text.trimLeft first) ++ lines.map String.ofList ++ memberOf (Text.trim last))

/-- The node of a class. -/
def classNode (d : String × List String) : Node := { id := d.1, label := classLabel d.1 d.2 }

/-- A class is labelled by its name exactly if it has no members. -/
theorem classLabel_eq_iff : classLabel id members = id ↔ members = [] := by
  cases members with
  | nil => simp [classLabel]
  | cons member members =>
    refine iff_of_false (fun heq => ?_) (List.cons_ne_nil _ _)
    obtain ⟨shown, hshown⟩ : ∃ shown, classLabel id (member :: members)
        = id ++ "\n" ++ "\n".intercalate (member :: shown) := by
      rw [classLabel]
      split
      · exact ⟨members.take 2 ++ ["..."], String.intercalate_cons_cons⟩
      · exact ⟨members.take 2, String.intercalate_cons_cons⟩
    rw [hshown, String.append_assoc] at heq
    have hlength := congrArg String.length heq
    rw [String.length_append, String.length_append] at hlength
    have hfeed : "\n".length = 1 := rfl
    omega

theorem classNode_nil (name : String) : classNode (name, []) = .bare name := by
  rw [classNode, Node.bare, classLabel_eq_iff.mpr rfl]

theorem splitMembers_ne_nil (cs : List Char) : splitMembers cs ≠ [] := by
  fun_cases splitMembers cs <;> exact List.cons_ne_nil _ _

theorem inlineMembers_cons_of_blank (hc : Text.isBlank c = true) (cs : List Char) :
    inlineMembers (c :: cs) = inlineMembers cs := by
  rw [inlineMembers, inlineMembers, splitMembers]
  split
  · rfl
  · split
    · next hnil => exact absurd hnil (splitMembers_ne_nil cs)
    · next part more heq =>
      rw [heq, List.map_cons, List.map_cons, Text.trim_cons_of_blank hc]

/-- Blanks before the members do not matter. -/
theorem inlineMembers_trimLeft (body : List Char) :
    inlineMembers (Text.trimLeft body) = inlineMembers body := by
  induction body with
  | nil => rfl
  | cons c body ih =>
    cases hc : Text.isBlank c with
    | true => rw [Text.trimLeft_cons_of_blank hc, ih, inlineMembers_cons_of_blank hc]
    | false => rw [Text.trimLeft_cons hc]

namespace IsHead

theorem classHead?_classText (h : IsHead gap name)
    (hrest : ∀ c ∈ rest.head?, Text.isWord c = false) :
    classHead? (classText gap name rest) = some (String.ofList name,
      (Text.dropWord? ['{'] (Text.trimLeft rest)).map Text.trimLeft) := by
  obtain ⟨hgap, hblank, hname⟩ := h
  have hword : Text.dropWord? "class".toList (classText gap name rest)
      = some (gap ++ (name ++ rest)) := Text.dropWord?_append_self _ _
  have hhead : ∀ c ∈ (name ++ rest).head?, Text.isBlank c = false := by
    obtain ⟨c, hc, hblank⟩ := hname.head
    rw [List.head?_append, hc]
    rintro d ⟨⟩
    exact hblank
  have hspan : Text.span Text.isWord (name ++ rest) = (name, rest) :=
    Text.span_append hname.2 hrest
  obtain ⟨n, ns, rfl⟩ := List.exists_cons_of_ne_nil hname.1
  unfold classHead?
  rw [hword, Option.bind_some, Text.dropBlanks?_append hgap hblank hhead]
  dsimp only
  rw [hspan]
  dsimp only
  split
  · next body heq =>
    have hbrace : Text.dropWord? ['{'] ('{' :: body) = some body :=
      Text.dropWord?_append_self ['{'] body
    rw [heq, hbrace, Option.map_some]
  · next hnot =>
    have hbrace : ∀ d ∈ (Text.trimLeft rest).head?, d ≠ '{' := by
      rintro d hd rfl
      obtain ⟨body, hbody⟩ := List.head?_eq_some_iff.mp hd
      exact hnot body hbody
    rw [Text.dropWord?_eq_none_of_head hbrace, Option.map_none]

theorem readLine_bare (h : IsHead gap name) (hp : p.openClass = none) :
    readLine p (classText gap name []) = p.addNode (.bare (String.ofList name)) := by
  have hnil : ∀ c ∈ ([] : List Char).head?, Text.isWord c = false := nofun
  have hnone : Text.dropWord? ['{'] (Text.trimLeft []) = none := rfl
  rw [readLine, hp]
  simp only [readStatement, h.classHead?_classText hnil, hnone, Option.map_none, readClass]

theorem readLine_brace (h : IsHead gap name) (hspace : ∀ c ∈ space, Text.isBlank c = true)
    (rest : List Char) (hp : p.openClass = none) :
    readLine p (classText gap name (space ++ '{' :: rest))
      = readClass p (String.ofList name) (some (Text.trimLeft rest)) := by
  have hrest : ∀ c ∈ (space ++ '{' :: rest).head?, Text.isWord c = false := by
    cases space with
    | nil =>
      rintro d ⟨⟩
      decide
    | cons c space =>
      rintro d ⟨⟩
      exact Text.isWord_of_isBlank (hspace c List.mem_cons_self)
  have hbrace : Text.dropWord? ['{'] (Text.trimLeft (space ++ '{' :: rest)) = some rest := by
    rw [Text.trimLeft_append hspace, Text.trimLeft_cons (by decide)]
    exact Text.dropWord?_append_self ['{'] rest
  rw [readLine, hp]
  simp only [readStatement, h.classHead?_classText hrest, hbrace, Option.map_some]

end IsHead

/-! ## Blocks -/

theorem not_mem_trimLeft (h : c ∉ cs) : c ∉ Text.trimLeft cs :=
  fun hmem => h ((List.dropWhile_suffix _).subset hmem)

theorem cutAt?_brace_of_not_mem (h : '}' ∉ cs) : Text.cutAt? ['}'] cs = none := by
  refine Option.eq_none_iff_forall_ne_some.mpr fun (before, after) hcut => h ?_
  rw [Text.cutAt?_eq_some hcut]
  simp

theorem cutAt?_brace (h : '}' ∉ cs) (after : List Char) :
    Text.cutAt? ['}'] (cs ++ '}' :: after) = some (cs, after) := by
  have hcut : Text.cutAt? ['}'] (cs ++ ['}'] ++ after) = some (cs, after) :=
    Text.cutAt?_of_not_mem h after
  rwa [List.append_assoc] at hcut

/-- Lines without a brace in an open block are members. -/
theorem foldl_readLine_of_open {name : String} (hp : p.openClass = some (name, members))
    (h : ∀ line ∈ lines, '}' ∉ line) : lines.foldl readLine p
      = { p with openClass := some (name, members ++ lines.map String.ofList) } := by
  induction lines generalizing p members with
  | nil =>
    rw [List.map_nil, List.append_nil, ← hp]
    rfl
  | cons line lines ih =>
    rw [List.forall_mem_cons] at h
    have hline : readLine p line
        = { p with openClass := some (name, members ++ [String.ofList line]) } := by
      rw [readLine, hp]
      simp only [Progress.addMember, cutAt?_brace_of_not_mem h.1]
    rw [List.foldl_cons, hline, ih rfl h.2, List.map_cons, ← List.append_cons]

/-- The line that ends an open block. -/
theorem readLine_of_open {name : String} (hp : p.openClass = some (name, members))
    (hlast : '}' ∉ last) (after : List Char) : readLine p (last ++ '}' :: after)
      = { graph := p.graph.addNode (classNode (name, members ++ memberOf (Text.trim last))) } := by
  rw [readLine, hp]
  simp only [Progress.addMember, cutAt?_brace hlast, memberOf]
  split <;> simp [Progress.closeClass, classNode]

theorem Declares.foldl_readLine (h : Declares lines d) (hp : p.openClass = none) :
    lines.foldl readLine p = p.addNode (classNode d) := by
  cases h with
  | bare hhead => rw [classNode_nil, List.foldl_cons, List.foldl_nil, hhead.readLine_bare hp]
  | inline hhead hspace hbody =>
    have hmem := not_mem_trimLeft hbody
    rw [List.foldl_cons, List.foldl_nil, hhead.readLine_brace hspace _ hp,
      Text.trimLeft_append_cons (by decide)]
    simp only [readClass, cutAt?_brace hmem, inlineMembers_trimLeft, classNode]
  | @block gap name space first last after lines hhead hspace hfirst hlines hlast =>
    have hmem := not_mem_trimLeft hfirst
    have hopen : readLine p (classText gap name (space ++ '{' :: first)) = { p with
        openClass := some (String.ofList name, memberOf (Text.trimLeft first)) } := by
      rw [hhead.readLine_brace hspace _ hp]
      simp only [readClass, cutAt?_brace_of_not_mem hmem, memberOf]
    rw [List.foldl_cons, hopen, List.foldl_append, foldl_readLine_of_open rfl hlines,
      List.foldl_cons, List.foldl_nil, readLine_of_open rfl hlast, Progress.addNode, hp]

theorem Declares.adds (h : Declares lines d) : Adds lines [classNode d] := by
  intro p hp
  rw [h.foldl_readLine hp]
  exact ⟨hp, rfl⟩

theorem adds_of_declares (h : List.Forall₂ Declares blocks ds) :
    Adds blocks.flatten (ds.map classNode) := by
  induction h with
  | nil => exact .nil
  | cons hblock _ ih => exact hblock.adds.append ih

/-! ## Both orders -/

/-- The bare node of an id that edges join. -/
def joinedNode? (es : List Edge) (id : String) : Option Node :=
  if id ∈ endIds es then some (.bare id) else none

/-- The node of the class with a name. -/
def declaredNode? (ds : List (String × List String)) (id : String) : Option Node :=
  (ds.find? (·.1 == id)).map classNode

theorem find?_map_bare (ids : List String) (id : String) :
    (ids.map Node.bare).find? (·.id == id) = if id ∈ ids then some (.bare id) else none := by
  induction ids with
  | nil => rfl
  | cons i ids ih =>
    rw [List.map_cons, List.find?_cons, ih]
    by_cases hid : i = id
    · subst hid
      simp [Node.bare]
    · have hfalse : ((Node.bare i).id == id) = false := beq_false_of_ne hid
      simp [hfalse, Ne.symm hid]

theorem find?_map_classNode (ds : List (String × List String)) (id : String) :
    (ds.map classNode).find? (·.id == id) = declaredNode? ds id := by
  rw [List.find?_map]
  rfl

theorem declaredNode?_of_mem (hnodup : (ds.map Prod.fst).Nodup) (hd : d ∈ ds) :
    declaredNode? ds d.1 = some (classNode d) := by
  have hids : (ds.map classNode).map Node.id = ds.map Prod.fst := by
    rw [List.map_map]
    rfl
  have hmem : classNode d ∈ ds.map classNode := List.mem_map_of_mem hd
  have hlookup := Graph.node?_of_mem (g := { nodes := ds.map classNode })
    (by rwa [Graph.nodeIds, hids]) hmem
  rw [← find?_map_classNode]
  exact hlookup

/-- It does not matter whether edges or declarations name an id first, if no class with members has
an edge. -/
theorem joinedNode?_or_comm (h : ∀ d ∈ ds, d.1 ∈ endIds es → d.2 = []) (id : String) :
    (joinedNode? es id).or (declaredNode? ds id)
      = (declaredNode? ds id).or (joinedNode? es id) := by
  cases hfind : ds.find? (·.1 == id) with
  | none => rw [declaredNode?, hfind, Option.map_none, Option.none_or, Option.or_none]
  | some d =>
    obtain ⟨name, members⟩ := d
    have hid : name = id := by simpa using List.find?_some hfind
    subst hid
    by_cases hend : name ∈ endIds es
    · have hnone : members = [] := h _ (List.mem_of_find?_eq_some hfind) hend
      subst hnone
      rw [declaredNode?, hfind, Option.map_some, classNode_nil, joinedNode?, if_pos hend]
    · rw [joinedNode?, if_neg hend, Option.none_or, Option.or_none]

/-- Class declarations may stand before or behind relations exactly if no class with members takes
part in a relation. In front of a declaration, a relation takes the members from the class. -/
theorem parse_orders (hrels : List.Forall₂ Joins lines es)
    (hdecls : List.Forall₂ Declares blocks ds) (hnodup : (ds.map Prod.fst).Nodup)
    (hne : lines ≠ [] ∨ blocks ≠ []) {s t : String}
    (hs : statements (Text.lines s.toList) = lines ++ blocks.flatten)
    (ht : statements (Text.lines t.toList) = blocks.flatten ++ lines) :
    ∃ g h : Graph, parse (some s) = .ok g ∧ parse (some t) = .ok h ∧
      (∀ id, id ∈ g.nodeIds ↔ id ∈ h.nodeIds) ∧
      (∀ id, g.node? id = (joinedNode? es id).or (declaredNode? ds id)) ∧
      (∀ id, h.node? id = (declaredNode? ds id).or (joinedNode? es id)) ∧
      ((∀ n ∈ g.nodes, ∀ m ∈ h.nodes, n.id = m.id → n.label = m.label ∧ n.shape = m.shape) ↔
        ∀ d ∈ ds, d.1 ∈ endIds es → d.2 = []) := by
  have hjoined := adds_of_joins hrels
  have hdeclared := adds_of_declares hdecls
  have hempty : (endIds es).map Node.bare = [] → lines = [] := by
    intro hnil
    cases hrels with
    | nil => rfl
    | cons _ _ => cases hnil
  have hempty' : ds.map classNode = [] → blocks = [] := by
    intro hnil
    cases hdecls with
    | nil => rfl
    | cons _ _ => cases hnil
  have hnodes : ¬ ((endIds es).map Node.bare = [] ∧ ds.map classNode = []) := by
    rintro ⟨hnil, hnil'⟩
    exact hne.elim (· (hempty hnil)) (· (hempty' hnil'))
  obtain ⟨g, hg, hwf, hlookup⟩ := (hs ▸ hjoined.append hdeclared).exists_parse (s := s)
    (mt List.append_eq_nil_iff.mp hnodes)
  obtain ⟨h, hh, hwf', hlookup'⟩ := (ht ▸ hdeclared.append hjoined).exists_parse (s := t)
    (mt List.append_eq_nil_iff.mp (mt And.symm hnodes))
  have hfirst : ∀ id, g.node? id = (joinedNode? es id).or (declaredNode? ds id) := by
    intro id
    rw [hlookup, List.find?_append, find?_map_bare, find?_map_classNode, joinedNode?]
  have hfirst' : ∀ id, h.node? id = (declaredNode? ds id).or (joinedNode? es id) := by
    intro id
    rw [hlookup', List.find?_append, find?_map_bare, find?_map_classNode, joinedNode?]
  refine ⟨g, h, hg, hh, fun id => ?_, hfirst, hfirst', ?_, ?_⟩
  · rw [← Graph.hasNode_iff, ← Graph.hasNode_iff, Graph.hasNode, Graph.hasNode, hfirst, hfirst',
      Option.isSome_or, Option.isSome_or, Bool.or_comm]
  · intro hlook d hd hend
    have hn : g.node? d.1 = some (.bare d.1) := by
      rw [hfirst, joinedNode?, if_pos hend, Option.some_or]
    have hm : h.node? d.1 = some (classNode d) := by
      rw [hfirst', declaredNode?_of_mem hnodup hd, Option.some_or]
    have hlabel := (hlook _ (List.mem_of_find?_eq_some hn) _ (List.mem_of_find?_eq_some hm) rfl).1
    exact classLabel_eq_iff.mp hlabel.symm
  · intro hnone n hn m hm hid
    have hlookup := Graph.node?_of_mem hwf.nodup hn
    rw [hfirst, joinedNode?_or_comm hnone, ← hfirst', hid, Graph.node?_of_mem hwf'.nodup hm]
      at hlookup
    cases hlookup
    exact ⟨rfl, rfl⟩

/-- A class without members stands in a relation, and one with members does not. -/
theorem parse_orders_apart : ∃ g h : Graph,
    parse (some "Dog --|> Pet\nclass Pet\nclass Toy \x7b\n+name\n\x7d") = .ok g ∧
    parse (some "class Pet\nclass Toy \x7b\n+name\n\x7d\nDog --|> Pet") = .ok h ∧
    (∀ n ∈ g.nodes, ∀ m ∈ h.nodes, n.id = m.id → n.label = m.label ∧ n.shape = m.shape) ∧
    g.node? "Toy" = some { id := "Toy", label := "Toy\n+name" } := by
  have hform : (⟨[.many '-', .one '|', .one '>'], .inheritance, false, false⟩ : RelationForm)
      ∈ relationForms := by simp [relationForms]
  have hwrites : Writes [.many '-', .one '|', .one '>'] "--|>".toList :=
    .many 1 (.one (.one .nil))
  have hdog : IsWord "Dog".toList := by decide
  have hpet : IsWord "Pet".toList := by decide
  have hrel : Joins "Dog --|> Pet".toList { source := "Dog", target := "Pet", kind := .thick } :=
    joins_relationText hform hwrites hdog (by decide) hpet
  have hbare : Declares ["class Pet".toList] ("Pet", []) :=
    .bare ⟨List.cons_ne_nil ' ' [], by decide, hpet⟩
  have htoy : IsWord "Toy".toList := by decide
  have hblock : Declares ["class Toy \x7b".toList, "+name".toList, "\x7d".toList]
      ("Toy", ["+name"]) := .block ⟨List.cons_ne_nil ' ' [], by decide, htoy⟩
    (List.forall_mem_singleton.mpr (by decide)) List.not_mem_nil
    (List.forall_mem_singleton.mpr (by decide)) List.not_mem_nil
  obtain ⟨g, h, hg, hh, -, hfirst, -, hiff⟩ := parse_orders (.cons hrel .nil)
    (.cons hbare (.cons hblock .nil)) (by decide) (.inl (List.cons_ne_nil _ _))
    (s := "Dog --|> Pet\nclass Pet\nclass Toy \x7b\n+name\n\x7d")
    (t := "class Pet\nclass Toy \x7b\n+name\n\x7d\nDog --|> Pet") (by decide) (by decide)
  exact ⟨g, h, hg, hh, hiff.mpr (by decide), (hfirst "Toy").trans (by decide)⟩

/-- A relation before the block takes the member from the class. -/
theorem parse_relation_before_class :
    parse (some "User <|-- Admin\nclass User \x7b\n+name\n\x7d") = .ok {
      nodes := [.bare "Admin", .bare "User"]
      edges := [{ source := "Admin", target := "User", kind := .thick }] } ∧
    parse (some "class User \x7b\n+name\n\x7d\nUser <|-- Admin") = .ok {
      nodes := [{ id := "User", label := "User\n+name" }, .bare "Admin"]
      edges := [{ source := "Admin", target := "User", kind := .thick }] } := by
  constructor
  · decide
  · decide

end Whiteboard.Diagram.Uml
