import Whiteboard.Proofs.Board.Answer

/-!
# Updates one by one

With exact numbers, a batch of updates that arrows follow may be split into two, done one after the
other (`Board.updateAll_append`), and so into single updates, done in any order
(`Board.elements_updateEach`): each element comes of its own changes, and an arrow goes where it is
bound in the end. What may differ are ids that are given to children without one.
-/

namespace Whiteboard

variable {α : Type}

/-! ## Batches -/

namespace Batch

variable {xs ys : Batch α}

theorem changesOf_append (xs ys : Batch α) (e : Element α) :
    (xs ++ ys).changesOf e = (xs.changesOf e).or (ys.changesOf e) :=
  Entries.get?_append e.id xs ys

theorem movedIds_append (xs ys : Batch α) : (xs ++ ys).movedIds = xs.movedIds ++ ys.movedIds := by
  rw [movedIds, List.filter_append, Entries.keys_append, movedIds, movedIds]

theorem changesOf_eq_none_of_nodup (h : (Entries.keys (xs ++ ys)).Nodup) {e : Element α}
    {changes : Changes α} (hchanges : ys.changesOf e = some changes) : xs.changesOf e = none := by
  rw [Entries.keys_append, List.nodup_append] at h
  refine Entries.get?_eq_none_of_forall fun m hm heq => ?_
  exact h.2.2 m.1 (List.mem_map_of_mem hm) e.id (Entries.mem_keys_of_get? hchanges) heq

end Batch

/-- Of two batches that name different elements, only one has changes for an element. -/
theorem Element.Draws.append [Scalar α] {xs ys : Batch α} {s s' : IdSupply} {e x y : Element α}
    (hkeys : (Entries.keys (xs ++ ys)).Nodup) (hs : s.Leads s') (hx : Draws s xs.changesOf e x)
    (hy : Draws s' ys.changesOf x y) : Draws s (xs ++ ys).changesOf e y := by
  have happend := Batch.changesOf_append xs ys e
  cases hx with
  | stays hnone =>
    rw [hnone, Option.none_or] at happend
    cases hy with
    | stays hnone' => exact .stays (happend.trans hnone')
    | takes hchanges hs' happly => exact .takes (happend.trans hchanges) (hs.trans hs') happly
  | takes hchanges hs' happly =>
    have hsame : ys.changesOf x = ys.changesOf e := by
      rw [Batch.changesOf, id_of_apply happly, Batch.changesOf]
    have hidle : ys.changesOf x = none := by
      rw [hsame, Option.eq_none_iff_forall_ne_some]
      intro changes' hchanges'
      rw [Batch.changesOf_eq_none_of_nodup hkeys hchanges'] at hchanges
      contradiction
    rw [hy.eq_of_none hidle]
    exact .takes (by rw [happend, hchanges, Option.some_or]) hs' happly

namespace Board

open Element

variable {b c : Board α} {batch calls : Batch α} {S : Element α → Element α → Prop}
  {xs ys : Batch α} {f g k : Element α → Element α}

/-! ## Another order -/

theorem changesOf_of_perm (h : (Entries.keys batch).Nodup) (hperm : calls.Perm batch) :
    calls.changesOf = batch.changesOf :=
  funext fun _ => Entries.get?_of_perm h hperm

theorem Addresses.of_perm (h : b.Addresses batch) (hperm : calls.Perm batch) :
    b.Addresses calls where
  ids := h.ids
  spared := h.spared
  keys := (hperm.map _).nodup_iff.mpr h.keys
  named id hid := h.named id ((hperm.map _).subset hid)
  kinds e he changes hchanges := h.kinds e he changes (changesOf_of_perm h.keys hperm ▸ hchanges)

theorem updateAll_of_perm [Scalar α] (h : (Entries.keys batch).Nodup) (hperm : calls.Perm batch) :
    b.updateAll calls true = b.updateAll batch true := by
  have hempty : calls.isEmpty = batch.isEmpty := hperm.isEmpty_eq
  have happly : applyBatch calls b = applyBatch batch b := by
    rw [applyBatch, applyBatch, changesOf_of_perm h hperm]
  have hmoved : calls.movedIds.Perm batch.movedIds := (hperm.filter _).map _
  have hhas (id : String) : Entries.has id calls = Entries.has id batch := by
    rw [Entries.has, Entries.has, Entries.get?_of_perm h hperm]
  have hfollow (c : Board α) : c.followBatch calls = c.followBatch batch := by
    simp only [followBatch, rebindings_of_perm hmoved, hhas]
  simp only [updateAll, hempty, happly, hfollow]

/-! ## Ids that are drawn -/

section Drawn

variable [Scalar α]

/-- Whatever ids are drawn, all that the changes of a batch can make of an element is related;
related elements lie in the same box. -/
structure Indifferent (S : Element α → Element α → Prop) (b : Board α) (batch : Batch α) :
    Prop where
  refl : ∀ x, S x x
  trans : ∀ x y z, S x y → S y z → S x z
  box : ∀ x y, S x y → y.frame.box = x.frame.box
  own : ∀ e ∈ b.elements, ∀ x y, Draws b.ids batch.changesOf e x →
    Draws b.ids batch.changesOf e y → S x y

/-- Elements that are the same but for ids that come from the supply. -/
theorem indifferent_sameBut (b : Board α) (batch : Batch α) :
    b.Indifferent (SameBut b.ids) batch where
  refl := .refl b.ids
  trans _ _ _ := .trans
  box _ _ := SameBut.box
  own e _ x y hx hy := by
    cases hx with
    | stays hnone =>
      rw [hy.eq_of_none hnone]
      exact .refl b.ids _
    | takes hchanges hs happly =>
      obtain ⟨s', t, hs', happly'⟩ := hy.exists_apply hchanges
      obtain ⟨y', t', hy', hsame⟩ := apply_of_leads hs hs' happly
      rw [happly'] at hy'
      cases hy'
      exact hsame

/-- Where no id was drawn, elements come out equal. -/
theorem indifferent_eq {es : List (Element α)}
    (happly : applyEach batch.changesOf b.ids b.elements = (none, es, b.ids)) :
    b.Indifferent Eq batch where
  refl _ := rfl
  trans _ _ _ := Eq.trans
  box := by
    rintro x _ rfl
    rfl
  own e he x y hx hy := by
    cases hx with
    | stays hnone => rw [hy.eq_of_none hnone]
    | @takes _ changes s t hchanges hs hx =>
      obtain ⟨s', t', hs', hy⟩ := hy.exists_apply hchanges
      have hidle := idle_of_applyEach happly e he changes hchanges s
      have hsame := apply_of_idle hidle s'
      rw [hx, hy] at hsame
      exact (Except.ok.inj (Prod.ext_iff.mp hsame).1).symm

end Drawn

/-! ## Two batches -/

theorem Addresses.left (h : b.Addresses (xs ++ ys)) : b.Addresses xs where
  ids := h.ids
  spared := h.spared
  keys := (List.nodup_append.mp (Entries.keys_append ▸ h.keys)).1
  named id hid := h.named id (Entries.keys_append ▸ List.mem_append_left _ hid)
  kinds e he changes hchanges := h.kinds e he changes (by
    rw [Batch.changesOf_append, hchanges, Option.some_or]
    rfl)

section Halves

variable [Scalar α] (h : b.Addresses (xs ++ ys))
  (hg : ∀ e ∈ b.elements, Draws b.ids xs.changesOf e (g e))

include h hg

/-- The first batch leaves the elements alone that the second names. -/
theorem answer_of_named {e : Element α} (he : e ∈ b.elements) {changes : Changes α}
    (hchanges : ys.changesOf e = some changes) :
    e.isArrow = false ∧ xs.changesOf e = none ∧ b.answer xs g e = e := by
  have hnone : xs.changesOf e = none := Batch.changesOf_eq_none_of_nodup h.keys hchanges
  have harrow : e.isArrow = false := (h.kinds e he changes (by
    rw [Batch.changesOf_append, hnone, Option.none_or, hchanges]
    rfl)).1
  refine ⟨harrow, hnone, ?_⟩
  rw [answer_of_not_arrow h.left hg he harrow, (hg e he).eq_of_none hnone]

/-- The rest of a batch is for the board that the first part left. -/
theorem Addresses.right (hc : c.elements = b.elements.map (b.answer xs g)) : c.Addresses ys where
  ids := by
    rw [hc, map_id_answer hg]
    exact h.ids
  spared := by
    rw [hc]
    refine h.spared.of_same fun t ht harrow => ?_
    obtain ⟨e, he, rfl⟩ := List.mem_map.mp ht
    cases hkind : e.isArrow with
    | true =>
      have hanswer := answer_of_arrow h.left hg he hkind
      obtain ⟨-, hbindings, -⟩ := same_trailing xs.movedIds (b.elements.map g) e
      exact ⟨e, he, id_answer hg he, hkind, hanswer ▸ hbindings⟩
    | false =>
      rw [answer_of_not_arrow h.left hg he hkind, isArrow_own h.left hg he, hkind] at harrow
      contradiction
  keys := (List.nodup_append.mp (Entries.keys_append ▸ h.keys)).2.1
  named id hid := by
    rw [hc, map_id_answer hg]
    exact h.named id (Entries.keys_append ▸ List.mem_append_right _ hid)
  kinds t ht changes hchanges := by
    obtain ⟨e, he, rfl⟩ := List.mem_map.mp (hc ▸ ht)
    rw [Batch.changesOf, id_answer hg he] at hchanges
    obtain ⟨-, hnone, hanswer⟩ := answer_of_named h hg he hchanges
    rw [hanswer]
    refine h.kinds e he changes ?_
    rw [Batch.changesOf_append, hnone, Option.none_or]
    exact hchanges

theorem Indifferent.right (hS : b.Indifferent S (xs ++ ys))
    (hc : c.elements = b.elements.map (b.answer xs g)) (hs : b.ids.Leads c.ids) :
    c.Indifferent S ys where
  refl := hS.refl
  trans := hS.trans
  box := hS.box
  own t ht x y hx hy := by
    obtain ⟨e, he, rfl⟩ := List.mem_map.mp (hc ▸ ht)
    cases hchanges : ys.changesOf e with
    | none =>
      have hidle : ys.changesOf (b.answer xs g e) = none := by
        rw [Batch.changesOf, id_answer hg he]
        exact hchanges
      rw [hx.eq_of_none hidle, hy.eq_of_none hidle]
      exact hS.refl _
    | some changes =>
      obtain ⟨-, hnone, hanswer⟩ := answer_of_named h hg he hchanges
      rw [hanswer] at hx hy
      exact hS.own e he x y (.append h.keys hs (.stays hnone) hx)
        (.append h.keys hs (.stays hnone) hy)

end Halves

section Append

variable [Field α] [LinearOrder α] [FloorRing α] [Trigonometry α] [IsStrictOrderedRing α]

/-- What becomes of an element when the batch is done in two parts. -/
theorem answer_answer (h : b.Addresses (xs ++ ys))
    (hg : ∀ e ∈ b.elements, Draws b.ids xs.changesOf e (g e)) (hS : b.Indifferent S (xs ++ ys))
    (hf : ∀ e ∈ b.elements, Draws b.ids (xs ++ ys).changesOf e (f e))
    (hc : c.elements = b.elements.map (b.answer xs g)) (hs : b.ids.Leads c.ids)
    (hk : ∀ t ∈ c.elements, Draws c.ids ys.changesOf t (k t)) {e : Element α}
    (he : e ∈ b.elements) :
    S (b.answer (xs ++ ys) f e) (c.answer ys k (b.answer xs g e)) := by
  have hright : c.Addresses ys := h.right hg hc
  have hmem {e : Element α} (he : e ∈ b.elements) : b.answer xs g e ∈ c.elements :=
    hc ▸ List.mem_map_of_mem he
  -- what is no arrow comes of its own changes, which are in one of the parts
  have hown : ∀ e ∈ b.elements, e.isArrow = false → S (f e) (k (b.answer xs g e)) := by
    intro e he harrow
    refine hS.own e he _ _ (hf e he) (.append h.keys hs (hg e he) ?_)
    rw [← answer_of_not_arrow h.left hg he harrow]
    exact hk _ (hmem he)
  cases harrow : e.isArrow with
  | false =>
    have hsame : (b.answer xs g e).isArrow = false := by
      rw [answer_of_not_arrow h.left hg he harrow, isArrow_own h.left hg he, harrow]
    rw [answer_of_not_arrow h hf he harrow, answer_of_not_arrow hright hk (hmem he) hsame]
    exact hown e he harrow
  | true =>
    have hsame : (b.answer xs g e).isArrow = true := by
      rw [answer_of_arrow h.left hg he harrow, (same_trailing xs.movedIds _ e).1, harrow]
    have hidg : ∀ e ∈ b.elements, (g e).id = e.id := fun e he => (hg e he).took.id_eq
    have hidf : ∀ e ∈ b.elements, (f e).id = e.id := fun e he => (hf e he).took.id_eq
    have hidk : ∀ e ∈ b.elements, (k (b.answer xs g e)).id = e.id := fun e he =>
      ((hk _ (hmem he)).took.id_eq).trans (id_answer hg he)
    have htarget {bd : Binding} (hbd : bd ∈ e.bindings) : ∀ t ∈ b.elements, t.id = bd.element →
        t.isArrow = false := fun t ht hid => h.spared e he bd hbd t ht hid
    have hmap : c.elements.map k = b.elements.map fun e => k (b.answer xs g e) := by
      rw [hc, List.map_map]
      rfl
    rw [answer_of_arrow h hf he harrow, answer_of_arrow hright hk (hmem he) hsame,
      answer_of_arrow h.left hg he harrow, hmap, trailing_trailing, ← Batch.movedIds_append,
      trailing_congr]
    · exact hS.refl _
    · intro bd hbd
      exact Binding.place?_map_congr hidf hidk fun t ht hid =>
        (hS.box _ _ (hown t ht (htarget hbd t ht hid))).symm
    · intro bd _ hnone
      rw [Binding.place?_map_eq_none_iff hidk] at hnone
      rwa [Binding.place?_map_eq_none_iff hidg]
    · intro bd hbd hmoved
      refine Binding.place?_map_congr hidg hidk fun t ht hid => ?_
      have halike := (alike_of_took hright.kinds (hmem ht) (hk _ (hmem ht)).took).2
      rw [(hk _ (hmem ht)).took.id_eq, id_answer hg ht, hid] at halike
      rw [(halike hmoved).box, answer_of_not_arrow h.left hg ht (htarget hbd t ht hid)]

/-- A batch that is taken can be done in two parts. -/
theorem updateAll_append (h : b.Addresses (xs ++ ys)) (hS : b.Indifferent S (xs ++ ys))
    (hok : (b.updateAll (xs ++ ys) true).1 = .ok ()) :
    ∃ c, b.updateAll xs true = (.ok (), c) ∧ c.Addresses ys ∧ c.Indifferent S ys ∧
      (c.updateAll ys true).1 = .ok () ∧
      List.Forall₂ S (b.updateAll (xs ++ ys) true).2.elements (c.updateAll ys true).2.elements := by
  obtain ⟨f, ⟨hf, hflexible⟩, helements, -⟩ := exists_answers h hok
  rw [Batch.movedIds_append] at hflexible
  have htaken {e : Element α} (he : e ∈ b.elements) {changes : Changes α}
      (hchanges : (xs ++ ys).changesOf e = some changes) {s : IdSupply} (hs : b.ids.Leads s) :
      ∃ x t, e.apply s changes = (.ok x, t) := by
    obtain ⟨s', t, hs', happly⟩ := (hf e he).exists_apply hchanges
    obtain ⟨x, t', happly', -⟩ := apply_of_leads hs' hs happly
    exact ⟨x, t', happly'⟩
  have hleft : (b.updateAll xs true).1 = .ok () := by
    refine updateAll_ok h.left (fun e he changes hchanges s hs => htaken he ?_ hs) ?_
    · rw [Batch.changesOf_append, hchanges, Option.some_or]
    · exact fun e he hr => hflexible e he (by rw [rebinds_append, hr, Bool.true_or])
  obtain ⟨g, ⟨hg, -⟩, hc, es, t, happly, hsupply⟩ := exists_answers h.left hleft
  have hs : b.ids.Leads (b.updateAll xs true).2.ids := by
    have hleads := leads_applyEach xs.changesOf b.ids b.elements
    rw [happly] at hleads
    rwa [hsupply]
  have hright : (b.updateAll xs true).2.Addresses ys := h.right hg hc
  have hrest : ((b.updateAll xs true).2.updateAll ys true).1 = .ok () := by
    refine updateAll_ok hright ?_ ?_
    · intro t ht changes hchanges s hs'
      obtain ⟨e, he, rfl⟩ := List.mem_map.mp (hc ▸ ht)
      rw [Batch.changesOf, id_answer hg he] at hchanges
      obtain ⟨-, hnone, hanswer⟩ := answer_of_named h hg he hchanges
      rw [hanswer]
      refine htaken he ?_ (hs.trans hs')
      rw [Batch.changesOf_append, hnone, Option.none_or]
      exact hchanges
    · intro t ht hr
      obtain ⟨e, he, rfl⟩ := List.mem_map.mp (hc ▸ ht)
      rw [rebinds_answer h.left hg he] at hr
      rw [flexible_answer_iff h.left hg he (isArrow_of_rebinds hr)]
      exact hflexible e he (by rw [rebinds_append, hr, Bool.or_true])
  obtain ⟨k, ⟨hk, -⟩, hd, -⟩ := exists_answers hright hrest
  refine ⟨(b.updateAll xs true).2, Prod.ext hleft rfl, hright, hS.right h hg hc hs, hrest, ?_⟩
  rw [helements, hd, hc, List.map_map, List.forall₂_map_left_iff, List.forall₂_map_right_iff]
  exact List.forall₂_same.mpr fun e he => answer_answer h hg hS hf hc hs hk he

end Append

/-! ## Single updates -/

section Singles

variable [Scalar α]

/-- The update of an element that is there is a batch for it alone. -/
theorem update_of_updateAll {id : String} {changes : Changes α}
    (hid : id ∈ b.elements.map Element.id)
    (hok : (b.updateAll [(id, changes)] true).1 = .ok ()) :
    ∃ e, b.update id changes true = (.ok (some e), (b.updateAll [(id, changes)] true).2) := by
  unfold updateAll applyBatch at hok ⊢
  unfold update
  rcases happly : applyEach (Batch.changesOf [(id, changes)]) b.ids b.elements with
    ⟨failure, es, ids⟩
  rw [happly] at hok
  cases failure with
  | some err => cases hok
  | none =>
    have hes : id ∈ es.map Element.id := by
      have hmap := map_id_applyEach (Batch.changesOf [(id, changes)]) b.ids b.elements
      rw [happly] at hmap
      rwa [hmap]
    obtain ⟨e, hfind⟩ : ∃ e, es.reverse.find? (fun e => e.id == id) = some e := by
      obtain ⟨e, he, rfl⟩ := List.mem_map.mp hes
      exact Option.isSome_iff_exists.mp
        (List.find?_isSome.mpr ⟨e, List.mem_reverse.mpr he, beq_self_eq_true e.id⟩)
    refine ⟨e, ?_⟩
    have hlast : (({ b.withElements es with ids } : Board α).elements.reverse.find?
        fun e => e.id == id) = some e := hfind
    simp only [hlast]
    rcases hfollow : followBatch [(id, changes)] { b.withElements es with ids } with ⟨err | _, d⟩
    · simp [hfollow, Outcome.andThen] at hok
    · simp [hfollow, Outcome.andThen]

/-- Single updates, one after the other, up to the first that is refused. -/
def updateEach : Batch α → Board α → Outcome α Unit
  | [], b => (.ok (), b)
  | (key, changes) :: rest, b => (b.update key changes true).andThen fun _ b => b.updateEach rest

end Singles

section Exact

variable [Field α] [LinearOrder α] [FloorRing α] [Trigonometry α] [IsStrictOrderedRing α]

/-- A batch that is taken can be done one by one. -/
theorem forall₂_updateEach (h : b.Addresses batch) (hS : b.Indifferent S batch)
    (hok : (b.updateAll batch true).1 = .ok ()) : (b.updateEach batch).1 = .ok () ∧
      List.Forall₂ S (b.updateAll batch true).2.elements (b.updateEach batch).2.elements := by
  induction batch generalizing b with
  | nil =>
    have hstay : (b.updateAll ([] : Batch α) true).2 = b := rfl
    rw [hstay]
    exact ⟨rfl, List.forall₂_same.mpr fun e _ => hS.refl e⟩
  | cons call rest ih =>
    obtain ⟨id, changes⟩ := call
    have hid : id ∈ b.elements.map Element.id := h.named id List.mem_cons_self
    have hsplit : b.Addresses ([(id, changes)] ++ rest) := h
    obtain ⟨c, hc, hrest, hSrest, hokrest, hsame⟩ := updateAll_append hsplit hS hok
    obtain ⟨e, he⟩ := update_of_updateAll hid (congrArg Prod.fst hc)
    rw [hc] at he
    obtain ⟨hdone, hsamerest⟩ := ih hrest hSrest hokrest
    have hstep : b.updateEach ((id, changes) :: rest) = c.updateEach rest := by
      rw [updateEach, he]
      rfl
    rw [hstep]
    exact ⟨hdone, forall₂_comp hS.trans hsame hsamerest⟩

/-- A batch that is taken, and the same updates one by one in any order, yield the same elements.
Only ids that are given to children may differ, and none does where the batch draws none. -/
theorem elements_updateEach (h : b.Addresses batch) (hok : (b.updateAll batch true).1 = .ok ())
    (hcalls : calls.Perm batch) : (b.updateEach calls).1 = .ok () ∧
      List.Forall₂ (SameBut b.ids) (b.updateAll batch true).2.elements
        (b.updateEach calls).2.elements ∧
      ((b.updateAll batch true).2.ids = b.ids →
        (b.updateEach calls).2.elements = (b.updateAll batch true).2.elements) := by
  have hcalls' : b.Addresses calls := h.of_perm hcalls
  rw [← updateAll_of_perm h.keys hcalls] at hok ⊢
  obtain ⟨hdone, hsame⟩ := forall₂_updateEach hcalls' (indifferent_sameBut b calls) hok
  refine ⟨hdone, hsame, fun hids => ?_⟩
  obtain ⟨_, -, -, es, t, happly, hsupply⟩ := exists_answers hcalls' hok
  obtain rfl : b.ids = t := hids.symm.trans hsupply
  obtain ⟨-, heq⟩ := forall₂_updateEach hcalls' (indifferent_eq happly) hok
  exact (List.forall₂_eq_eq_eq ▸ heq :).symm

end Exact

/-- Two rectangles that an arrow joins are moved, the second one first. -/
theorem elements_updateEach_joined :
    let r : Element ℝ := .newShape "r" .rectangle { x := 0, y := 0 }
    let q : Element ℝ := .newShape "q" .rectangle { x := 180, y := 0 }
    let arrow : Element ℝ := .shape (Draft.frame { x := 0, y := 0 } "a" 180 60) .arrow
      { Shape.blankArrow with
        start := some ⟨0, 0⟩
        finish := some ⟨180, 0⟩
        startBinding := some ⟨"r", .topLeft⟩
        finishBinding := some ⟨"q", .topLeft⟩ }
    let b : Board ℝ := Board.start .counting [r, q, arrow] .initial 50
    let batch : Batch ℝ := [("r", [("x", .num 40)]), ("q", [("y", .num 60)])]
    b.Addresses batch ∧ (b.updateAll batch true).1 = .ok () ∧ batch.reverse.Perm batch ∧
      (b.updateEach batch.reverse).1 = .ok () ∧
      List.Forall₂ (SameBut b.ids) (b.updateAll batch true).2.elements
        (b.updateEach batch.reverse).2.elements ∧
      ((b.updateAll batch true).2.ids = b.ids →
        (b.updateEach batch.reverse).2.elements = (b.updateAll batch true).2.elements) := by
  intro r q arrow b batch
  have hes : b.elements = [r, q, arrow] :=
    congrArg Document.elements (Document.settled_eq_self (fun _ => rfl) _)
  have hspare : SparesArrows b.elements := by
    intro a ha bd hbd t ht hid
    simp only [hes, List.mem_cons, List.not_mem_nil, or_false] at ha ht
    rcases ha with rfl | rfl | rfl
    · exact absurd hbd List.not_mem_nil
    · exact absurd hbd List.not_mem_nil
    rcases ht with rfl | rfl | rfl
    · rfl
    · rfl
    · rcases (mem_bindings rfl _).mp hbd with hbd | hbd
      · cases hbd
        exact absurd (show "a" = "r" from hid) (by decide)
      · cases hbd
        exact absurd (show "a" = "q" from hid) (by decide)
  have hkinds : batch.SparesArrows b.elements := by
    have hx : "type" ≠ "x" := by decide
    have hy : "type" ≠ "y" := by decide
    rw [hes]
    refine List.forall_mem_cons.mpr ⟨?_, List.forall_mem_cons.mpr
      ⟨?_, List.forall_mem_singleton.mpr nofun⟩⟩
    · rintro _ ⟨⟩
      exact ⟨rfl, fun v hv => absurd (congrArg Prod.fst (List.mem_singleton.mp hv)) hx⟩
    · rintro _ ⟨⟩
      exact ⟨rfl, fun v hv => absurd (congrArg Prod.fst (List.mem_singleton.mp hv)) hy⟩
  have h : b.Addresses batch := ⟨hes ▸ by decide, hspare, by decide, hes ▸ by decide, hkinds⟩
  have hok : (b.updateAll batch true).1 = .ok () := by
    refine updateAll_ok h ?_ ?_
    · rw [hes]
      refine List.forall_mem_cons.mpr ⟨?_, List.forall_mem_cons.mpr
        ⟨?_, List.forall_mem_singleton.mpr nofun⟩⟩
      · rintro _ ⟨⟩ s -
        obtain ⟨x, hx⟩ := apply_of_places (show r.Valid from valid_newShape ..)
          (Nat.zero_le _) (List.forall_mem_singleton.mpr (.position (.inl rfl))) s
        exact ⟨x, s, hx⟩
      · rintro _ ⟨⟩ s -
        obtain ⟨x, hx⟩ := apply_of_places (show q.Valid from valid_newShape ..)
          (Nat.zero_le _) (List.forall_mem_singleton.mpr (.position (.inr rfl))) s
        exact ⟨x, s, hx⟩
    · rw [hes]
      refine List.forall_mem_cons.mpr ⟨?_, List.forall_mem_cons.mpr
        ⟨?_, List.forall_mem_singleton.mpr ?_⟩⟩
      · exact fun hr => absurd (isArrow_of_rebinds hr) Bool.false_ne_true
      · exact fun hr => absurd (isArrow_of_rebinds hr) Bool.false_ne_true
      · exact fun _ => flexible_arrow.mpr (Shape.valid_of_curve_eq_zero rfl)
  exact ⟨h, hok, List.reverse_perm batch, elements_updateEach h hok (List.reverse_perm batch)⟩

/-- Two groups that are each given a child without an id, the second one first. -/
theorem elements_updateEach_ne :
    let g : Element ℝ := .group (Draft.frame { x := 0, y := 0 } "g" 40 40) []
    let h : Element ℝ := .group (Draft.frame { x := 60, y := 0 } "h" 40 40) []
    let b : Board ℝ := Board.start .counting [g, h] .initial 50
    let inside : Changes ℝ := [("children", .arr [.obj [("type", .str "group")]])]
    let batch : Batch ℝ := [("g", inside), ("h", inside)]
    b.Addresses batch ∧ (b.updateAll batch true).1 = .ok () ∧ batch.reverse.Perm batch ∧
      (b.updateEach batch.reverse).2.elements ≠ (b.updateAll batch true).2.elements := by
  intro g h b inside batch
  have hes : b.elements = [g, h] :=
    congrArg Document.elements (Document.settled_eq_self (fun _ => rfl) _)
  have hframe (d : Draft ℝ) (id : String) : (d.frame id 40 40).Valid := by
    refine Draft.valid_frame _ id ?_ ?_ <;>
    · simp only [Scalar.instOfNat_eq, Nat.cast_zero]
      exact Nat.cast_nonneg _
  have hkey : "type" ≠ "children" := by decide
  have haddresses : b.Addresses batch := by
    refine ⟨hes ▸ by decide, ?_, by decide, hes ▸ by decide, ?_⟩
    · rw [hes]
      refine List.forall_mem_cons.mpr ⟨nofun, List.forall_mem_singleton.mpr nofun⟩
    · rw [hes]
      refine List.forall_mem_cons.mpr ⟨?_, List.forall_mem_singleton.mpr ?_⟩ <;>
      · rintro _ ⟨⟩
        exact ⟨rfl, fun v hv => absurd (congrArg Prod.fst (List.mem_singleton.mp hv)) hkey⟩
  -- each group is given an id for its child from the first or the second place of the supply
  obtain ⟨g₁, hg₁, hgids₁⟩ : ∃ x, g.apply b.ids inside = (.ok x, b.ids.next) ∧
      allIds [x] = ["g", b.ids.elementId] := exists_apply_child (hframe _ _) _
  obtain ⟨h₂, hh₂, -⟩ : ∃ x, h.apply b.ids.next inside = (.ok x, b.ids.next.next) ∧
      allIds [x] = ["h", b.ids.next.elementId] := exists_apply_child (hframe _ _) _
  obtain ⟨h₁, hh₁, -⟩ : ∃ x, h.apply b.ids inside = (.ok x, b.ids.next) ∧
      allIds [x] = ["h", b.ids.elementId] := exists_apply_child (hframe _ _) _
  obtain ⟨g₂, hg₂, hgids₂⟩ : ∃ x, g.apply b.ids.next inside = (.ok x, b.ids.next.next) ∧
      allIds [x] = ["g", b.ids.next.elementId] := exists_apply_child (hframe _ _) _
  have hboth : applyEach batch.changesOf b.ids b.elements = (none, [g₁, h₂], b.ids.next.next) := by
    have hg : batch.changesOf g = some inside := rfl
    have hh : batch.changesOf h = some inside := rfl
    simp only [hes, applyEach, hg, hh, hg₁, hh₂]
  obtain ⟨c, hc, hcs, -⟩ := exists_updateAll_of_unmoved rfl rfl hboth
  have hfirst : applyEach (Batch.changesOf [("h", inside)]) b.ids b.elements
      = (none, [g, h₁], b.ids.next) := by
    have hg : Batch.changesOf [("h", inside)] g = none := rfl
    have hh : Batch.changesOf [("h", inside)] h = some inside := rfl
    simp only [hes, applyEach, hg, hh, hh₁]
  obtain ⟨d, hd, hds, hdids⟩ := exists_updateAll_of_unmoved rfl rfl hfirst
  have hsecond : applyEach (Batch.changesOf [("g", inside)]) d.ids d.elements
      = (none, [g₂, h₁], b.ids.next.next) := by
    have hg : Batch.changesOf [("g", inside)] g = some inside := rfl
    have hh : Batch.changesOf [("g", inside)] h₁ = none := by
      rw [Batch.changesOf, id_of_apply hh₁]
      rfl
    simp only [hds, hdids, applyEach, hg, hh, hg₂]
  obtain ⟨k, hk, hks, -⟩ := exists_updateAll_of_unmoved rfl rfl hsecond
  obtain ⟨x, hx⟩ := update_of_updateAll (hes ▸ by decide) (congrArg Prod.fst hd)
  rw [hd] at hx
  obtain ⟨y, hy⟩ := update_of_updateAll (hds ▸ List.mem_cons_self) (congrArg Prod.fst hk)
  rw [hk] at hy
  have heach : b.updateEach batch.reverse = (.ok (), k) := by
    have hrest : d.updateEach [("g", inside)] = (.ok (), k) := by
      rw [updateEach, hy]
      rfl
    have hcalls : batch.reverse = [("h", inside), ("g", inside)] := rfl
    rw [hcalls, updateEach, hx]
    exact hrest
  refine ⟨haddresses, congrArg Prod.fst hc, List.reverse_perm batch, fun hsame => ?_⟩
  rw [heach, hc, hks, hcs] at hsame
  have hg₁ := (List.cons.inj hsame).1
  rw [← hg₁, hgids₂] at hgids₁
  exact absurd hgids₁ (by decide)

end Board

end Whiteboard
