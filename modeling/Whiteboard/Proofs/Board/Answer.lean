import Mathlib
import Whiteboard.Proofs.Board.Attachment
import Whiteboard.Proofs.Document.Stepwise
import Whiteboard.Proofs.Document.Supply

/-!
# What becomes of elements

With exact numbers, a batch that arrows follow makes of each element what its own changes make of
it, and lays the arrows that are bound to what moved where they are bound (`Board.exists_answers`).
It is taken if all changes are, and if the curves of these arrows are in range
(`Board.updateAll_ok`).
-/

namespace Whiteboard

variable {α : Type}

namespace Element

/-! ## Elements of a batch -/

section Draws

variable [Scalar α] {changesOf : Element α → Option (Changes α)} {s s' t : IdSupply}
  {es es' : List (Element α)}

/-- What the changes for an element make of it, where ids come from a supply. -/
inductive Draws (s : IdSupply) (changesOf : Element α → Option (Changes α)) (e : Element α) :
    Element α → Prop where
  | stays : changesOf e = none → Draws s changesOf e e
  | takes {x : Element α} {changes : Changes α} {s' t : IdSupply} : changesOf e = some changes →
      s.Leads s' → e.apply s' changes = (.ok x, t) → Draws s changesOf e x

theorem Draws.took {e x : Element α} (h : Draws s changesOf e x) : Took changesOf e x := by
  cases h with
  | stays hnone => exact .none hnone
  | takes hchanges _ happly => exact .some hchanges happly

theorem Draws.of_leads {e x : Element α} (h : Draws s' changesOf e x) (hs : s.Leads s') :
    Draws s changesOf e x := by
  cases h with
  | stays hnone => exact .stays hnone
  | takes hchanges hs' happly => exact .takes hchanges (hs.trans hs') happly

theorem Draws.eq_of_none {e x : Element α} (h : Draws s changesOf e x)
    (hnone : changesOf e = none) : x = e := by
  cases h with
  | stays => rfl
  | takes hchanges =>
    rw [hnone] at hchanges
    contradiction

theorem Draws.exists_apply {e x : Element α} {changes : Changes α} (h : Draws s changesOf e x)
    (hchanges : changesOf e = some changes) :
    ∃ s' t, s.Leads s' ∧ e.apply s' changes = (.ok x, t) := by
  cases h with
  | stays hnone =>
    rw [hnone] at hchanges
    contradiction
  | @takes _ _ s' t hsome hs happly =>
    rw [hsome] at hchanges
    cases hchanges
    exact ⟨s', t, hs, happly⟩

/-- Where no two elements share an id, what becomes of an element depends on which it is. -/
theorem exists_map_of_applyEach (hids : (es.map Element.id).Nodup)
    (h : applyEach changesOf s es = (none, es', t)) :
    ∃ own, es' = es.map own ∧ ∀ e ∈ es, Draws s changesOf e (own e) := by
  induction es generalizing s es' with
  | nil =>
    cases h
    exact ⟨fun e => e, rfl, nofun⟩
  | cons e rest ih =>
    rw [List.map_cons, List.nodup_cons] at hids
    -- the first element is told from the rest by its id
    have hcons {x : Element α} {rest' : List (Element α)} {s' : IdSupply} (hs : s.Leads s')
        (hx : Draws s changesOf e x) (hrest : applyEach changesOf s' rest = (none, rest', t)) :
        ∃ own, x :: rest' = (e :: rest).map own ∧
          ∀ e' ∈ e :: rest, Draws s changesOf e' (own e') := by
      obtain ⟨own, rfl, hown⟩ := ih hids.2 hrest
      have hother : ∀ e' ∈ rest, e'.id ≠ e.id := fun e' he' heq =>
        hids.1 (heq ▸ List.mem_map_of_mem he')
      refine ⟨fun e' => if e'.id = e.id then x else own e', ?_, List.forall_mem_cons.mpr ⟨?_, ?_⟩⟩
      · rw [List.map_cons, if_pos rfl]
        exact congrArg _ (List.map_congr_left fun e' he' => (if_neg (hother e' he')).symm)
      · dsimp only
        rwa [if_pos rfl]
      · intro e' he'
        dsimp only
        rw [if_neg (hother e' he')]
        exact (hown e' he').of_leads hs
    rw [applyEach] at h
    split at h
    · next hnone =>
      rcases hrest : applyEach changesOf s rest with ⟨failure, rest', t'⟩
      rw [hrest] at h
      cases h
      exact hcons (.refl s) (.stays hnone) hrest
    · next changes hchanges =>
      have hs := leads_apply s e changes
      split at h
      · cases h
      · next x s' happly =>
        rw [happly] at hs
        rcases hrest : applyEach changesOf s' rest with ⟨failure, rest', t'⟩
        rw [hrest] at h
        cases h
        exact hcons hs (.takes hchanges (.refl s) happly) hrest

/-- Where no element refuses, whatever ids are drawn before, all are changed. -/
theorem exists_applyEach (h : ∀ e ∈ es, ∀ changes ∈ changesOf e, ∀ s', s.Leads s' →
      ∃ x t, e.apply s' changes = (.ok x, t)) :
    ∃ es' t, applyEach changesOf s es = (none, es', t) := by
  induction es generalizing s with
  | nil => exact ⟨[], s, rfl⟩
  | cons e rest ih =>
    obtain ⟨he, hrest⟩ := List.forall_mem_cons.mp h
    rw [applyEach]
    cases hchanges : changesOf e with
    | none =>
      obtain ⟨rest', t, hrest'⟩ := ih hrest
      exact ⟨e :: rest', t, by simp only [hrest']⟩
    | some changes =>
      obtain ⟨x, s', happly⟩ := he changes hchanges s (.refl s)
      have hs := leads_apply s e changes
      rw [happly] at hs
      obtain ⟨rest', t, hrest'⟩ := ih fun e' he' changes' hchanges' s'' hs'' =>
        hrest e' he' changes' hchanges' s'' (hs.trans hs'')
      exact ⟨x :: rest', t, by simp only [happly, hrest']⟩

end Draws

end Element

/-! ## Boards -/

namespace Board

open Element

/-- A batch that names elements of a board, each once and no arrow, and keeps their kinds; no two
elements share an id, and no arrow is bound to an arrow. -/
structure Addresses (b : Board α) (batch : Batch α) : Prop where
  ids : (b.elements.map Element.id).Nodup
  spared : Element.SparesArrows b.elements
  keys : (Entries.keys batch).Nodup
  named : ∀ id ∈ Entries.keys batch, id ∈ b.elements.map Element.id
  kinds : batch.SparesArrows b.elements

variable {b c : Board α} {batch : Batch α} {own : Element α → Element α}

theorem Addresses.changesOf_eq_none (h : b.Addresses batch) {e : Element α} (he : e ∈ b.elements)
    (harrow : e.isArrow = true) : batch.changesOf e = none := by
  rw [Option.eq_none_iff_forall_ne_some]
  intro changes hchanges
  have hspared := (h.kinds e he changes hchanges).1
  rw [harrow] at hspared
  contradiction

section Answers

variable [Scalar α]

/-- What a batch makes of each element of a board before arrows follow; the curves of those that
will follow are in range. -/
structure Answers (b : Board α) (batch : Batch α) (own : Element α → Element α) : Prop where
  own : ∀ e ∈ b.elements, Draws b.ids batch.changesOf e (own e)
  flexible : ∀ e ∈ b.elements, e.rebinds batch.movedIds false = true → e.Flexible

/-- What a batch makes of an element in the end. -/
def answer (b : Board α) (batch : Batch α) (own : Element α → Element α) (e : Element α) :
    Element α :=
  (own e).trailing batch.movedIds (b.elements.map own)

section Own

variable (h : b.Addresses batch) (hown : ∀ e ∈ b.elements, Draws b.ids batch.changesOf e (own e))

include h hown

theorem own_of_arrow {e : Element α} (he : e ∈ b.elements) (harrow : e.isArrow = true) :
    own e = e := (hown e he).eq_of_none (h.changesOf_eq_none he harrow)

theorem isArrow_own {e : Element α} (he : e ∈ b.elements) : (own e).isArrow = e.isArrow := by
  cases harrow : e.isArrow with
  | true => rw [own_of_arrow h hown he harrow, harrow]
  | false =>
    refine Bool.eq_false_iff.mpr fun htrue => ?_
    have heq := ((alike_of_took h.kinds he (hown e he).took).1 htrue).1
    rw [heq, harrow] at htrue
    contradiction

omit h in
theorem map_id_own : (b.elements.map own).map Element.id = b.elements.map Element.id := by
  rw [List.map_map]
  exact List.map_congr_left fun e he => (hown e he).took.id_eq

theorem not_has_own : ∀ t ∈ b.elements.map own, t.isArrow = true →
    ¬ Entries.has t.id batch = true := by
  intro t ht harrow
  obtain ⟨e, he, rfl⟩ := List.mem_map.mp ht
  rw [isArrow_own h hown he] at harrow
  have hnone : Entries.get? e.id batch = none := h.changesOf_eq_none he harrow
  rw [own_of_arrow h hown he harrow, Entries.has, hnone]
  exact Bool.false_ne_true

/-- Just the arrows that are there follow. -/
theorem flexible_own_iff : (∀ t ∈ b.elements.map own,
      t.rebinds batch.movedIds false = true → t.Flexible) ↔
    ∀ e ∈ b.elements, e.rebinds batch.movedIds false = true → e.Flexible := by
  rw [List.forall_mem_map]
  refine forall₂_congr fun e he => ?_
  cases harrow : e.isArrow with
  | true => rw [own_of_arrow h hown he harrow]
  | false =>
    have harrow' := (isArrow_own h hown he).trans harrow
    rw [rebinds_of_not_arrow harrow, rebinds_of_not_arrow harrow']
    exact ⟨fun _ => nofun, fun _ => nofun⟩

theorem answer_of_not_arrow {e : Element α} (he : e ∈ b.elements) (harrow : e.isArrow = false) :
    b.answer batch own e = own e :=
  trailing_of_not_arrow ((isArrow_own h hown he).trans harrow)

theorem answer_of_arrow {e : Element α} (he : e ∈ b.elements) (harrow : e.isArrow = true) :
    b.answer batch own e = e.trailing batch.movedIds (b.elements.map own) := by
  rw [answer, own_of_arrow h hown he harrow]

omit h in
theorem id_answer {e : Element α} (he : e ∈ b.elements) : (b.answer batch own e).id = e.id := by
  rw [answer, id_trailing, (hown e he).took.id_eq]

omit h in
theorem map_id_answer :
    (b.elements.map (b.answer batch own)).map Element.id = b.elements.map Element.id := by
  rw [List.map_map]
  exact List.map_congr_left fun e he => id_answer hown he

theorem rebinds_answer {e : Element α} (he : e ∈ b.elements) (moved : List String) :
    (b.answer batch own e).rebinds moved false = e.rebinds moved false := by
  cases harrow : e.isArrow with
  | true => rw [answer_of_arrow h hown he harrow, rebinds_trailing]
  | false =>
    rw [answer_of_not_arrow h hown he harrow, rebinds_of_not_arrow harrow,
      rebinds_of_not_arrow ((isArrow_own h hown he).trans harrow)]

theorem flexible_answer_iff {e : Element α} (he : e ∈ b.elements) (harrow : e.isArrow = true) :
    (b.answer batch own e).Flexible ↔ e.Flexible := by
  rw [answer_of_arrow h hown he harrow]
  exact (same_trailing batch.movedIds _ e).2.2

end Own

/-- Once a batch was applied arrows follow. -/
theorem exists_applied {es : List (Element α)} {t : IdSupply} (hne : batch.isEmpty = false)
    (happly : applyEach batch.changesOf b.ids b.elements = (none, es, t)) :
    ∃ c : Board α, c.elements = es ∧ c.ids = t ∧ b.updateAll batch true
      = (c.followBatch batch).andThen fun _ d => (.ok (), d.changed) := by
  refine ⟨{ b.withElements es with ids := t }, rfl, rfl, ?_⟩
  rw [updateAll, hne, applyBatch, happly]
  rfl

theorem ids_changed (c : Board α) : c.changed.ids = c.ids := by
  unfold changed commit notify
  split <;> rfl

theorem flexible_of_followBatch (hids : (c.elements.map Element.id).Nodup)
    (hunnamed : ∀ t ∈ c.elements, t.isArrow = true → ¬ Entries.has t.id batch = true)
    (hok : (c.followBatch batch).1 = .ok ()) :
    ∀ e ∈ c.elements, e.rebinds batch.movedIds false = true → e.Flexible := by
  intro e he hr
  obtain ⟨g, hg⟩ := Option.isSome_iff_exists.mp ((isSome_rebound? e c.elements).trans hr)
  have hchanges := changesOf_followed hids hunnamed e he
  rw [hg, Option.map_some] at hchanges
  unfold followBatch applyBatch at hok
  dsimp only at hok
  rcases happly : applyEach (Batch.changesOf ((rebindings batch.movedIds c.elements false).filter
    fun m => !Entries.has m.1 batch)) c.ids c.elements with ⟨failure, es, ids⟩
  rw [happly] at hok
  cases failure with
  | some err => cases hok
  | none =>
    obtain ⟨own, -, hown⟩ := exists_map_of_applyEach hids happly
    obtain ⟨_, _, -, happly⟩ := (hown e he).exists_apply hchanges
    exact flexible_of_apply hg happly

end Answers

/-! ## Batches that are taken -/

section Exact

variable [Field α] [LinearOrder α] [FloorRing α] [Trigonometry α] [IsStrictOrderedRing α]

/-- Arrows follow a batch that names none of them if their curves are in range. -/
theorem followBatch_eq (hids : (c.elements.map Element.id).Nodup)
    (hunnamed : ∀ t ∈ c.elements, t.isArrow = true → ¬ Entries.has t.id batch = true)
    (hflexible : ∀ e ∈ c.elements, e.rebinds batch.movedIds false = true → e.Flexible) :
    c.followBatch batch
      = (.ok (), c.withElements (c.elements.map (Element.trailing batch.movedIds c.elements))) := by
  have hturns : ∀ e ∈ c.elements, Turns (Batch.changesOf
      ((rebindings batch.movedIds c.elements false).filter fun m => !Entries.has m.1 batch))
      (Element.trailing batch.movedIds c.elements) e := by
    intro e he
    unfold Turns
    rw [changesOf_followed hids hunnamed e he]
    cases hg : e.rebound? batch.movedIds c.elements false with
    | none => exact trailing_of_eq_none hg
    | some g =>
      have hr : e.rebinds batch.movedIds false = true := by
        rw [← isSome_rebound? e c.elements, hg, Option.isSome_some]
      exact apply_trailing hg (hflexible e he hr)
  unfold followBatch applyBatch
  dsimp only
  rw [applyEach_eq_map hturns]
  rfl

/-- A batch after which no arrow has to follow. -/
theorem exists_updateAll_of_unmoved {es : List (Element α)} {t : IdSupply}
    (hne : batch.isEmpty = false) (hmoved : batch.movedIds = [])
    (happly : applyEach batch.changesOf b.ids b.elements = (none, es, t)) :
    ∃ c, b.updateAll batch true = (.ok (), c) ∧ c.elements = es ∧ c.ids = t := by
  obtain ⟨c, hes, hids, hupdate⟩ := exists_applied hne happly
  have hfollow : c.followBatch batch = (.ok (), c) := by
    have hidle : applyEach (Batch.changesOf ([] : Batch α)) c.ids c.elements
        = (none, c.elements, c.ids) := applyEach_of_none fun _ _ => rfl
    rw [followBatch, hmoved]
    dsimp only
    rw [rebindings_nil, List.filter_nil, applyBatch, hidle]
    rfl
  rw [hupdate, hfollow]
  exact ⟨c.changed, rfl, (elements_changed c).trans hes, (ids_changed c).trans hids⟩

/-- A batch is taken if all changes are, whatever ids were drawn before, and arrows can follow. -/
theorem updateAll_ok (h : b.Addresses batch)
    (htaken : ∀ e ∈ b.elements, ∀ changes ∈ batch.changesOf e, ∀ s, b.ids.Leads s →
      ∃ x t, e.apply s changes = (.ok x, t))
    (hflexible : ∀ e ∈ b.elements, e.rebinds batch.movedIds false = true → e.Flexible) :
    (b.updateAll batch true).1 = .ok () := by
  cases hbatch : batch.isEmpty with
  | true => rw [updateAll, if_pos hbatch]
  | false =>
    obtain ⟨es, t, happly⟩ := exists_applyEach htaken
    obtain ⟨own, rfl, hown⟩ := exists_map_of_applyEach h.ids happly
    obtain ⟨c, hes, -, hupdate⟩ := exists_applied hbatch happly
    have hids : (c.elements.map Element.id).Nodup := by
      rw [hes, map_id_own hown]
      exact h.ids
    rw [hupdate, followBatch_eq hids (hes ▸ not_has_own h hown)
      (hes ▸ (flexible_own_iff h hown).mpr hflexible)]
    rfl

/-- What became of the elements where a batch was taken. -/
theorem exists_answers (h : b.Addresses batch) (hok : (b.updateAll batch true).1 = .ok ()) :
    ∃ own, b.Answers batch own ∧
      (b.updateAll batch true).2.elements = b.elements.map (b.answer batch own) ∧
      ∃ es t, applyEach batch.changesOf b.ids b.elements = (none, es, t) ∧
        (b.updateAll batch true).2.ids = t := by
  cases hbatch : batch.isEmpty with
  | true =>
    rw [List.isEmpty_iff] at hbatch
    subst hbatch
    have hidle (e : Element α) : Batch.changesOf [] e = none := rfl
    have hstay (e : Element α) : e.rebinds (Batch.movedIds (α := α) []) false = false :=
      rebinds_nil e
    refine ⟨fun e => e, ⟨fun e _ => .stays (hidle e), fun e _ hr => ?_⟩, ?_,
      b.elements, b.ids, applyEach_of_none fun e _ => hidle e, rfl⟩
    · rw [hstay e] at hr
      contradiction
    · refine (List.map_id'' (fun e => ?_) b.elements).symm
      exact trailing_of_not_rebinds (hstay e)
  | false =>
    rcases happly : applyEach batch.changesOf b.ids b.elements with ⟨failure, es, t⟩
    cases failure with
    | some err =>
      rw [updateAll, hbatch, applyBatch, happly] at hok
      cases hok
    | none =>
      obtain ⟨own, rfl, hown⟩ := exists_map_of_applyEach h.ids happly
      obtain ⟨c, hes, hsupply, hupdate⟩ := exists_applied hbatch happly
      have hids : (c.elements.map Element.id).Nodup := by
        rw [hes, map_id_own hown]
        exact h.ids
      have hunnamed : ∀ e ∈ c.elements, e.isArrow = true → ¬ Entries.has e.id batch = true :=
        hes ▸ not_has_own h hown
      have hfollowed : (c.followBatch batch).1 = .ok () := by
        rw [hupdate] at hok
        rcases hfollow : c.followBatch batch with ⟨err | _, d⟩
        · rw [hfollow] at hok
          cases hok
        · rfl
      have hflexible := flexible_of_followBatch hids hunnamed hfollowed
      rw [hupdate, followBatch_eq hids hunnamed hflexible]
      rw [hes, flexible_own_iff h hown] at hflexible
      refine ⟨own, ⟨hown, hflexible⟩, ?_, _, t, rfl, ?_⟩
      · refine (elements_changed _).trans ?_
        rw [hes]
        exact List.map_map
      · exact (ids_changed _).trans hsupply

end Exact

end Board

end Whiteboard
