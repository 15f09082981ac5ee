import Whiteboard.Proofs.Gesture.Aim

/-!
# When frames come

A gesture hears moves of the pointer and frames of the screen. With exact numbers and as long as it
is steady, it leaves the elements that the last of its moves leads to, whenever the frames came
(`Gesture.elements_of_moves`).
-/

namespace Whiteboard

/-- What a gesture hears between its beginning and its release. -/
inductive Gesture.Signal (α : Type) where
  | move (pointer : Point α) (keepRatio : Bool)
  | frame

namespace Gesture

section Runs

variable {α : Type} [Scalar α]

/-- Where the pointer goes, and whether the ratio of the sides is kept. -/
def Signal.move? : Signal α → Option (Point α × Bool)
  | .move p keepRatio => some (p, keepRatio)
  | .frame => none

/-- A gesture and its board after a signal, also after a move that was refused. -/
def hear (s : Gesture α × Board α) : Signal α → Gesture α × Board α
  | .move p keepRatio => (s.1.move p keepRatio s.2).2
  | .frame => (s.1.tick s.2).2

/-- What becomes of a board by a gesture that is released after some signals. -/
def play (g : Gesture α) (b : Board α) (signals : List (Signal α)) :
    Except EditError Unit × Board α :=
  let s := signals.foldl hear (g, b)
  ((s.1.release s.2).1, (s.1.release s.2).2.2)

/-- The elements that a gesture leads to by a move. -/
def leads (g : Gesture α) (b : Board α) (m : Point α × Bool) :
    Except EditError (List (Element α)) :=
  g.aims b (m.1.x - g.origin.x) (m.1.y - g.origin.y) m.2

/-- Whether a gesture is live, and the elements that it would leave, after one more move. A move
counts if it makes the gesture go live and is not refused. -/
def intend (g : Gesture α) (b : Board α) (t : Bool × List (Element α)) (m : Point α × Bool) :
    Bool × List (Element α) :=
  if { g with live := t.1 }.goesLive b.viewport (m.1.x - g.origin.x) (m.1.y - g.origin.y) then
    (true, (g.leads b m).toOption.getD t.2)
  else t

/-- The elements that a gesture leaves: those that the last move that counts leads to. -/
def intent (g : Gesture α) (b : Board α) (moves : List (Point α × Bool)) : List (Element α) :=
  (moves.foldl (g.intend b) (g.live, b.elements)).2

/-- Elements that were there before the gesture, or are there after one of its moves. -/
def Seen (g : Gesture α) (b : Board α) (past : List (Point α × Bool)) (es : List (Element α)) :
    Prop :=
  es = b.elements ∨ ∃ m ∈ past, g.leads b m = .ok es

theorem Seen.mono {g : Gesture α} {b : Board α} {past past' : List (Point α × Bool)}
    {es : List (Element α)} (h : Seen g b past es) (hpast : past ⊆ past') : Seen g b past' es :=
  h.imp_right fun ⟨m, hm, hleads⟩ => ⟨m, hpast hm, hleads⟩

/-- The board of a gesture that goes live, or is live. -/
def opened (g : Gesture α) (b : Board α) : Board α := if g.live then b else b.beginBatch

section Move

variable {g : Gesture α} {b : Board α} {p : Point α} {keepRatio : Bool}

theorem move_idle
    (h : g.goesLive b.viewport (p.x - g.origin.x) (p.y - g.origin.y) = false) :
    (g.move p keepRatio b).2 = (g, b) := by
  unfold move
  dsimp only
  rw [h]
  rfl

/-- A move that is refused makes the gesture go live all the same. -/
theorem move_refused {e : EditError}
    (h : g.goesLive b.viewport (p.x - g.origin.x) (p.y - g.origin.y) = true)
    (hf : g.frame (g.opened b) (p.x - g.origin.x) (p.y - g.origin.y) keepRatio = .error e) :
    (g.move p keepRatio b).2 = ({ g with live := true }, g.opened b) := by
  have hf : { g with live := true }.frame (if g.live then b else b.beginBatch)
    (p.x - g.origin.x) (p.y - g.origin.y) keepRatio = .error e := hf
  unfold move
  dsimp only
  rw [h, hf]
  rfl

theorem move_live {f : GestureFrame α}
    (h : g.goesLive b.viewport (p.x - g.origin.x) (p.y - g.origin.y) = true)
    (hf : g.frame (g.opened b) (p.x - g.origin.x) (p.y - g.origin.y) keepRatio = .ok f) :
    (g.move p keepRatio b).2
      = ({ g with live := true, guides := f.guides, slot := ⟨some f.updates⟩ }, g.opened b) := by
  have hf : { g with live := true }.frame (if g.live then b else b.beginBatch)
    (p.x - g.origin.x) (p.y - g.origin.y) keepRatio = .ok f := hf
  unfold move
  dsimp only
  rw [h, hf]
  rfl

end Move

/-- A frame draws what waits. -/
theorem document_tick (g : Gesture α) (b : Board α) : (g.tick b).2.2.document
    = (g.slot.pending.elim b fun batch => (b.updateAll batch false).2).document := by
  unfold tick FrameSlot.take
  rcases g.slot.pending with _ | _ | ⟨m, rest⟩
  · rfl
  · rfl
  · dsimp only [Option.elim_some]
    rcases b.updateAll (m :: rest) false with ⟨_ | _, c⟩ <;> rfl

theorem gesture_tick (g : Gesture α) (b : Board α) :
    (g.tick b).2.1 = { g with slot := .empty } := by
  unfold tick FrameSlot.take
  rcases g.slot.pending with _ | _ | ⟨m, rest⟩
  · rfl
  · rfl
  · dsimp only
    rcases b.updateAll (m :: rest) false with ⟨_ | _, c⟩ <;> rfl

/-- A frame is drawn if what waits is not refused. -/
theorem tick_ok {g : Gesture α} {b : Board α}
    (h : ∀ batch ∈ g.slot.pending, (b.updateAll batch false).1 = .ok ()) :
    ∃ applied, (g.tick b).1 = .ok applied := by
  unfold tick FrameSlot.take
  rcases hpending : g.slot.pending with _ | _ | ⟨m, rest⟩
  · exact ⟨false, rfl⟩
  · exact ⟨false, rfl⟩
  · have hok := h (m :: rest) hpending
    dsimp only
    generalize b.updateAll (m :: rest) false = updated at hok ⊢
    obtain ⟨_ | _, c⟩ := updated
    · contradiction
    · exact ⟨true, rfl⟩

theorem release_ok {g : Gesture α} {b : Board α} {applied : Bool}
    (h : (g.tick b).1 = .ok applied) : (g.release b).1 = .ok () := by
  unfold release
  generalize g.tick b = ticked at h ⊢
  obtain ⟨_ | _, g', c⟩ := ticked
  · contradiction
  · rfl

omit [Scalar α] in
theorem exists_of_mem_boxesOf {es : List (Element α)} {ids : List String} {m : String × Box α}
    (h : m ∈ boxesOf es ids) : ∃ e ∈ es, m = (e.id, e.frame.box) := by
  obtain ⟨id, -, hid⟩ := List.mem_filterMap.mp
    ((Entries.mem_of_mem_merge h).resolve_right List.not_mem_nil)
  obtain ⟨e, he, rfl⟩ := Option.map_eq_some_iff.mp hid
  have hid := List.find?_some he
  refine ⟨e, List.mem_reverse.mp (List.mem_of_find?_eq_some he), ?_⟩
  rw [show e.id = id from beq_iff_eq.mp hid]

end Runs

end Gesture

variable {α : Type} [Field α] [LinearOrder α] [FloorRing α] [Trigonometry α]
  [IsStrictOrderedRing α]

/-! ## Boards -/

namespace Board

variable {b : Board α}

theorem document_commit (b : Board α) : b.commit.document = b.document := by
  unfold commit
  split
  · rfl
  · exact (finite_of_exact b.document).settled_eq

theorem viewport_updateAll (b : Board α) (batch : Batch α) :
    (b.updateAll batch false).2.viewport = b.viewport := by
  unfold updateAll
  split
  · rfl
  · unfold applyBatch
    rcases Element.applyEach batch.changesOf b.ids b.elements with ⟨_ | e, es, ids⟩
    · exact (congrArg Document.viewport (document_changed (finite_of_exact _))).trans rfl
    · rfl

end Board

namespace Gesture

variable {g : Gesture α} {b b' : Board α} {moves past : List (Point α × Bool)}
  {signals : List (Signal α)}

theorem document_release (g : Gesture α) (b : Board α) :
    (g.release b).2.2.document = (g.tick b).2.2.document := by
  unfold release
  rcases g.tick b with ⟨e | applied, g', c⟩
  · rfl
  · dsimp only
    split
    · exact Board.document_commit _
    · rfl

/-- A move does not bring the dragged element near the arrows that follow. -/
def Avoids (g : Gesture α) (b : Board α) (es : List (Element α)) (m : Point α × Bool) : Prop :=
  g.Clear b es (m.1.x - g.origin.x) (m.1.y - g.origin.y)

/-- Moves that do not bring the dragged element near an arrow that follows, neither where the arrow
was before nor where an earlier one of the moves left it. -/
structure Avoiding (g : Gesture α) (b : Board α) (moves : List (Point α × Bool)) : Prop where
  start : ∀ m ∈ moves, g.Avoids b b.elements m
  later : moves.Pairwise fun m m' => ∀ es, g.leads b m = .ok es → g.Avoids b es m'

/-- A move leads to the same elements whether there was a frame before or not. -/
theorem aims_of_seen (hg : Steady g b) {m : Point α × Bool}
    (hm : ∀ es, Seen g b past es → g.Avoids b es m) (hseen : Seen g b past b'.elements)
    (hview : b'.viewport = b.viewport) :
    g.aims b' (m.1.x - g.origin.x) (m.1.y - g.origin.y) m.2 = g.leads b m := by
  rcases hseen with hsame | hleads
  · exact aims_congr hg hsame hview
  · obtain ⟨m', hmem, hleads'⟩ := hleads
    exact aims_of_aims hg hleads' rfl hview (hm _ (.inl rfl)) (hm _ (.inr ⟨m', hmem, hleads'⟩))

theorem orderly_of_seen (hg : Steady g b) {es : List (Element α)} (hseen : Seen g b past es) :
    Element.Orderly es ∧ ∀ id ∈ g.starts.keys, ∃ e ∈ es, e.id = id := by
  rcases hseen with rfl | ⟨_, -, hleads⟩
  · exact ⟨hg.orderly, hg.there⟩
  · exact orderly_of_aims hg hleads

/-- A gesture that would leave `t`, whatever frames it heard. -/
structure Heeds (g : Gesture α) (b : Board α) (past : List (Point α × Bool))
    (t : Bool × List (Element α)) (s : Gesture α × Board α) : Prop where
  same : ∃ guides slot, s.1 = { g with live := t.1, guides, slot }
  idle : t.1 = false → s.1.slot.pending = none
  viewport : s.2.viewport = b.viewport
  /-- What the frames so far have left. -/
  seen : Seen g b past s.2.elements
  /-- What the next frame leaves, and so does the release. -/
  next : (s.1.tick s.2).2.2.elements = t.2
  aimed : Seen g b past t.2
  accepted : ∀ batch ∈ s.1.slot.pending, (s.2.updateAll batch false).1 = .ok ()

variable {t : Bool × List (Element α)} {s : Gesture α × Board α}

omit [IsStrictOrderedRing α] in
theorem Heeds.mono {past' : List (Point α × Bool)} (h : Heeds g b past t s)
    (hpast : past ⊆ past') : Heeds g b past' t s :=
  { h with seen := h.seen.mono hpast, aimed := h.aimed.mono hpast }

theorem Heeds.frame (h : Heeds g b past t s) : Heeds g b past t (hear s .frame) := by
  obtain ⟨guides, slot, hsame⟩ := h.same
  have hgesture : (hear s .frame).1 = { s.1 with slot := .empty } := gesture_tick s.1 s.2
  have hpending : (hear s .frame).1.slot.pending = none := by
    rw [hgesture]
    rfl
  have helements : (hear s .frame).2.elements = t.2 := h.next
  refine ⟨⟨guides, .empty, by rw [hgesture, hsame]⟩, fun _ => hpending, ?_, ?_, ?_, h.aimed, ?_⟩
  · have hdocument := congrArg Document.viewport (document_tick s.1 s.2)
    refine hdocument.trans ?_
    cases s.1.slot.pending with
    | none => exact h.viewport
    | some batch => exact (s.2.viewport_updateAll batch).trans h.viewport
  · rw [helements]
    exact h.aimed
  · have hdocument := congrArg Document.elements (document_tick (hear s .frame).1 (hear s .frame).2)
    rw [hpending] at hdocument
    exact hdocument.trans helements
  · rw [hpending]
    nofun

theorem document_opened (g : Gesture α) (b : Board α) : (g.opened b).document = b.document := by
  unfold opened
  split
  · rfl
  · exact b.document_commit

/-- To go live alone leads nowhere else. -/
theorem Heeds.opened (h : Heeds g b past t s) :
    Heeds g b past (true, t.2) ({ s.1 with live := true }, s.1.opened s.2) := by
  obtain ⟨g', b'⟩ := s
  obtain ⟨guides, slot, hsame⟩ := h.same
  have helements : (g'.opened b').elements = b'.elements :=
    congrArg Document.elements (document_opened g' b')
  -- a gesture that is not live yet asks for nothing
  have hwaits : g'.opened b' = b' ∨ g'.slot.pending = none := by
    cases hlive : g'.live with
    | true => exact .inl (if_pos hlive)
    | false =>
      rw [show g' = _ from hsame] at hlive
      exact .inr (h.idle hlive)
  refine ⟨⟨guides, slot, by rw [show g' = _ from hsame]⟩, nofun, ?_, helements ▸ h.seen, ?_,
    h.aimed, ?_⟩
  · exact (congrArg Document.viewport (document_opened g' b')).trans h.viewport
  · have hnext := (congrArg Document.elements (document_tick g' b')).symm.trans h.next
    refine (congrArg Document.elements (document_tick _ (g'.opened b'))).trans ?_
    change Document.elements (g'.slot.pending.elim (g'.opened b') _).document = t.2
    rcases hwaits with hstill | hnone
    · rw [hstill]
      exact hnext
    · rw [hnone] at hnext ⊢
      exact helements.trans hnext
  · intro batch hbatch
    rcases hwaits with hstill | hnone
    · rw [hstill]
      exact h.accepted batch hbatch
    · rw [show g'.slot.pending = some batch from hbatch] at hnone
      contradiction

variable {m : Point α × Bool}

/-- What a move asks for takes the place of what waits. -/
theorem Heeds.submit (hg : Steady g b) (h : Heeds g b past (true, t.2) s)
    (hm : ∀ es, Seen g b past es → g.Avoids b es m) {f : GestureFrame α}
    (hf : g.frame s.2 (m.1.x - g.origin.x) (m.1.y - g.origin.y) m.2 = .ok f) :
    ∃ es, g.leads b m = .ok es ∧ Heeds g b (past ++ [m]) (true, es)
      ({ s.1 with guides := f.guides, slot := ⟨some f.updates⟩ }, s.2) := by
  obtain ⟨guides, slot, hsame⟩ := h.same
  have hleads : g.leads b m = .ok (s.2.updateAll f.updates false).2.elements := by
    rw [← aims_of_seen hg hm h.seen h.viewport, aims, hf]
    rfl
  refine ⟨_, hleads, ⟨f.guides, ⟨some f.updates⟩, by rw [hsame]⟩,
    fun hidle => absurd hidle.symm Bool.false_ne_true, h.viewport,
    h.seen.mono (List.subset_append_left ..), ?_, .inr ⟨m, by simp, hleads⟩, ?_⟩
  · exact congrArg Document.elements (document_tick _ s.2)
  · rintro _ ⟨⟩
    obtain ⟨horderly, hthere⟩ := orderly_of_seen hg h.seen
    exact accepted_of_frame horderly hg.sides hthere hf

theorem Heeds.move (hg : Steady g b) (h : Heeds g b past t s)
    (hm : ∀ es, Seen g b past es → g.Avoids b es m) :
    Heeds g b (past ++ [m]) (g.intend b t m) (hear s (.move m.1 m.2)) := by
  have hpast : past ⊆ past ++ [m] := List.subset_append_left ..
  obtain ⟨guides, slot, hsame⟩ := h.same
  have hgoes : s.1.goesLive s.2.viewport (m.1.x - s.1.origin.x) (m.1.y - s.1.origin.y)
      = { g with live := t.1 }.goesLive b.viewport (m.1.x - g.origin.x) (m.1.y - g.origin.y) := by
    rw [h.viewport, hsame]
    rfl
  have hframe : s.1.frame (s.1.opened s.2) (m.1.x - s.1.origin.x) (m.1.y - s.1.origin.y) m.2
      = g.frame (s.1.opened s.2) (m.1.x - g.origin.x) (m.1.y - g.origin.y) m.2 := by
    rw [hsame]
    rfl
  rw [hear, intend, ← hgoes]
  cases hlive : s.1.goesLive s.2.viewport (m.1.x - s.1.origin.x) (m.1.y - s.1.origin.y) with
  | false =>
    rw [move_idle hlive, if_neg Bool.false_ne_true]
    exact h.mono hpast
  | true =>
    rw [if_pos rfl]
    cases hf : s.1.frame (s.1.opened s.2) (m.1.x - s.1.origin.x) (m.1.y - s.1.origin.y) m.2 with
    | error e =>
      have hleads : g.leads b m = .error e := by
        rw [← aims_of_seen hg hm h.opened.seen h.opened.viewport, aims, ← hframe, hf]
        rfl
      rw [move_refused hlive hf, hleads]
      exact h.opened.mono hpast
    | ok f =>
      obtain ⟨es, hleads, hheeds⟩ := h.opened.submit hg hm (hframe ▸ hf)
      rw [move_live hlive hf, hleads]
      exact hheeds

/-- A gesture heeds its moves, whenever frames come in between. -/
theorem heeds_foldl (hg : Steady g b) (h : Heeds g b past t s)
    (hstart : ∀ m ∈ signals.filterMap Signal.move?, g.Avoids b b.elements m)
    (hlater : (past ++ signals.filterMap Signal.move?).Pairwise
      fun m m' => ∀ es, g.leads b m = .ok es → g.Avoids b es m') :
    Heeds g b (past ++ signals.filterMap Signal.move?)
      ((signals.filterMap Signal.move?).foldl (g.intend b) t) (signals.foldl hear s) := by
  -- on the signals, `past` being the moves that were heard before them
  induction signals generalizing past t s with
  | nil => exact h.mono (List.subset_append_left ..)
  | cons signal rest ih =>
    cases signal with
    | frame => exact ih h.frame hstart hlater
    | move p keepRatio =>
      have hcons : (Signal.move p keepRatio :: rest).filterMap Signal.move?
        = (p, keepRatio) :: rest.filterMap Signal.move? := rfl
      rw [hcons, List.forall_mem_cons] at hstart
      rw [hcons] at hlater ⊢
      have havoids : ∀ es, Seen g b past es → g.Avoids b es (p, keepRatio) := by
        rintro es (rfl | ⟨m, hm, hleads⟩)
        · exact hstart.1
        · exact (List.pairwise_append.mp hlater).2.2 m hm _ List.mem_cons_self es hleads
      rw [List.append_cons] at hlater ⊢
      exact ih (h.move hg havoids) hstart.2 hlater

/-- A released gesture leaves what the last move that counts leads to. -/
theorem play_of_avoiding (hg : Steady g b) (hempty : g.slot.pending = none)
    (hmoves : signals.filterMap Signal.move? = moves) (havoids : Avoiding g b moves) :
    (play g b signals).1 = .ok () ∧ (play g b signals).2.elements = intent g b moves := by
  subst hmoves
  have hstart : Heeds g b [] (g.live, b.elements) (g, b) := by
    refine ⟨⟨g.guides, g.slot, rfl⟩, fun _ => hempty, rfl, .inl rfl, ?_, .inl rfl, ?_⟩
    · refine (congrArg Document.elements (document_tick g b)).trans ?_
      rw [hempty]
      rfl
    · rw [hempty]
      nofun
  have h := heeds_foldl hg hstart havoids.start havoids.later
  obtain ⟨applied, happlied⟩ := tick_ok h.accepted
  exact ⟨release_ok happlied, (congrArg Document.elements (document_release _ _)).trans h.next⟩

/-! ## Gestures from their start -/

omit [IsStrictOrderedRing α] in
/-- What a gesture needs to be steady when it begins. -/
theorem steady_start (hb : Element.Orderly b.elements) (hspare : Element.SparesArrows b.elements)
    (origin : Point α) (ids : Option (List String)) (handle : Option Handle) (threshold : α)
    (hresized : handle.isSome = true → ∀ e ∈ b.elements,
      Entries.has e.id (start b origin ids handle threshold).starts = true →
        if e.rebinds (start b origin ids handle threshold).starts.keys true
        then e.Hangs b.elements else e.Scalable) :
    Steady (start b origin ids handle threshold) b where
  orderly := hb
  spare := hspare
  sides := sides_boxesOf hb.valid _
  there id hid := by
    obtain ⟨m, hm, rfl⟩ := List.mem_map.mp hid
    obtain ⟨e, he, rfl⟩ := exists_of_mem_boxesOf hm
    exact ⟨e, he, rfl⟩
  boxes e he box hbox := by
    obtain ⟨e', he', heq⟩ := exists_of_mem_boxesOf (Entries.mem_of_get? hbox)
    rw [Prod.mk.injEq] at heq
    rw [heq.2, List.inj_on_of_nodup_map hb.distinct he he' heq.1]
  resized := hresized

omit [IsStrictOrderedRing α] in
/-- A resize heeds no arrows. -/
theorem avoiding_of_handle {handle : Handle} (h : g.handle = some handle) : Avoiding g b moves :=
  have hclear (es : List (Element α)) (m : Point α × Bool) : g.Avoids b es m :=
    fun hnone => absurd (h.symm.trans hnone) nofun
  ⟨fun m _ => hclear _ m, List.pairwise_of_forall fun _ m' es _ => hclear es m'⟩

/-- So does a drag that nothing follows. -/
theorem avoiding_of_not_rebinds (hg : Steady g b)
    (h : ∀ e ∈ b.elements, Entries.has e.id g.starts = true ∨
      e.rebinds g.starts.keys true = false) : Avoiding g b moves := by
  cases hhandle : g.handle with
  | some handle => exact avoiding_of_handle hhandle
  | none =>
    have hkeys : g.places.keys = g.starts.keys := Entries.keys_mapValues _ _
    have hclear {es : List (Element α)} (m : Point α × Bool) (hes : ∀ e ∈ es,
        Entries.has e.id g.starts = true ∨ e.rebinds g.starts.keys true = false) :
        g.Avoids b es m := by
      intro _ lead _ e he hfree hr
      rw [Entries.has_congr hkeys] at hfree
      rw [hkeys] at hr
      rcases hes e he with hheld | hstill
      · exact absurd (hheld.symm.trans hfree) nofun
      · exact absurd (hr.symm.trans hstill) nofun
    refine ⟨fun m _ => hclear m h, List.pairwise_of_forall fun m m' es hleads => hclear m' ?_⟩
    rw [leads, aims_drag hhandle hg.orderly hg.there, Except.ok.injEq] at hleads
    subst hleads
    refine List.forall_mem_map.mpr fun e he => ?_
    have hrebinds := Hold.rebinds_turned Hold.lawful_drag
      (GestureFrame.targets (limit b) b.elements g.places (m.1.x - g.origin.x)
        (m.1.y - g.origin.y)) b.elements e
    rw [GestureFrame.keys_targets, hkeys] at hrebinds
    rw [Hold.id_turned Hold.lawful_drag, hrebinds]
    exact h e he

/-- With exact numbers, runs of a drag or a resize with the same moves leave the same elements,
wherever frames came in between: those that the last move that counts leads to. It is asked that no
arrow is bound to an arrow, that a resized arrow is bound at both ends or at none (and then its ends
fit its box), and that a dragged element does not come near an arrow that follows it. -/
theorem elements_of_moves (hb : Element.Orderly b.elements)
    (hspare : Element.SparesArrows b.elements)
    (origin : Point α) (ids : Option (List String)) (handle : Option Handle) (threshold : α)
    (hresized : handle.isSome = true → ∀ e ∈ b.elements,
      Entries.has e.id (start b origin ids handle threshold).starts = true →
        if e.rebinds (start b origin ids handle threshold).starts.keys true
        then e.Hangs b.elements else e.Scalable)
    (havoids : Avoiding (start b origin ids handle threshold) b moves) {signals' : List (Signal α)}
    (hsignals : signals.filterMap Signal.move? = moves)
    (hsignals' : signals'.filterMap Signal.move? = moves) :
    let g := start b origin ids handle threshold
    (play g b signals).1 = .ok () ∧ (play g b signals').1 = .ok () ∧
      (play g b signals).2.elements = (play g b signals').2.elements ∧
      (play g b signals).2.elements = intent g b moves := by
  have hsteady := steady_start hb hspare origin ids handle threshold hresized
  have h := play_of_avoiding hsteady rfl hsignals havoids
  have h' := play_of_avoiding hsteady rfl hsignals' havoids
  exact ⟨h.1, h'.1, h.2.trans h'.2.symm, h.2⟩

/-! ## An arrow with a free end -/

/-- A rectangle, and an arrow that starts at its right edge and ends nowhere. -/
def leash (α : Type) [Scalar α] : List (Element α) :=
  [.newShape "r" .rectangle { x := 0, y := 0 },
    .shape (Draft.frame { x := 150, y := 75 } "a" 200 10) .arrow
      { Shape.blankArrow with
        start := some ⟨0, 0⟩
        finish := some ⟨200, 0⟩
        startBinding := some ⟨"r", .right⟩ }]

omit [Field α] [LinearOrder α] [FloorRing α] [Trigonometry α] [IsStrictOrderedRing α] in
theorem valid_leash [Scalar α] [LawfulScalar α] : ∀ e ∈ leash α, e.Valid :=
  List.forall_mem_cons.mpr ⟨Element.valid_newShape .., List.forall_mem_singleton.mpr
    (.shape (Draft.valid_frame _ "a" (Scalar.ofNat_nonneg (by decide))
      (Scalar.ofNat_nonneg (by decide))) (Shape.valid_of_curve_eq_zero rfl))⟩

omit [Field α] [LinearOrder α] [FloorRing α] [Trigonometry α] [IsStrictOrderedRing α] in
theorem sparesArrows_leash [Scalar α] : Element.SparesArrows (leash α) := by
  intro e he bd hbd t ht hid
  simp only [leash, List.mem_cons, List.not_mem_nil, or_false] at he ht
  rcases he with rfl | rfl
  · exact absurd hbd List.not_mem_nil
  · rcases (Element.mem_bindings rfl _).mp hbd with hstart | hfinish
    · cases hstart
      rcases ht with rfl | rfl
      · rfl
      · exact absurd (show "a" = "r" from hid) (by decide)
    · contradiction

/-- Where the arrow follows the resized rectangle or is dragged with it, frames make no
difference. -/
theorem elements_of_moves_leash :
    let b : Board ℝ := Board.start .counting (leash ℝ) .initial 50
    let resizing := start b ⟨0, 0⟩ (some ["r"]) (some .right) 5
    let dragging := start b ⟨0, 0⟩ (some ["r", "a"]) none 5
    let moves := [(⟨10, 0⟩, false), (⟨20, 0⟩, false)]
    let signals : List (Signal ℝ) := [.move ⟨10, 0⟩ false, .move ⟨20, 0⟩ false]
    let signals' : List (Signal ℝ) := [.move ⟨10, 0⟩ false, .frame, .move ⟨20, 0⟩ false, .frame]
    (play resizing b signals).2.elements = intent resizing b moves ∧
      (play resizing b signals).2.elements = (play resizing b signals').2.elements ∧
      (play dragging b signals).2.elements = intent dragging b moves ∧
      (play dragging b signals).2.elements = (play dragging b signals').2.elements := by
  intro b resizing dragging moves signals signals'
  have hes : b.elements = leash ℝ :=
    congrArg Document.elements (Document.settled_eq_self (fun _ => rfl) _)
  have horderly : Element.Orderly b.elements := hes ▸ ⟨valid_leash, List.forall_mem_cons.mpr
    ⟨Nat.zero_le _, List.forall_mem_singleton.mpr (Nat.zero_le _)⟩, by decide⟩
  have hspare : Element.SparesArrows b.elements := hes ▸ sparesArrows_leash
  have hresized : ∀ e ∈ b.elements, Entries.has e.id resizing.starts = true →
      if e.rebinds resizing.starts.keys true then e.Hangs b.elements else e.Scalable := by
    simp only [resizing, start, hes]
    refine List.forall_mem_cons.mpr ⟨fun _ s hs => ?_, List.forall_mem_singleton.mpr fun h => ?_⟩
    · contradiction
    · exact absurd h (by decide)
  have hheld : ∀ e ∈ b.elements, Entries.has e.id dragging.starts = true := by
    simp only [dragging, start, hes]
    exact List.forall_mem_cons.mpr ⟨rfl, List.forall_mem_singleton.mpr rfl⟩
  have havoids : Avoiding dragging b moves :=
    avoiding_of_not_rebinds (steady_start horderly hspare _ _ none _ nofun)
      fun e he => .inl (hheld e he)
  have hresizing := elements_of_moves horderly hspare ⟨0, 0⟩ (some ["r"]) (some .right) 5
    (fun _ => hresized) (avoiding_of_handle rfl : Avoiding resizing b moves)
    (show signals.filterMap Signal.move? = moves from rfl)
    (show signals'.filterMap Signal.move? = moves from rfl)
  have hdragging := elements_of_moves horderly hspare ⟨0, 0⟩ (some ["r", "a"]) none 5 nofun havoids
    (show signals.filterMap Signal.move? = moves from rfl)
    (show signals'.filterMap Signal.move? = moves from rfl)
  exact ⟨hresizing.2.2.2, hresizing.2.2.1, hdragging.2.2.2, hdragging.2.2.1⟩

/-- Where the arrow is resized, each frame makes its free end run ahead. -/
theorem exists_frame_counts :
    let b : Board Double := Board.start .counting (leash Double) .initial 50
    let g := start b ⟨0, 0⟩ (some ["a"]) (some .left) 5
    let still := play g b [.move ⟨10, 0⟩ false, .move ⟨20, 0⟩ false]
    let drawn := play g b [.move ⟨10, 0⟩ false, .frame, .move ⟨20, 0⟩ false]
    Board.Reachable 50 b ∧ still.1.toBool = true ∧ drawn.1.toBool = true ∧
      still.2.elements ≠ drawn.2.elements := by
  intro b g still drawn
  have hends : (still.2.elements.all fun e => e.frame.right ≤ 370) = true := by decide +kernel
  have hends' : (drawn.2.elements.all fun e => e.frame.right ≤ 370) = false := by decide +kernel
  refine ⟨.start valid_leash (by decide +kernel) (by decide +kernel), by decide +kernel,
    by decide +kernel, fun hsame => ?_⟩
  rw [hsame, hends'] at hends
  contradiction

end Gesture

end Whiteboard
