import Mathlib.Data.List.Forall2
import Mathlib.Data.List.Induction
import Mathlib.Data.List.ReduceOption
import Whiteboard.Gesture.Slot

/-!
# Calls of the frame slot

What is submitted to a slot waits until the slot is called again; looking at what waits is no such
call. So a batch is drawn if the next call after it asks for a frame, and the batches that are drawn
come in the order in which they were submitted, each one once (`FrameSlot.applied_in_order`).
-/

namespace Whiteboard.FrameSlot

/-- A call of a slot. A flush is a frame that does not wait for the screen. -/
inductive Call (α : Type) where
  | submit (batch : Batch α)
  | tick
  | flush
  | cancel
  | look

variable {α : Type}

/-- What a call applies, if anything, and the slot after it. -/
def Call.run : Call α → FrameSlot α → Option (Batch α) × FrameSlot α
  | submit batch, s => (none, s.submit batch)
  | tick, s | flush, s => s.take
  | cancel, s => (none, s.cancel)
  | look, s => (none, s)

/-- Whether a call asks for a frame. -/
def Call.Draws (c : Call α) : Prop := c = .tick ∨ c = .flush

/-- A slot that heard a further call, and what was applied by each call so far. -/
def hear (s : FrameSlot α × List (Option (Batch α))) (c : Call α) :
    FrameSlot α × List (Option (Batch α)) :=
  ((c.run s.1).2, s.2 ++ [(c.run s.1).1])

/-- What becomes of an empty slot, and what is applied by each of the calls. -/
def play (calls : List (Call α)) : FrameSlot α × List (Option (Batch α)) :=
  calls.foldl hear (.empty, [])

/-- The batches that are applied, in order. -/
def applied (calls : List (Call α)) : List (Batch α) := (play calls).2.reduceOption

/-- The batch of the `n`-th call has been in the slot since then. -/
structure Waits (calls : List (Call α)) (n : Nat) (batch : Batch α) : Prop where
  submitted : calls[n]? = some (.submit batch)
  looks : ∀ i c, n < i → calls[i]? = some c → c = .look

/-- The `n`-th call submits a batch that is not empty, the next one that is no mere look is the
`k`-th, and it asks for a frame. -/
structure Drawn (calls : List (Call α)) (n k : Nat) (batch : Batch α) : Prop where
  submitted : calls[n]? = some (.submit batch)
  filled : batch ≠ []
  lt : n < k
  looks : ∀ i, n < i → i < k → calls[i]? = some .look
  draws : ∃ c ∈ calls[k]?, c.Draws

variable {calls : List (Call α)} {c : Call α} {n n' k k' : Nat} {batch batch' : Batch α}

/-! ## One call -/

theorem take_eq_some_iff {s : FrameSlot α} :
    s.take.1 = some batch ↔ s.pending = some batch ∧ batch ≠ [] := by
  unfold take
  rcases hpending : s.pending with _ | _ | ⟨m, rest⟩
  · simp
  · constructor
    · intro h
      contradiction
    · rintro ⟨h, hne⟩
      exact absurd (Option.some.inj h).symm hne
  · constructor
    · intro h
      cases h
      exact ⟨rfl, List.cons_ne_nil m rest⟩
    · exact fun h => h.1

theorem Call.Draws.ne_look (h : c.Draws) : c ≠ .look := by
  rintro rfl
  rcases h with h | h <;> contradiction

theorem Call.Draws.ne_submit (h : c.Draws) : c ≠ .submit batch := by
  rintro rfl
  rcases h with h | h <;> contradiction

theorem pending_take (s : FrameSlot α) : s.take.2.pending = none := by
  unfold take
  rcases s.pending with _ | _ | ⟨m, rest⟩ <;> rfl

/-- Just a call for a frame applies something, and that is what waits, unless it is empty. -/
theorem Call.run_eq_some_iff {s : FrameSlot α} :
    (c.run s).1 = some batch ↔ c.Draws ∧ s.pending = some batch ∧ batch ≠ [] := by
  cases c with
  | submit | cancel | look => simp [run, Draws]
  | tick | flush => simp [run, Draws, take_eq_some_iff]

/-- What waits after a call was submitted by it, or the call is a look. -/
theorem Call.pending_run_iff {s : FrameSlot α} : (c.run s).2.pending = some batch ↔
    c = .submit batch ∨ c = .look ∧ s.pending = some batch := by
  cases c with
  | submit b =>
    rw [run, FrameSlot.submit, Option.some.injEq]
    simp [eq_comm]
  | cancel => simp [run, FrameSlot.cancel, empty]
  | look => simp [run]
  | tick | flush => simp [run, pending_take]

/-! ## A further call -/

theorem play_concat (calls : List (Call α)) (c : Call α) :
    play (calls ++ [c]) = hear (play calls) c := by
  rw [play, List.foldl_concat, play]

theorem length_play (calls : List (Call α)) : (play calls).2.length = calls.length := by
  induction calls using List.reverseRecOn with
  | nil => rfl
  | append_singleton calls c ih =>
    rw [play_concat, hear, List.length_append, ih, List.length_append]
    rfl

theorem applied_concat (calls : List (Call α)) (c : Call α) :
    applied (calls ++ [c]) = applied calls ++ (c.run (play calls).1).1.toList := by
  rw [applied, play_concat, hear, List.reduceOption_append, List.reduceOption_singleton, applied]

/-- What stands in a list with a further member. -/
theorem getElem?_concat_eq_some_iff {β : Type} {l : List β} {x y : β} {i : Nat} :
    (l ++ [x])[i]? = some y ↔ l[i]? = some y ∨ (i = l.length ∧ x = y) := by
  rcases Nat.lt_trichotomy i l.length with hlt | rfl | hgt
  · rw [List.getElem?_append_left hlt]
    simp [Nat.ne_of_lt hlt]
  · rw [List.getElem?_concat_length]
    simp
  · rw [List.getElem?_append_right (Nat.le_of_lt hgt), List.getElem?_eq_none (Nat.le_of_lt hgt),
      List.getElem?_eq_none (Nat.sub_pos_of_lt hgt)]
    simp [Nat.ne_of_gt hgt]

theorem lt_length {d : Call α} (h : calls[n]? = some d) : n < calls.length :=
  (List.getElem?_eq_some_iff.mp h).1

theorem waits_concat : Waits (calls ++ [c]) n batch ↔
    (n = calls.length ∧ c = .submit batch) ∨ (Waits calls n batch ∧ c = .look) := by
  constructor
  · intro h
    rcases getElem?_concat_eq_some_iff.mp h.submitted with hold | ⟨hn, hc⟩
    · refine .inr ⟨⟨hold, fun i d hi hd => h.looks i d hi ?_⟩, ?_⟩
      · exact getElem?_concat_eq_some_iff.mpr (.inl hd)
      · exact h.looks calls.length c (lt_length hold)
          (getElem?_concat_eq_some_iff.mpr (.inr ⟨rfl, rfl⟩))
    · exact .inl ⟨hn, hc⟩
  · rintro (⟨rfl, rfl⟩ | ⟨h, rfl⟩)
    · refine ⟨getElem?_concat_eq_some_iff.mpr (.inr ⟨rfl, rfl⟩), fun i d hi hd => ?_⟩
      rcases getElem?_concat_eq_some_iff.mp hd with hold | ⟨rfl, -⟩
      · exact absurd (lt_length hold) (Nat.lt_asymm hi)
      · exact absurd hi (Nat.lt_irrefl _)
    · refine ⟨getElem?_concat_eq_some_iff.mpr (.inl h.submitted), fun i d hi hd => ?_⟩
      rcases getElem?_concat_eq_some_iff.mp hd with hold | ⟨-, rfl⟩
      · exact h.looks i d hi hold
      · rfl

theorem Drawn.lt_length (h : Drawn calls n k batch) : k < calls.length := by
  obtain ⟨d, hd, -⟩ := h.draws
  exact FrameSlot.lt_length hd

/-- What is drawn has waited up to the call that draws it. -/
theorem drawn_concat : Drawn (calls ++ [c]) n k batch ↔ Drawn calls n k batch ∨
    (k = calls.length ∧ c.Draws ∧ batch ≠ [] ∧ Waits calls n batch) := by
  constructor
  · intro h
    obtain ⟨d, hd, hdraws⟩ := h.draws
    have hlt : n < calls.length := by
      have hk := lt_length hd
      have hnk := h.lt
      rw [List.length_append, List.length_singleton] at hk
      omega
    have hsubmitted : calls[n]? = some (.submit batch) :=
      (getElem?_concat_eq_some_iff.mp h.submitted).resolve_right fun hn => Nat.ne_of_lt hlt hn.1
    rcases getElem?_concat_eq_some_iff.mp hd with hold | ⟨rfl, rfl⟩
    · refine .inl ⟨hsubmitted, h.filled, h.lt, fun i hi hik => ?_, d, hold, hdraws⟩
      exact (getElem?_concat_eq_some_iff.mp (h.looks i hi hik)).resolve_right fun heq =>
        Nat.ne_of_lt (Nat.lt_trans hik (lt_length hold)) heq.1
    · refine .inr ⟨rfl, hdraws, h.filled, hsubmitted, fun i d hi hd => ?_⟩
      have hlook := h.looks i hi (lt_length hd)
      rw [getElem?_concat_eq_some_iff.mpr (.inl hd)] at hlook
      exact Option.some.inj hlook
  · rintro (h | ⟨rfl, hdraws, hfilled, h⟩)
    · obtain ⟨d, hd, hdraws⟩ := h.draws
      exact ⟨getElem?_concat_eq_some_iff.mpr (.inl h.submitted), h.filled, h.lt,
        fun i hi hik => getElem?_concat_eq_some_iff.mpr (.inl (h.looks i hi hik)),
        d, getElem?_concat_eq_some_iff.mpr (.inl hd), hdraws⟩
    · refine ⟨getElem?_concat_eq_some_iff.mpr (.inl h.submitted), hfilled,
        lt_length h.submitted, fun i hi hlt => ?_, c,
        getElem?_concat_eq_some_iff.mpr (.inr ⟨rfl, rfl⟩), hdraws⟩
      refine getElem?_concat_eq_some_iff.mpr (.inl ?_)
      rw [List.getElem?_eq_getElem hlt, h.looks i _ hi (List.getElem?_eq_getElem hlt)]

/-- Only one batch waits. -/
theorem Waits.index_unique (h : Waits calls n batch) (h' : Waits calls n' batch') : n = n' := by
  rcases Nat.lt_trichotomy n n' with hlt | heq | hgt
  · have := h.looks n' _ hlt h'.submitted
    contradiction
  · exact heq
  · have := h'.looks n _ hgt h.submitted
    contradiction

/-- A batch is drawn before a later one is submitted. -/
theorem Drawn.lt_of_submitted (h : Drawn calls n k batch)
    (h' : calls[n']? = some (.submit batch')) (hlt : n < n') : k < n' := by
  obtain ⟨d, hd, hdraws⟩ := h.draws
  rcases Nat.lt_trichotomy n' k with hlook | rfl | hgt
  · rw [h.looks n' hlt hlook] at h'
    cases h'
  · have hd : calls[n']? = some d := hd
    rw [h'] at hd
    exact absurd (Option.some.inj hd).symm hdraws.ne_submit
  · exact hgt

/-- Batches are drawn in the order of their submission. -/
theorem Drawn.lt_iff (h : Drawn calls n k batch) (h' : Drawn calls n' k' batch') :
    n < n' ↔ k < k' := by
  constructor
  · intro hlt
    exact Nat.lt_trans (h.lt_of_submitted h'.submitted hlt) h'.lt
  · intro hlt
    rcases Nat.lt_trichotomy n n' with hless | rfl | hgt
    · exact hless
    · obtain ⟨d, hd, hdraws⟩ := h.draws
      have hd : calls[k]? = some d := hd
      rw [h'.looks k h.lt hlt] at hd
      exact absurd (Option.some.inj hd).symm hdraws.ne_look
    · have := Nat.lt_trans (h'.lt_of_submitted h.submitted hgt) h.lt
      exact absurd hlt (Nat.lt_asymm this)

/-- What waits was submitted after all that was drawn. -/
theorem Drawn.lt_of_waits (h : Drawn calls n k batch) (h' : Waits calls n' batch') : n < n' := by
  obtain ⟨d, hd, hdraws⟩ := h.draws
  by_contra hle
  have hlt : n' < k := Nat.lt_of_le_of_lt (Nat.le_of_not_lt hle) h.lt
  exact absurd (h'.looks k d hlt hd) hdraws.ne_look

/-! ## All calls -/

/-- What is in the slot is what waits. -/
theorem pending_play_iff :
    (play calls).1.pending = some batch ↔ ∃ n, Waits calls n batch := by
  induction calls using List.reverseRecOn with
  | nil =>
    constructor
    · intro h
      contradiction
    · rintro ⟨n, h⟩
      exact absurd (lt_length h.submitted) (Nat.not_lt_zero n)
  | append_singleton calls c ih =>
    simp only [play_concat, hear, Call.pending_run_iff, ih, waits_concat]
    constructor
    · rintro (hc | ⟨hc, n, h⟩)
      · exact ⟨calls.length, .inl ⟨rfl, hc⟩⟩
      · exact ⟨n, .inr ⟨h, hc⟩⟩
    · rintro ⟨n, ⟨-, hc⟩ | ⟨h, hc⟩⟩
      · exact .inl hc
      · exact .inr ⟨hc, n, h⟩

/-- A further call applies what it draws. -/
theorem run_play_iff : (c.run (play calls).1).1 = some batch ↔
    c.Draws ∧ batch ≠ [] ∧ ∃ n, Waits calls n batch := by
  rw [Call.run_eq_some_iff, pending_play_iff, and_comm (a := batch ≠ [])]

/-- A call applies just the batch that is drawn by it. -/
theorem getElem?_play_iff :
    (play calls).2[k]? = some (some batch) ↔ ∃ n, Drawn calls n k batch := by
  induction calls using List.reverseRecOn with
  | nil =>
    constructor
    · intro h
      contradiction
    · rintro ⟨n, h⟩
      exact absurd h.lt_length (Nat.not_lt_zero k)
  | append_singleton calls c ih =>
    rw [play_concat, hear, getElem?_concat_eq_some_iff, ih, length_play, run_play_iff]
    simp only [drawn_concat, exists_or, exists_and_left]

/-- The batches that are applied are those that are drawn, in the order of their submission. -/
theorem exists_drawn (calls : List (Call α)) : ∃ ns : List Nat, ns.Pairwise (· < ·) ∧
    (∀ n, n ∈ ns ↔ ∃ k batch, Drawn calls n k batch) ∧
    List.Forall₂ (fun n batch => ∃ k, Drawn calls n k batch) ns (applied calls) := by
  induction calls using List.reverseRecOn with
  | nil =>
    refine ⟨[], .nil, fun n => ?_, .nil⟩
    constructor
    · intro h
      contradiction
    · rintro ⟨k, batch, h⟩
      exact absurd h.lt_length (Nat.not_lt_zero k)
  | append_singleton calls c ih =>
    obtain ⟨ns, hns, hmem, hdrawn⟩ := ih
    have hold : List.Forall₂ (fun n batch => ∃ k, Drawn (calls ++ [c]) n k batch) ns
        (applied calls) :=
      hdrawn.imp fun n batch ⟨k, h⟩ => ⟨k, drawn_concat.mpr (.inl h)⟩
    rw [applied_concat]
    cases hrun : (c.run (play calls).1).1 with
    | none =>
      have hnew (n batch) : ¬ (c.Draws ∧ batch ≠ [] ∧ Waits calls n batch) := by
        rintro ⟨hdraws, hfilled, h⟩
        rw [run_play_iff.mpr ⟨hdraws, hfilled, n, h⟩] at hrun
        contradiction
      refine ⟨ns, hns, fun n => ?_, by simpa using hold⟩
      simp only [hmem, drawn_concat, hnew, and_false, or_false]
    | some batch =>
      obtain ⟨hdraws, hfilled, n, hn⟩ := run_play_iff.mp hrun
      refine ⟨ns ++ [n], ?_, fun m => ?_, ?_⟩
      · refine List.pairwise_append.mpr ⟨hns, List.pairwise_singleton _ _, fun m hm m' hm' => ?_⟩
        obtain rfl := List.mem_singleton.mp hm'
        obtain ⟨k, batch', h⟩ := (hmem m).mp hm
        exact h.lt_of_waits hn
      · rw [List.mem_append, List.mem_singleton, hmem]
        constructor
        · rintro (⟨k, batch', h⟩ | rfl)
          · exact ⟨k, batch', drawn_concat.mpr (.inl h)⟩
          · exact ⟨_, batch, drawn_concat.mpr (.inr ⟨rfl, hdraws, hfilled, hn⟩)⟩
        · rintro ⟨k, batch', h⟩
          rcases drawn_concat.mp h with h | ⟨-, -, -, h⟩
          · exact .inl ⟨k, batch', h⟩
          · exact .inr (h.index_unique hn)
      · refine List.rel_append hold (.cons ?_ .nil)
        exact ⟨_, drawn_concat.mpr (.inr ⟨rfl, hdraws, hfilled, hn⟩)⟩

/-- Each call applies just the batch that it draws; batches are drawn in the order in which they
were submitted; and those that are drawn are all that are applied, in this order. -/
theorem applied_in_order (calls : List (Call α)) :
    (∀ k batch, (play calls).2[k]? = some (some batch) ↔ ∃ n, Drawn calls n k batch) ∧
      (∀ n n' k k' batch batch', Drawn calls n k batch → Drawn calls n' k' batch' →
        (n < n' ↔ k < k')) ∧
      ∃ ns : List Nat, ns.Pairwise (· < ·) ∧
        (∀ n, n ∈ ns ↔ ∃ k batch, Drawn calls n k batch) ∧
        List.Forall₂ (fun n batch => ∃ k, Drawn calls n k batch) ns (applied calls) :=
  ⟨fun _ _ => getElem?_play_iff, fun _ _ _ _ _ _ h h' => h.lt_iff h', exists_drawn calls⟩

/-- Batches that are looked at, replaced, cancelled and empty, and frames with nothing to draw. -/
theorem applied_in_order_replaced :
    let batch (id : String) : Batch Unit := [(id, [])]
    let calls : List (Call Unit) :=
      [.submit (batch "a"), .look, .tick, .tick, .submit (batch "b"), .submit (batch "c"), .flush,
        .submit (batch "d"), .cancel, .tick, .submit [], .tick]
    applied calls = [batch "a", batch "c"] ∧
      ∃ n n', Drawn calls n 2 (batch "a") ∧ Drawn calls n' 6 (batch "c") ∧ n < n' := by
  intro batch calls
  obtain ⟨hdrawn, horder, -⟩ := applied_in_order calls
  obtain ⟨n, hn⟩ := (hdrawn 2 (batch "a")).mp rfl
  obtain ⟨n', hn'⟩ := (hdrawn 6 (batch "c")).mp rfl
  exact ⟨rfl, n, n', hn, hn', (horder _ _ _ _ _ _ hn hn').mpr (by decide)⟩

end Whiteboard.FrameSlot
