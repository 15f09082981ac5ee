import Mathlib.Data.List.Chain
import Whiteboard.History

/-!
# Timelines

A history as two stacks: the states up to the cursor, and those that can be redone. Both have their
top at the end. `History.Linear` is what every step of a history preserves: the timeline keeps to
its limit, and no state follows one that it equals.
-/

namespace Whiteboard

namespace History

variable {σ : Type}

/-- The states up to the cursor, the oldest first. -/
def undoStack (h : History σ) : List σ := h.past.reverse ++ [h.current]

/-- The states after the cursor, the next one last. -/
def redoStack (h : History σ) : List σ := h.future.reverse

theorem timeline_eq (h : History σ) : h.timeline = h.undoStack ++ h.redoStack.reverse := by
  simp [timeline, undoStack, redoStack]

theorem undoStack_ne_nil (h : History σ) : h.undoStack ≠ [] := by simp [undoStack]

theorem length_undoStack (h : History σ) : h.undoStack.length = h.depth := by
  simp [undoStack, depth]

theorem getLast?_undoStack (h : History σ) : h.undoStack.getLast? = some h.current := by
  simp [undoStack]

theorem current_mem (h : History σ) : h.current ∈ h.timeline := by simp [timeline]

theorem mem_timeline {h : History σ} {s : σ} :
    s ∈ h.timeline ↔ s ∈ h.undoStack ∨ s ∈ h.redoStack := by
  rw [timeline_eq, List.mem_append, List.mem_reverse]

theorem timeline_eq_undoStack {h : History σ} (hr : h.redoStack = []) :
    h.timeline = h.undoStack := by
  rw [timeline_eq, hr, List.reverse_nil, List.append_nil]

/-! ## Commits -/

/-- The states without the oldest, if they are too many. -/
def capped (limit : Int) (states : List σ) : List σ :=
  if limit < states.length then states.tail else states

theorem mem_of_mem_capped {limit : Int} {states : List σ} {s : σ} (h : s ∈ capped limit states) :
    s ∈ states := by
  unfold capped at h
  split at h
  · exact List.mem_of_mem_tail h
  · exact h

theorem undoStack_push (h : History σ) (s : σ) :
    (h.push s).undoStack = capped h.limit (h.undoStack ++ [s]) := by
  have hlength : (h.undoStack ++ [s]).length = (h.current :: h.past).length + 1 := by
    simp [undoStack]
  have hstates : h.undoStack = (h.current :: h.past).reverse := by simp [undoStack]
  unfold capped
  rw [hlength]
  split
  · next hover =>
    have hne : h.undoStack ≠ [] := h.undoStack_ne_nil
    rw [List.tail_append_of_ne_nil hne, hstates, List.tail_reverse]
    simp only [push, undoStack, if_pos hover]
  · next hover =>
    rw [hstates]
    simp only [push, undoStack, if_neg hover]

variable [BEq σ]

theorem redoStack_commit (h : History σ) (s : σ) : (h.commit s).redoStack = [] := by
  unfold commit
  split <;> rfl

/-- A commit adds a state that differs from the top, and no other. -/
theorem undoStack_commit (h : History σ) (s : σ) :
    (h.commit s).undoStack =
      if h.current == s then h.undoStack else capped h.limit (h.undoStack ++ [s]) := by
  unfold commit
  split
  · rfl
  · exact h.undoStack_push s

theorem timeline_commit (h : History σ) (s : σ) :
    (h.commit s).timeline =
      if h.current == s then h.undoStack else capped h.limit (h.undoStack ++ [s]) := by
  rw [timeline_eq_undoStack (h.redoStack_commit s), undoStack_commit]

theorem limit_commit (h : History σ) (s : σ) : (h.commit s).limit = h.limit := by
  unfold commit
  split <;> rfl

theorem mem_timeline_commit {h : History σ} {s t : σ} (ht : t ∈ (h.commit s).timeline) :
    t ∈ h.timeline ∨ t = s := by
  rw [timeline_commit] at ht
  split at ht
  · exact .inl (mem_timeline.mpr (.inl ht))
  · rcases List.mem_append.mp (mem_of_mem_capped ht) with ht | ht
    · exact .inl (mem_timeline.mpr (.inl ht))
    · exact .inr (List.mem_singleton.mp ht)

/-- After a commit the top equals what was committed. -/
theorem current_commit (h : History σ) {s : σ} (hs : (s == s) = true) :
    ((h.commit s).current == s) = true := by
  unfold commit
  split
  · assumption
  · exact hs

/-! ## The invariant -/

/-- A line of states within a limit, in which no state follows one that it equals. -/
structure Linear (limit : Int) (h : History σ) : Prop where
  limit_eq : h.limit = limit
  length_le : (h.timeline.length : Int) ≤ max 1 limit
  distinct : h.timeline.IsChain fun s t => (s == t) = false

variable {limit : Int} {h h' : History σ}

theorem linear_start (limit : Int) (s : σ) :
    (start limit s).Linear (if limit = 0 then defaultLimit else limit) where
  limit_eq := rfl
  length_le := Int.le_max_left ..
  distinct := by simp [timeline, start]

theorem Linear.reset (hl : h.Linear limit) (s : σ) : (h.reset s).Linear limit where
  limit_eq := hl.limit_eq
  length_le := Int.le_max_left ..
  distinct := by simp [timeline, History.reset]

theorem Linear.of_timeline (hl : h.Linear limit) (hlimit : h'.limit = h.limit)
    (ht : h'.timeline = h.timeline) : h'.Linear limit where
  limit_eq := hlimit.trans hl.limit_eq
  length_le := ht ▸ hl.length_le
  distinct := ht ▸ hl.distinct

theorem Linear.length_undoStack_le (hl : h.Linear limit) :
    (h.undoStack.length : Int) ≤ max 1 limit := by
  have hle := hl.length_le
  rw [timeline_eq, List.length_append] at hle
  omega

theorem Linear.commit (hl : h.Linear limit) (s : σ) : (h.commit s).Linear limit := by
  have hle := hl.length_undoStack_le
  have hdistinct : h.undoStack.IsChain fun s t => (s == t) = false := by
    have hd := hl.distinct
    rw [timeline_eq] at hd
    exact hd.left_of_append
  refine ⟨(h.limit_commit s).trans hl.limit_eq, ?_, ?_⟩
  · rw [timeline_commit]
    split
    · exact hle
    · rw [hl.limit_eq, capped]
      split
      · rw [List.length_tail, List.length_append, List.length_singleton]
        omega
      · omega
  · rw [timeline_commit]
    split
    · exact hdistinct
    · next hne =>
      -- the only new neighbours are the old top and what was committed
      have hlonger : (h.undoStack ++ [s]).IsChain fun s t => (s == t) = false := by
        rw [List.isChain_append]
        refine ⟨hdistinct, .singleton s, fun t ht u hu => ?_⟩
        rw [getLast?_undoStack, Option.mem_some_iff] at ht
        rw [List.head?_cons, Option.mem_some_iff] at hu
        subst ht hu
        simpa using hne
      unfold capped
      split
      · exact hlonger.tail
      · exact hlonger

/-! ## Moves of the cursor -/

omit [BEq σ]

theorem undo?_eq_none_iff {h : History σ} : h.undo? = none ↔ h.depth = 1 := by
  cases hp : h.past <;> simp [undo?, depth, hp]

theorem redo?_eq_none_iff {h : History σ} : h.redo? = none ↔ h.redoStack = [] := by
  cases hf : h.future <;> simp [redo?, redoStack, hf]

theorem depth_of_undo? {h h' : History σ} (hu : h.undo? = some h') : h'.depth + 1 = h.depth := by
  cases hp : h.past with
  | nil => simp [undo?, hp] at hu
  | cons s rest =>
    simp only [undo?, hp, Option.some.injEq] at hu
    subst hu
    simp [depth, hp]

theorem limit_of_undo? {h h' : History σ} (hu : h.undo? = some h') : h'.limit = h.limit := by
  cases hp : h.past with
  | nil => simp [undo?, hp] at hu
  | cons s rest =>
    simp only [undo?, hp, Option.some.injEq] at hu
    subst hu
    rfl

/-- Where there is room for two states, a step back leads from an added one to the one before. -/
theorem undo?_push {h : History σ} (hl : 2 ≤ h.limit) (s : σ) :
    ∃ r, (h.push s).undo? = some r ∧ r.current = h.current := by
  have hpast : ∃ rest, (h.push s).past = h.current :: rest := by
    unfold push
    cases hp : h.past with
    | nil => exact ⟨[], if_neg (by simp only [List.length_singleton]; omega)⟩
    | cons t rest =>
      dsimp only
      split
      · exact ⟨(t :: rest).dropLast, rfl⟩
      · exact ⟨t :: rest, rfl⟩
  obtain ⟨rest, hrest⟩ := hpast
  refine ⟨⟨h.limit, rest, h.current, [s]⟩, ?_, rfl⟩
  simp only [undo?, hrest]
  rfl

/-- A step forth is undone by a step back. -/
theorem undo?_of_redo? {h h' : History σ} (hr : h.redo? = some h') : h'.undo? = some h := by
  unfold redo? at hr
  split at hr
  · contradiction
  next s rest hf =>
    cases hr
    cases h
    simp_all [undo?]

theorem depth_of_redo? {h h' : History σ} (hr : h.redo? = some h') : h'.depth = h.depth + 1 :=
  (depth_of_undo? (undo?_of_redo? hr)).symm

theorem limit_of_redo? {h h' : History σ} (hr : h.redo? = some h') : h'.limit = h.limit :=
  (limit_of_undo? (undo?_of_redo? hr)).symm

end History

end Whiteboard
