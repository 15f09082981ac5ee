import Mathlib
import Whiteboard.Proofs.Diagram.Outline.Ancestry
import Whiteboard.Proofs.Graph.Rows
import Whiteboard.Proofs.Scalar.Exact
import Whiteboard.Proofs.Scalar.Product

/-!
# Rows of an outline's text

For the texts of outlines, the layout gives each node one place, at the height of its row, and the
heights follow the levels exactly if the rows of decisions and trunk nodes agree
(`Diagram.Outline.inRows_of_parse`). Doubles are taken as they are, rounded; the multiples of a step
are still told apart.
-/

namespace Whiteboard

namespace Pitch

/-- The height of a level is held: a whole one exactly, any other one if it is finite. -/
def InRange (pitch : Pitch Double) (level : Int) : Prop :=
  level ≤ 2 ^ 51 ∧
    match pitch with
    | whole distance => distance.natAbs < 2 ^ 53 ∧ level * distance < 2 ^ 53
    | scalar distance => Scalar.isFinite (Scalar.ofInt level * distance) = true

instance : (pitch : Pitch Double) → (level : Int) → Decidable (pitch.InRange level)
  | whole distance, level =>
    inferInstanceAs (Decidable (level ≤ 2 ^ 51 ∧ distance.natAbs < 2 ^ 53 ∧
      level * distance < 2 ^ 53))
  | scalar distance, level =>
    inferInstanceAs (Decidable (level ≤ 2 ^ 51 ∧
      Scalar.isFinite (Scalar.ofInt level * distance) = true))

variable {last : Int}

theorem ascends_ofField {α : Type} [Field α] [LinearOrder α] [FloorRing α] [Trigonometry α]
    [IsStrictOrderedRing α] {pitch : Pitch α} (hstep : 0 < pitch.step) (last : Int) :
    pitch.Ascends last where
  reach i _ _ := by
    cases pitch with
    | whole distance => exact congrArg Except.ok (Int.cast_mul i distance)
    | scalar distance => rfl
  lt i j _ hij _ := mul_lt_mul_of_pos_right (Int.cast_lt.mpr hij) hstep

theorem ascends_whole {distance : Nat} (hpos : 0 < distance) (hdistance : distance < 2 ^ 53)
    (hlast : last ≤ 2 ^ 51) (h : last * distance < 2 ^ 53) :
    (whole distance : Pitch Double).Ascends last := by
  have hprod (i : Nat) (hi : i ≤ last) : i * distance < 2 ^ 53 := by
    have := Int.mul_le_mul_of_nonneg_right hi (Int.natCast_nonneg distance)
    omega
  have hmul (i : Nat) (hi : i ≤ last) :
      (Scalar.ofInt i * Scalar.ofInt distance : Double)
        = Scalar.ofInt ((i * distance : Nat) : Int) :=
    Double.ofInt_mul_ofInt (by omega) hpos hdistance (hprod i hi)
  constructor
  · intro i hi hlast
    lift i to Nat using hi
    have hholds : Scalar.holdsInt Double (i * distance) = true :=
      Double.holdsInt_of_lt (hprod i hlast)
    rw [reach, if_pos hholds, step, hmul i hlast]
    rfl
  · intro i j hi hij hj
    lift i to Nat using hi
    lift j to Nat using (by omega)
    have hstep : (0 : Double) < Scalar.ofInt distance :=
      LawfulScalar.ofInt_pos (by omega) hdistance
    have hfinite : Scalar.isFinite (Scalar.ofInt j * Scalar.ofInt distance : Double) = true := by
      rw [hmul j hj]
      exact LawfulScalar.isFinite_ofInt (hprod j hj)
    exact (Double.ofInt_mul_lt_ofInt_mul hstep (by omega) (by omega) hfinite).2

theorem ascends_scalar {distance : Double} (hpos : 0 < distance) (hlast : last ≤ 2 ^ 51)
    (h : Scalar.isFinite (Scalar.ofInt last * distance) = true) :
    (scalar distance).Ascends last := by
  constructor
  · intro i hi hlast
    have hholds : Scalar.holdsInt Double i = true := Double.holdsInt_of_lt (by omega)
    rw [reach, if_pos hholds]
    rfl
  · intro i j hi hij hj
    lift i to Nat using hi
    lift j to Nat using (by omega)
    have hfinite : Scalar.isFinite (Scalar.ofInt j * distance) = true := by
      rcases hj.lt_or_eq with hlt | rfl
      · lift last to Nat using (by omega)
        exact (Double.ofInt_mul_lt_ofInt_mul hpos (by omega) (by omega) h).1
      · exact h
    exact (Double.ofInt_mul_lt_ofInt_mul hpos (by omega) (by omega) hfinite).2

theorem ascends_of_inRange {pitch : Pitch Double} (hstep : 0 < pitch.step)
    (h : pitch.InRange last) : pitch.Ascends last := by
  obtain ⟨hlast, hheld⟩ := h
  cases pitch with
  | whole distance =>
    obtain ⟨hdistance, hheld⟩ := hheld
    have hpos := Double.pos_of_ofInt_pos hdistance hstep
    lift distance to Nat using hpos.le
    exact ascends_whole (by omega) hdistance hlast hheld
  | scalar distance => exact ascends_scalar hstep hlast hheld

end Pitch

namespace Diagram.Outline

open Whiteboard.Graph Layout

/-- The layout of an outline's text. Each node has one place, at the height of its row; and nodes of
a level are at one height, deeper ones further down, exactly if every decision that is not deeper
than a trunk node is above the row of that node or no level above the node lacks a row. -/
theorem inRows_of_parse {source : Option String} {g : Graph} (h : parse source = .ok g) :
    (∀ pitch : Pitch Double, 0 < pitch.step → (∀ n ∈ g.nodes, pitch.InRange n.depth) →
      ∃ l, outline g pitch = .ok l ∧ l.InRows g pitch.step) ∧
    ∀ (α : Type) [Field α] [LinearOrder α] [FloorRing α] [Trigonometry α] [IsStrictOrderedRing α]
      (pitch : Pitch α), 0 < pitch.step → ∃ l, outline g pitch = .ok l ∧ l.InRows g pitch.step := by
  obtain ⟨lines, -, rfl, hne⟩ := exists_lines_of_parse h
  have hids := (wellFormed_readLines lines).nodup
  have hlevels : ∀ n ∈ (readLines lines).nodes, 0 ≤ n.depth := by
    intro n hn
    obtain ⟨level, hlevel⟩ := exists_level_readLines lines n hn
    rw [Node.depth, hlevel]
    exact Int.natCast_nonneg level
  obtain ⟨deepest, hdeepest, hmost⟩ : ∃ m ∈ (readLines lines).nodes,
      ∀ n ∈ (readLines lines).nodes, n.depth ≤ m.depth := by
    have hlevels : ((readLines lines).nodes.map Node.depth).toFinset.Nonempty := by
      rwa [List.toFinset_nonempty_iff, ne_eq, List.map_eq_nil_iff]
    obtain ⟨last, hlast, hmost⟩ := Finset.exists_max_image _ id hlevels
    obtain ⟨m, hm, rfl⟩ := List.mem_map.mp (List.mem_toFinset.mp hlast)
    exact ⟨m, hm, fun n hn => hmost n.depth (List.mem_toFinset.mpr (List.mem_map_of_mem hn))⟩
  have hrange : ∀ n ∈ (readLines lines).nodes, 0 ≤ n.depth ∧ n.depth ≤ deepest.depth :=
    fun n hn => ⟨hlevels n hn, hmost n hn⟩
  constructor
  · intro pitch hstep hheld
    exact exists_inRows (Pitch.ascends_of_inRange hstep (hheld deepest hdeepest)) hids hrange
  · intro α _ _ _ _ _ pitch hstep
    exact exists_inRows (Pitch.ascends_ofField hstep deepest.depth) hids hrange

/-- A level without a trunk node, below the only decision. -/
theorem inRows_of_parse_skip :
    let g := readLines (Text.lines "- a\n- b?\n    - c\n      - d".toList)
    let steps : List (Pitch Double) := [.whole 220, .scalar 0.1]
    parse (some "- a\n- b?\n    - c\n      - d") = .ok g ∧
      g.nodes.map Node.depth = [0, 0, 2, 3] ∧ g.nodes.map g.row = [0, 0, 1, 2] ∧
      (∀ pitch ∈ steps, 0 < pitch.step ∧ (∀ n ∈ g.nodes, pitch.InRange n.depth) ∧
        ∃ l, outline g pitch = .ok l ∧ l.InRows g pitch.step ∧ l.FollowsLevels g) ∧
      (0 : ℝ) < (Pitch.scalar (1 / 3) : Pitch ℝ).step ∧
      ∃ l, outline g (.scalar (1 / 3) : Pitch ℝ) = .ok l ∧ l.InRows g (1 / 3) := by
  intro g steps
  have hparse : parse (some "- a\n- b?\n    - c\n      - d") = .ok g := by decide +kernel
  have hagree : g.RowsAgree := by decide +kernel
  have hsteps : ∀ pitch ∈ steps, 0 < pitch.step ∧ ∀ n ∈ g.nodes, pitch.InRange n.depth := by
    decide +kernel
  have hreal : (0 : ℝ) < (Pitch.scalar (1 / 3) : Pitch ℝ).step := one_div_pos.mpr three_pos
  obtain ⟨hdouble, hexact⟩ := inRows_of_parse hparse
  refine ⟨hparse, by decide +kernel, by decide +kernel, fun pitch hpitch => ?_, hreal,
    hexact ℝ _ hreal⟩
  obtain ⟨hpos, hrange⟩ := hsteps pitch hpitch
  obtain ⟨l, hl, hrows⟩ := hdouble pitch hpos hrange
  exact ⟨hpos, hrange, l, hl, hrows, hrows.followsLevels_iff.mpr hagree⟩

/-- A trunk node is at the height of a decision that is less deep, and not at that of a decision of
its own level. -/
theorem exists_not_followsLevels : ∃ (g : Graph) (l : Layout Double),
    parse (some "- a?\n  - b\n  - c?") = .ok g ∧ outline g (.whole 220) = .ok l ∧
      g.nodes.map (fun n => (n.id, n.depth)) = [("node0", 0), ("node1", 1), ("node2", 1)] ∧
      l.height? "node0" = some 0 ∧ l.height? "node1" = some 0 ∧ l.height? "node2" = some 220 ∧
      ¬ l.FollowsLevels g := by
  let g := readLines (Text.lines "- a?\n  - b\n  - c?".toList)
  have hascends : (Pitch.whole 220 : Pitch Double).Ascends 1 :=
    Pitch.ascends_of_inRange (by decide +kernel) (by decide +kernel)
  obtain ⟨l, hl, hrows⟩ := exists_inRows hascends (g := g) (by decide +kernel) (by decide +kernel)
  have hrow : g.nodes.map (fun n => (n.id, g.row n))
      = [("node0", 0), ("node1", 0), ("node2", 1)] := by
    decide +kernel
  have hheight (id : String) (i : Nat)
      (hid : (id, (i : Int)) ∈ [("node0", (0 : Int)), ("node1", 0), ("node2", 1)]) :
      l.height? id = some (Scalar.ofInt i * Scalar.ofInt (220 : Nat)) := by
    rw [← hrow] at hid
    obtain ⟨n, hn, heq⟩ := List.mem_map.mp hid
    rw [Prod.mk.injEq] at heq
    rw [← heq.1, ← heq.2]
    exact hrows.height n hn
  have hmul (i : Nat) (hi : i ≤ 1) :
      (Scalar.ofInt i * Scalar.ofInt (220 : Nat) : Double) = Scalar.ofInt ((i * 220 : Nat) : Int) :=
    Double.ofInt_mul_ofInt (by omega) (by decide) (by decide) (by omega)
  refine ⟨g, l, by decide +kernel, hl, by decide +kernel, ?_, ?_, ?_, ?_⟩
  · rw [hheight "node0" 0 (by decide), hmul 0 (by decide)]
    rfl
  · rw [hheight "node1" 0 (by decide), hmul 0 (by decide)]
    rfl
  · rw [hheight "node2" 1 (by decide), hmul 1 (by decide)]
    rfl
  · rw [hrows.followsLevels_iff]
    decide +kernel

end Diagram.Outline

end Whiteboard
