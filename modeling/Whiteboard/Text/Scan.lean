import Whiteboard.Text.Blank

/-!
# Scanning

Small recognizers at the front of a text.
-/

namespace Whiteboard.Text

/-- Whether the characters of `part` stand somewhere in a text. -/
def contains (part : List Char) : List Char → Bool
  | [] => part.isEmpty
  | c :: rest => part.isPrefixOf (c :: rest) || contains part rest

/-- Cuts a text at the first place where `mark` stands: what is before it and what is behind. -/
def cutAt? (mark : List Char) : List Char → Option (List Char × List Char)
  | [] => if mark.isEmpty then some ([], []) else none
  | c :: rest =>
    if mark.isPrefixOf (c :: rest) then some ([], (c :: rest).drop mark.length)
    else (cutAt? mark rest).map fun (before, after) => (c :: before, after)

/-- The text behind `word`, if it starts with it. -/
def dropWord? (word cs : List Char) : Option (List Char) :=
  if word.isPrefixOf cs then some (cs.drop word.length) else none

/-- The text behind a lower-case ASCII word, if it starts with it in any case. -/
def dropAnyCase? : List Char → List Char → Option (List Char)
  | [], cs => some cs
  | _ :: _, [] => none
  | w :: word, c :: cs => if c.toLower = w then dropAnyCase? word cs else none

/-- The text behind at least one blank. -/
def dropBlanks? (cs : List Char) : Option (List Char) :=
  let (blanks, rest) := spanBlank cs
  if blanks.isEmpty then none else some rest

theorem length_cutAt? {mark cs before after : List Char}
    (h : cutAt? mark cs = some (before, after)) : after.length ≤ cs.length := by
  induction cs generalizing before after with
  | nil =>
    unfold cutAt? at h
    split at h
    · simp only [Option.some.injEq, Prod.mk.injEq] at h
      simp [← h.2]
    · contradiction
  | cons c rest ih =>
    unfold cutAt? at h
    split at h
    · simp only [Option.some.injEq, Prod.mk.injEq] at h
      simp only [← h.2, List.length_drop]
      omega
    · obtain ⟨⟨b, a⟩, hcut, hpair⟩ := Option.map_eq_some_iff.mp h
      simp only [Prod.mk.injEq] at hpair
      have := ih hcut
      simp only [List.length_cons, ← hpair.2]
      omega

end Whiteboard.Text
