/-!
# Spans

Cutting a text behind the longest front part of a class of characters.
-/

namespace Whiteboard.Text

/-- The longest front part whose characters are all in a class, and the rest. -/
def span (p : Char → Bool) (cs : List Char) : List Char × List Char :=
  (cs.takeWhile p, cs.dropWhile p)

theorem append_span (p : Char → Bool) (cs : List Char) : (span p cs).1 ++ (span p cs).2 = cs :=
  List.takeWhile_append_dropWhile

theorem length_span_snd (p : Char → Bool) (cs : List Char) :
    (span p cs).2.length ≤ cs.length :=
  (List.dropWhile_suffix p).length_le

end Whiteboard.Text
