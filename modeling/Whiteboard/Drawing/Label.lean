/-!
# Labels

Labels are broken into lines of a fixed width, wherever the width is reached. A space at which a
line breaks is left out.
-/

namespace Whiteboard.Label

/-- The width of a line in the label of a node. -/
def width : Nat := 20

/-- The lines of a text from a line begun on. A line is begun by the character that does not fit. -/
def linesFrom (width : Int) (line : List Char) : List Char → List (List Char)
  | [] => if line.isEmpty then [] else [line]
  | c :: rest =>
    if width ≤ line.length then line :: linesFrom width (if c = ' ' then [] else [c]) rest
    else linesFrom width (line ++ [c]) rest

/-- A text broken into lines; a text that fits stays as it is. -/
def wrap (width : Int) (text : List Char) : List Char :=
  if text.isEmpty || text.length ≤ width then text
  else ['\n'].intercalate (linesFrom width [] text)

end Whiteboard.Label
