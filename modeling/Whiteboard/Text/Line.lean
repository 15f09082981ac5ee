/-!
# Lines

Two ways to cut a text into lines: at line feeds, as diagram sources are read, and at every line
end character, as the kind of a diagram source is guessed. Files may end lines in three ways, which
are made one when they are read.
-/

namespace Whiteboard.Text

/-- The lines of a text; a line ends at a line feed, with or without a carriage return. -/
def lines : List Char → List (List Char)
  | [] => [[]]
  | '\n' :: rest => [] :: lines rest
  | '\r' :: '\n' :: rest => [] :: lines rest
  | c :: rest =>
    match lines rest with
    | [] => [[c]]
    | line :: more => (c :: line) :: more

/-- Characters that end a line for a reader of plain text. -/
def isLineEnd (c : Char) : Bool :=
  let n := c.toNat
  (10 ≤ n && n ≤ 13) || (28 ≤ n && n ≤ 30) || n == 0x85 || n == 0x2028 || n == 0x2029

/-- The lines of a plain text, which ends lines at every line end character; what follows the
last one is a line only if it is not empty. -/
def plainLines : List Char → List (List Char)
  | [] => []
  | '\r' :: '\n' :: rest => [] :: plainLines rest
  | c :: rest =>
    if isLineEnd c then [] :: plainLines rest
    else
      match plainLines rest with
      | [] => [[c]]
      | line :: more => (c :: line) :: more

/-- A text whose lines all end with a line feed. -/
def withLineFeeds : List Char → List Char
  | [] => []
  | '\r' :: '\n' :: rest => '\n' :: withLineFeeds rest
  | c :: rest => (if c = '\r' then '\n' else c) :: withLineFeeds rest

end Whiteboard.Text
