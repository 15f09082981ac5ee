import Whiteboard.Diagram.Uml.Relation

/-!
# Messages

A message stands between two names that need not be words: the sender, an arrow, the receiver and
perhaps a label behind a colon. The sender is as short as it can be, and so is the receiver.
-/

namespace Whiteboard.Diagram.Uml

/-- The texts behind an arrow, for each way to read one at the front of a text. A way that swaps
sender and receiver is marked `true`. -/
def arrowsAt (cs : List Char) : List (Bool × List Char) :=
  let (dashes, afterDashes) := Text.span (· == '-') cs
  let forwards : List (Bool × List Char) :=
    if dashes.isEmpty then []
    else
      match afterDashes with
      | '>' :: rest => [(false, rest)]
      | '<' :: '>' :: rest => [(false, rest), (false, '>' :: rest)]
      | '<' :: rest => [(false, rest)]
      | _ => []
  let backwards : List (Bool × List Char) :=
    match cs with
    | '<' :: rest =>
      let (dashes, after) := Text.span (· == '-') rest
      let shorter := (List.range dashes.length).map fun n => (true, List.replicate n '-' ++ after)
      match dashes, after with
      | _ :: _, '>' :: tail => shorter ++ [(false, tail)]
      | _, _ => shorter
    | _ => []
  forwards ++ backwards

/-- The receiver, after the characters `taken` of it in reverse, and the label behind it. -/
def receiverFrom (taken : List Char) : List Char → List Char × List Char
  | [] => (taken.reverse, [])
  | c :: rest =>
    match labelBehind? rest with
    | some label => ((c :: taken).reverse, label)
    | none => receiverFrom (c :: taken) rest

/-- What stands behind the sender: an arrow with something behind it. -/
def messageBehind? (sender rest : List Char) : Option Edge :=
  match (arrowsAt (Text.trimLeft rest)).find? (!·.2.isEmpty) with
  | none => none
  | some (swapped, after) =>
    let (receiver, label) := receiverFrom [] (Text.trimLeft after)
    let sender := String.ofList (Text.trim sender)
    let receiver := String.ofList (Text.trim receiver)
    let label := String.ofList (Text.trim label)
    some (if swapped then ⟨receiver, sender, label, .arrow⟩ else ⟨sender, receiver, label, .arrow⟩)

/-- A message whose sender begins with the characters `taken`, in reverse, and one more. -/
def messageFrom? (taken : List Char) : List Char → Option Edge
  | [] => none
  | c :: rest => (messageBehind? (c :: taken).reverse rest).or (messageFrom? (c :: taken) rest)

/-- The message in a line without blanks around it. -/
def message? (line : List Char) : Option Edge := messageFrom? [] line

end Whiteboard.Diagram.Uml
