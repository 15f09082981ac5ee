import Whiteboard.Board.Edit
import Whiteboard.Decimal.Fixed
import Whiteboard.Gesture.Session
import Whiteboard.Main
import Whiteboard.Rendering
import Whiteboard.Service
import Whiteboard.Proofs.Archive
import Whiteboard.Proofs.Board.Attachment
import Whiteboard.Proofs.Board.Piecemeal
import Whiteboard.Proofs.Board.Refusal
import Whiteboard.Proofs.Board.Regrouping
import Whiteboard.Proofs.Board.Selection
import Whiteboard.Proofs.Board.Stack
import Whiteboard.Proofs.Board.Topmost
import Whiteboard.Proofs.Board.Undo
import Whiteboard.Proofs.Broadcast.Following
import Whiteboard.Proofs.Diagram.Flowchart.Label
import Whiteboard.Proofs.Diagram.Flowchart.Precedence
import Whiteboard.Proofs.Diagram.Flowchart.Printing
import Whiteboard.Proofs.Diagram.Outline.Indentation
import Whiteboard.Proofs.Diagram.Outline.Rows
import Whiteboard.Proofs.Diagram.Uml.Message
import Whiteboard.Proofs.Diagram.Uml.Order
import Whiteboard.Proofs.Document.Stepwise
import Whiteboard.Proofs.Document.Supply
import Whiteboard.Proofs.Drawing.Source
import Whiteboard.Proofs.Gesture.Session
import Whiteboard.Proofs.Gesture.Timing
import Whiteboard.Proofs.Graph.Crossing
import Whiteboard.Proofs.Service.Changes
import Whiteboard.Proofs.Document.BoundAnew
import Whiteboard.Proofs.Board.Rotation
import Whiteboard.Proofs.Gesture.Drag
import Whiteboard.Proofs.Drawing.Packing
import Whiteboard.Proofs.Gesture.Guide
import Whiteboard.Proofs.Gesture.Refusal
import Whiteboard.Proofs.Document.Ends
import Whiteboard.Proofs.Graph.Finding
import Whiteboard.Proofs.Board.Creation
import Whiteboard.Proofs.Board.Clipboard
import Whiteboard.Proofs.Scalar.Halves
import Whiteboard.Proofs.Drawing.Curve
import Whiteboard.Proofs.Drawing.Fan
import Whiteboard.Proofs.Gesture.Slot
import Whiteboard.Proofs.Document.Nearest
import Whiteboard.Proofs.Document.Hit
import Whiteboard.Proofs.Diagram.Outline.Detection
import Whiteboard.Proofs.Drawing.Wrapping
import Whiteboard.Proofs.Drawing.Border
