import Whiteboard.Diagram.Source

/-!
# Sample diagrams

A sample source for each format, and for the three kinds of diagrams of the last one.
-/

namespace Whiteboard.Diagram

def sampleFlowchart : String := "\n".intercalate
  ["graph TD",
    "    A[Start] --> B\x7bDecide\x7d",
    "    B -->|yes| C[Process]",
    "    B -->|no| D[Finish]",
    "    C --> D"]

def sampleOutline : String := "\n".intercalate
  ["- Project kickoff",
    "  - Requirements",
    "    - User research",
    "    - Competitor analysis",
    "  - Design",
    "    - UI design",
    "    - Interaction design",
    "- Development",
    "  - Frontend",
    "  - Backend",
    "  - Testing",
    "- Release"]

def sampleClasses : String := "\n".intercalate
  ["@startuml",
    "class User \x7b",
    "  -name: string",
    "  -email: string",
    "  +login()",
    "  +logout()",
    "\x7d",
    "",
    "class Order \x7b",
    "  -id: number",
    "  -total: number",
    "  +calculate()",
    "\x7d",
    "",
    "class Product \x7b",
    "  -name: string",
    "  -price: number",
    "\x7d",
    "",
    "User --> Order : places",
    "Order --> Product : contains",
    "@enduml"]

def sampleSequence : String := "\n".intercalate
  ["@startuml",
    "participant User",
    "participant System",
    "participant Database",
    "",
    "User -> System: login request",
    "System -> Database: query user",
    "Database -> System: user record",
    "System -> User: login ok",
    "@enduml"]

def sampleActivity : String := "\n".intercalate
  ["@startuml",
    "start",
    ":Sign in;",
    ":Verify identity;",
    "if (verified?) then",
    "  :Show home page;",
    "else",
    "  :Show error;",
    "endif",
    ":Done;",
    "stop",
    "@enduml"]

/-- The sample of a format; `variant` picks a kind of diagram, classes if it names none. -/
def sample (format : Format) (variant : String) : String :=
  match format with
  | .flowchart => sampleFlowchart
  | .outline => sampleOutline
  | .uml =>
    if variant = "sequence" then sampleSequence
    else if variant = "activity" then sampleActivity
    else sampleClasses

end Whiteboard.Diagram
