import DocComments.Report.Json
import DocComments.Text.Cells
import DocComments.Text.Lines

/-!
# Reports as trees

Each file is drawn as a tree of its declarations, with lines that join a declaration to its
members. A label of several lines keeps its place in the drawing.
-/

namespace DocComments.Report

/-- The names of the parameters of a documented constructor. -/
def constructorLabel : TypeExpr → String
  | .classType (some (parameter :: parameters)) =>
    let names := (parameter :: parameters).map fun p => (p.name.filter (!·.isEmpty)).getD "?"
    " constructor(" ++ ", ".intercalate names ++ ")"
  | _ => ""

/-- The label of a declaration: its name and its type as it is written, or the kind of its type. -/
def label (heading : Heading) : String :=
  heading.name ++
    (match heading.spec with
      | some spec => " :: " ++ spec
      | none => " (" ++ heading.type.kind ++ ")") ++
    constructorLabel heading.type

/-- The lines of a text as a terminal shows them. -/
def shownLines (text : String) : List String :=
  (Text.splitLines text.toList).map fun line => String.ofList (Text.onTerminal line)

/-- A label whose first line stands behind `first` and whose other lines stand behind `other`. -/
def drawLabel (first other : String) (text : String) : String :=
  match shownLines text with
  | [] => ""
  | line :: lines =>
    first ++ line ++ "\n" ++ String.join (lines.map fun line => other ++ line ++ "\n")

mutual

/-- A declaration with its members, behind the guides of what is above it. -/
def drawDeclaration (guides : String) (last : Bool) : Declaration → String
  | ⟨_, heading, members⟩ =>
    let below := guides ++ if last then "    " else "│   "
    drawLabel (guides ++ if last then "└── " else "├── ") below (label heading) ++
      drawMembers below members

/-- The members of a declaration, behind the guides of what is above them. -/
def drawMembers (guides : String) : Option (List Declaration) → String
  | none => ""
  | some members => drawDeclarations guides members

/-- Declarations side by side, behind the guides of what is above them. -/
def drawDeclarations (guides : String) : List Declaration → String
  | [] => ""
  | declaration :: rest =>
    drawDeclaration guides rest.isEmpty declaration ++ drawDeclarations guides rest

end

/-- The tree of a file. -/
def drawFile (file : FileDeclarations) : String :=
  drawLabel "" "" file.path ++
    if file.declarations.isEmpty then "└── no declarations\n"
    else drawDeclarations "" file.declarations

/-- The text of the report with trees. -/
def treeText (files : List FileDeclarations) : String :=
  String.join (files.map drawFile) ++ "\n" ++ toString (total files) ++
    " top-level declaration(s) in " ++ toString files.length ++ " file(s)\n"

end DocComments.Report
