import DocComments.Declaration.Json

/-!
# Reports as JSON

The declarations of every file with a summary.
-/

namespace DocComments

/-- The declarations of a file. -/
structure FileDeclarations where
  path : String
  declarations : List Declaration

namespace Report

/-- The number of declarations at the top of all files. -/
def total (files : List FileDeclarations) : Nat :=
  files.foldl (fun count file => count + file.declarations.length) 0

/-- The declarations of a file as JSON. -/
def fileJson (file : FileDeclarations) : Json :=
  .object [("path", .text file.path),
    ("declarations", .array (Declaration.jsonList file.declarations))]

/-- The report as JSON. -/
def json (files : List FileDeclarations) : Json :=
  .object [("files", .array (files.map fileJson)),
    ("summary", .object [("files", .int files.length), ("declarations", .int (total files))])]

/-- The text of the JSON report. -/
def jsonText (files : List FileDeclarations) : String :=
  (json files).render ++ "\n"

end Report

end DocComments
