import DocComments.Extraction
import DocComments.Report.Tree
import DocComments.Script.Program
import DocComments.Text.Utf8

/-!
# The command line

`extract` reads files and reports their declarations; `version` names the program. Options and
paths come in any order, and two dashes end the options. A file that cannot be read or extracted
is reported and passed over.
-/

namespace DocComments

/-- The version of the program. -/
def version : String := "0.1.0"

namespace Command

/-- How declarations are reported. -/
inductive Format where
  | tree
  | json
deriving DecidableEq, Repr

/-- The format that a word of the command line names. -/
def Format.ofWord? : String → Option Format
  | "rich" => some .tree
  | "json" => some .json
  | _ => none

/-- The kind of script that a word of the command line names. -/
def kindOfWord? : String → Option Script.Kind
  | "module" => some .moduleCode
  | "script" => some .script
  | _ => none

/-- What the command line asks for, in the words it was given. -/
structure Options where
  format : String := "rich"
  sourceType : String := "module"
  tolerant : Bool := false
  verbose : Bool := false
  paths : List String := []
deriving DecidableEq, Repr

/-- What a command prints, and the status it ends with. -/
structure Outcome where
  status : Nat
  output : String
deriving DecidableEq, Repr

/-- The option that takes a value under this name. -/
def setValue? (name : String) : Option (String → Options → Options) :=
  if name = "--format" ∨ name = "-f" then some fun value o => { o with format := value }
  else if name = "--source-type" ∨ name = "-s" then
    some fun value o => { o with sourceType := value }
  else none

/-- The option that is switched on by this name. -/
def setFlag? (name : String) : Option (Options → Options) :=
  if name = "--tolerant" then some fun o => { o with tolerant := true }
  else if name = "--verbose" ∨ name = "-v" then some fun o => { o with verbose := true }
  else none

/-- Reads short options written together behind one dash. An option that takes a value takes the
rest of the word; if that is empty, the option is left over for the next word. -/
def shortOptions (o : Options) : List Char → Options × Option (String → Options → Options)
  | [] => (o, none)
  | c :: rest =>
    match setValue? (String.ofList ['-', c]) with
    | some set =>
      if rest.isEmpty then (o, some set) else (set (String.ofList rest) o, none)
    | none => shortOptions (((setFlag? (String.ofList ['-', c])).getD id) o) rest

/-- Reads a long option with the value it may carry. -/
def longOption (o : Options) (word : List Char) : Options × Option (String → Options → Options) :=
  let name := String.ofList (word.takeWhile (· ≠ '='))
  match setValue? name, word.dropWhile (· ≠ '=') with
  | some set, _ :: value => (set (String.ofList value) o, none)
  | some set, [] => (o, some set)
  | none, _ => (((setFlag? name).getD id) o, none)

/-- Reads the words of the command line. An option may wait for its value; after two dashes every
word is a path. -/
def readOptions (onlyPaths : Bool) (waiting : Option (String → Options → Options)) (o : Options) :
    List String → Options
  | [] => o
  | word :: rest =>
    match waiting, onlyPaths, word.toList with
    | some set, _, _ => readOptions onlyPaths none (set word o) rest
    | none, false, ['-', '-'] => readOptions true none o rest
    | none, false, '-' :: '-' :: name =>
      let (o, waiting) := longOption o ('-' :: '-' :: name)
      readOptions false waiting o rest
    | none, false, '-' :: c :: flags =>
      let (o, waiting) := shortOptions o (c :: flags)
      readOptions false waiting o rest
    | none, _, _ => readOptions onlyPaths none { o with paths := o.paths ++ [word] } rest

/-- Does a bracket open a tag: a letter or mark, and a closing bracket before another opens? -/
def opensTag : List Char → Bool
  | [] => false
  | c :: rest =>
    (c.isLower || c == '#' || c == '/' || c == '@') &&
      (rest.find? fun d => d == ']' || d == '[') == some ']'

/-- The text without the backslashes before brackets that open no tag. -/
def unescapeBrackets : List Char → List Char
  | [] => []
  | '\\' :: '[' :: rest =>
    if opensTag rest then '\\' :: '[' :: unescapeBrackets rest else '[' :: unescapeBrackets rest
  | c :: rest => c :: unescapeBrackets rest

/-- Does the text end with one backslash and no more? -/
def endsWithBackslash (text : List Char) : Bool :=
  match text.reverse with
  | ['\\'] => true
  | '\\' :: c :: _ => c != '\\'
  | _ => false

/-- A path, a value or a reason within a message. A backslash before a bracket that opens no tag is
dropped, and one that ends the text alone is doubled. -/
def shown (text : String) : String :=
  let tail := if endsWithBackslash text.toList then "\\" else ""
  String.ofList (unescapeBrackets text.toList) ++ tail

/-- The printed lines of a message. -/
def printed (message : String) : String :=
  String.join ((Report.shownLines message).map (· ++ "\n"))

/-- The printed lines of an error message. -/
def printedError (message : String) : String :=
  printed ("Error: " ++ message)

/-- The place of a file: its path without empty parts and parts that stay in place. -/
def location (path : String) : String :=
  let parts := (path.splitOn "/").filter fun part => part ≠ "" ∧ part ≠ "."
  let root := if path.startsWith "/" then "/" else ""
  root ++ "/".intercalate parts

/-- What came of the files so far. -/
structure Progress where
  output : String := ""
  files : List FileDeclarations := []
  failed : Bool := false

/-- Reports an error and goes on. -/
def Progress.fail (progress : Progress) (message : String) : Progress :=
  { progress with output := progress.output ++ printedError message, failed := true }

/-- Reads one file and extracts its declarations. -/
def extractFile (kind : Script.Kind) (o : Options) (read : String → Option (List UInt8))
    (progress : Progress) (path : String) : Progress :=
  match read (location path) with
  | none => progress.fail ("File does not exist: " ++ shown path)
  | some bytes =>
    let started := if o.verbose then printed ("Extracting " ++ shown path) else ""
    let progress := { progress with output := progress.output ++ started }
    match Text.Utf8.decode bytes with
    | .error fault =>
      progress.fail ("Failed to read " ++ shown path ++ ": " ++ shown fault.message)
    | .ok text =>
      let source := String.ofList (Text.unifyBreaks text.toList)
      match (Script.extract { kind, tolerant := o.tolerant } source).result with
      | .error failure => progress.fail (shown path ++ ": " ++ shown failure.message)
      | .ok declarations =>
        { progress with files := progress.files ++ [⟨path, declarations⟩] }

/-- The report on files in a format. -/
def report (files : List FileDeclarations) : Format → String
  | .tree => Report.treeText files
  | .json => Report.jsonText files

/-- The command `extract`. -/
def extract (o : Options) (read : String → Option (List UInt8)) : Outcome :=
  match Format.ofWord? o.format, kindOfWord? o.sourceType with
  | none, _ => ⟨2, printedError ("Unknown format: " ++ shown o.format)⟩
  | _, none => ⟨2, printedError ("Unknown source type: " ++ shown o.sourceType)⟩
  | some format, some kind =>
    let progress := o.paths.foldl (extractFile kind o read) {}
    ⟨if progress.failed then 1 else 0, progress.output ++ report progress.files format⟩

/-- Runs the command that the words of the command line give. -/
def run (words : List String) (read : String → Option (List UInt8)) : Outcome :=
  match words with
  | "extract" :: rest => extract (readOptions false none {} rest) read
  | "version" :: _ => ⟨0, "getdocs-extractor v" ++ version ++ "\n"⟩
  | _ => ⟨2, ""⟩

end Command

end DocComments
