import DocComments.Command

/-!
# The program

Reads the files that the command line names, and prints what the command gives.
-/

namespace DocComments

/-- The contents of the files that can be read, by path. -/
def readFiles (paths : List String) : IO (List (String × List UInt8)) := do
  let mut files := #[]
  for path in paths do
    try
      let bytes ← IO.FS.readBinFile path
      files := files.push (path, bytes.toList)
    catch _ => pure ()
  return files.toList

end DocComments

open DocComments in
/-- Runs the command line. -/
def main (words : List String) : IO UInt32 := do
  let options := Command.readOptions false none {} (words.drop 1)
  let files ← readFiles (options.paths.map Command.location)
  let outcome := Command.run words fun path => files.lookup path
  IO.print outcome.output
  return outcome.status.toUInt32
