import Formulary.CommandLine

/-!
# The program

Reads the files that the command line names, runs the command on their texts, and prints or writes
what it comes to.
-/

namespace Formulary.CommandLine

/-- The text of a file, if it can be read. -/
def readFile (path : String) : IO (Option String) := do
  try return some (← IO.FS.readFile path)
  catch _ => return none

/-- Writes the text of an outcome if it has one; tells whether that worked. -/
def writeFile : Outcome → IO Bool
  | .write path content => do
    try
      IO.FS.writeFile path content
      return true
    catch _ => return false
  | _ => return true

/-- Does what the words want. -/
def runWords (words : List String) : IO Outcome :=
  match Request.ofWords? words with
  | none => return .misuse
  | some request => do
    let texts ← request.inputs.mapM fun path => do return (path, ← readFile path)
    return request.answer fun path => (texts.lookup path).bind id

end Formulary.CommandLine

def main (words : List String) : IO UInt32 := do
  let outcome ← Formulary.CommandLine.runWords words
  let written ← Formulary.CommandLine.writeFile outcome
  let (report, code) := outcome.finish written
  (← IO.getStdout).putStr report.out
  (← IO.getStderr).putStr report.err
  return code.toUInt32
