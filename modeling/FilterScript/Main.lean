import FilterScript.CommandLine

/-! # The program

Reads the file that the command line names and prints what checking it gives.
-/

namespace FilterScript

/-- Read a file as bytes. -/
def readContent (name : String) : IO FileContent := do
  try
    return .ok (← IO.FS.readBinFile name)
  catch error =>
    return .error <|
      match error with
      | .noFileOrDirectory .. => .notFound
      | .permissionDenied .. => .permissionDenied
      | .inappropriateType .. => .isDirectory
      | other => .other (toString other)

/-- Print a result and give its code. -/
def ProgramResult.print (result : ProgramResult) : IO UInt32 := do
  IO.print result.output
  IO.eprint result.log
  return result.code.toUInt32

/-- Do what the words of a command line ask for. -/
def runCommand (words : List String) : IO UInt32 := do
  match Plan.ofWords words with
  | .finish result => result.print
  | .checkFile flags name => (checkFile flags name (← readContent name)).print

end FilterScript

def main (words : List String) : IO UInt32 :=
  FilterScript.runCommand words
