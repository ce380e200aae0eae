import FilterScript.Check

/-! # The command line

The program takes options and the name of one file. It prints about the script
in that file and ends with zero if the script is accepted. Words are read from
left to right, and the first that asks for the version or cannot be understood
decides.
-/

namespace FilterScript

/-- The options of the program. -/
inductive Flag where
  | listTokens | showTree | verbose | version
deriving DecidableEq, Repr

namespace Flag

/-- The option with this name behind two dashes. -/
def ofName? : String → Option Flag
  | "dump-tokens" => some listTokens
  | "dump-ast" => some showTree
  | "verbose" => some verbose
  | "version" => some version
  | _ => none

/-- The option with this letter behind a single dash. -/
def ofLetter? : Char → Option Flag
  | 'v' => some verbose
  | 'V' => some version
  | _ => none

end Flag

/-- Why a command line cannot be understood. -/
inductive UsageError where
  | unknownOption (word : String)
  | repeatedOption (word : String)
  | emptyName
  | severalFiles
  | noFile
deriving DecidableEq, Repr

def UsageError.describe : UsageError → String
  | unknownOption word => s!"unknown option {word}"
  | repeatedOption word => s!"repeated option {word}"
  | emptyName => "empty file name"
  | severalFiles => "more than one input file"
  | noFile => "no input file"

/-- What ends the reading of a command line before its end. -/
inductive Interruption where
  | version
  | misuse (error : UsageError)
deriving DecidableEq, Repr

/-- What the words of a command line ask for. -/
structure Arguments where
  flags : List Flag
  input : Option String
deriving DecidableEq, Repr

namespace Arguments

def empty : Arguments :=
  ⟨[], none⟩

/-- Add an option that a word asks for. None is asked for twice, and the version
is shown at once. -/
def addFlag (arguments : Arguments) (word : String) : Option Flag → Except Interruption Arguments
  | none => .error (.misuse (.unknownOption word))
  | some .version => .error .version
  | some flag =>
      if flag ∈ arguments.flags then .error (.misuse (.repeatedOption word))
      else .ok { arguments with flags := arguments.flags ++ [flag] }

/-- Add the name of the file. -/
def addFile (arguments : Arguments) (name : String) : Except Interruption Arguments :=
  if arguments.input.isSome then .error (.misuse .severalFiles)
  else if name = "" then .error (.misuse .emptyName)
  else .ok { arguments with input := some name }

/-- Add what a word asks for: an option with a name, options with letters, or a
file. A dash alone is a file like any other. -/
def addWord (arguments : Arguments) (word : String) : Except Interruption Arguments :=
  match word.toList with
  | '-' :: '-' :: name => arguments.addFlag word (Flag.ofName? (String.ofList name))
  | '-' :: first :: rest =>
      (first :: rest).foldlM
        (fun arguments letter => arguments.addFlag word (Flag.ofLetter? letter)) arguments
  | _ => arguments.addFile word

/-- Add what words ask for. Behind two dashes alone there are only files. -/
def addWords (arguments : Arguments) : List String → Except Interruption Arguments
  | [] => .ok arguments
  | word :: rest =>
      if word = "--" then rest.foldlM addFile arguments
      else do (← arguments.addWord word).addWords rest

/-- What a whole command line asks for. -/
def ofWords (words : List String) : Except Interruption Arguments :=
  empty.addWords words

end Arguments

/-- Why a file cannot be read. -/
inductive ReadFailure where
  | notFound
  | permissionDenied
  | isDirectory
  | other (reason : String)
deriving DecidableEq, Repr

def ReadFailure.describe : ReadFailure → String
  | notFound => "No such file or directory (os error 2)"
  | permissionDenied => "Permission denied (os error 13)"
  | isDirectory => "Is a directory (os error 21)"
  | other reason => reason

/-- What a file holds, if it can be read. -/
abbrev FileContent :=
  Except ReadFailure ByteArray

/-- What the program prints on its two channels, and the code it ends with. -/
structure ProgramResult where
  code : Nat
  output : String
  log : String
deriving DecidableEq, Repr

namespace ProgramResult

/-- Stop with a message. -/
def failure (message : String) : ProgramResult :=
  ⟨1, "", s!"error: {message}\n"⟩

/-- Stop because the command line cannot be understood. -/
def misuse (error : UsageError) : ProgramResult :=
  ⟨2, "", s!"error: {error.describe}\n"⟩

end ProgramResult

/-- The name and version of the program. -/
def versionLine : String :=
  "rotoc 0.1.0\n"

/-- Check the script in a file. -/
def checkFile (flags : List Flag) (name : String) (content : FileContent) : ProgramResult :=
  match content with
  | .error reason => .failure s!"failed to read {name}: {reason.describe}"
  | .ok content =>
      match String.fromUTF8? content with
      | none => .failure s!"failed to read {name}: stream did not contain valid UTF-8"
      | some source =>
          let config : CheckConfig :=
            ⟨⟨.listTokens ∈ flags, .showTree ∈ flags⟩, .verbose ∈ flags⟩
          let checked := check config name source
          match checked.outcome with
          | .error _ =>
              ⟨1, "", checked.log ++ (ProgramResult.failure s!"could not parse {name}").log⟩
          | .ok _ =>
              ⟨0, "", checked.log ++
                if .verbose ∈ flags then s!"Parsed {name} successfully\n" else ""⟩

/-- What to do about a command line: print something at once, or look into a
file first. -/
inductive Plan where
  | finish (result : ProgramResult)
  | checkFile (flags : List Flag) (name : String)

/-- Decide what the words of a command line ask for. -/
def Plan.ofWords (words : List String) : Plan :=
  match Arguments.ofWords words with
  | .error .version => .finish ⟨0, versionLine, ""⟩
  | .error (.misuse error) => .finish (.misuse error)
  | .ok ⟨_, none⟩ => .finish (.misuse .noFile)
  | .ok ⟨flags, some name⟩ => .checkFile flags name

/-- The whole program on files that hold what `contentOf` says. -/
def runProgram (words : List String) (contentOf : String → FileContent) : ProgramResult :=
  match Plan.ofWords words with
  | .finish result => result
  | .checkFile flags name => checkFile flags name (contentOf name)

end FilterScript
