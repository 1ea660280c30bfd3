import ExprScript.Session
import ExprScript.Space

/-!
# The command line

The program runs a script, given as an argument or in a file, or an interactive session on standard
input. Everything but the reading and writing itself is decided here.

* `Options`, `Options.parse`: the arguments;
* `Session.reply`: what one line writes;
* `Script.run`, `Interactive.step`, `Interactive.run`: **the two ways to run**;
* `Console.run`: the whole program, given its arguments, its input and the files it can read.
-/

namespace ExprScript

/-! ## Arguments -/

/-- What the arguments ask for. Without contents the session is interactive. -/
structure Options where
  file : Bool := false
  quiet : Bool := false
  limits : Limits := {}
  contents : Option String := none

namespace Options

/-- The limit that a text of digits asks for. A plus sign may stand before it, and it must fit a
machine word. -/
def limit? (text : String) : Option Nat :=
  let digits := match text.toList with
    | '+' :: rest => rest
    | all => all
  if digits.isEmpty || !digits.all Char.isDigit then none
  else
    let n := Number.ofDigits digits
    if n < 1 <<< 64 then some n else none

/-- Sets the limit of a name. -/
def setLimit (o : Options) (name : String) (n : Nat) : Option Options :=
  match name with
  | "--max-call-depth" => some { o with limits := { o.limits with callDepth := n } }
  | "--max-parse-depth" => some { o with limits := { o.limits with parseDepth := n } }
  | "--max-range-len" => some { o with limits := { o.limits with rangeLength := n } }
  | _ => none

/-- Sets the limit of a name to the one that a text asks for. -/
def setLimitText (o : Options) (name text : String) : Except String Options :=
  match (limit? text).bind (o.setLimit name) with
  | some o => .ok o
  | none => .error ("invalid value '" ++ text ++ "' for '" ++ name ++ "'")

/-- Sets the script or the path. There is at most one. -/
def setContents (o : Options) (text : String) : Except String Options :=
  match o.contents with
  | none => .ok { o with contents := some text }
  | some _ => .error ("unexpected argument '" ++ text ++ "'")

/-- Sets the switches of a group of letters. -/
def setLetters (o : Options) : List Char → Except String Options
  | [] => .ok o
  | 'f' :: rest => setLetters { o with file := true } rest
  | 'q' :: rest => setLetters { o with quiet := true } rest
  | c :: _ => .error ("unexpected argument '-" ++ c.toString ++ "'")

/-- Reads the arguments behind those already read. -/
def parseFrom (o : Options) : List String → Except String Options
  | [] => .ok o
  | "--" :: rest => rest.foldlM setContents o
  | "--file" :: rest => parseFrom { o with file := true } rest
  | "--quiet" :: rest => parseFrom { o with quiet := true } rest
  | arg :: rest =>
    if (o.setLimit arg 0).isSome then
      match rest with
      | [] => .error ("a value is required for '" ++ arg ++ "'")
      | text :: rest => do parseFrom (← o.setLimitText arg text) rest
    else
      match arg.toList with
      | '-' :: '-' :: _ => do
        let name := String.ofList (arg.toList.takeWhile (· ≠ '='))
        match arg.toList.dropWhile (· ≠ '=') with
        | _ :: text => parseFrom (← o.setLimitText name (String.ofList text)) rest
        | [] => .error ("unexpected argument '" ++ arg ++ "'")
      | '-' :: c :: letters => do parseFrom (← o.setLetters (c :: letters)) rest
      | _ => do parseFrom (← o.setContents arg) rest

/-- Reads the arguments of the program. -/
def parse (args : List String) : Except String Options := parseFrom {} args

end Options

/-! ## Lines -/

/-- A line without the carriage return before its line feed. -/
def chompReturn (line : String) : String :=
  match line.toList.reverse with
  | '\r' :: front => String.ofList front.reverse
  | _ => line

/-- The lines of a text. A line ends with a line feed, perhaps with a carriage return before it; what
stands behind the last line feed is a line if it is not empty. -/
def textLines (text : String) : List String :=
  let pieces := text.splitOn "\n"
  let last := match pieces.getLast? with
    | some piece => if piece.isEmpty then [] else [piece]
    | none => []
  pieces.dropLast.map chompReturn ++ last

/-- What one line writes to the two outputs, and whether it failed. -/
structure Reply where
  output : String
  errors : String
  failed : Bool

/-- A number of rounds that no loop ever takes. -/
def Console.rounds : Nat := 1 <<< 62

/-- The text of an error on a line of its own. -/
def LineError.text : LineError → String
  | .diagnosed d => d.message ++ "\n"
  | .outOfRounds => "A loop was given up\n"

/-- Runs a line. It writes its values, each on a line of its own, unless it should be quiet, and its
error. -/
def Session.reply (s : Session) (quiet : Bool) (line : String) : Reply × Session :=
  let (output, s) := s.runLine Console.rounds line
  let shown := if quiet then "" else String.join (output.values.map fun v => v.text ++ "\n")
  match output.error with
  | some e => (⟨shown, e.text, true⟩, s)
  | none => (⟨shown, "", false⟩, s)

/-! ## The two ways to run -/

/-- What a run of the program writes, and its exit code. -/
structure Transcript where
  output : String
  errors : String
  code : Nat
  deriving Repr, DecidableEq

/-- Adds what a line writes. -/
def Transcript.add (t : Transcript) (r : Reply) : Transcript :=
  ⟨t.output ++ r.output, t.errors ++ r.errors, if r.failed then 1 else t.code⟩

namespace Script

/-- Runs the lines of a script. A failing line does not stop the others, but makes the run fail. -/
def runLines (quiet : Bool) (s : Session) (t : Transcript) : List String → Transcript
  | [] => t
  | line :: rest =>
    let (reply, s) := s.reply quiet line
    runLines quiet s (t.add reply) rest

/-- **Runs a script.** -/
def run (quiet : Bool) (s : Session) (script : String) : Transcript :=
  runLines quiet s ⟨"", "", 0⟩ (textLines script)

end Script

namespace Interactive

/-- What is written before a line is read. -/
def prompt : String := "> "

/-- Clears a terminal and moves to its upper left corner. -/
def clearScreen : String := "\x1b[2J\x1b[1;1H"

/-- The commands of a session. -/
inductive Command where
  | exit
  | clear
  deriving Repr, DecidableEq

/-- The command on a line: its name behind a number sign, with nothing but white space around. -/
def command? (line : String) : Option Command :=
  match (trimSpace line).toList with
  | '#' :: name =>
    match String.ofList name with
    | "exit" => some .exit
    | "clear" => some .clear
    | _ => none
  | _ => none

/-- What a line does: nothing if it ends the session. A failing line does not make the run fail. -/
def step (quiet : Bool) (s : Session) (line : String) : Option (Reply × Session) :=
  match command? line with
  | some .exit => none
  | some .clear => some (⟨clearScreen, "", false⟩, s)
  | none =>
    let (reply, s) := s.reply quiet line
    some ({ reply with failed := false }, s)

/-- Runs the lines of a session. The prompt is written before the end of the input is seen. -/
def runLines (quiet : Bool) (s : Session) (t : Transcript) : List String → Transcript
  | [] => { t with output := t.output ++ prompt }
  | line :: rest =>
    let t := { t with output := t.output ++ prompt }
    match step quiet s line with
    | none => t
    | some (reply, s) => runLines quiet s (t.add reply) rest

/-- **Runs an interactive session** on the text of its input. -/
def run (quiet : Bool) (s : Session) (input : String) : Transcript :=
  runLines quiet s ⟨"", "", 0⟩ (textLines input)

end Interactive

namespace Console

/-- What is written about a file that cannot be read. -/
def missingFile (path : String) : String :=
  "Failed to read the input file '" ++ path ++ "'. Perhaps this file does not exist?\n"

/-- The exit code of a run whose arguments make no sense. -/
def usageCode : Nat := 2

/-- **The whole program.** -/
def run (readFile? : String → Option String) (seed : UInt64) (args : List String)
    (input : String) : Transcript :=
  match Options.parse args with
  | .error problem => ⟨"", "error: " ++ problem ++ "\n", usageCode⟩
  | .ok options =>
    let session := Session.new options.limits seed
    match options.contents with
    | none => Interactive.run options.quiet session input
    | some contents =>
      if options.file then
        match readFile? contents with
        | some script => Script.run options.quiet session script
        | none => ⟨"", missingFile contents, 1⟩
      else Script.run options.quiet session contents

end Console

end ExprScript
