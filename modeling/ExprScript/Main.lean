import ExprScript.Console

/-!
# The program

Reads the arguments, the script and the lines of an interactive session, and writes what the console
answers.
-/

namespace ExprScript

/-- Writes what a line answers. -/
def Reply.write (reply : Reply) : IO Unit := do
  IO.print reply.output
  IO.eprint reply.errors

/-- Runs a script line by line; the result is the exit code. -/
def runScript (quiet : Bool) (session : Session) (script : String) : IO UInt32 := do
  let mut session := session
  let mut code : UInt32 := 0
  for line in textLines script do
    let (reply, next) := session.reply quiet line
    reply.write
    session := next
    if reply.failed then code := 1
  return code

/-- Runs an interactive session up to its last line or the end of the input. -/
partial def runInteractive (quiet : Bool) (session : Session) : IO Unit := do
  IO.print Interactive.prompt
  (← IO.getStdout).flush
  match textLines (← (← IO.getStdin).getLine) with
  | [] => return ()
  | line :: _ =>
    match Interactive.step quiet session line with
    | none => return ()
    | some (reply, next) =>
      reply.write
      runInteractive quiet next

end ExprScript

open ExprScript in
/-- The program. -/
def main (args : List String) : IO UInt32 := do
  match Options.parse args with
  | .error problem =>
    IO.eprintln ("error: " ++ problem)
    return Console.usageCode.toUInt32
  | .ok options =>
    let bytes ← IO.getRandomBytes 8
    let session := Session.new options.limits (bytes.foldl (fun n b => n * 256 + b.toUInt64) 0)
    match options.contents with
    | none =>
      runInteractive options.quiet session
      return 0
    | some contents =>
      if options.file then
        match ← (IO.FS.readFile contents).toBaseIO with
        | .ok script => runScript options.quiet session script
        | .error _ =>
          IO.eprint (Console.missingFile contents)
          return 1
      else runScript options.quiet session contents
