import Unravel.Command.Job

/-! The program: reads the input, runs the job of its command line and writes what it leaves
behind. -/

namespace Unravel

open Command

partial def readAll (stream : IO.FS.Stream) (text : String) : IO String := do
  let line ← stream.getLine
  if line.isEmpty then return text else readAll stream (text ++ line)

def readText (path : String) : IO (Except InputError String) := do
  try
    let text ← IO.FS.readFile path
    return .ok (String.ofList (Job.unixLines text.toList))
  catch e =>
    match e with
    | .noFileOrDirectory _ _ _ => return .error .notFound
    | _ => return .error .isDirectory

def readInput (path : String) : IO (Except InputError String) := do
  if path == "-" then return .ok (← readAll (← IO.getStdin) "") else readText path

def writeOutput (dir : Option String) (o : Output) : IO Unit := do
  match o.makesDirs, dir with
  | true, some dir => IO.FS.createDirAll dir
  | _, _ => return ()
  IO.FS.writeFile o.path o.text

def emit (dir : Option String) (o : Command.Outcome) : IO UInt32 := do
  for output in o.outputs do writeOutput dir output
  IO.print o.stdout
  IO.eprint o.stderr
  return o.exit.toUInt32

end Unravel

def main (args : List String) : IO UInt32 := do
  match Unravel.Command.Job.ofWords args with
  | .error halt => Unravel.emit none halt.outcome
  | .ok job =>
    match ← Unravel.readInput job.input with
    | .error e => Unravel.emit none (job.unreadable e)
    | .ok text =>
      match job.run text with
      | .ok outcome => Unravel.emit job.outputDir outcome
      | .error fault =>
        IO.eprintln fault.message
        return 1
