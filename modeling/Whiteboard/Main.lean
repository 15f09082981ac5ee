import Whiteboard.CommandLine

/-!
# The program

Runs one command: gathers what it finds around it, and prints what comes of it. There is no way to
other machines here, so that no service is ever reached or run.
-/

namespace Whiteboard.Program

/-- The variables of the environment that mean something. -/
def variableNames : List String :=
  "HOME" :: Settings.fields.map fun field => Text.upper ("canvas_" ++ field)

/-- The variables that are set. -/
def environment : IO (Entries String) :=
  variableNames.filterMapM fun name => do
    return (← IO.getEnv name).map fun value => (name, value)

/-- The files of the given names that can be read. -/
def files (names : List String) : IO Disk := do
  let found ← names.filterMapM fun (name : String) => do
    match ← (IO.FS.readFile name).toBaseIO with
    | .ok text => return some (name, text)
    | .error _ => return none
  return .ofFiles found

/-- A supply of ids that begins anywhere. -/
def ids : IO IdSupply := do
  let octets ← IO.getRandomBytes 16
  return .spread (octets.toList.foldl (fun n octet => 256 * n + octet.toNat) 0)

/-- Prints a value on a line of its own. -/
def print (value : Json Double) : IO Unit := IO.println (String.ofList (Json.write value))

/-- Tells why nothing comes of a command. -/
def complain (reason : String) : IO UInt32 := do
  IO.eprintln reason
  return 1

/-- Ends with what an action yields. -/
def finish : Action Double → IO UInt32
  | .print value code => do
    print value
    return code.toUInt32
  | .post _ _ _ =>
    match Command.afterReply (.unreachable "no network" : Reply Double) with
    | .ok (value, code) => do
      print value
      return code.toUInt32
    | .error _ => complain "The reply cannot be read"
  | .serve host port => complain s!"No network to serve {host}:{port}"

/-- The lines that are left of an input, after those read before. -/
partial def remaining (input : IO.FS.Stream) (before : String) : IO String := do
  let line ← input.getLine
  if line.isEmpty then return before else remaining input (before ++ line)

/-- What a command finds around it. -/
def surroundings (command : Command Double) : IO Surroundings := do
  let disk ← files command.files
  let input ← if command.readsInput then remaining (← IO.getStdin) "" else pure ""
  return ⟨input, ← environment, disk⟩

end Whiteboard.Program

open Whiteboard in
def main (args : List String) : IO UInt32 := do
  match Command.ofArguments (α := Double) args with
  | .error .help => return 0
  | .error .usage => return 2
  | .ok command =>
    let ids ← Program.ids
    match command.run ids (← Program.surroundings command) with
    | .ok action => Program.finish action
    | .error e => Program.complain e.message
