import Playground.CommandLine.Execution
import Playground.Http.Wire
import Std.Async.DNS
import Std.Async.Signal
import Std.Async.TCP
import Std.Async.Timer

/-!
# The program

Takes from the world what a command needs, runs the command, and gives the world what
comes of it.

* The disk of the command holds what the world has at the paths that the command
  names.  Only what the command has changed on it is written back.
* A command asks the same again when it is run again.  So it is run with the answers
  that are known, until there is an answer to all that it asks.  Only plain addresses
  are reached, and what is asked under an encrypted one is not answered.
* A watched file is looked at again and again, until the program is interrupted.
-/

namespace Playground.Program

open CommandLine Std.Async

/-! ## Files -/

/-- The path of a location. -/
def pathOf (l : Files.Location) : String := "/" ++ "/".intercalate l

/-- What the world has at a location. -/
def nodeAt? (l : Files.Location) : IO (Option Files.Node) := do
  try
    let path ← IO.FS.realPath (pathOf l)
    if ← path.isDir then return some .directory
    return some (.file (← IO.FS.readBinFile path).toList)
  catch _ => return none

/-- The disk with all that the world has on a path. -/
def copyPath (disk : Files.Disk) (text : String) : IO Files.Disk := do
  let path := Files.Path.ofText text
  let mut disk := disk
  let mut location := disk.origin path
  for part in path.parts do
    match Files.Disk.enter location part with
    | .error _ => return disk
    | .ok next =>
      location := next
      if (disk.node? location).isNone then
        if let some node ← nodeAt? location then disk := disk.put location node
  return disk

/-- Writes what has changed on a disk, the oldest change first.  Counts what cannot be
written. -/
def writeBack (before after : Files.Disk) : IO Nat := do
  let mut failures := 0
  for (location, node) in after.nodes.reverse do
    if before.node? location ≠ some node then
      try
        match node with
        | .directory => IO.FS.createDir (pathOf location)
        | .file content => IO.FS.writeBinFile (pathOf location) ⟨content.toArray⟩
      catch _ => failures := failures + 1
  return failures

/-! ## Machines -/

/-- The variables of the environment. -/
def environment : IO Environment := do
  let mut found := []
  for name in Config.variableNames do
    if let some value ← IO.getEnv name then found := found ++ [(name, value)]
  return .ofList found

/-- A machine with the working directory and nothing else on its disk. -/
def emptyMachine : IO Machine := do
  let current := toString (← IO.currentDir)
  let names := (current.splitOn "/").filter (· ≠ "")
  let disk ← copyPath ⟨[], names⟩ current
  let client : Http.Client := ⟨Url.simpleAscii, Http.simpleDecoders, fun _ => .unreachable⟩
  return ⟨← environment, disk, client, fun _ => 0⟩

/-- The machine with the files of the settings and of the command on its disk. -/
def withFiles (m : Machine) (s : Settings) (c : Command) : IO Machine := do
  let mut m := m
  for file in s.config.toList ++ c.files do
    m := { m with disk := ← copyPath m.disk file }
  match s.load m with
  | .error _ => return m
  | .ok config =>
    for key in State.keys do
      m := { m with disk := ← copyPath m.disk (Files.childText config.storageDir key) }
    return m

/-! ## The network -/

/-- What the network has answered. -/
structure Answer where
  /-- What it was asked. -/
  request : Http.Request
  /-- What has come of it. -/
  outcome : Http.Outcome
  /-- How long it took, in milliseconds. -/
  time : Nat

/-- The machine that knows some answers, and is answered nothing else. -/
def withAnswers (m : Machine) (known : List Answer) : Machine :=
  let find (r : Http.Request) := known.find? (·.request = r)
  { m with
    client.send := fun r => ((find r).map Answer.outcome).getD .unreachable
    latency := fun r => ((find r).map Answer.time).getD 0 }

/-- All that a connection says until it is closed. -/
partial def receive (client : TCP.Socket.Client) (received : ByteArray) : Async ByteArray := do
  match ← client.recv? 65536 with
  | some octets => receive client (received ++ octets)
  | none => return received

/-- Sends a request and receives what is said.  Nothing is received from a host that
is not there. -/
def exchange (r : Http.Request) : Async (Option ByteArray) := do
  if r.url.scheme ≠ "http".toList then return none
  let host := ((r.url.host.map Url.Host.text).getD []).filter fun c => c ≠ '[' && c ≠ ']'
  let port := (r.url.port.getD 80).toUInt16
  match (← DNS.getAddrInfo (String.ofList host) "").toList with
  | [] => return none
  | address :: _ =>
    let client ← TCP.Socket.Client.mk
    match address with
    | .v4 a => client.connect (.v4 ⟨a, port⟩)
    | .v6 a => client.connect (.v6 ⟨a, port⟩)
    client.send ⟨r.octets.toArray⟩
    return some (← receive client .empty)

/-- What comes of a request, which is given up after some seconds. -/
def answerOf (timeout : Nat) (r : Http.Request) : IO Answer := do
  let start ← IO.monoMsNow
  let giveUp : Async (Option ByteArray) := do
    sleep (Std.Time.Millisecond.Offset.ofInt (timeout * 1000))
    return none
  let received ← try (Async.race (exchange r) giveUp).block catch _ => pure none
  let outcome := match received with
    | some octets => .ofOctets octets.toList
    | none => .unreachable
  return ⟨r, outcome, (← IO.monoMsNow) - start⟩

/-- Does something on a machine that has an answer to all that is asked there. -/
partial def converse {α : Type} (m : Machine) (timeout : Nat) (act : Machine → α)
    (asks : α → List Http.Request) (known : List Answer) : IO α := do
  let result := act (withAnswers m known)
  match (asks result).find? fun r => !known.any (·.request = r) with
  | some r => converse m timeout act asks ((← answerOf timeout r) :: known)
  | none => return result

/-! ## Commands -/

/-- Waits until the program is stopped from outside. -/
partial def waitForever : IO UInt32 := do
  IO.sleep 1000
  waitForever

/-- Prints what comes of a command, and gives its exit code. -/
def report (o : Outcome) : IO UInt32 := do
  IO.print o.stdout
  (← IO.getStdout).flush
  IO.eprint o.stderr
  match o.exit with
  | some code => return code.toUInt32
  | none => waitForever

/-- The outcome of a command that has changed files which cannot be written. -/
def unwritten (c : Command) (directory : String) (failures : Nat) (o : Outcome) : Outcome :=
  if failures = 0 then o
  else
    match c with
    | .openLink _ (some path) => .failed o.disk (.unwritable path)
    | .reset => .failed o.disk (.notReset failures directory)
    | _ => o

/-- Runs a command that ends by itself. -/
def runOnce (m : Machine) (s : Settings) (config : Config) (c : Command) : IO UInt32 := do
  let o ← converse m config.requestTimeoutSecs (execute · [] s c) Outcome.requests []
  let failures ← writeBack m.disk o.disk
  report (unwritten c config.storageDir failures o)

/-- Waits for some time, or until it is interrupted. -/
partial def pause (interrupted : IO Bool) (ms : Nat) : IO Unit := do
  if ms ≠ 0 && !(← interrupted) then
    let slice := min ms 50
    IO.sleep slice.toUInt32
    pause interrupted (ms - slice)

/-- The text of a file in the world. -/
def sourceAt? (m : Machine) (file : String) : IO (Option String) := do
  return ((← copyPath { m.disk with nodes := [] } file).readText file).toOption

/-- Waits for a content that the file does not show yet, and that stays for some time. -/
partial def awaitContent (m : Machine) (config : Config) (file : String) (pollMs : Nat)
    (interrupted : IO Bool) (shown : String) : IO (Option String) := do
  pause interrupted pollMs
  if ← interrupted then return none
  match ← sourceAt? m file with
  | some content =>
    if content = shown then awaitContent m config file pollMs interrupted shown
    else
      pause interrupted config.debounceMs
      if (← sourceAt? m file) = some content then return some content
      awaitContent m config file pollMs interrupted shown
  | none => awaitContent m config file pollMs interrupted shown

/-- Goes on with a timeline, prints what the view prints meanwhile, and writes what is
stored meanwhile. -/
def advance (m : Machine) (config : Config) (t : Timeline)
    (act : Machine → Timeline) : IO Timeline := do
  let asks (next : Timeline) : List Http.Request :=
    asked m.client.toAscii config { next with
      requests := next.requests.drop t.requests.length
      logs := next.logs.drop t.logs.length }
  let next ← converse m config.requestTimeoutSecs act asks []
  IO.print (transcript true (next.desk.view.drop t.desk.view.length))
  (← IO.getStdout).flush
  let _ ← writeBack (diskOf t.desk.store m.disk) (diskOf next.desk.store m.disk)
  return next

/-- Compiles whenever the file shows a new content. -/
partial def watchFrom (m : Machine) (config : Config) (file : String) (pollMs : Nat)
    (interrupted : IO Bool) (t : Timeline) : IO Unit := do
  match ← awaitContent m config file pollMs interrupted t.desk.state.code with
  | some content =>
    let t ← advance m config t fun m => look m config t content
    watchFrom m config file pollMs interrupted t
  | none => return

/-- Watches a file until the program is interrupted. -/
def watchFile (m : Machine) (s : Settings) (config : Config) (file : String) (pollMs : Nat) :
    IO UInt32 := do
  match readSource m.disk file with
  | .error e => report (.failed m.disk e)
  | .ok code =>
    let signal ← (← Signal.Waiter.mk .sigint false).wait
    let interrupted : IO Bool := IO.hasFinished signal
    let t := Timeline.start (startDesk s config m.disk (some code))
    let _ ← writeBack m.disk (diskOf t.desk.store m.disk)
    let t ← advance m config t fun m => settle m config t
    watchFrom m config file pollMs interrupted t
    return 0

end Playground.Program

open Playground CommandLine Program

/-- Runs the command that the arguments name. -/
def main (args : List String) : IO UInt32 := do
  let m ← emptyMachine
  match parse args with
  | .error e => report (stop m e)
  | .ok (s, c) =>
    let m ← withFiles m s c
    match s.load m with
    | .error e => report (.failed m.disk (.config e))
    | .ok config =>
      match c with
      | .watch file (pollMs + 1) => watchFile m s config file (pollMs + 1)
      | _ => runOnce m s config c
