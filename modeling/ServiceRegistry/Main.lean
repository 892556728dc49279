import ServiceRegistry.Daemon

/-! # The command line of the daemon

The only argument is the path of the configuration. The daemon writes what it announces, and from
then on, at the configured interval, a line on the state of the world. -/

namespace ServiceRegistry.Daemon

/-- Where the configuration is unless the command line says otherwise. -/
def defaultPath : String := "/etc/discoveryd/discoveryd.toml"

/-- What a file holds, if there is one. -/
def readFile? (path : String) : IO (Option Bytes) := do
  try
    return some (← IO.FS.readBinFile path).data.toList
  catch _ => return none

/-- Write the causes of a failure, the outermost first. -/
def report (causes : List String) : IO Unit := do
  match causes with
  | [] => return
  | first :: others =>
    IO.eprintln ("Error: " ++ first)
    if !others.isEmpty then IO.eprintln "\nCaused by:"
    match others with
    | [cause] => IO.eprintln ("    " ++ cause)
    | causes =>
      for (cause, i) in causes.zipIdx do
        IO.eprintln ("    " ++ toString i ++ ": " ++ cause)

/-- Let time pass, and write what loggers say, for ever. -/
partial def keepLogging (d : Deployment) (interval written : Nat) : IO Unit := do
  let d := d.sleep 1
  let lines := d.journal.lines
  for line in lines.drop written do
    IO.println (line.level ++ " " ++ line.text)
  (← IO.getStdout).flush
  IO.sleep (UInt32.ofNat (min interval 3600000))
  keepLogging (d.sleep (interval - 1)) interval lines.length

/-- Run the daemon. -/
def run (args : List String) : IO UInt32 := do
  let path := args.head?.getD defaultPath
  match start path (← readFile? path) with
  | .error e =>
    report e.causes
    return 1
  | .ok daemon =>
    for r in daemon.announced do
      IO.println ("INFO Configured static announcement: " ++ label r)
    let interval := 1000 * max 1 daemon.config.logInterval
    keepLogging (daemon.deployment.startLogger daemon.client interval).2 interval 0
    return 0

end ServiceRegistry.Daemon

/-- The daemon. -/
def main (args : List String) : IO UInt32 := ServiceRegistry.Daemon.run args
