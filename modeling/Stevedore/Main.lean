import Stevedore.Rehearsal.Playback

/-!
The command line of the program.

The runtime library starts no processes here, so the engine's client counts as missing: a task that
is run reports so, and everything that comes before its first call to the engine is done as it
should be.
-/

namespace Stevedore

/-- The text of a file, or nothing if it cannot be read. -/
def fileText? (path : Path) : IO (Option String) := do
  try
    let bytes ← IO.FS.readBinFile path.text
    return Text.Utf8.decode? bytes.toList
  catch _ => return none

/-- The files that a call may read: the project file that it names. -/
def projectFiles (arguments : List String) : IO (List (Path × String)) := do
  match CommandLine.read arguments with
  | .error _ => return []
  | .ok c => return (← fileText? c.projectFile).toList.map fun text => (c.projectFile, text)

/-- What a run takes over from this host. -/
def thisHost : IO Host := do
  let temporary := (← IO.getEnv "TMPDIR").getD "/tmp"
  let found ← proxyNames.mapM fun name => do
    return (← IO.getEnv name).toList.map fun value => (name, value)
  let suffix ← IO.rand 0 (281474976710655)
  return {
    user := ⟨1000, 1000, (← IO.getEnv "USER").getD "user", "users"⟩
    proxy := .ofVariables found.flatten
    temporaryDirectory := ⟨temporary⟩
    suffix := Text.hexDigits suffix }

end Stevedore

open Stevedore in
/-- Runs the program. -/
def main (arguments : List String) : IO UInt32 := do
  let directory : Path := ⟨(← IO.currentDir).toString⟩
  let place := Rehearsal.Playback.workplace (← thisHost) directory
  let disk := Disk.ofFiles directory [] (← projectFiles arguments)
  let world : Rehearsal.Playback := { isMissing := true, disk }
  let course := Invocation.program place arguments (← IO.getEnv "DOCKHAND_LOG") world
  IO.print (Text.Utf8.decode course.world.output)
  IO.eprint (Text.Utf8.decode course.world.errors)
  match course with
  | .ended status _ => return status.toUInt32
  | .stuck _ => return Invocation.abandonedStatus.toNat.toUInt32
