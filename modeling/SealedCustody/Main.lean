import SealedCustody.Daemon

/-!
# The programs

`keygen [DIR]` keeps a fresh key in a directory and says which peer it makes. Any other command line
runs the daemon, whose network is that of its machine alone: it says where it can be dialed and ends
like a daemon that is interrupted at once.

What a program does is decided on a `Disk`. Here what stands at the paths it looks at is put on that
disk beforehand, and what the program has put there is written out afterwards.
-/

namespace SealedCustody

namespace Disk

/-- The text of a path from the root to a location. -/
def rooted (l : Location) : String := "/" ++ "/".intercalate l

/-- What stands at a location. What cannot be read as a file counts as a directory. -/
def lookUp? (l : Location) : IO (Option DiskEntry) := do
  try
    return some (.file (← IO.FS.readBinFile (rooted l)).toList)
  catch
    | .noFileOrDirectory .. => return none
    | _ => return some .directory

/-- Puts on a disk what stands at the locations that parts lead through. -/
def survey (d : Disk) (here : Location) : List String → IO Disk
  | [] => return d
  | part :: parts => do
    if Path.isHere part then d.survey here parts
    else if part = ".." then d.survey here.dropLast parts
    else match ← lookUp? (here ++ [part]) with
      | some entry => (⟨d.entries.insert (here ++ [part]) entry⟩ : Disk).survey (here ++ [part]) parts
      | none => d.survey (here ++ [part]) parts

/-- Puts on a disk what some paths lead through. -/
def surveyPaths (d : Disk) (cwd : Location) (paths : List String) : IO Disk :=
  (paths.filterMap Path.ofText?).foldlM (fun d p => d.survey (p.start cwd) p.parts) d

/-- Writes out what a disk holds beyond another, directories before what stands in them. -/
def writeOut (before after : Disk) : IO Unit :=
  after.entries.entries.forM fun (l, entry) => do
    if before.at? l ≠ some entry then
      match entry with
      | .directory => IO.FS.createDirAll (rooted l)
      | .file content => IO.FS.writeBinFile (rooted l) ⟨content.toArray⟩

end Disk

/-- A fresh identity. -/
def Identity.fresh : IO Identity := return .ofSecret (← IO.getRandomBytes 32).toList

/-- The variables of the environment that the daemon looks at. -/
def Daemon.environment : IO (String → Option String) := do
  let names := CommandLine.Opt.all.filterMap (·.standIn?) ++ ["HOME", "XDG_DATA_HOME"]
  let values ← names.mapM fun name => return (name, ← IO.getEnv name)
  return fun name => (values.lookup name).join

/-- Keeps a fresh key in a directory. -/
def KeyFile.command (d : Disk) (cwd : Location) (dir : String) : IO UInt32 := do
  let fresh ← Identity.fresh
  let before ← d.surveyPaths cwd [joinPath dir keyFileName]
  match KeyFile.generate before cwd dir fresh with
  | (.ok path, after) =>
    before.writeOut after
    (KeyFile.announcement path fresh).forM IO.println
    return 0
  | (.error .taken, _) =>
    IO.eprintln (joinPath dir keyFileName ++ " already exists; refusing to overwrite")
    return 1
  | (.error (.failed e), _) =>
    IO.eprintln e.message
    return 1

/-- Runs the daemon. The key file is known once the configuration file has been read, so the paths are
looked at twice. -/
def Daemon.command (d : Disk) (cwd : Location) (args : List String) : IO UInt32 := do
  let environment ← Daemon.environment
  let home := Daemon.home environment
  let d ← d.surveyPaths cwd (Daemon.paths d cwd home environment args)
  let before ← d.surveyPaths cwd (Daemon.paths d cwd home environment args)
  let fresh ← Identity.fresh
  let (report, after) := Daemon.run (.start false) before cwd home fresh environment args
  before.writeOut after
  report.log.forM fun m => IO.println (Daemon.line m report.format)
  match report.stop with
  | some stop => if stop.exit = 0 then IO.println stop.message else IO.eprintln stop.message
  | none => pure ()
  return report.exit.toUInt32

end SealedCustody

open SealedCustody in
/-- Runs the program that the first argument names. -/
def main (args : List String) : IO UInt32 := do
  let here := (← IO.currentDir).toString
  let cwd := ((Path.ofText? here).map (·.parts)).getD []
  let d ← Disk.empty.surveyPaths [] [here]
  match args with
  | "keygen" :: rest => KeyFile.command d cwd (rest.headD here)
  | _ => Daemon.command d cwd args
