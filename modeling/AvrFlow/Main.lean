import AvrFlow.CommandLine.Run
import AvrFlow.Executable

namespace AvrFlow.CommandLine

def probe (path : String) : IO (Option Node) := do
  try
    let content ← IO.FS.readBinFile path
    return some (.file content.toList)
  catch
    | .inappropriateType .. => return some .directory
    | _ => return none

def ancestors (path : String) : List String :=
  let parts := FileTree.components path
  (List.range parts.length).map fun n => "/".intercalate (parts.take (n + 1))

def snapshot (paths : List String) : IO FileTree := do
  let mut entries := []
  for path in paths.flatMap ancestors do
    match ← probe path with
    | some node => entries := (FileTree.place path, node) :: entries
    | none => pure ()
  return ⟨entries⟩

def namedPaths (arguments : List String) : List String :=
  match parse arguments with
  | .accepted o => [o.input, o.output].filterMap Value.get?
  | _ => []

def writtenOutput? (arguments : List String) (report : Report) : Option (String × List UInt8) :=
  match parse arguments with
  | .accepted ⟨_, .given path, _, _, _, _, _⟩ =>
    if report.exitCode = exitSuccess then
      (report.after.tree.read (.given path)).toOption.map (path, ·)
    else none
  | _ => none

def deliver (arguments : List String) (report : Report) : IO UInt32 := do
  (← IO.getStdout).putStr report.stdout
  let stderr ← IO.getStderr
  stderr.putStr report.stderr
  match writtenOutput? arguments report with
  | none => return report.exitCode.toUInt32
  | some (path, content) =>
    try
      IO.FS.writeBinFile path (ByteArray.mk content.toArray)
      return report.exitCode.toUInt32
    catch e =>
      stderr.putStr (logLine (.failed (toString e)))
      return exitFailure.toUInt32

end AvrFlow.CommandLine

open AvrFlow CommandLine in
def main (arguments : List String) : IO UInt32 := do
  let tree ← snapshot (namedPaths arguments)
  match run arguments ⟨tree, none, Executable.machineOf⟩ [] with
  | .error b =>
    (← IO.getStderr).putStr s!"{programName}: {b.message}\n"
    return exitBadArguments.toUInt32
  | .ok report => deliver arguments report
