import ViewDesign.Command.Outcome

/-!
# The program

Files are those of the machine; everything else is decided by `Invocation.run`.
-/

namespace ViewDesign

/-- What is at a path of the machine. -/
def machineKind? (path : String) : IO (Option FileKind) := do
  try
    let metadata ← ((← IO.currentDir) / path).metadata
    return some (match metadata.type with
      | .file => .file
      | .dir => .directory
      | _ => .special)
  catch _ => return none

/-- Why something on the machine could not be read. -/
def machineFault : IO.Error → ReadFault
  | .noFileOrDirectory .. => .missing
  | .inappropriateType .. => .notDirectory
  | .permissionDenied .. => .denied
  | e => .other (toString e)

/-- The names in a directory of the machine. -/
def machineList (path : String) : IO (Except ReadFault (List String)) := do
  try
    return .ok ((← ((← IO.currentDir) / path).readDir).toList.map (·.fileName))
  catch e => return .error (machineFault e)

/-- The text of a file of the machine. -/
def machineRead (path : String) : IO (Except ReadFault String) := do
  if (← machineKind? path) == some .directory then return .error .directory
  try
    let bytes ← IO.FS.readBinFile path
    match String.fromUTF8? bytes with
    | some text => return .ok text
    | none => return .error .notText
  catch e => return .error (machineFault e)

/-- The files of the machine. -/
def machineFiles : Files IO where
  kind? := machineKind?
  list := machineList
  read := machineRead

end ViewDesign

/-- Runs the command that the arguments ask for. -/
def main (arguments : List String) : IO UInt32 := do
  let (status, text) ← (ViewDesign.Invocation.parse arguments).run ViewDesign.machineFiles
  IO.print text
  return status.toUInt32
