import Lisplet.CommandLine.Program

/-!
# The executable

Runs the program on the arguments, variables and files of the machine.
-/

namespace Lisplet

def faultOfError : IO.Error → CommandLine.FileFault
  | .noFileOrDirectory _ _ _ => .notFound
  | .inappropriateType _ code _ => if code = 21 then .isADirectory else .notADirectory
  | .permissionDenied _ code _ => ⟨code.toNat, "Permission denied"⟩
  | e => ⟨5, toString e⟩

def readBytes (p : CommandLine.Path) : IO (Except CommandLine.FileFault (List UInt8)) := do
  try
    let bytes ← IO.FS.readBinFile p.text
    return .ok bytes.toList
  catch e => return .error (faultOfError e)

end Lisplet

/-- a new process may use a thousand levels, and is given a stack for as many as can be counted -/
def Lisplet.thisMachine : Lisplet.Machine := .newProcess Lisplet.Settings.maxLevels

open Lisplet in
/-- reads the file that the arguments name, if they name one, and runs the program on it -/
def main (args : List String) : IO UInt32 := do
  let level ← IO.getEnv Settings.levelVariable
  let limit ← IO.getEnv Settings.limitVariable
  let vars (name : String) : Option String :=
    if name = Settings.levelVariable then level
    else if name = Settings.limitVariable then limit
    else none
  let opened ← match CommandLine.parse args with
    | .ok (.run o) => readBytes (CommandLine.Path.ofText o.file)
    | _ => pure (.ok [])
  let report := CommandLine.run thisMachine args vars fun _ => opened
  IO.print report.output
  IO.eprint report.errors
  match report.ending with
  | .exit code => return code.toUInt32
  | .broken f =>
    IO.eprintln f.message
    return 1
  | .crashed => return 139
