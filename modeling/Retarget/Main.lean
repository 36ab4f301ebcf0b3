import Retarget.Command

/-!
# The program

Reads the file that the arguments name, if any, runs the command, and writes what it gives.
-/

namespace Retarget

/-- An error number without its sign: the same failure is reported with either. -/
def unsignedCode (code : UInt32) : Nat := code.toInt32.toInt.natAbs

/-- The error number of a failure at a path. -/
def errorCode? : IO.Error → Option Nat
  | .noFileOrDirectory _ code _ => some (unsignedCode code)
  | .permissionDenied _ code _ => some (unsignedCode code)
  | .inappropriateType _ code _ => some (unsignedCode code)
  | .invalidArgument _ code _ => some (unsignedCode code)
  | _ => none

/-- The content of a file as a text. -/
def readManifest (path : String) : IO (Except Manifest.ReadError String) := do
  try
    let bytes ← IO.FS.readBinFile path
    match String.fromUTF8? bytes with
    | some text => return .ok text
    | none => return .error .notUtf8
  catch e =>
    match (errorCode? e).bind Manifest.ReadError.ofCode? with
    | some failure => return .error failure
    | none => return .error (.other (toString e))

end Retarget

/-- Runs the command that the arguments ask for. -/
def main (args : List String) : IO UInt32 := do
  let content ←
    match Retarget.Command.ofArgs args with
    | some ⟨.check path, _⟩ => Retarget.readManifest path
    | _ => pure (.error .notFound)
  let outcome := Retarget.Command.run (fun _ => content) args
  IO.eprint outcome.stderr
  IO.print outcome.stdout
  return UInt32.ofNat outcome.code
