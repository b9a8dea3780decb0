/-
The program: carries out its command over the files and the standard streams of
the system. All decisions are made by `CommandLine.execute`.
-/
import SchemaDiagram.CommandLine.Run

open SchemaDiagram CommandLine

namespace SchemaDiagram.Main

/-- A fault of the system with its number. -/
def faultText (fault : IO.Error) : String :=
  let numbered (code : UInt32) (details : String) : String :=
    details ++ " (os error " ++ toString code ++ ")"
  match fault with
  | .noFileOrDirectory _ code details => numbered code details
  | .inappropriateType _ code details => numbered code details
  | .permissionDenied _ code details => numbered code details
  | .resourceExhausted _ code details => numbered code details
  | .invalidArgument _ code details => numbered code details
  | .alreadyExists _ code details => numbered code details
  | .noSuchThing _ code details => numbered code details
  | .interrupted _ code details => numbered code details
  | .otherError code details => numbered code details
  | .resourceBusy code details => numbered code details
  | .hardwareFault code details => numbered code details
  | .unsupportedOperation code details => numbered code details
  | .illegalOperation code details => numbered code details
  | other => toString other

/-- Carries out an action of the system; a fault becomes its text. -/
def attempt {α : Type} (action : IO α) : IO (Except String α) := do
  try
    return .ok (← action)
  catch fault =>
    return .error (faultText fault)

def readStandardInput : IO (Option ByteArray) := do
  let stream ← IO.getStdin
  if ← stream.isTty then
    return none
  return some (← stream.readBinToEnd)

def readWholeFile (path : String) : IO ByteArray := do
  let handle ← IO.FS.Handle.mk path .read
  handle.readBinToEnd

/-- The files and the standard input of the system. -/
def system : Host IO where
  readInput := attempt readStandardInput
  readFile path := attempt (readWholeFile path)
  writeFile path content := attempt (IO.FS.writeFile path content)

end SchemaDiagram.Main

def main (args : List String) : IO UInt32 := do
  let env : Environment :=
    { theme := ← IO.getEnv "DBML2MMD_THEME", log := ← IO.getEnv "RUST_LOG" }
  match ← execute SchemaDiagram.Main.system env args with
  | .misused fault =>
    IO.eprintln fault.message
    return 1
  | .finished report =>
    IO.eprint report.errorText
    IO.print report.output
    return report.code.toUInt32
