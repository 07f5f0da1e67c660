import TriangleTam.CommandLine

/-! # The program `tc` -/

namespace TriangleTam.CommandLine

/-- What the system says about a failure. -/
def faultOf (failure : IO.Error) : FileFault :=
  match failure with
  | .noFileOrDirectory _ code words | .interrupted _ code words => .system code.toNat words
  | .alreadyExists _ code words | .invalidArgument _ code words
  | .permissionDenied _ code words | .resourceExhausted _ code words
  | .inappropriateType _ code words | .noSuchThing _ code words => .system code.toNat words
  | .otherError code words | .resourceBusy code words | .resourceVanished code words
  | .unsupportedOperation code words | .hardwareFault code words
  | .unsatisfiedConstraints code words | .illegalOperation code words
  | .protocolError code words | .timeExpired code words => .system code.toNat words
  | .unexpectedEof => .notText
  | .userError words => .system 5 words

def readText (path : String) : IO (Except FileFault String) := do
  try
    let handle ← IO.FS.Handle.mk path .read
    return decode (← handle.readBinToEnd)
  catch failure => return .error (faultOf failure)

/-- The files that a run may read, read beforehand. Writing is not refused. -/
def filesOf (words : List String) : IO Files := do
  match Arguments.parse words with
  | .ok (.compile arguments) =>
    let source ← readText arguments.source
    let config ← readText (arguments.config.getD arguments.source)
    return ⟨fun path => if path = arguments.source then source else config, fun _ => none⟩
  | _ => return ⟨fun _ => .error .missing, fun _ => none⟩

/-- Write what an outcome says, if it can be written. -/
def save (written : Option (String × List UInt8)) : IO (Option FileFault) := do
  match written with
  | none => return none
  | some (path, bytes) =>
    try
      IO.FS.writeBinFile path ⟨bytes.toArray⟩
      return none
    catch failure => return some (faultOf failure)

/-- Print an outcome, the log first. -/
def deliver (outcome : Outcome) : IO UInt32 := do
  for event in outcome.log do
    (← IO.getStderr).putStr (event.text ++ "\n")
  (← IO.getStdout).putStr outcome.stdout
  (← IO.getStderr).putStr outcome.stderr
  return outcome.exitCode.toUInt32

/-- Run the command line on the files of the system. -/
def perform (words : List String) : IO UInt32 := do
  let files ← filesOf words
  let outcome := run files words
  match ← save outcome.written with
  | none => deliver outcome
  | some fault => deliver (run { files with refusal := fun _ => some fault } words)

end TriangleTam.CommandLine

def main (words : List String) : IO UInt32 := TriangleTam.CommandLine.perform words
