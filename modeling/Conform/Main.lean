import Conform.Run

/-! The command line. -/

open Conform

def readPath (path : String) : IO (Except ReadFault ByteArray) := do
  try return .ok (← IO.FS.readBinFile path)
  catch
  | .noFileOrDirectory .. => return .error .missing
  | .inappropriateType .. => return .error .isDirectory
  | e => return .error (.other (toString e))

def readPaths (paths : List String) : IO Files := do
  let contents ← paths.mapM fun path => return (path, ← readPath path)
  return { read := fun path => (contents.lookup path).getD (.error .missing) }

def main (arguments : List String) : IO UInt32 := do
  match Invocation.ofArguments? arguments with
  | none =>
    IO.eprintln "usage: schemata [validate|check|metamodel] ARGUMENTS"
    return Invocation.failureCode.toUInt32
  | some invocation =>
    let files ← readPaths <|
      match invocation with
      | .command c => c.paths
      | .version => []
    match invocation.run files with
    | .ok completion =>
      IO.print completion.output
      return completion.code.toUInt32
    | .error chain =>
      IO.eprintln (String.intercalate ": " chain)
      return Invocation.failureCode.toUInt32
