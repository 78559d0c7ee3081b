import Iloc.CommandLine.Session

namespace Iloc.CommandLine

def readInput (name : String) : IO (Except ReadError String) := do
  try
    return Directory.decode (← IO.FS.readBinFile name)
  catch
    | .noFileOrDirectory .. => return .error .missing
    | .inappropriateType .. => return .error .isDirectory
    | e => return .error (.system (toString e))

def Invocation.runIO (invocation : Invocation) : IO Outcome := do
  match invocation with
  | .session settings => return .ofSession settings (← readInput settings.input)
  | _ => return invocation.run fun _ => .error .missing

end Iloc.CommandLine

def main (arguments : List String) : IO UInt32 := do
  let outcome ← (Iloc.CommandLine.Invocation.ofArguments arguments).runIO
  IO.print outcome.output
  IO.eprint outcome.log
  return outcome.status.toUInt32
