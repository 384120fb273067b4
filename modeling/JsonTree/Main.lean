import JsonTree.CommandLine.Run

/-! The program: the command line over the files and streams of the system. -/

set_option autoImplicit false

namespace JsonTree.CommandLine

def FileError.ofSystem : IO.Error → FileError
  | .noFileOrDirectory .. => .notFound
  | .inappropriateType _ code _ => if code = 21 then .isDirectory else .notDirectory
  | .permissionDenied _ code _ => .other s!"Permission denied (os error {code})"
  | error => .other error.toString

def decodeInput (bytes : ByteArray) : Except FileError String :=
  match String.fromUTF8? bytes with
  | some text => .ok text
  | none => .error .notUtf8

instance : Host IO where
  readFile path := do
    try return decodeInput (← IO.FS.readBinFile path)
    catch error => return .error (.ofSystem error)
  readInput := do
    try return decodeInput (← (← IO.getStdin).readBinToEnd)
    catch error => return .error (.ofSystem error)
  writeFile path content := do
    try
      IO.FS.writeFile path content
      return .ok ()
    catch error => return .error (.ofSystem error)

end JsonTree.CommandLine

open JsonTree.CommandLine in
def main (arguments : List String) : IO UInt32 := do
  let report ← run arguments (← IO.getEnv "JSONDOC_LOG")
  IO.print report.stdout
  IO.eprint report.stderr
  return UInt32.ofNat report.exit
