import Stencil.CommandLine.Run

/-!
# The program on a file system

Reads files and standard input, runs `CommandLine.run`, and writes what it says.
-/

namespace Stencil.CommandLine

def decode (bytes : ByteArray) : Except Text Text :=
  match String.fromUTF8? bytes with
  | some s => .ok s.toList
  | none => .error "stream did not contain valid UTF-8".toList

def ioMessage : IO.Error → Text
  | .noFileOrDirectory .. => FileError.message .notFound
  | .inappropriateType .. => FileError.message .isADirectory
  | .permissionDenied .. => "Permission denied (os error 13)".toList
  | e => (toString e).toList

def readText (read : IO ByteArray) : Work IO Text :=
  ExceptT.mk do
    match ← read.toBaseIO with
    | .ok bytes => return decode bytes
    | .error e => return .error (ioMessage e)

partial def readAll (stream : IO.FS.Stream) (before : ByteArray) : IO ByteArray := do
  let bytes ← stream.read 65536
  if bytes.isEmpty then return before else readAll stream (before ++ bytes)

/-- The files and the standard input of the process. -/
def surroundings : Surroundings IO where
  readFile path := readText (IO.FS.readBinFile (String.ofList path))
  readInput := readText do readAll (← IO.getStdin) ByteArray.empty

end Stencil.CommandLine

def main (args : List String) : IO UInt32 := do
  let outcome ← Stencil.CommandLine.run Stencil.CommandLine.surroundings (args.map String.toList)
  IO.print (String.ofList outcome.out)
  IO.eprint (String.ofList outcome.err)
  return UInt32.ofNat outcome.code
