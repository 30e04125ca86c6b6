import ServiceSchema.Program.Run
/-!
# The program

Connects the program to the files, the standard streams and the environment.
-/

namespace ServiceSchema.Main

def faultOf : IO.Error → FileFault
  | .noFileOrDirectory .. => .notFound
  | .inappropriateType _ 20 _ => .notDirectory
  | .inappropriateType _ 21 _ => .isDirectory
  | .invalidArgument _ 36 _ => .nameTooLong
  | e => .other (toString e)

def textOf (bytes : ByteArray) : Except FileFault String :=
  match String.fromUTF8? bytes with
  | some text => .ok text
  | none => .error .notText

partial def allBytes (stream : IO.FS.Stream) (read : ByteArray) : IO ByteArray := do
  let chunk ← stream.read 65536
  if chunk.isEmpty then return read else allBytes stream (read ++ chunk)

def caught {α : Type} (action : IO (Except FileFault α)) : IO (Except FileFault α) := do
  try action catch e => return .error (faultOf e)

def files : FileAccess IO where
  read path := caught do return textOf (← IO.FS.readBinFile path)
  write path content := caught do return .ok (← IO.FS.writeFile path content)
  input := caught do return textOf (← allBytes (← IO.getStdin) .empty)

def configHome : IO (Option String) := do
  match ← IO.getEnv "XDG_CONFIG_HOME" with
  | some home => return some home
  | none => return (← IO.getEnv "HOME").map (Path.join · ".config")

end ServiceSchema.Main

open ServiceSchema in
def main (args : List String) : IO UInt32 := do
  let outcome ← Program.run Main.files (← Main.configHome) args
  for line in outcome.lines do
    IO.eprintln line
  IO.print outcome.output
  return outcome.code
