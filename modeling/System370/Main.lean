import System370.CommandLine
import Std.Time.DateTime.Timestamp

/-!
# The program

The commands run on the files of the machine.  Everything that they decide is in
`System370.CommandLine`; here are only the operations of the host.
-/

namespace System370

namespace Machine

/-- The octets of an array. -/
def ofArray (data : ByteArray) : Bytes := data.data.toList

/-- The array of some octets. -/
def toArray (data : Bytes) : ByteArray := ⟨data.toArray⟩

/-- The name of a file as the machine takes it. -/
def nameOf (path : Bytes) : String := (String.fromUTF8? (toArray path)).getD ""

/-- The reason for a failure of the machine.  Its number may have been negated
in 32 bits. -/
def faultOf (e : IO.Error) : FileFault :=
  let plain := fun number : UInt32 => if number < 0x80000000 then
    number else 0 - number
  match e with
  | .noFileOrDirectory .. => .missing
  | .inappropriateType _ number reason =>
    if plain number = 21 then .isDirectory
    else if plain number = 20 then .notDirectory
    else .other (bytes reason)
  | .invalidArgument _ number reason =>
    if plain number = 36 then .nameTooLong
    else if plain number = 22 then .invalidName
    else .other (bytes reason)
  | .permissionDenied .. => .other (bytes "permission denied")
  | e => .other (bytes e.toString)

/-- The contents of a file of the machine. -/
def read (path : Bytes) : IO (Except FileFault Bytes) := do
  if let some fault := Path.fault? path then return .error fault
  try
    return .ok (ofArray (← IO.FS.readBinFile (nameOf path)))
  catch e => return .error (faultOf e)

/-- Writes a file of the machine. -/
def write (path : Bytes) (contents : Contents) : IO (Option FileFault) := do
  if let some fault := Path.fault? path then return some fault
  try
    IO.FS.writeBinFile (nameOf path) (toArray contents.toBytes)
    return none
  catch e => return some (faultOf e)

/-- Whether the standard input is a device. -/
def inputIsDevice : IO Bool := do
  if ← (← IO.getStdin).isTty then return true
  try
    return (← IO.FS.realPath "/dev/stdin").toString.startsWith "/dev/"
  catch _ => return false

/-- The standard input, unless it is a device. -/
def input : IO (Option Bytes) := do
  if ← inputIsDevice then return none
  return some (ofArray (← (← IO.getStdin).readBinToEnd))

/-- The day of the clock. -/
def today : IO Bytes := do
  return dateOfDay
    ((← Std.Time.Timestamp.now).toSecondsSinceUnixEpoch.val / 86400).toNat

/-- The operations of the machine. -/
def host : Host IO where
  read := read
  write := write
  input := input
  location := do return bytes (← IO.currentDir).toString
  today := today
  print text := do (← IO.getStdout).write (toArray text)
  report text := do (← IO.getStderr).write (toArray text)

end Machine

end System370

/-- Runs the command of the arguments. -/
def main (arguments : List String) : IO UInt32 := do
  return (← System370.CommandLine.run System370.Machine.host
    (arguments.map System370.bytes)).toUInt32
