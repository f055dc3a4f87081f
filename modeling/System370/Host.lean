import System370.Folder

/-!
# The host of a command

A command reads and writes files, takes its input and gives its output through a
host.  The host is a record of these operations in some monad, so that the same
command runs against the files of a machine and against a `Session`, which keeps
everything that a command does as a value.

* `Host` is the record of operations;
* `Session.host` is the host that works on a folder.
-/

namespace System370

/-- What a command can do on a machine. -/
structure Host (m : Type → Type) where
  /-- The contents of a file. -/
  read : Bytes → m (Except FileFault Bytes)
  /-- Writes a file, over an older one; gives the reason if that is
  impossible. -/
  write : Bytes → Contents → m (Option FileFault)
  /-- The standard input, unless it is a device. -/
  input : m (Option Bytes)
  /-- The path of the working directory. -/
  location : m Bytes
  /-- The year and the day of the year, in five digits. -/
  today : m Bytes
  /-- Adds to the standard output. -/
  print : Bytes → m Unit
  /-- Adds to the standard error output. -/
  report : Bytes → m Unit

/-- Everything that a command sees and leaves behind. -/
structure Session where
  folder : Folder := {}
  input? : Option Bytes := none
  location : Bytes := [Path.slash]
  today : Bytes := []
  output : Bytes := []
  report : Bytes := []
  deriving DecidableEq, Repr

/-- The host that works on a session. -/
def Session.host : Host (StateM Session) where
  read path := do return (← get).folder.read path
  write path contents := do
    let session ← get
    match session.folder.write path contents with
    | .error fault => return some fault
    | .ok folder =>
      set { session with folder }
      return none
  input := do return (← get).input?
  location := do return (← get).location
  today := do return (← get).today
  print text := modify fun s => { s with output := s.output ++ text }
  report text := modify fun s => { s with report := s.report ++ text }

end System370
