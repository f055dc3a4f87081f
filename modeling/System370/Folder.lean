import System370.Path
import System370.SymbolMap

/-!
# Folders

A folder holds files and directories by their paths and stands for the working
directory of a command.  A path is followed name by name: every name but the
last must lead to a directory, also when the next name leads back up, so a path
can fail although the shortest path to the same place does not.

* `Folder.walk` follows the directories of a path;
* `Folder.read` and `Folder.write` read and write a file at a path.
-/

namespace System370

/-- Why a path leads to no file. -/
inductive FileFault where
  | missing
  | isDirectory
  | notDirectory
  | nameTooLong
  | invalidName
  | other (reason : Bytes)
  deriving DecidableEq, Repr

/-- The reason in words. -/
def FileFault.message : FileFault → Bytes
  | missing => bytes "no such file or directory"
  | isDirectory => bytes "is a directory"
  | notDirectory => bytes "not a directory"
  | nameTooLong => bytes "file name too long"
  | invalidName => bytes "invalid argument"
  | other reason => reason

namespace Path

/-- The greatest number of octets of a name. -/
def maxName : Nat := 255

/-- The greatest number of octets of a path. -/
def maxLength : Nat := 4095

/-- What is wrong with a path before anything is looked up.  The octet zero ends
a path and cannot stand in one. -/
def fault? (path : Bytes) : Option FileFault :=
  if path.contains 0 then some .invalidName
  else if path = [] then some .missing
  else if maxLength < path.length then some .nameTooLong
  else none

end Path

/-- What is written to a file. -/
inductive Contents where
  | octets (data : Bytes)
  | symbolMap (map : SymbolMap)
  deriving DecidableEq, Repr

/-- The octets in the file. -/
def Contents.toBytes : Contents → Bytes
  | octets data => data
  | symbolMap map => map.render

namespace Folder

/-- Something in a folder. -/
inductive Entry where
  | file (contents : Contents)
  | directory
  /-- A device that is always empty and keeps nothing. -/
  | sink
  deriving DecidableEq, Repr

/-- A place: the names that lead to it, the last one first. -/
structure Place where
  rooted : Bool
  names : List Bytes := []
  deriving DecidableEq, Repr

namespace Place

/-- Goes on to a name. -/
def enter (p : Place) (name : Bytes) : Place :=
  { p with names := Path.enter p.rooted p.names name }

/-- The shortest path to a place. -/
def path (p : Place) : Bytes :=
  let joined := Bytes.join [Path.slash] p.names.reverse
  if p.rooted then Path.slash :: joined else if p.names = [] then
    Path.here else joined

/-- Whether a place is the folder itself, a directory above it or the root. -/
def isAround (p : Place) : Bool := p.names.all (· = Path.above)

end Place

/-- What is known of the machine around a folder. -/
def surroundings : List (Bytes × Entry) :=
  [(bytes "/dev/null", .sink), (bytes "/tmp", .directory)]

end Folder

/-- Files and directories by their shortest paths. -/
structure Folder where
  entries : List (Bytes × Folder.Entry) := []
  deriving DecidableEq, Repr

namespace Folder

/-- What is at a place.  A directory need not be listed if something is inside
it. -/
def at? (folder : Folder) (place : Place) : Option Entry :=
  if place.isAround then some .directory
  else
    let known := folder.entries ++ surroundings
    match known.find? (·.1 = place.path) with
    | some (_, entry) => some entry
    | none =>
      if known.any fun e => e.1.startsWith (place.path ++ [Path.slash]) then
        some .directory
      else none

/-- What a name leads to from a directory; nothing for a new name. -/
def look (folder : Folder) (place : Place) (name : Bytes) :
    Except FileFault (Option Entry) :=
  if Path.maxName < name.length then .error .nameTooLong else
    .ok (folder.at? (place.enter name))

/-- Whether a name is one of those that every directory has. -/
def isDots (name : Bytes) : Bool := name = Path.here || name = Path.above

/-- Goes on to a name that must lead to a directory. -/
def walkName (folder : Folder) (place : Place) (name : Bytes) :
    Except FileFault Place :=
  if isDots name then .ok (place.enter name)
  else match folder.look place name with
    | .error fault => .error fault
    | .ok none => .error .missing
    | .ok (some .directory) => .ok (place.enter name)
    | .ok (some _) => .error .notDirectory

/-- Follows names that must all lead to directories. -/
def walk (folder : Folder) (place : Place) : List Bytes → Except FileFault Place
  | [] => .ok place
  | name :: rest =>
    match folder.walkName place name with
    | .error fault => .error fault
    | .ok next => folder.walk next rest

/-- Where a path leads: to a directory, or to a name in one. -/
inductive Goal where
  | directory
  | name (place : Place) (name : Bytes)
  deriving DecidableEq, Repr

/-- Follows a path up to its last name. -/
def goal (folder : Folder) (path : Bytes) : Except FileFault Goal :=
  match Path.fault? path with
  | some fault => .error fault
  | none =>
    let names := (Bytes.splitOn Path.slash path).filter (· ≠ [])
    let start : Place := { rooted := Path.isRooted path }
    match folder.walk start names.dropLast, names.getLast? with
    | .error fault, _ => .error fault
    | .ok _, none => .ok .directory
    | .ok place,
      some last => .ok (if isDots last then .directory else .name place last)

/-- Whether a path asks for a directory by a slash at its end. -/
def asksDirectory (path : Bytes) : Bool := path.getLast? = some Path.slash

/-- The contents of the file at a path. -/
def read (folder : Folder) (path : Bytes) : Except FileFault Bytes := do
  match ← folder.goal path with
  | .directory => throw .isDirectory
  | .name place name =>
    match ← folder.look place name with
    | none => throw .missing
    | some .directory => throw .isDirectory
    | some (.file contents) =>
      if asksDirectory path then throw .notDirectory else
        return contents.toBytes
    | some .sink => if asksDirectory path then
      throw .notDirectory else return []

/-- The folder with a file at a place. -/
def insert (folder : Folder) (place : Place) (contents : Contents) : Folder :=
  ⟨folder.entries.filter (·.1 ≠ place.path) ++ [(place.path, .file contents)]⟩

/-- The folder with a file written at a path, over an older one. -/
def write (folder : Folder) (path : Bytes) (contents : Contents) :
    Except FileFault Folder := do
  match ← folder.goal path with
  | .directory => throw .isDirectory
  | .name place name =>
    if asksDirectory path then throw .isDirectory
    match ← folder.look place name with
    | some .directory => throw .isDirectory
    | some .sink => return folder
    | _ => return folder.insert (place.enter name) contents

end Folder

end System370
