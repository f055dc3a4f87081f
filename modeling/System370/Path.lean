import System370.Bytes

/-!
# Paths

A path names a file by the directories that lead to it, with slashes between
them.  One that begins with a slash starts at the root, any other at the working
directory.

* `Path.clean` is the shortest path to the same place, read off the names alone;
* `Path.base`, `Path.directory` and `Path.extension` are parts of a path.
-/

namespace System370

namespace Path

/-- The octet between the names of a path. -/
def slash : UInt8 := 0x2F

/-- The name of the directory itself. -/
def here : Bytes := bytes "."

/-- The name of the directory above. -/
def above : Bytes := bytes ".."

/-- Whether a path starts at the root. -/
def isRooted (path : Bytes) : Bool := path.head? = some slash

/-- Goes on to a name from a place, whose names stand in reverse.  Nothing is
above the root. -/
def enter (rooted : Bool) (place : List Bytes) (name : Bytes) : List Bytes :=
  if name = [] ∨ name = here then place
  else if name = above then
    match place with
    | [] => if rooted then [] else [above]
    | last :: rest => if last = above then above :: place else rest
  else name :: place

/-- The names of the shortest path to the same place. -/
def names (path : Bytes) : List Bytes :=
  ((Bytes.splitOn slash path).foldl (enter (isRooted path)) []).reverse

/-- The shortest path to the same place. -/
def clean (path : Bytes) : Bytes :=
  if isRooted path then slash :: Bytes.join [slash] (names path)
  else if names path = [] then here
  else Bytes.join [slash] (names path)

/-- The path to something inside a directory. -/
def join (directory name : Bytes) : Bytes :=
  if directory = [] then clean name else clean (directory ++ [slash] ++ name)

/-- The last name of a path. -/
def base (path : Bytes) : Bytes :=
  let whole := Bytes.dropRightWhile (· = slash) path
  if path = [] then here
  else if whole = [] then [slash]
  else (Bytes.splitOn slash whole).getLastD []

/-- The path without its last name. -/
def directory (path : Bytes) : Bytes :=
  clean (Bytes.dropRightWhile (· ≠ slash) path)

/-- The end of the last name from its last point on; nothing without a point. -/
def extension (path : Bytes) : Bytes :=
  let name := (Bytes.splitOn slash path).getLastD []
  match Bytes.splitOn 0x2E name with
  | [_] => []
  | pieces => 0x2E :: pieces.getLastD []

/-- A text without an ending that it may have. -/
def dropEnding (ending text : Bytes) : Bytes :=
  if ending.isSuffixOf text then
    text.take (text.length - ending.length) else text

/-- A path with another extension. -/
def withExtension (path ending : Bytes) : Bytes :=
  dropEnding (extension path) path ++ ending

/-- A path that starts at the root, for one that starts at `location`. -/
def absolute (location path : Bytes) : Bytes :=
  if isRooted path then clean path else join location path

end Path

end System370
