import System370.Yaml.Scalar

/-!
# YAML documents

A document is a tree of numbers, texts, lists and records, and it is written in
block style: one item or one field to a line, and everything inside an item or a
field two columns further to the right.

* `Yaml.lines` gives the lines of a list or a record, without an indentation of
  their own;
* `Yaml.render` is the text of a document.
-/

namespace System370

/-- A tree of data. -/
inductive Yaml where
  | number (n : Int)
  | text (value : Bytes)
  | list (items : List Yaml)
  | record (fields : List (Bytes × Yaml))

namespace Yaml

/-- Lines two columns further to the right; an empty line stays empty. -/
def indent (lines : List Bytes) : List Bytes :=
  lines.map fun line => if line = [] then [] else [blank, blank] ++ line

/-- The lines of an item of a list. -/
def itemLines (lines : List Bytes) : List Bytes :=
  match lines with
  | [] => []
  | first :: rest => (bytes "- " ++ first) :: indent rest

mutual

/-- The lines of a tree. -/
def lines : Yaml → List Bytes
  | number n => [decimal n]
  | text value => let (first, rest) := scalar value; first :: indent rest
  | list items => if items.isEmpty then [bytes "[]"] else listLines items
  | record fields => if fields.isEmpty then [bytes "\x7b\x7d"] else
    recordLines fields

/-- The lines of the items of a list. -/
def listLines : List Yaml → List Bytes
  | [] => []
  | item :: rest => itemLines item.lines ++ listLines rest

/-- The lines of the fields of a record.  A list or a record with contents
begins on a line of its own. -/
def recordLines : List (Bytes × Yaml) → List Bytes
  | [] => []
  | (key, value) :: rest =>
    (match value with
      | list (item :: items) => (key ++ bytes ":") ::
        indent (listLines (item :: items))
      | record (field :: fields) => (key ++ bytes ":") ::
        indent (recordLines (field :: fields))
      | value =>
        match value.lines with
        | [] => []
        | first :: more => (key ++ bytes ": " ++ first) :: more) ++
      recordLines rest

end

/-- The text of a document. -/
def render (document : Yaml) : Bytes :=
  document.lines.flatMap fun line => line ++ [0x0A]

end Yaml

end System370
