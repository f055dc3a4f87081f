import System370.Options.Basic
import System370.Toml.Parse

/-!
# Options from a document

Options are read from a TOML document on top of their defaults.  The name of an
option is matched without regard to case.  A value of the wrong type is refused
first, then keys that are no options, then values out of range.
-/

namespace System370

/-- Why a document gives no options. -/
inductive OptionsError where
  /-- The document is malformed, or an option has a value of another type. -/
  | malformed
  | unknownKeys (keys : List Toml.Key)
  | invalid (option : InvalidOption)
  deriving DecidableEq, Repr

namespace Toml

/-- The spelling of a character in a quoted name. -/
def escapeName (c : UInt8) : Bytes :=
  if c = 0x22 then bytes "\\\""
  else if c = 0x5C then bytes "\\\\"
  else if c = 0x08 then bytes "\\b"
  else if c = 0x09 then bytes "\\t"
  else if c = 0x0A then bytes "\\n"
  else if c = 0x0C then bytes "\\f"
  else if c = 0x0D then bytes "\\r"
  else if c < 0x20 ∨ c = 0x7F then
    bytes "\\u" ++ Bytes.padLeft 4 0x30 (digits 16 c.toNat)
  else [c]

/-- A name, between quotes if it could not stand without. -/
def spellName (name : Bytes) : Bytes :=
  if name ≠ [] ∧ name.all isNameChar then name
  else [0x22] ++ name.flatMap escapeName ++ [0x22]

/-- A key with points between its names. -/
def spellKey (key : Key) : Bytes := Bytes.join (bytes ".") (key.map spellName)

/-- A name without regard to case: small letters, also for the two characters
beyond ASCII that are variants of one. -/
def foldName (name : Bytes) : List Nat :=
  (Utf8.decode name).map fun r =>
    if r.code = 0x17F then 0x73
    else if r.code = 0x212A then 0x6B
    else if 0x41 ≤ r.code && r.code ≤ 0x5A then r.code + 0x20
    else r.code

end Toml

namespace OptionsError

/-- The text of the failure. -/
def message : OptionsError → Bytes
  | malformed => bytes "malformed configuration"
  | unknownKeys keys =>
    bytes "Unknown configuration keys: " ++
      Bytes.join (bytes ", ") (keys.map Toml.spellKey)
  | invalid option => option.message

end OptionsError

namespace Options

/-- A setter that takes integers. -/
def takeInteger (set : Int64 → Options) : Toml.Value → Option Options
  | .integer n => some (set n)
  | _ => none

/-- A setter that takes texts. -/
def takeText (set : Bytes → Options) : Toml.Value → Option Options
  | .text s => some (set s)
  | _ => none

/-- A setter that takes truth values. -/
def takeBoolean (set : Bool → Options) : Toml.Value → Option Options
  | .boolean b => some (set b)
  | _ => none

/-- The names of the options, each with the way to set it. -/
def setters : List (Bytes × (Options → Toml.Value → Option Options)) :=
  [(bytes "region_size",
    fun o => takeInteger fun n => { o with regionSize := n }),
    (bytes "literal_limit",
      fun o => takeInteger fun n => { o with literalLimit := n }),
    (bytes "deck_id", fun o => takeText fun s => { o with deckId := s }),
    (bytes "translator", fun o => takeText fun s => { o with translator := s }),
    (bytes "version", fun o => takeText fun s => { o with version := s }),
    (bytes "date", fun o => takeText fun s => { o with date := s }),
    (bytes "amode", fun o => takeText fun s => { o with addressingMode := s }),
    (bytes "rmode", fun o => takeText fun s => { o with residenceMode := s }),
    (bytes "listing", fun o => takeBoolean fun b => { o with listing := b }),
    (bytes "xref",
      fun o => takeBoolean fun b => { o with crossReference := b })]

/-- The way to set the option of a name. -/
def setter? (name : Bytes) : Option (Options → Toml.Value → Option Options) :=
  (setters.find? fun s => Toml.foldName s.1 = Toml.foldName name).map (·.2)

/-- Whether a key is that of an option. -/
def isKnown : Toml.Key → Bool
  | [name] => (setter? name).isSome
  | _ => false

/-- Applies what stands at a key; only options at the top of a document
count. -/
def absorb? (o : Options) (entry : Toml.Key × Toml.Node) : Option Options :=
  match entry with
  | ([name], node) =>
    match setter? name, node with
    | none, _ => some o
    | some set, .leaf value => set o value
    | some _, .table => none
  | _ => some o

/-- The options of a document. -/
def ofDocument (d : Toml.Document) : Except OptionsError Options :=
  match d.nodes.foldlM absorb? {} with
  | none => .error .malformed
  | some o =>
    match d.keys.filter (!isKnown ·) with
    | [] =>
      match o.invalid? with
      | some option => .error (.invalid option)
      | none => .ok o
    | keys => .error (.unknownKeys keys)

/-- Reads options from the text of a document. -/
def decode (text : Bytes) : Except OptionsError Options :=
  match Toml.parse? text with
  | none => .error .malformed
  | some d => ofDocument d

end Options

end System370
