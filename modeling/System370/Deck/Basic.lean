import System370.CodePage037
import System370.Text.LetterCase

/-!
# Object modules

The result of an assembly is an object module: the external symbols, runs of
text, the relocations that a linker applies to them, and an end item with the
entry point and the identification of the translator.  A module is written on a
deck of cards (`System370.Deck.Emitter`) and read back from it
(`System370.Deck.Decode`).
-/

namespace System370

namespace Deck

/-- The type octet of an external symbol. -/
structure SymbolType where
  code : UInt8
  deriving DecidableEq, Repr

namespace SymbolType

/-- A named control section. -/
def control : SymbolType := ⟨0x00⟩

/-- An entry point inside a section. -/
def entry : SymbolType := ⟨0x01⟩

/-- A name from another module. -/
def external : SymbolType := ⟨0x02⟩

/-- An unnamed control section. -/
def unnamed : SymbolType := ⟨0x04⟩

/-- A name from another module that need not exist. -/
def weakExternal : SymbolType := ⟨0x0A⟩

/-- The abbreviations of the known types. -/
def names : List (SymbolType × Bytes) :=
  [(control, bytes "SD"), (entry, bytes "LD"), (external, bytes "ER"),
    (unnamed, bytes "PC"),
    (⟨0x05⟩, bytes "CM"), (⟨0x06⟩, bytes "XD"), (weakExternal, bytes "WX")]

/-- The abbreviation of a type, two hexadecimal digits for an unknown one. -/
def name (t : SymbolType) : Bytes :=
  match names.find? (·.1 = t) with
  | some (_, text) => text
  | none => hexField 2 t.code.toNat

/-- Whether the type names something in another module. -/
def isExternal (t : SymbolType) : Bool := t = external || t = weakExternal

end SymbolType

/-- An external symbol of a module. -/
structure Symbol where
  name : Bytes
  type : SymbolType
  /-- The number that text and relocations use; entry points have none. -/
  id : Int := 0
  address : Int64 := 0
  length : Int64 := 0
  /-- The number of the section of an entry point. -/
  owner : Int := 0
  addressingMode : Bytes := []
  residenceMode : Bytes := []
  deriving DecidableEq, Repr

/-- A run of text of a section. -/
structure Text where
  sectionId : Int
  address : Int64
  data : Bytes
  deriving DecidableEq, Repr

/-- What a linker does with an address field. -/
inductive Action where
  | add
  | subtract
  | store
  deriving DecidableEq, Repr

/-- The name of an action. -/
def Action.name : Action → Bytes
  | add => bytes "add"
  | subtract => bytes "subtract"
  | store => bytes "store"

/-- An address field for the linker. -/
structure Relocation where
  /-- The section that holds the field. -/
  position : Int
  /-- The symbol whose address goes into it. -/
  target : Int
  address : Int64
  length : Int
  action : Action
  deriving DecidableEq, Repr

/-- The identification of a translator. -/
structure Identification where
  translator : Bytes
  version : Bytes
  date : Bytes
  deriving DecidableEq, Repr

/-- The end of a module. -/
structure End where
  hasEntry : Bool := false
  address : Int64 := 0
  sectionId : Int := 0
  /-- The name of an entry point in another module. -/
  name : Bytes := []
  length : Int64 := 0
  identifications : List Identification := []
  deriving DecidableEq, Repr

/-- A finished object module. -/
structure Module where
  deckId : Bytes
  symbols : List Symbol
  text : List Text
  relocations : List Relocation
  ending : End
  deriving DecidableEq, Repr

/-- The number of octets of text that a card takes. -/
def textSize : Nat := 56

/-- The number of octets of an external symbol on a card. -/
def symbolSize : Nat := 16

/-- How many external symbols a card takes. -/
def symbolsPerCard : Nat := 3

/-- How many identifications a card takes. -/
def identificationsPerCard : Nat := 2

/-- Consecutive pieces of `size` octets, the last one possibly shorter.  The
fuel bounds the number of pieces. -/
def chunksFrom (size : Nat) : Nat → Bytes → List Bytes
  | 0, _ => []
  | _, [] => []
  | fuel + 1, data => data.take size :: chunksFrom size fuel (data.drop size)

/-- Consecutive pieces of `size` octets, the last one possibly shorter. -/
def chunks (size : Nat) (data : Bytes) : List Bytes :=
  chunksFrom size data.length data

end Deck

end System370
