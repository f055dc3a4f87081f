import System370.MarkedNumeral
import System370.Text.EditDistance
import System370.Text.Quoted

/-!
# Arguments of a command

Arguments are flags and plain operands in any order.  A flag is written
`--name`, and some have a letter, as in `-o`.  The value of a flag follows an
equals sign, stands in the next argument, or, after a letter, directly behind
it.  Behind a bare `--` everything is an operand.

The first operand of a whole command line names a command.  Flags may stand
before it, and as long as no command is known, a flag without an equals sign is
taken to have its value in the next argument.

* `Arguments.words` are the operands before a command is known, and
  `Arguments.dropWord` takes the name of the command out;
* `Arguments.parse` reads arguments by a table of flags, each of which changes a
  record of settings; the first argument that does not fit decides the failure.
-/

namespace System370

/-- Why arguments cannot be read. -/
inductive UsageError where
  /-- There is no such command; `similar` are those that may be meant. -/
  | unknownCommand (name : Bytes) (similar : List Bytes)
  | unknownFlag (name : Bytes)
  | unknownLetter (letter : UInt8) (group : Bytes)
  | badSyntax (argument : Bytes)
  | missingValue (argument : Bytes)
  | missingLetterValue (letter : UInt8) (group : Bytes)
  /-- The value of a flag that is shown as `shown` does not fit. -/
  | badValue (value shown reason : Bytes)
  | tooManyOperands (most count : Nat)
  | operandCount (wanted count : Nat)
  deriving DecidableEq, Repr

/-- The question for a command that may be meant. -/
def suggestion (similar : List Bytes) : Bytes :=
  if similar = [] then []
  else bytes "\n\nDid you mean this?\n" ++
    similar.flatMap fun name => bytes "\t" ++ name ++ bytes "\n"

/-- The text of the failure. -/
def UsageError.message : UsageError → Bytes
  | unknownCommand name similar =>
    bytes "unknown command " ++ quoted name ++ bytes " for \"asm370\"" ++
      suggestion similar
  | unknownFlag name => bytes "unknown flag: --" ++ name
  | unknownLetter letter group =>
    bytes "unknown shorthand flag: " ++ quotedCharacter letter.toNat ++
      bytes " in -" ++ group
  | badSyntax argument => bytes "bad flag syntax: " ++ argument
  | missingValue argument => bytes "flag needs an argument: " ++ argument
  | missingLetterValue letter group =>
    bytes "flag needs an argument: " ++ quotedCharacter letter.toNat ++
      bytes " in -" ++ group
  | badValue value shown reason =>
    bytes "invalid argument " ++ quoted value ++ bytes " for " ++
      quoted shown ++ bytes " flag: " ++
      reason
  | tooManyOperands most count =>
    bytes "accepts at most " ++ decimal most ++ bytes " arg(s), received " ++
      decimal count
  | operandCount wanted count =>
    bytes "accepts " ++ decimal wanted ++ bytes " arg(s), received " ++
      decimal count

/-- A flag that changes settings of the type `σ`. -/
structure Flag (σ : Type) where
  name : Bytes
  letter? : Option UInt8 := none
  /-- The value of a flag that is written without one; none if it needs one. -/
  implied? : Option Bytes := none
  /-- The settings with a value, or what is wrong with the value. -/
  set : σ → Bytes → Except Bytes σ

namespace Flag

/-- A flag as failures show it. -/
def shown {σ : Type} (f : Flag σ) : Bytes :=
  match f.letter? with
  | some letter => bytes "-" ++ [letter] ++ bytes ", --" ++ f.name
  | none => bytes "--" ++ f.name

/-- The settings with a flag at a value. -/
def assign {σ : Type} (f : Flag σ) (settings : σ) (value : Bytes) :
    Except UsageError σ :=
  match f.set settings value with
  | .ok changed => .ok changed
  | .error reason => .error (.badValue value f.shown reason)

/-- The flag whose value is any text. -/
def ofText {σ : Type} (name : String) (letter? : Option UInt8)
    (set : σ → Bytes → σ) : Flag σ where
  name := bytes name
  letter? := letter?
  set settings value := .ok (set settings value)

/-- The spellings of truth values. -/
def truth? (value : Bytes) : Option Bool :=
  if ["1", "t", "T", "true", "TRUE", "True"].any fun s => bytes s = value then
    some true
  else if ["0", "f", "F", "false", "FALSE", "False"].any fun s =>
      bytes s = value then
    some false
  else none

/-- The flag that is on or off; written without a value it is on. -/
def ofSwitch {σ : Type} (name : String) (letter? : Option UInt8)
    (set : σ → Bool → σ) : Flag σ where
  name := bytes name
  letter? := letter?
  implied? := some (bytes "true")
  set settings value :=
    match truth? value with
    | some b => .ok (set settings b)
    | none =>
      .error (bytes "strconv.ParseBool: parsing " ++ quoted value ++
        bytes ": invalid syntax")

/-- The flag whose value is a whole number of 64 bits.  Underscores may separate
its digits. -/
def ofInteger {σ : Type} (name : String) (set : σ → Int64 → σ) : Flag σ where
  name := bytes name
  set settings value :=
    let failure := fun reason : String =>
      bytes "strconv.ParseInt: parsing " ++ quoted value ++ bytes ": " ++
        bytes reason
    let body := if value.head? = some 0x2B ∨ value.head? = some 0x2D then
      value.tail else value
    if value.contains 0x5F && !Binary.underscoresAllowed body then
      .error (failure "invalid syntax")
    else match MarkedNumeral.read? (value.filter (· ≠ 0x5F)) with
      | none => .error (failure "invalid syntax")
      | some n =>
        if MarkedNumeral.isSignedWord n then .ok (set settings (Int64.ofInt n))
        else .error (failure "value out of range")

/-- The flag that asks for help. -/
def help {σ : Type} (set : σ → Bool → σ) :
    Flag σ := ofSwitch "help" (some (octet 'h')) set

end Flag

/-- Settings and operands, as far as arguments have been read. -/
structure Arguments (σ : Type) where
  settings : σ
  operands : List Bytes := []

namespace Arguments

variable {σ : Type}

/-- What reading an argument leads to. -/
inductive Step (σ : Type) where
  | done (settings : σ)
  /-- The next argument is the value of a flag; without one the failure
  holds. -/
  | value (flag : Flag σ) (settings : σ) (failure : UsageError)

/-- Reads an argument `--name` or `--name=value` without its dashes. -/
def readName (flags : List (Flag σ)) (settings : σ) (body : Bytes) :
    Except UsageError (Step σ) :=
  let (name, rest) := body.span (· ≠ 0x3D)
  if name = [] ∨ name.head? = some 0x2D then
    .error (.badSyntax (bytes "--" ++ body))
  else match flags.find? (·.name = name) with
    | none => .error (.unknownFlag name)
    | some f =>
      match rest, f.implied? with
      | _ :: value, _ => (f.assign settings value).map .done
      | [], some value => (f.assign settings value).map .done
      | [], none => .ok (.value f settings (.missingValue (bytes "--" ++ body)))

/-- Reads an argument of letters without its dash.  Several letters may follow
each other as long as they need no values. -/
def readLetters (flags : List (Flag σ)) (settings : σ) :
    Bytes → Except UsageError (Step σ)
  | [] => .ok (.done settings)
  | c :: rest =>
    match flags.find? (·.letter? = some c) with
    | none => .error (.unknownLetter c (c :: rest))
    | some f =>
      match rest, f.implied? with
      | 0x3D :: d :: value, _ => (f.assign settings (d :: value)).map .done
      | rest,
        some value => do readLetters flags (← f.assign settings value) rest
      | [], none => .ok (.value f settings (.missingLetterValue c (c :: rest)))
      | rest, none => (f.assign settings rest).map .done

/-- Reads an argument that is no operand. -/
def readFlag (flags : List (Flag σ)) (settings : σ) :
    Bytes → Except UsageError (Step σ)
  | 0x2D :: 0x2D :: body => readName flags settings body
  | _ :: body => readLetters flags settings body
  | [] => .ok (.done settings)

/-- Whether an argument is an operand; a lone dash is one. -/
def isOperand (argument : Bytes) : Bool :=
  argument.head? ≠ some 0x2D || argument = [0x2D]

/-- Reads arguments from the left on. -/
def parse (flags : List (Flag σ)) (settings : σ) :
    List Bytes → Except UsageError (Arguments σ)
  | [] => .ok ⟨settings, []⟩
  | argument :: rest =>
    if isOperand argument then do
      let read ← parse flags settings rest
      return { read with operands := argument :: read.operands }
    else if argument = bytes "--" then .ok ⟨settings, rest⟩
    else match readFlag flags settings argument with
      | .error e => .error e
      | .ok (.done settings) => parse flags settings rest
      | .ok (.value f settings failure) =>
        match rest with
        | [] => .error failure
        | value :: rest =>
          match f.assign settings value with
          | .error e => .error e
          | .ok settings => parse flags settings rest

/-- Whether an argument is taken for a flag with its value in the next argument
while no command is known. -/
def takesNext (argument : Bytes) : Bool :=
  argument.head? = some 0x2D && !argument.contains 0x3D &&
    (argument.length = 2 || argument.startsWith (bytes "--"))

/-- Whether an argument may name a command. -/
def isWord (argument : Bytes) : Bool :=
  argument ≠ [] && argument.head? ≠ some 0x2D

/-- The operands of arguments while no command is known. -/
def words : List Bytes → List Bytes
  | [] => []
  | [argument] => if isWord argument then [argument] else []
  | argument :: next :: rest =>
    if argument = bytes "--" then []
    else if takesNext argument then words rest
    else if isWord argument then argument :: words (next :: rest)
    else words (next :: rest)

/-- The arguments without the first operand that is `name`. -/
def dropWord (name : Bytes) : List Bytes → List Bytes
  | [] => []
  | [argument] => if argument = name then [] else [argument]
  | argument :: next :: rest =>
    if argument = bytes "--" then argument :: next :: rest
    else if takesNext argument then argument :: next :: dropWord name rest
    else if argument = name then next :: rest
    else argument :: dropWord name (next :: rest)

end Arguments

end System370
