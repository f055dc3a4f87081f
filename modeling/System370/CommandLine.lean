import System370.Arguments
import System370.Deck.Dump
import System370.Host
import System370.Listing
import System370.Options.Decode

/-!
# The command line

There are two commands.  `assemble` assembles a source file, or the standard
input, and writes the object deck, and on request a listing and a symbol map.
`dump` shows the cards of a deck.

The status of `assemble` is the return code of the assembly; a run that cannot
be completed has the status 16, and arguments that make no sense have 20.

* `Command.parse` reads the arguments;
* `CommandLine.run` carries a command out on a host and gives its status.
-/

namespace System370

/-- What `assemble` is asked to do. -/
structure AssembleRequest where
  /-- Empty for the standard input. -/
  sources : List Bytes := []
  /-- The path of the deck; empty for one that follows from the source. -/
  out : Bytes := []
  /-- The path of the listing, a dash for the standard output; empty for
  none. -/
  listing : Bytes := []
  symbols : Bool := false
  /-- The path of a document with options; empty for none. -/
  config : Bytes := []
  deck? : Option Bytes := none
  region? : Option Int64 := none
  noCrossReference : Bool := false
  /-- Whether only an explanation of the command is wanted. -/
  help : Bool := false
  deriving DecidableEq, Repr

/-- What `dump` is asked to do. -/
structure DumpRequest where
  path : Bytes := []
  format : Bytes := bytes "text"
  /-- Whether only an explanation of the command is wanted. -/
  help : Bool := false
  deriving DecidableEq, Repr

/-- A command. -/
inductive Command where
  | assemble (request : AssembleRequest)
  | dump (request : DumpRequest)
  /-- Shows the commands in a few words. -/
  | help
  deriving DecidableEq, Repr

namespace Command

/-- The flags of `assemble`. -/
def assembleFlags : List (Flag AssembleRequest) :=
  [.ofText "out" (some (octet 'o')) fun r value => { r with out := value },
    .ofText "listing" none fun r value => { r with listing := value },
    .ofSwitch "symbols" none fun r on => { r with symbols := on },
    .ofText "config" none fun r value => { r with config := value },
    .ofText "deck" none fun r value => { r with deck? := some value },
    .ofInteger "region" fun r n => { r with region? := some n },
    .ofSwitch "no-xref" none fun r on => { r with noCrossReference := on },
    .help fun r on => { r with help := on }]

/-- The flags of `dump`. -/
def dumpFlags : List (Flag DumpRequest) :=
  [.ofText "format" (some (octet 'f')) fun r value =>
    { r with format := value }, .help fun r on => { r with help := on }]

/-- The arguments of `assemble`: at most one source. -/
def parseAssemble (arguments : List Bytes) : Except UsageError Command := do
  let read ← Arguments.parse assembleFlags {} arguments
  if read.settings.help then return .help
  if 1 < read.operands.length then
    throw (.tooManyOperands 1 read.operands.length)
  return .assemble { read.settings with sources := read.operands }

/-- The arguments of `dump`: exactly one deck. -/
def parseDump (arguments : List Bytes) : Except UsageError Command := do
  let read ← Arguments.parse dumpFlags {} arguments
  if read.settings.help then return .help
  match read.operands with
  | [path] => return .dump { read.settings with path }
  | operands => throw (.operandCount 1 operands.length)

/-- Arguments without a command, among which only the wish for help makes
sense. -/
def parseBare (arguments : List Bytes) : Except UsageError Command := do
  let _ ← Arguments.parse [Flag.help fun _ on => on] false arguments
  return .help

/-- The commands that a mistyped name may stand for. -/
def names : List Bytes := [bytes "assemble", bytes "dump", bytes "completion"]

/-- The command of some arguments. -/
def parse (arguments : List Bytes) : Except UsageError Command :=
  match (Arguments.words arguments).head? with
  | none => parseBare arguments
  | some name =>
    if name = bytes "assemble" then
      parseAssemble (Arguments.dropWord name arguments)
    else if name = bytes "dump" then
      parseDump (Arguments.dropWord name arguments)
    else if name = bytes "help" ∨ name = bytes "completion" then .ok .help
    else .error (.unknownCommand name (names.filter (resembles name)))

end Command

namespace CommandLine

/-- The status of a run that cannot be completed. -/
def fatalStatus : Nat := 16

/-- The status of arguments that make no sense. -/
def usageStatus : Nat := 20

/-- What stands in front of messages before a source is known. -/
def programLabel : Bytes := bytes "asm370: "

/-- What stands in front of messages about a source. -/
def sourceLabel (name : Bytes) : Bytes :=
  bytes "\x1b[1m" ++ name ++ bytes ":\x1b[0m"

/-- The early end of a run. -/
structure Failure where
  label : Bytes := programLabel
  messages : List Bytes
  status : Nat := fatalStatus
  deriving DecidableEq, Repr

/-- A message about an operation on a file. -/
def fileMessage (verb : String) (path : Bytes) (fault : FileFault) : Bytes :=
  bytes verb ++ [blank] ++ path ++ bytes ": " ++ fault.message

/-- A message about a file that should be read: directories open, but have no
contents. -/
def readMessage (path : Bytes) (fault : FileFault) : Bytes :=
  fileMessage (if fault = .isDirectory then "read" else "open") path fault

variable {m : Type → Type} [Monad m]

/-- A step of a run, which may end the run. -/
abbrev Step (m : Type → Type) := ExceptT Failure m

/-- The options of a request: those of the document, then those of the flags. -/
def loadOptions (host : Host m) (request : AssembleRequest) :
    Step m Options := do
  let base : Options ←
    if request.config = [] then pure {}
    else match ← host.read request.config with
      | .error fault => throw { messages := [readMessage request.config fault] }
      | .ok text =>
        match Options.decode text with
        | .error e => throw { messages := [e.message] }
        | .ok options => pure options
  let options :=
    { base with
      deckId := request.deck?.getD base.deckId
      regionSize := request.region?.getD base.regionSize
      crossReference := base.crossReference && !request.noCrossReference }
  match options.invalid? with
  | some e => throw { messages := [e.message] }
  | none => pure options

/-- A source that has been read. -/
structure Source where
  /-- None for the standard input. -/
  path? : Option Bytes
  text : Bytes
  deriving DecidableEq, Repr

namespace Source

/-- What stands in front of messages about the source. -/
def label (s : Source) : Bytes :=
  match s.path? with
  | some path => sourceLabel (Path.base path)
  | none => sourceLabel (bytes "<stdin>")

/-- Where the deck goes unless a request says otherwise. -/
def defaultOut (s : Source) : Bytes :=
  match s.path? with
  | some path => Path.withExtension path (bytes ".obj")
  | none => bytes "out.obj"

end Source

/-- Reads the source of a request.  The standard input counts only without a
source file and if it is no device. -/
def loadSource (host : Host m) (request : AssembleRequest) : Step m Source := do
  match request.sources.head? with
  | none =>
    match ← host.input with
    | some text => pure ⟨none, text⟩
    | none =>
      throw
        { messages := [bytes "asm370 assemble [filename] [flags]"]
          status := usageStatus }
  | some path =>
    match ← host.read path with
    | .ok text => pure ⟨some path, text⟩
    | .error .isDirectory =>
      throw { messages :=
        [Path.base path ++ bytes " is not a valid assembler source file"] }
    | .error fault => throw { messages := [fileMessage "stat" path fault] }

/-- The line of a source that begins at an offset. -/
def lineAt (text : Bytes) (offset : Nat) : Bytes :=
  Bytes.dropRightWhile (fun c => c = 0x0D || c = 0x0A)
    ((text.drop offset).takeWhile (· ≠ 0x0A))

/-- The line under a line of a source that marks the octets a cursor covers. -/
def underline (c : Cursor) : Bytes :=
  List.replicate (c.byte - c.lineByte) blank ++ bytes "^" ++
    List.replicate (c.size - 1) (octet '~')

/-- A diagnostic in a report.  For a file the line follows, with the place
marked under it. -/
def showDiagnostic (s : Source) (d : Diagnostic) : Bytes :=
  let message := d.code ++ [blank] ++ d.message
  let shown := match s.path? with
    | some _ => [message, lineAt s.text d.cursor.lineByte, underline d.cursor]
    | none => [message]
  s.label ++ Bytes.join [0x0A] shown ++ [0x0A]

/-- Writes a file, or ends the run with the two messages of a failure. -/
def writeFile (host : Host m) (s : Source) (purpose : String) (path : Bytes)
    (contents : Contents) :
    Step m Unit := do
  match ← host.write path contents with
  | none => pure ()
  | some fault =>
    throw
      { label := s.label
        messages := [bytes "Error writing " ++ bytes purpose,
          fileMessage "open" path fault] }

/-- The title of a listing: the name of the deck, otherwise that of the
source. -/
def listingTitle (s : Source) (a : Assembly) : Bytes :=
  if a.deckId = [] then (s.path?.map Path.base).getD [] else a.deckId

/-- Writes the listing that a request asks for, unless the options forbid
one. -/
def writeListing (host : Host m) (request : AssembleRequest) (options : Options)
    (s : Source) (a : Assembly) : Step m Unit := do
  if request.listing = [] ∨ !options.listing then return
  let listing : Listing :=
    { title := listingTitle s a, crossReference := options.crossReference }
  if request.listing = bytes "-" then host.print (listing.render a)
  else writeFile host s "listing" request.listing (.octets (listing.render a))

/-- The path of the symbol map that belongs to a deck. -/
def symbolMapPath (out : Bytes) : Bytes :=
  Path.join (Path.directory out)
    (Path.withExtension (Path.base out) (bytes ".sym"))

/-- Writes the symbol map of an assembly next to its deck. -/
def writeSymbolMap (host : Host m) (s : Source) (a : Assembly) (out : Bytes) :
    Step m Unit := do
  let location ← host.location
  let source := (s.path?.map (Path.absolute location)).getD []
  writeFile host s "symbol table" (symbolMapPath out)
    (.symbolMap (SymbolMap.ofAssembly a source))

/-- Carries out `assemble`. -/
def assembleStep (host : Host m) (request : AssembleRequest) : Step m Nat := do
  let options ← loadOptions host request
  let source ← loadSource host request
  let today ← liftM host.today
  match assemble options source.text today with
  | .error e => throw { label := source.label, messages := [e.message] }
  | .ok a =>
    host.report (a.diagnostics.flatMap (showDiagnostic source))
    writeListing host request options source a
    match a.deck? with
    | none => pure a.returnCode
    | some cards =>
      let out := if request.out = [] then source.defaultOut else request.out
      writeFile host source "output file" out (.octets cards.flatten)
      if request.symbols then writeSymbolMap host source a out
      pure a.returnCode

/-- Carries out `dump`. -/
def dumpStep (host : Host m) (request : DumpRequest) : Step m Nat := do
  if request.format ≠ bytes "text" ∧ request.format ≠ bytes "yaml" then
    throw
      { messages := [bytes "Unknown format " ++ quoted request.format]
        status := usageStatus }
  match ← host.read request.path with
  | .error fault => throw { messages := [readMessage request.path fault] }
  | .ok deck =>
    match Deck.readAll deck with
    | .error e => throw { messages := [e.message] }
    | .ok cards =>
      host.print (if request.format = bytes "yaml" then Deck.dumpYaml cards else
        Deck.dumpText cards)
      pure 0

/-- The commands in a few words. -/
def help : Bytes :=
  bytes "System/370 assembler producing relocatable object decks\n\n" ++
    bytes "  asm370 assemble [filename] [flags]\n" ++
      bytes "  asm370 dump filename [flags]\n"

/-- Carries out the command of some arguments. -/
def step (host : Host m) (arguments : List Bytes) : Step m Nat := do
  match Command.parse arguments with
  | .error e => throw { messages := [e.message], status := usageStatus }
  | .ok .help => host.print help; pure 0
  | .ok (.assemble request) => assembleStep host request
  | .ok (.dump request) => dumpStep host request

/-- Carries out the command of some arguments and gives its status. -/
def run (host : Host m) (arguments : List Bytes) : m Nat := do
  match ← (step host arguments).run with
  | .ok status => pure status
  | .error failure =>
    host.report (failure.messages.flatMap fun message => failure.label ++
      message ++ [0x0A])
    pure failure.status

end CommandLine

end System370
