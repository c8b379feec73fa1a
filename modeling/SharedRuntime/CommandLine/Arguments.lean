import SharedRuntime.FileSystem.Path

/-!
# Arguments of the command line

The arguments name a command, its operands and options. Options that hold for all commands may
stand before or after the name of the command.

Arguments are read from left to right. The values of an option or operand are collected until
another one begins, and are checked only then; so of two mistakes the later one is sometimes the
one that is reported.
-/

set_option autoImplicit false

namespace SharedRuntime

/-- What the program is asked to do. -/
inductive Command
  /-- Show the status of the installed runtime. -/
  | status
  /-- Attempt an update, from another address and after a cleanup if so asked. -/
  | update (url : Option String) (clean : Bool)
  /-- Verify an artifact. -/
  | verify (artifact : Path)
  /-- Unpack an artifact into a directory, by default that of the runtime. -/
  | install (artifact : Path) (dest : Option Path)
  /-- Pack files into a signed artifact. -/
  | pack (output key : Path) (files : List Path)
  deriving DecidableEq, Repr

/-- What the arguments say. -/
structure Invocation where
  command : Command
  /-- The file of the configuration, if it is not the usual one. -/
  config : Option Path
  /-- Is the output for programs? -/
  json : Bool
  deriving DecidableEq, Repr

/-- Why there is nothing to run. -/
inductive ArgumentFault
  | helpAsked
  | versionAsked
  | nothingGiven
  | missingCommand
  | unknownCommand
  | unknownArgument
  | invalidValue
  /-- An option that takes no value has one. -/
  | unexpectedValue
  /-- An option that may occur once occurs again. -/
  | repeated
  | missingArgument
  deriving DecidableEq, Repr

/-- The exit code. Only who asks for help or the version gets what was asked for. -/
def ArgumentFault.exitCode : ArgumentFault → UInt8
  | helpAsked => 0
  | versionAsked => 0
  | _ => 2

namespace Arguments

/-- The names of the commands. -/
inductive CommandName
  | status
  | update
  | verify
  | install
  | pack
  deriving DecidableEq, Repr

/-- The command of a name. -/
def CommandName.ofText? : String → Option CommandName
  | "status" => some status
  | "update" => some update
  | "verify" => some verify
  | "install" => some install
  | "pack" => some pack
  | _ => none

/-- The command that explains the others. -/
def helpCommand : String := "help"

/-- What can be given: options and operands. -/
inductive Parameter
  | config
  | format
  | help
  | version
  | url
  | clean
  | dest
  | output
  | key
  | artifact
  | files
  deriving DecidableEq, Repr

/-- What a parameter takes. -/
inductive Kind
  /-- Nothing: it shows the help and ends the program. -/
  | help
  /-- Nothing: it shows the version and ends the program. -/
  | version
  /-- Nothing. -/
  | flag
  /-- A text that is not empty. -/
  | path
  /-- Any text. -/
  | text
  /-- One of the output formats. -/
  | format
  deriving DecidableEq, Repr

namespace Parameter

/-- The long name. Operands have one only for a reader. -/
def long : Parameter → String
  | config => "config"
  | format => "format"
  | help => "help"
  | version => "version"
  | url => "url"
  | clean => "clean"
  | dest => "dest"
  | output => "output"
  | key => "key"
  | artifact => "artifact"
  | files => "files"

/-- The letter of an option that has one. -/
def short? : Parameter → Option Char
  | config => some 'c'
  | format => some 'f'
  | help => some 'h'
  | version => some 'V'
  | dest => some 'd'
  | output => some 'o'
  | key => some 'k'
  | _ => none

/-- What the parameter takes. -/
def kind : Parameter → Kind
  | help => .help
  | version => .version
  | clean => .flag
  | url => .text
  | format => .format
  | _ => .path

/-- Does the parameter take a value? -/
def takesValue (p : Parameter) : Bool :=
  match p.kind with
  | .help => false
  | .version => false
  | .flag => false
  | _ => true

/-- May the parameter occur again and again? -/
def repeats (p : Parameter) : Bool := p == files

/-- Is the text a value of the parameter? -/
def accepts (p : Parameter) (value : String) : Bool :=
  match p.kind with
  | .path => value != ""
  | .format => value == "text" || value == "json"
  | _ => true

end Parameter

/-- What may be given at one place: before the command or after it. -/
structure Level where
  options : List Parameter
  /-- What stands without a name. -/
  operand : Option Parameter
  /-- May a command be named? -/
  namesCommand : Bool
  deriving DecidableEq, Repr

namespace Level

/-- The options that hold for all commands. -/
def shared : List Parameter := [.config, .format, .help]

/-- What may stand before the command. -/
def outer : Level := ⟨.version :: shared, none, true⟩

/-- What may follow a command. -/
def ofCommand : CommandName → Level
  | .status => ⟨shared, none, false⟩
  | .update => ⟨.url :: .clean :: shared, none, false⟩
  | .verify => ⟨shared, some .artifact, false⟩
  | .install => ⟨.dest :: shared, some .artifact, false⟩
  | .pack => ⟨.output :: .key :: shared, some .files, false⟩

/-- The option of a long name. -/
def longOption? (l : Level) (name : String) : Option Parameter :=
  l.options.find? fun p => p.long == name

/-- The option of a letter. -/
def shortOption? (l : Level) (letter : Char) : Option Parameter :=
  l.options.find? fun p => p.short? == some letter

end Level

/-- What was read so far at one level. -/
structure Scan where
  /-- What was given, checked. -/
  given : List (Parameter × List String)
  /-- The parameter whose values are collected. An option without a value yet waits for it. -/
  pending : Option (Parameter × List String)
  /-- Does every further argument stand for itself? -/
  trailing : Bool
  deriving DecidableEq, Repr

namespace Scan

/-- Nothing was read. -/
def start : Scan := ⟨[], none, false⟩

/-- Was the parameter given? -/
def has (s : Scan) (p : Parameter) : Bool := s.given.any fun g => g.1 == p

/-- All values of a parameter, in order. -/
def values (s : Scan) (p : Parameter) : List String :=
  s.given.flatMap fun g => if g.1 = p then g.2 else []

/-- The value of a parameter. -/
def value? (s : Scan) (p : Parameter) : Option String := (s.values p).head?

/-- Takes down what is given for a parameter. -/
def record (s : Scan) (p : Parameter) (values : List String) : Except ArgumentFault Scan :=
  if p.takesValue && values.isEmpty then .error .invalidValue
  else if s.has p && !p.repeats then .error .repeated
  else if !values.all p.accepts then .error .invalidValue
  else .ok { s with given := s.given ++ [(p, values)] }

/-- Ends the collection of values. -/
def settle (s : Scan) : Except ArgumentFault Scan :=
  match s.pending with
  | none => .ok s
  | some (p, values) => { s with pending := none }.record p values

/-- Takes a parameter with all that belongs to it. -/
def give (s : Scan) (p : Parameter) (values : List String) : Except ArgumentFault Scan := do
  (← s.settle).record p values

/-- Begins to collect the values of a parameter. -/
def collect (s : Scan) (p : Parameter) (values : List String) : Except ArgumentFault Scan := do
  return { ← s.settle with pending := some (p, values) }

/-- Takes an option that has no value. -/
def giveBare (s : Scan) (p : Parameter) : Except ArgumentFault Scan := do
  match p.kind with
  | .help => let _ ← s.settle; .error .helpAsked
  | .version => let _ ← s.settle; .error .versionAsked
  | _ => s.give p []

/-- The option that waits for its value. -/
def awaiting? (s : Scan) : Option Parameter :=
  match s.pending with
  | some (p, []) => some p
  | _ => none

end Scan

/-- An argument by its form. -/
inductive Form
  /-- Two dashes, a name, and perhaps a value after an equals sign. -/
  | long (name : String) (value : Option String)
  /-- One dash and letters. -/
  | short (letters : List Char)
  /-- Two dashes alone. -/
  | escape
  | plain
  deriving DecidableEq, Repr

/-- A name and what follows the first equals sign. -/
def splitAtEquals (cs : List Char) : String × Option String :=
  match cs.dropWhile (· != '=') with
  | [] => (String.ofList cs, none)
  | _ :: value => (String.ofList (cs.takeWhile (· != '=')), some (String.ofList value))

/-- The form of an argument. -/
def formOf (arg : String) : Form :=
  match arg.toList with
  | ['-', '-'] => .escape
  | '-' :: '-' :: cs => let (name, value) := splitAtEquals cs; .long name value
  | '-' :: c :: cs => .short (c :: cs)
  | _ => .plain

namespace Scan

/-- Takes an option by its long name. -/
def takeLong (l : Level) (s : Scan) (name : String) (value : Option String) :
    Except ArgumentFault Scan :=
  match l.longOption? name with
  | none => .error .unknownArgument
  | some p =>
    match p.takesValue, value with
    | true, some v => s.give p [v]
    | true, none => s.collect p []
    | false, some _ => .error .unexpectedValue
    | false, none => s.giveBare p

/-- Takes options by their letters. What follows the letter of an option that takes a value is the
value, with or without an equals sign between. -/
def takeShort (l : Level) (s : Scan) : List Char → Except ArgumentFault Scan
  | [] => .ok s
  | c :: cs =>
    match l.shortOption? c with
    | none => .error .unknownArgument
    | some p =>
      if p.takesValue then
        match cs with
        | [] => s.collect p []
        | '=' :: value => s.give p [String.ofList value]
        | value => s.give p [String.ofList value]
      else do takeShort l (← s.giveBare p) cs

/-- Takes an argument that stands for itself. -/
def takeOperand (l : Level) (s : Scan) (arg : String) : Except ArgumentFault Scan :=
  match l.operand with
  | none =>
    if !l.namesCommand then .error .unknownArgument
    else if s.trailing && (arg == helpCommand || (CommandName.ofText? arg).isSome) then
      .error .unknownArgument
    else .error .unknownCommand
  | some p =>
    if p.repeats then
      match s.pending with
      | some (q, values) =>
        if q = p then .ok { s with pending := some (p, values ++ [arg]) } else s.collect p [arg]
      | none => s.collect p [arg]
    else if s.has p || s.pending.any (fun q => q.1 == p) then .error .unknownArgument
    else s.collect p [arg]

/-- Takes an argument that is a value or an operand. -/
def takePlain (l : Level) (s : Scan) (arg : String) : Except ArgumentFault Scan :=
  match s.awaiting? with
  | some p => .ok { s with pending := some (p, [arg]) }
  | none => s.takeOperand l arg

/-- Takes an argument that names no command. -/
def take (l : Level) (s : Scan) (arg : String) : Except ArgumentFault Scan :=
  if s.trailing then s.takeOperand l arg
  else match formOf arg with
    | .escape => .ok { s with trailing := true }
    | .long name value => s.takeLong l name value
    | .short letters => s.takeShort l letters
    | .plain => s.takePlain l arg

end Scan

/-- Reads the arguments that follow a command. -/
def scanInner (l : Level) (args : List String) : Except ArgumentFault Scan := do
  (← args.foldlM (Scan.take l) Scan.start).settle

/-- Explains a command, or all of them. -/
def explain : List String → ArgumentFault
  | [] => .helpAsked
  | [name] =>
    if name = helpCommand || (CommandName.ofText? name).isSome then .helpAsked else .unknownCommand
  | _ => .unknownCommand

/-- A value that has to be given. -/
def required (s : Scan) (p : Parameter) : Except ArgumentFault Path :=
  match s.value? p with
  | some v => .ok (Path.ofString v)
  | none => .error .missingArgument

/-- The command of a name with what was given for it. -/
def commandOf (s : Scan) : CommandName → Except ArgumentFault Command
  | .status => .ok .status
  | .update => .ok (.update (s.value? .url) (s.has .clean))
  | .verify => do return .verify (← required s .artifact)
  | .install => do
    return .install (← required s .artifact) ((s.value? .dest).map Path.ofString)
  | .pack => do
    let output ← required s .output
    let key ← required s .key
    let _ ← required s .files
    return .pack output key ((s.values .files).map Path.ofString)

/-- Reads the arguments up to the command and those that follow it. What follows is checked before
what precedes. -/
def scanOuter (s : Scan) :
    List String → Except ArgumentFault (Scan × Option (Command × Scan))
  | [] => do return (← s.settle, none)
  | arg :: args =>
    let expectsCommand := !s.trailing && s.awaiting?.isNone
    if expectsCommand && arg == helpCommand then .error (explain args)
    else
      match if expectsCommand then CommandName.ofText? arg else none with
      | some name => do
        let inner ← scanInner (Level.ofCommand name) args
        let command ← commandOf inner name
        return (← s.settle, some (command, inner))
      | none => do scanOuter (← s.take Level.outer arg) args

/-- The value of a parameter that holds for all commands. After the command it counts more than
before. -/
def sharedValue? (outer inner : Scan) (p : Parameter) : Option String :=
  (inner.value? p).or (outer.value? p)

/-- Reads the arguments of the program. -/
def parse (args : List String) : Except ArgumentFault Invocation := do
  match ← scanOuter Scan.start args with
  | (outer, none) => .error (if outer.given.isEmpty then .nothingGiven else .missingCommand)
  | (outer, some (command, inner)) =>
    return ⟨command, (sharedValue? outer inner .config).map Path.ofString,
      sharedValue? outer inner .format == some "json"⟩

end Arguments

end SharedRuntime
