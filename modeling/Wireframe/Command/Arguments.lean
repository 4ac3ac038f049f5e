import Wireframe.Render

/-!
The arguments of the command. They are read one by one, and the first that is wrong or that asks for
the version or for help ends the reading. An option takes a value, which may follow the option's
letter, an equals sign, or in the next argument, and is given once; a switch takes none. After `--`
every argument names a file.
-/

namespace Wireframe.Command

/-! ### Options and switches -/

/-- An option with a value. -/
inductive Setting where
  | format
  | width
  | directory
  deriving DecidableEq

inductive Switch where
  | verbose
  | version
  | help
  deriving DecidableEq

/-- What an argument that starts with a dash names. -/
inductive Key where
  | setting (setting : Setting)
  | switch (switch : Switch)
  deriving DecidableEq

namespace Key

/-- The name after two dashes. -/
def name : Key → Text
  | setting .format => "format".toList
  | setting .width => "width".toList
  | setting .directory => "out-dir".toList
  | switch .verbose => "verbose".toList
  | switch .version => "version".toList
  | switch .help => "help".toList

/-- The letter after one dash. -/
def letter? : Key → Option Char
  | setting .format => some 'f'
  | setting .width => some 'w'
  | setting .directory => none
  | switch .verbose => some 'v'
  | switch .version => some 'V'
  | switch .help => some 'h'

def all : List Key :=
  [setting .format, setting .width, setting .directory, switch .verbose, switch .version,
    switch .help]

def ofName? (name : Text) : Option Key := all.find? (·.name = name)

def ofLetter? (letter : Char) : Option Key := all.find? (·.letter? = some letter)

end Key

/-! ### What ends the reading -/

/-- What is wrong with the arguments. -/
inductive Misuse where
  | unknown (argument : Text)
  | missingValue (setting : Setting)
  | repeated (setting : Setting)
  | invalidValue (setting : Setting) (value : Text)
  | unexpectedValue (switch : Switch) (value : Text)
  | emptyPath
  | missingFiles
  deriving DecidableEq

namespace Misuse

/-- The name of an option with its dashes. -/
def dashed (key : Key) : Text := "--".toList ++ key.name

def quoted (t : Text) : Text := "'".toList ++ t ++ "'".toList

def message : Misuse → Text
  | unknown argument => "unexpected argument ".toList ++ quoted argument
  | missingValue s => "a value is required for ".toList ++ dashed (.setting s)
  | repeated s => dashed (.setting s) ++ " cannot be used multiple times".toList
  | invalidValue s value =>
    "invalid value ".toList ++ quoted value ++ " for ".toList ++ dashed (.setting s)
  | unexpectedValue s value =>
    "unexpected value ".toList ++ quoted value ++ " for ".toList ++ dashed (.switch s)
  | emptyPath => "a path must not be empty".toList
  | missingFiles => dashed (.setting .directory) ++ " requires files".toList

end Misuse

/-- Why arguments ask for no rendering. -/
inductive Stop where
  | misuse (misuse : Misuse)
  | version
  | help
  deriving DecidableEq

/-! ### Reading -/

/-- What the arguments read so far have given. -/
structure Given where
  format : Option Format
  width : Option Nat
  directory : Option Text
  verbosity : Nat
  files : List Text

/-- Nothing given. -/
def Given.nothing : Given := ⟨none, none, none, 0, []⟩

/-- The first number that is no width. -/
def widthLimit : Nat := UInt64.size

/-- Reads a width: a numeral, with or without a plus sign. -/
def readWidth? (t : Text) : Option Nat :=
  (Text.readNat? (Text.dropFirst '+' t)).filter fun n => decide (n < widthLimit)

/-- The value that a field has after being given one, where it has none yet. -/
def once {α : Type} (setting : Setting) (value : Text) (field new : Option α) :
    Except Stop (Option α) :=
  if field.isSome then .error (.misuse (.repeated setting))
  else if new.isNone then .error (.misuse (.invalidValue setting value))
  else .ok new

namespace Given

/-- Gives an option its value. -/
def set (g : Given) (setting : Setting) (value : Text) : Except Stop Given :=
  match setting with
  | .format =>
    (once setting value g.format (Format.read value).toOption).map fun v => { g with format := v }
  | .width => (once setting value g.width (readWidth? value)).map fun v => { g with width := v }
  | .directory =>
    (once setting value g.directory (if value = [] then none else some value)).map fun v =>
      { g with directory := v }

/-- Turns a switch. -/
def turn (g : Given) : Switch → Except Stop Given
  | .verbose => .ok { g with verbosity := g.verbosity + 1 }
  | .version => .error .version
  | .help => .error .help

/-- Adds a file. -/
def add (g : Given) (path : Text) : Except Stop Given :=
  if path = [] then .error (.misuse .emptyPath) else .ok { g with files := g.files ++ [path] }

end Given

/-- How the next argument is read. -/
inductive Mode where
  /-- As an option, a switch or a file. -/
  | any
  /-- As the value of an option. -/
  | value (setting : Setting)
  /-- As a file. -/
  | file
  deriving DecidableEq

/-- Reads the letters after one dash. -/
def readLetters (g : Given) : Text → Except Stop (Given × Mode)
  | [] => .ok (g, .any)
  | c :: cs =>
    match Key.ofLetter? c with
    | none => .error (.misuse (.unknown ['-', c]))
    | some (.switch s) => (g.turn s).bind fun g => readLetters g cs
    | some (.setting s) =>
      if cs = [] then .ok (g, .value s)
      else (g.set s (Text.dropFirst '=' cs)).map fun g => (g, .any)

/-- Reads what follows two dashes: a name, and a value where there is an equals sign. -/
def readName (g : Given) (t : Text) : Except Stop (Given × Mode) :=
  let name := t.takeWhile (· ≠ '=')
  let value := t.dropWhile (· ≠ '=')
  match Key.ofName? name with
  | none => .error (.misuse (.unknown ("--".toList ++ name)))
  | some (.switch s) =>
    if value = [] then (g.turn s).map fun g => (g, .any)
    else .error (.misuse (.unexpectedValue s value.tail))
  | some (.setting s) =>
    if value = [] then .ok (g, .value s) else (g.set s value.tail).map fun g => (g, .any)

/-- Whether an argument is no file and no value: it starts with a dash and is more than that. -/
def isDashed (argument : Text) : Bool := argument.head? = some '-' ∧ argument ≠ ['-']

/-- Reads one argument. -/
def readArgument (g : Given) (mode : Mode) (argument : Text) : Except Stop (Given × Mode) :=
  match mode with
  | .file => (g.add argument).map fun g => (g, .file)
  | .value s =>
    if isDashed argument then .error (.misuse (.missingValue s))
    else (g.set s argument).map fun g => (g, .any)
  | .any =>
    if isDashed argument then
      match argument with
      | ['-', '-'] => .ok (g, .file)
      | '-' :: '-' :: name => readName g name
      | _ => readLetters g argument.tail
    else (g.add argument).map fun g => (g, .any)

/-- Reads all arguments. -/
def readArguments (g : Given) (mode : Mode) : List Text → Except Stop Given
  | [] =>
    match mode with
    | .value s => .error (.misuse (.missingValue s))
    | _ => .ok g
  | argument :: arguments =>
    (readArgument g mode argument).bind fun r => readArguments r.1 r.2 arguments

/-! ### Jobs -/

/-- What to render, and where to. -/
structure Job where
  options : Options
  /-- The directory for the renderings, which are printed where there is none. -/
  directory : Option Text
  verbosity : Nat
  files : List Text

/-- The width to use: the one given, else the one of the environment, else the default. -/
def chooseWidth (given : Option Nat) (environment : Option Text) : Except Stop Nat :=
  match given, environment with
  | some width, _ => .ok width
  | none, none => .ok defaultWidth
  | none, some t =>
    match readWidth? t with
    | some width => .ok width
    | none => .error (.misuse (.invalidValue .width t))

/-- The job that the arguments and the width in the environment ask for. -/
def readJob (arguments : List Text) (environment : Option Text) : Except Stop Job :=
  (readArguments .nothing .any arguments).bind fun g =>
    (chooseWidth g.width environment).bind fun width =>
      if g.directory.isSome ∧ g.files = [] then .error (.misuse .missingFiles)
      else .ok ⟨.of (g.format.getD .ascii) width, g.directory, g.verbosity, g.files⟩

end Wireframe.Command
