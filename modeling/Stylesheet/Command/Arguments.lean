/-! # Command line arguments

The command takes one source file, an output file and a flag. Options come
before or behind the file, each at most once, and a double dash ends them. The
version is asked for by the first argument that names it, unless an argument
before it is wrong.
-/

namespace Stylesheet.Command

structure Invocation where
  file : String
  output? : Option String
  checkOnly : Bool
  deriving DecidableEq

/-- What the arguments ask for. -/
inductive Request where
  | run (invocation : Invocation)
  | version
  | help
  | invalid
  deriving DecidableEq

inductive Argument where
  | file (path : String)
  | output (path : String)
  /-- The output option with its file in the next argument. -/
  | outputNext
  | check
  | version
  | help
  /-- The end of the options. -/
  | separator
  | unknown
  deriving DecidableEq

namespace Argument

def ofLong : List Char → Argument
  | [] => separator
  | name =>
    if name = "check".toList then check
    else if name = "version".toList then version
    else if name = "help".toList then help
    else if name = "output".toList then outputNext
    else if "output=".toList.isPrefixOf name then output (String.ofList (name.drop 7))
    else unknown

def ofShort : List Char → Argument
  | 'V' :: _ => version
  | 'h' :: _ => help
  | ['o'] => outputNext
  | 'o' :: '=' :: path => output (String.ofList path)
  | 'o' :: path => output (String.ofList path)
  | _ => unknown

/-- A single dash is a file. -/
def ofText (text : String) : Argument :=
  match text.toList with
  | '-' :: '-' :: name => ofLong name
  | '-' :: c :: cs => ofShort (c :: cs)
  | _ => file text

/-- Whether the argument can be the value of an option. -/
def isValue (text : String) : Bool :=
  match ofText text with
  | file _ => true
  | _ => false

end Argument

structure Settings where
  file? : Option String
  output? : Option String
  checkOnly : Bool

namespace Settings

def initial : Settings := ⟨none, none, false⟩

/-- The source file is given once, by a path that is not empty. -/
def addFile? (settings : Settings) (path : String) : Option Settings :=
  if settings.file?.isNone && path ≠ "" then some { settings with file? := path } else none

/-- The output file is given once, by a path that is not empty. -/
def addOutput? (settings : Settings) (path : String) : Option Settings :=
  if settings.output?.isNone && path ≠ "" then some { settings with output? := path } else none

def addCheck? (settings : Settings) : Option Settings :=
  if settings.checkOnly then none else some { settings with checkOnly := true }

def request (settings : Settings) : Request :=
  match settings.file? with
  | some file => .run ⟨file, settings.output?, settings.checkOnly⟩
  | none => .invalid

end Settings

namespace Request

/-- Arguments behind the end of the options are files. -/
def ofFiles (settings : Settings) : List String → Request
  | [] => settings.request
  | path :: paths =>
    match settings.addFile? path with
    | some settings => ofFiles settings paths
    | none => invalid

def ofRest (settings : Settings) : List String → Request
  | [] => settings.request
  | text :: rest =>
    match Argument.ofText text with
    | .file path =>
      match settings.addFile? path with
      | some settings => ofRest settings rest
      | none => invalid
    | .output path =>
      match settings.addOutput? path with
      | some settings => ofRest settings rest
      | none => invalid
    | .outputNext =>
      match rest with
      | [] => invalid
      | path :: rest =>
        if Argument.isValue path then
          match settings.addOutput? path with
          | some settings => ofRest settings rest
          | none => invalid
        else invalid
    | .check =>
      match settings.addCheck? with
      | some settings => ofRest settings rest
      | none => invalid
    | .version => version
    | .help => help
    | .separator => ofFiles settings rest
    | .unknown => invalid

/-- What a list of arguments asks for. -/
def ofArguments (arguments : List String) : Request := ofRest .initial arguments

end Request

end Stylesheet.Command
