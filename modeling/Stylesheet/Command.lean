import Stylesheet.Command.Arguments
import Stylesheet.Command.FileTree
import Stylesheet.Compilation

/-! # The command

The command reads a source file, compiles it and writes the style sheet, or
reports why there is none. It is stated over any way to reach files, so that it
runs on a file tree in memory as it does on disk.
-/

namespace Stylesheet.Command

/-- How a run ends and what it prints. -/
structure Outcome where
  exitCode : UInt32
  output : String
  errors : String
  deriving DecidableEq

/-- Ways to read the text of a file and to write one. -/
structure Files (m : Type → Type) where
  read : String → m (Except FileProblem String)
  write : String → String → m (Except FileProblem Unit)

def versionText : String := "icss 0.1.0\n"

def usageText : String := "Usage: icss [OPTIONS] <FILE>\n"

def helpText : String :=
  "Compiles ICSS stylesheets to CSS\n\n" ++ usageText ++
    "\nArguments:\n  <FILE>  ICSS source file\n" ++
    "\nOptions:\n  -o, --output <OUT>  Write the generated CSS here instead of stdout\n" ++
    "      --check         Stop after checking; no CSS is generated\n" ++
    "  -h, --help          Print help\n  -V, --version       Print version\n"

def reportProblems (file source : String) (diagnostics : List Diagnostic) : String :=
  String.join (diagnostics.map (·.display source)) ++
    toString diagnostics.length ++ " error(s) in " ++ file ++ "\n"

/-- The style sheet of a source, nothing if it is only checked, or the report
on what is wrong with it. -/
def process (file source : String) (checkOnly : Bool) : Except String (Option String) := do
  let root ← (parse file source).mapError (·.display source)
  let diagnostics ← (check root).mapError (·.display source)
  if diagnostics ≠ [] then throw (reportProblems file source diagnostics)
  if checkOnly then return none
  let css ← (produce root).1.mapError (·.display source)
  return some css

/-- What is left to do with a source that has been read. -/
def finish {m : Type → Type} [Monad m] (files : Files m) (invocation : Invocation)
    (source : String) : m Outcome := do
  match process (fileName invocation.file) source invocation.checkOnly with
  | .error report => return ⟨1, "", report⟩
  | .ok none => return ⟨0, "", ""⟩
  | .ok (some css) =>
    match invocation.output? with
    | none => return ⟨0, css, ""⟩
    | some path =>
      match ← files.write path css with
      | .ok () => return ⟨0, "", ""⟩
      | .error problem =>
        return ⟨1, "", "Error: could not write " ++ path ++ ": " ++ problem.message ++ "\n"⟩

def run {m : Type → Type} [Monad m] (files : Files m) (arguments : List String) : m Outcome := do
  match Request.ofArguments arguments with
  | .invalid => return ⟨2, "", usageText⟩
  | .version => return ⟨0, versionText, ""⟩
  | .help => return ⟨0, helpText, ""⟩
  | .run invocation =>
    match ← files.read invocation.file with
    | .error problem =>
      return ⟨1, "",
        "Error: could not read " ++ invocation.file ++ ": " ++ problem.message ++ "\n"⟩
    | .ok source => finish files invocation source

def treeFiles : Files (StateM FileTree) where
  read path := do return (← get).readText path
  write path text := do
    match (← get).writeText path text with
    | .ok tree => do
      set tree
      return .ok ()
    | .error problem => return .error problem

def runIn (tree : FileTree) (arguments : List String) : Outcome × FileTree :=
  (run treeFiles arguments).run tree

end Stylesheet.Command
