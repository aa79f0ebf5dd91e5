import Stylesheet.Checking
import Stylesheet.Css
import Stylesheet.Evaluation
import Stylesheet.Grammar.Document

/-! # Compilation

A source is read, checked, evaluated and printed. It is refused when it cannot
be read or when checking finds a problem, and then nothing is printed.
-/

namespace Stylesheet

inductive Refusal where
  | faulty (fault : Fault)
  | problems (diagnostics : List Diagnostic)

def Refusal.message : Refusal → String
  | faulty fault => fault.cause.message
  | problems diagnostics =>
    "checking failed with " ++ toString diagnostics.length ++ " error(s)"

def parseLogged (file source : String) : Except Fault Node × List Event :=
  match tokenize file source with
  | .error fault => (.error fault, [])
  | .ok tokens => (parseTokens file tokens, [.tokenized tokens.length])

def checkLogged (root : Node) : Except Fault (List Diagnostic) × List Event :=
  match check root with
  | .error fault => (.error fault, [])
  | .ok diagnostics => (.ok diagnostics, [.checked diagnostics.length])

/-- The style sheet of a checked document. -/
def produce (root : Node) : Except Fault String × List Event :=
  match evaluate root with
  | (.error fault, log) => (.error fault, log)
  | (.ok evaluated, log) =>
    let (css, printLog) := Css.render evaluated
    (css, log ++ printLog)

/-- The style sheet of a source, and the events on the way. -/
def compile (file source : String) : Except Refusal String × List Event :=
  match parseLogged file source with
  | (.error fault, log) => (.error (.faulty fault), log)
  | (.ok root, parseLog) =>
    match checkLogged root with
    | (.error fault, log) => (.error (.faulty fault), parseLog ++ log)
    | (.ok [], checkLog) =>
      let (css, log) := produce root
      (css.mapError .faulty, parseLog ++ checkLog ++ log)
    | (.ok diagnostics, checkLog) =>
      (.error (.problems diagnostics), parseLog ++ checkLog ++ [.refused diagnostics.length])

end Stylesheet
