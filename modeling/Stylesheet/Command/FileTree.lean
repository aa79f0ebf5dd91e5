/-! # File trees

Files in memory, named by paths from a working directory. A path is followed
component by component through directories that exist; nothing is known about
the world outside but that it has directories above.
-/

namespace Stylesheet.Command

inductive FileProblem where
  | system (message : String) (code : Nat)
  | notText
  deriving DecidableEq

namespace FileProblem

def missing : FileProblem := system "No such file or directory" 2

def notDirectory : FileProblem := system "Not a directory" 20

def isDirectory : FileProblem := system "Is a directory" 21

def message : FileProblem → String
  | system text code => text ++ " (os error " ++ toString code ++ ")"
  | notText => "stream did not contain valid UTF-8"

end FileProblem

def splitPath : List Char → List (List Char)
  | [] => [[]]
  | c :: cs =>
    if c = '/' then [] :: splitPath cs
    else
      match splitPath cs with
      | [] => [[c]]
      | part :: parts => (c :: part) :: parts

/-- The components of a path, empty ones left out. -/
def components (path : String) : List String :=
  ((splitPath path.toList).filter (· ≠ [])).map String.ofList

/-- The name of the file at the end of a path; the path itself if it ends in no
name. -/
def fileName (path : String) : String :=
  match ((components path).filter (· ≠ ".")).getLast? with
  | none => path
  | some name => if name = ".." then path else name

/-- A place in the tree: names from the working directory down, or from above
it where the first ones are `..`, or from the top where the first one is `/`. -/
abbrev Place := List String

namespace Place

/-- Whether a place is the working directory or above it. -/
def isAbove (place : Place) : Bool := place.all (· = "..") || place = ["/"]

def parent (place : Place) : Place :=
  if place = ["/"] then place
  else if place.all (· = "..") then place ++ [".."]
  else place.dropLast

end Place

inductive Entry where
  | file (content : ByteArray)
  | directory

structure FileTree where
  entries : List (Place × Entry)

namespace FileTree

variable (tree : FileTree)

def find? (place : Place) : Option Entry :=
  if place.isAbove then some .directory else tree.entries.lookup place

def insert (place : Place) (content : ByteArray) : FileTree :=
  ⟨(place, .file content) :: tree.entries.filter (·.1 ≠ place)⟩

/-- Step from a place, which must be a directory, by one component. -/
def step (place : Place) (component : String) : Except FileProblem Place :=
  match tree.find? place with
  | none => .error .missing
  | some (.file _) => .error .notDirectory
  | some .directory =>
    if component = "." then .ok place
    else if component = ".." then .ok place.parent
    else .ok (place ++ [component])

def locate (path : String) : Except FileProblem Place :=
  (components path).foldlM tree.step (if path.toList.head? = some '/' then ["/"] else [])

/-- A path that ends in a slash names a directory. -/
def endsInSlash (path : String) : Bool := path.toList.getLast? = some '/'

def readBytes (path : String) : Except FileProblem ByteArray := do
  match tree.find? (← tree.locate path) with
  | none => .error .missing
  | some .directory => .error .isDirectory
  | some (.file content) => if endsInSlash path then .error .notDirectory else .ok content

def readText (path : String) : Except FileProblem String := do
  match String.fromUTF8? (← tree.readBytes path) with
  | some text => .ok text
  | none => .error .notText

/-- The tree with a text written to a file, which need not be there before. -/
def writeText (path text : String) : Except FileProblem FileTree := do
  let place ← tree.locate path
  if endsInSlash path then .error .isDirectory
  else
    match tree.find? place with
    | some .directory => .error .isDirectory
    | _ => .ok (tree.insert place text.toUTF8)

end FileTree

end Stylesheet.Command
