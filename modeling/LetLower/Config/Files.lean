import LetLower.Config.OfData
import LetLower.Data.Yaml.Reader

/-!
# Configuration files

A project has its configuration in the nearest directory, from the current one upwards, that holds
a file of one of three names. A directory of that name is none. What is looked at is a tree of
files; above its root there is no configuration.
-/

namespace LetLower.Config

def fileNames : List String := [".lambdacrc.json", ".lambdacrc.yml", ".lambdacrc.yaml"]

def fileIn? (t : FileTree) (dir : List String) : Option (List String) :=
  (fileNames.find? fun name => (t.contents? (dir ++ [name])).isSome).map (dir ++ [·])

/-- The nearest configuration file; the names on the path come last first. -/
def findAbove? (t : FileTree) : List String → Option (List String)
  | [] => fileIn? t []
  | name :: above =>
    match fileIn? t (name :: above).reverse with
    | some path => some path
    | none => findAbove? t above

def find? (t : FileTree) (start : String) : Option String :=
  ((FileTree.resolve start).bind fun dir => findAbove? t dir.reverse).map ("/".intercalate ·)

def normalizeBreaks : List Char → List Char
  | [] => []
  | '\r' :: '\n' :: cs => '\n' :: normalizeBreaks cs
  | '\r' :: cs => '\n' :: normalizeBreaks cs
  | c :: cs => c :: normalizeBreaks cs

def orRefuse (path problem : String) : Data.Reading Data → Except Failure Data
  | .ok d => .ok d
  | .error .malformed => .error (.configError path problem)
  | .error (.fault f) => .error (.fault f)

/-- The data in a file: JSON if its name says so, YAML otherwise. Blank JSON is an empty object, and
so is YAML that counts as false. -/
def parse (path contents : String) : Except Failure Data := do
  let s := String.ofList (normalizeBreaks contents.toList)
  if path.endsWith ".json" then
    if s.toList.all Text.isBlank then return .object []
    orRefuse path "malformed JSON:" (Data.Json.read s)
  else
    let d ← orRefuse path "malformed YAML:" (Data.Yaml.read s)
    return if d.isTruthy then d else .object []

def load (t : FileTree) (path : String) : Except Failure Config := do
  let contents ← (t.read path).mapError fun e => .fault (.unreadableFile path e)
  match ← parse path contents with
  | .object fields => ofData? (.object fields)
  | _ => .error (.configError path "top level must be a mapping")

/-- Load the nearest configuration file; without one, everything has its default. -/
def loadNearest (t : FileTree) (start : String) : Except Failure Config :=
  match find? t start with
  | some path => load t path
  | none => .ok {}

end LetLower.Config
