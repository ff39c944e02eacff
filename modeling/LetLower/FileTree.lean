import LetLower.Text.Quoted

/-!
# File trees

Directories and files below a root, and where a path leads in them. `FileTree.follow` walks a path
name by name, so every name before the last has to be that of a directory, also before `..`;
`resolve` reads the same path without looking at what there is. Above the root there are
directories too, but nothing is known to be in them.
-/

namespace LetLower

inductive PathError where
  | missing
  | notDirectory
  | isDirectory
  | tooLong
  | nullCharacter
deriving DecidableEq, Repr

def PathError.message (path : String) : PathError → String
  | missing => "[Errno 2] No such file or directory: " ++ Text.display path
  | notDirectory => "[Errno 20] Not a directory: " ++ Text.display path
  | isDirectory => "[Errno 21] Is a directory: " ++ Text.display path
  | tooLong => "[Errno 36] File name too long: " ++ Text.display path
  | nullCharacter => "embedded null byte"

def maxNameSize : Nat := 255

def maxPathSize : Nat := 4096

/-- Files and directories by their path below the root, a path being the names on it. -/
structure FileTree where
  files : List (List String × String) := []
  directories : List (List String) := []

namespace FileTree

/-- Follow a name from a directory, whose names come last first; none if that leaves the root. -/
def step (done : List String) (name : String) : Option (List String) :=
  if name = "" ∨ name = "." then some done
  else if name = ".." then done.tail?
  else some (name :: done)

def resolve (path : String) : Option (List String) :=
  if path.startsWith "/" then none
  else ((path.splitOn "/").foldlM step []).map List.reverse

def passed (names : List String) : List (List String) :=
  (List.range (names.length + 1)).filterMap fun n =>
    ((names.take n).foldlM step []).map List.reverse

def ofList (directories : List String) (files : List (String × String)) : FileTree :=
  { files := files.filterMap fun f => (resolve f.1).map (·, f.2)
    directories := directories.flatMap (fun d => passed (d.splitOn "/"))
      ++ files.flatMap fun f => passed (f.1.splitOn "/").dropLast }

def contents? (t : FileTree) (path : List String) : Option String :=
  (t.files.reverse.find? (·.1 = path)).map (·.2)

/-- Follow the names on a path from a directory, whose own names come last first; none is a
directory above the root. -/
def follow (t : FileTree) : Option (List String) → List String → Except PathError String
  | _, [] => .error .isDirectory
  | none, name :: rest =>
    if name = "" ∨ name = "." ∨ name = ".." then t.follow none rest
    else if maxNameSize < name.utf8ByteSize then .error .tooLong
    else .error .missing
  | some here, name :: rest =>
    if name = "" ∨ name = "." ∨ name = ".." then t.follow (step here name) rest
    else if maxNameSize < name.utf8ByteSize then .error .tooLong
    else
      let path := (name :: here).reverse
      match t.contents? path with
      | some contents => if rest.isEmpty then .ok contents else .error .notDirectory
      | none =>
        if path ∈ t.directories then t.follow (some (name :: here)) rest else .error .missing

def read (t : FileTree) (path : String) : Except PathError String :=
  if path.toList.contains '\x00' then .error .nullCharacter
  else if maxPathSize ≤ path.utf8ByteSize then .error .tooLong
  else t.follow (if path.startsWith "/" then none else some []) (path.splitOn "/")

end FileTree
end LetLower
