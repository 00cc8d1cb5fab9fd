/-
Paths: names joined by slashes. A path is followed from a working directory name by name: `.` stays, `..` goes back
out, and anything else has to be an entry of a directory. Nothing is known outside the working directory.
-/
import ApiSurface.Files.Basic

namespace ApiSurface.Path

/-! ## Text -/

/-- the path ends in a slash -/
def endsInSlash (path : String) : Bool := path.toList.getLast? == some '/'

/-- the path begins outside the working directory -/
def isAbsolute (path : String) : Bool := path.toList.head? == some '/'

/-- the names between the slashes -/
def parts (path : String) : List String := (path.splitOn "/").filter fun name => !name.isEmpty

/-- the names to follow; a slash at the end asks for a directory, as a last `.` does -/
def names (path : String) : List String := parts path ++ if endsInSlash path then ["."] else []

/-- the path of what lies at the end of a chain of names inside a directory -/
def inside (directory : String) (names : List String) : String :=
  directory ++ (if directory.isEmpty || endsInSlash directory then "" else "/") ++ String.intercalate "/" names

/-- a path, last character first, without slashes and dots that add nothing at its end -/
def trimmed : List Char → List Char
  | '/' :: rest => trimmed rest
  | '.' :: '/' :: rest => trimmed rest
  | other => other

/-- the path of the directory that holds a file, empty for the working directory -/
def parent (path : String) : String :=
  String.ofList (trimmed ((trimmed path.toList.reverse).dropWhile fun c => c != '/')).reverse

end ApiSurface.Path

namespace ApiSurface.FileTree

/-! ## Following a path -/

/-- where names lead from a place; places are chains of names, the innermost first -/
def follow (root : FileTree) : List String → List String → Except FileFault (List String)
  | place, [] => .ok place
  | place, name :: rest => do
    let here ← root.find place.reverse
    if !here.isDirectory then throw .notDirectory
    if name = "." then follow root place rest
    else if name = ".." then
      match place with
      | [] => throw .notFound
      | _ :: outer => follow root outer rest
    else do
      let _ ← here.find [name]
      follow root (name :: place) rest

/-- what a path leads to -/
def look (root : FileTree) (path : String) : Except FileFault FileTree := do
  if path.isEmpty || Path.isAbsolute path then throw .notFound
  let place ← root.follow [] (Path.names path)
  root.find place.reverse

/-! ## Writing a file -/

/-- the tree with the directories that names lead through from a place -/
def withDirectories : FileTree → List String → List String → Except FileFault FileTree
  | root, _, [] => .ok root
  | root, place, name :: rest =>
    if name = "." then withDirectories root place rest
    else if name = ".." then withDirectories root place.tail rest
    else
      let place := name :: place
      match root.find place.reverse with
      | .ok entry =>
        if entry.isDirectory then withDirectories root place rest
        else .error (if rest.isEmpty then .alreadyExists else .notDirectory)
      | .error _ => withDirectories (root.put place.reverse (.directory [])) place rest

/-- the tree with a file's content; the directory that holds it is there -/
def withFile (root : FileTree) (path content : String) : Except FileFault FileTree := do
  if path.isEmpty || Path.isAbsolute path then throw .notFound
  let names := Path.parts path
  let place ← root.follow [] names.dropLast
  match names.getLast? with
  | none => throw .isDirectory
  | some name =>
    if name = "." || name = ".." || Path.endsInSlash path then throw .isDirectory
    let target := (name :: place).reverse
    match root.find target with
    | .ok (.directory _) => throw .isDirectory
    | .error .notDirectory => throw .notDirectory
    | _ => return root.put target (.file content)

/-- write a file, and make the directory that holds it -/
def write (root : FileTree) (path content : String) : Except WriteFault FileTree := do
  let parent := Path.parent path
  let root ←
    if parent.isEmpty then pure root
    else (root.withDirectories [] (Path.names parent)).mapError (.directory parent)
  (root.withFile path content).mapError (.file path)

end ApiSurface.FileTree
