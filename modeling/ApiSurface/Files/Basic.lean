/-
Files and directories, and what can go wrong with them. Entries of a directory are known by name; a file that cannot be
read, since its bytes are no text or for another reason, can be found all the same.
-/
namespace ApiSurface

/-! ## Faults -/

/-- why a file cannot be read or written -/
inductive FileFault where
  | notFound
  | accessDenied
  | alreadyExists
  | notDirectory
  | isDirectory
  /-- the content is not text -/
  | notText
  | other (description : String)
deriving DecidableEq, Repr

/-- a fault with the number by which the system knows it -/
def FileFault.numbered (description : String) (number : Nat) : String :=
  description ++ " (os error " ++ number.repr ++ ")"

def FileFault.message : FileFault → String
  | .notFound => numbered "No such file or directory" 2
  | .accessDenied => numbered "Permission denied" 13
  | .alreadyExists => numbered "File exists" 17
  | .notDirectory => numbered "Not a directory" 20
  | .isDirectory => numbered "Is a directory" 21
  | .notText => "stream did not contain valid UTF-8"
  | .other description => description

/-- why an output file could not be written -/
inductive WriteFault where
  /-- the directory that holds it could not be made -/
  | directory (path : String) (fault : FileFault)
  | file (path : String) (fault : FileFault)
deriving DecidableEq, Repr

def WriteFault.message : WriteFault → String
  | .directory path fault => "Failed to create output directory: " ++ path ++ ": " ++ fault.message
  | .file path fault => "Failed to write listing: " ++ path ++ ": " ++ fault.message

/-! ## Trees -/

/-- a file, or a directory with all it holds -/
inductive FileTree where
  | file (content : String)
  /-- a file that cannot be read -/
  | unreadable (fault : FileFault)
  | directory (entries : List (String × FileTree))
deriving Repr, Inhabited

namespace FileTree

def isDirectory : FileTree → Bool
  | .directory _ => true
  | _ => false

def text : FileTree → Except FileFault String
  | .file content => .ok content
  | .unreadable fault => .error fault
  | .directory _ => .error .isDirectory

def entries : FileTree → List (String × FileTree)
  | .directory entries => entries
  | _ => []

/-- what lies at the end of a chain of names -/
def find : FileTree → List String → Except FileFault FileTree
  | tree, [] => .ok tree
  | .directory entries, name :: rest =>
    match entries.lookup name with
    | some entry => entry.find rest
    | none => .error .notFound
  | _, _ :: _ => .error .notDirectory

/-- a file lies at the end of a chain of names -/
def hasFile (tree : FileTree) (names : List String) : Bool :=
  match tree.find names with
  | .ok entry => !entry.isDirectory
  | .error _ => false

/-- the content of the file at the end of a chain of names -/
def textAt (tree : FileTree) (names : List String) : Except FileFault String := tree.find names >>= text

/-- entries with one put in place of that of its name, or at the end -/
def putEntry (name : String) (entry : FileTree) : List (String × FileTree) → List (String × FileTree)
  | [] => [(name, entry)]
  | (n, e) :: rest => if n = name then (name, entry) :: rest else (n, e) :: putEntry name entry rest

/-- the tree with an entry at the end of a chain of names, in place of what was there; directories are made on the
way -/
def put (tree : FileTree) (names : List String) (entry : FileTree) : FileTree :=
  match names with
  | [] => entry
  | name :: rest =>
    let inner := (tree.entries.lookup name).getD (.directory [])
    .directory (putEntry name (inner.put rest entry) tree.entries)

end FileTree

end ApiSurface
