import CaskLint.Text.System

/-!
# Files

  A program that only reads files sees the file system as a function from paths to what lies
  there (**`Files`**). A **`FileTree`** is a file system that can be changed. Its paths are
  names between slashes, which lead down from the top of the tree or from the directory that
  one works in.
-/

namespace CaskLint

/-! ## Reading files -/

/-- What lies at a path. -/
inductive Lookup where
  | missing
  | directory
  | file (content : ByteArray)
  /-- A file that the system does not read, with the reason that it gives. -/
  | unreadable (reason : String)
  /-- Something else, such as a device or a place that one is not let through to, with what
      reading it gives. -/
  | special (content : Except String ByteArray)

/-- What lies at each path. -/
abbrev Files := SystemString → Lookup

/-- Why no text can be read at a path. -/
inductive FileFault where
  | missing
  | isDirectory
  | refused (reason : String)
  | notText
deriving DecidableEq, Repr

/-- The wording of a fault. -/
def FileFault.message : FileFault → String
  | .missing => "No such file or directory (os error 2)"
  | .isDirectory => "Is a directory (os error 21)"
  | .refused reason => reason
  | .notText => "stream did not contain valid UTF-8"

/-- The bytes that are read of what lies at a path. -/
def Lookup.content : Lookup → Except FileFault ByteArray
  | .missing => .error .missing
  | .directory => .error .isDirectory
  | .file content => .ok content
  | .unreadable reason => .error (.refused reason)
  | .special content => content.mapError .refused

namespace Files

/-- The text of the file at a path. -/
def text (files : Files) (path : SystemString) : Except FileFault String := do
  let content ← (files path).content
  match String.fromUTF8? content with
  | some text => return text
  | none => .error .notText

/-- Whether a file lies at a path, be it one that can be read or not. -/
def isFile (files : Files) (path : SystemString) : Bool :=
  match files path with
  | .file _ | .unreadable _ => true
  | .missing | .directory | .special _ => false

end Files

/-- The path of a file in a directory. -/
def joinPath (directory : SystemString) (name : String) : SystemString :=
  if directory.isEmpty then name
  else if directory.endsInSlash then directory.append name
  else directory.append ("/" ++ name)

/-! ## File trees -/

/-- The parts of a path between its slashes; empty parts and single dots mean nothing. -/
def pathParts (path : String) : List String :=
  ((path.toList.splitOn '/').filter fun part => !part.isEmpty && part != ['.']).map String.ofList

/-- A tree of files and directories, and the directory in it that relative paths start from.
A place in the tree is the list of names on the way to it. All names are texts. -/
structure FileTree where
  directory : List String
  entries : List (List String × Lookup)

namespace FileTree

/-- The places on the way to a place, from the top of the tree to the place itself. -/
def downTo (place : List String) : List (List String) :=
  (List.range (place.length + 1)).map place.take

/-- A tree with nothing in it but a directory and the directories above that one. -/
def empty (directory : String) : FileTree :=
  let place := pathParts directory
  ⟨place, (downTo place).map fun above => (above, .directory)⟩

/-- What lies at a place. -/
def at? (tree : FileTree) (place : List String) : Lookup :=
  (tree.entries.lookup place).getD .missing

/-- The place that is reached from another one; two dots lead up from a directory. -/
def follow? (tree : FileTree) (place : List String) : List String → Option (List String)
  | [] => some place
  | part :: parts =>
    if part = ".." then
      match tree.at? place with
      | .directory => tree.follow? place.dropLast parts
      | _ => none
    else tree.follow? (place ++ [part]) parts

/-- The place that a path leads to, if it leads anywhere. A path that is no text has a name on it
that is none, and there is no such name in the tree. -/
def resolve? (tree : FileTree) : SystemString → Option (List String)
  | .bytes .. => none
  | .text path =>
    match path.toList with
    | [] => none
    | '/' :: _ => tree.follow? [] (pathParts path)
    | _ :: _ => tree.follow? tree.directory (pathParts path)

/-- The file system that the tree is. -/
def files (tree : FileTree) : Files := fun path =>
  match tree.resolve? path with
  | none => .missing
  | some place => tree.at? place

/-- Puts something at a place, in place of what was there. -/
def putAt (place : List String) (what : Lookup) (entries : List (List String × Lookup)) :
    List (List String × Lookup) :=
  (place, what) :: entries.filter fun (old, _) => old ≠ place

/-- Puts something at a path, and directories on the way where there is nothing. -/
def put (tree : FileTree) (path : SystemString) (what : Lookup) : FileTree :=
  match tree.resolve? path with
  | none => tree
  | some place =>
    let missing := (downTo place.dropLast).filter fun above => (tree.entries.lookup above).isNone
    let entries := missing.foldr (putAt · .directory ·) tree.entries
    { tree with entries := putAt place what entries }

/-- Takes away what lies at a path, with everything in it. -/
def remove (tree : FileTree) (path : SystemString) : FileTree :=
  match tree.resolve? path with
  | none => tree
  | some place =>
    { tree with entries := tree.entries.filter fun (old, _) => !place.isPrefixOf old }

end FileTree

end CaskLint
