import ChangeImpact.SortedSet

/-!
# A tree of files

Files and directories by their paths. A path is the list of its names, and the empty path is the
directory that holds everything.

* `FileTree.get?` — what is at a path;
* `FileTree.read`, `FileTree.write`, `FileTree.makeDirs`, `FileTree.move`, `FileTree.remove`,
  `FileTree.removeAll` — each is one step that succeeds or fails. One that fails leaves the tree as
  it was, but for `makeDirs`, which gets as far as `FileTree.makeHalfway`;
* `FileTree.names` — what a directory holds; `FileTree.listing` — everything below a directory.
-/

namespace ChangeImpact

/-- What is at a path. -/
inductive FileNode where
  | file (bytes : ByteArray)
  | directory

/-- The bytes of a file. -/
def FileNode.bytes? : FileNode → Option ByteArray
  | .file bytes => some bytes
  | .directory => none

/-- Why a step on files fails. -/
inductive FileError where
  | notFound
  | fileExists
  | notDirectory
  | isDirectory
  | nameTooLong
deriving DecidableEq, Repr

/-- The wording of a failure. -/
def FileError.message : FileError → String
  | notFound => "No such file or directory (os error 2)"
  | fileExists => "File exists (os error 17)"
  | notDirectory => "Not a directory (os error 20)"
  | isDirectory => "Is a directory (os error 21)"
  | nameTooLong => "File name too long (os error 36)"

/-- A path as the list of its names. -/
abbrev FilePath := List String

/-- The parts of a list of characters between slashes. -/
def splitSlashes : List Char → List (List Char)
  | [] => [[]]
  | c :: cs =>
    if c = '/' then [] :: splitSlashes cs
    else
      match splitSlashes cs with
      | part :: parts => (c :: part) :: parts
      | [] => [[c]]

/-- The path that a text names. Empty names and dots lead nowhere else. -/
def FilePath.ofText (text : String) : FilePath :=
  ((splitSlashes text.toList).map String.ofList).filter fun name => name ≠ "" ∧ name ≠ "."

/-- The text of a path below another: one slash divides them. -/
def joinPath (base text : String) : String :=
  match base.toList.getLast? with
  | none => text
  | some '/' => base ++ text
  | some _ => base ++ "/" ++ text

/-- How many bytes a name in a directory has at most. -/
def nameLimit : Nat := 255

/-- Whether something in a directory can have this name. -/
def nameFits (name : String) : Bool :=
  name.utf8ByteSize ≤ nameLimit

/-- Files and directories by their paths. -/
structure FileTree where
  nodes : List (FilePath × FileNode)

namespace FileTree

/-- The tree that holds nothing. -/
def empty : FileTree := ⟨[]⟩

/-- What is at a path. -/
def get? (t : FileTree) (p : FilePath) : Option FileNode :=
  if p = [] then some .directory else List.lookup p t.nodes

/-- Whether a directory is at a path. -/
def isDirectory (t : FileTree) (p : FilePath) : Bool :=
  match t.get? p with
  | some .directory => true
  | _ => false

/-- Whether a file is at a path. -/
def isFile (t : FileTree) (p : FilePath) : Bool :=
  match t.get? p with
  | some (.file _) => true
  | _ => false

/-- The tree with something else, or nothing, at a path. -/
def set (t : FileTree) (p : FilePath) (node : Option FileNode) : FileTree :=
  let others := t.nodes.filter (·.1 ≠ p)
  match node with
  | some node => ⟨others ++ [(p, node)]⟩
  | none => ⟨others⟩

/-- The paths above a path, the outermost first. -/
def ancestors : FilePath → List FilePath
  | [] => []
  | name :: rest => [] :: (ancestors rest).map (name :: ·)

/-- Whether a file stands where the path to `p` needs a directory. -/
def blocked (t : FileTree) (p : FilePath) : Bool :=
  (ancestors p).any t.isFile

/-- The bytes of the file at a path. -/
def read (t : FileTree) (p : FilePath) : Except FileError ByteArray :=
  if t.blocked p then .error .notDirectory
  else
    match t.get? p with
    | none => .error (if p.all nameFits then .notFound else .nameTooLong)
    | some .directory => .error .isDirectory
    | some (.file bytes) => .ok bytes

/-- Makes a directory and all directories above it. -/
def makeDirs (t : FileTree) (p : FilePath) : Except FileError FileTree :=
  if t.blocked p then .error .notDirectory
  else if t.isFile p then .error .fileExists
  else if !p.all nameFits then .error .nameTooLong
  else
    let missing := (ancestors p ++ [p]).filter fun q => (t.get? q).isNone
    .ok (missing.foldl (fun t q => t.set q (some .directory)) t)

/-- What is left of an attempt to make directories that has failed: it gets as far as to a name that
is too long. -/
def makeHalfway (t : FileTree) (p : FilePath) : FileTree :=
  match t.makeDirs (p.takeWhile nameFits) with
  | .ok made => made
  | .error _ => t

/-- Writes a file into a directory. -/
def write (t : FileTree) (p : FilePath) (bytes : ByteArray) : Except FileError FileTree :=
  if t.blocked p then .error .notDirectory
  else if t.isDirectory p then .error .isDirectory
  else if !t.isDirectory p.dropLast then .error .notFound
  else .ok (t.set p (some (.file bytes)))

/-- Moves a file to another place, where it takes the place of a file. -/
def move (t : FileTree) (source target : FilePath) : Except FileError FileTree := do
  let bytes ← t.read source
  if t.blocked target then .error .notDirectory
  else if t.isDirectory target then .error .isDirectory
  else if !t.isDirectory target.dropLast then .error .notFound
  else .ok ((t.set source none).set target (some (.file bytes)))

/-- Removes a file. -/
def remove (t : FileTree) (p : FilePath) : Except FileError FileTree := do
  let _ ← t.read p
  .ok (t.set p none)

/-- Removes what is at a path and everything below it. -/
def removeAll (t : FileTree) (p : FilePath) : FileTree :=
  ⟨t.nodes.filter fun (q, _) => !p.isPrefixOf q⟩

/-- The names in a directory, ascending. -/
def names (t : FileTree) (p : FilePath) : Except FileError (List String) :=
  if t.blocked p || t.isFile p then .error .notDirectory
  else if (t.get? p).isNone then .error .notFound
  else
    .ok (sortedSet (t.nodes.filterMap fun (q, _) =>
      if q.length = p.length + 1 && p.isPrefixOf q then q.getLast? else none))

/-- The paths of everything below a directory, relative to it and ascending; those of directories
end in a slash. -/
def listing (t : FileTree) (p : FilePath) : List String :=
  sortedSet (t.nodes.filterMap fun (q, node) =>
    if p.length < q.length && p.isPrefixOf q then
      let text := "/".intercalate (q.drop p.length)
      match node with
      | .file _ => some text
      | .directory => some (text ++ "/")
    else none)

end FileTree

end ChangeImpact
