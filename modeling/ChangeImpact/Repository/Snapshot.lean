import ChangeImpact.FileTree
import ChangeImpact.Hash.Sha1
import ChangeImpact.Text.Hex

/-!
# Snapshots of a project

A snapshot is what a commit holds: an entry for each path, the paths ascending. Everything that is
stored has an id, which is the SHA-1 hash of its kind, its size and its bytes.

* `objectId` — the id of stored bytes;
* `Snapshot.put`, `Snapshot.erase`, `Snapshot.at?` — changing and asking a snapshot;
* `Snapshot.id` — the id of a snapshot, from the ids of its directories.
-/

namespace ChangeImpact.Repository

/-! ## Ids -/

/-- The id of something that is stored, 20 bytes. -/
structure ObjectId where
  bytes : List UInt8
deriving DecidableEq, Repr

/-- The forty digits of an id. -/
def ObjectId.text (id : ObjectId) : String :=
  String.ofList (id.bytes.flatMap fun b =>
    [Text.hexDigit 'a' (b.toNat / 16), Text.hexDigit 'a' (b.toNat % 16)])

/-- The bytes of a text. -/
def bytesOf (s : String) : List UInt8 :=
  s.toUTF8.data.toList

/-- The id of stored bytes. -/
def objectId (kind : String) (body : List UInt8) : ObjectId :=
  let header := bytesOf (kind ++ " " ++ body.length.repr) ++ [0]
  ⟨Hash.sha1 ⟨(header ++ body).toArray⟩⟩

/-! ## Entries -/

/-- What stands at a path. -/
inductive EntryKind where
  | file
  | executable
  | link
  /-- Another repository, of which only the name of a commit is kept. -/
  | submodule
deriving DecidableEq, Repr

/-- The mode under which an entry is stored. -/
def EntryKind.mode : EntryKind → String
  | file => "100644"
  | executable => "100755"
  | link => "120000"
  | submodule => "160000"

/-- Whether the entry is a file, executable or not. -/
def EntryKind.isFile : EntryKind → Bool
  | file => true
  | executable => true
  | _ => false

/-- Whether one can become the other by a change of content and mode. -/
def EntryKind.isLike (k l : EntryKind) : Bool :=
  k == l || k.isFile && l.isFile

/-- An entry of a snapshot. -/
structure Entry where
  path : String
  kind : EntryKind
  id : ObjectId
  content : List UInt8
deriving DecidableEq, Repr

/-- The entry for some content. -/
def Entry.make (path : String) (kind : EntryKind) (content : List UInt8) : Entry :=
  ⟨path, kind, objectId "blob" content, content⟩

/-- The bytes that are compared line by line: of a submodule, one line that names its commit. -/
def Entry.shown (e : Entry) : List UInt8 :=
  match e.kind with
  | .submodule => bytesOf ("Subproject commit " ++ e.id.text ++ "\n")
  | _ => e.content

/-! ## Snapshots -/

/-- The entries of a commit, the paths ascending. -/
abbrev Snapshot := List Entry

namespace Snapshot

/-- The entry at a path. -/
def at? (s : Snapshot) (path : String) : Option Entry :=
  s.find? (·.path == path)

/-- The snapshot without the entry at a path. -/
def erase (s : Snapshot) (path : String) : Snapshot :=
  s.filter (·.path != path)

/-- Whether a path leads through another as through a directory. -/
def isBelow (path directory : String) : Bool :=
  (directory ++ "/").toList.isPrefixOf path.toList

/-- Puts an entry at its place. -/
def insert (e : Entry) : Snapshot → Snapshot
  | [] => [e]
  | f :: s => if e.path < f.path then e :: f :: s else f :: insert e s

/-- The snapshot with an entry. What stood at its path gives way, and so does what would make a path
both an entry and a directory. -/
def put (s : Snapshot) (e : Entry) : Snapshot :=
  insert e (s.filter fun f =>
    f.path != e.path && !isBelow f.path e.path && !isBelow e.path f.path)

/-! ## The id of a snapshot -/

/-- The stored form of an entry of a directory. -/
def row (mode name : String) (id : ObjectId) : List UInt8 :=
  bytesOf (mode ++ " " ++ name) ++ [0] ++ id.bytes

/-- The id of a directory, from its entries and the names that lead to them. Directories are nested
less deep than `depth`. -/
def directoryId : Nat → List (List String × Entry) → ObjectId
  | 0, _ => ⟨[]⟩
  | depth + 1, entries =>
    let groups := entries.splitBy fun a b => a.1.head? == b.1.head?
    objectId "tree" (groups.flatMap fun group =>
      match group with
      | ([name], e) :: _ => row e.kind.mode name e.id
      | (name :: _, _) :: _ =>
        row "40000" name (directoryId depth (group.map fun (names, e) => (names.tail, e)))
      | _ => [])

/-- The id of a snapshot. -/
def id (s : Snapshot) : ObjectId :=
  let entries := s.map fun e => ((splitSlashes e.path.toList).map String.ofList, e)
  directoryId (entries.foldl (fun n e => max n e.1.length) 0 + 1) entries

end Snapshot

end ChangeImpact.Repository
