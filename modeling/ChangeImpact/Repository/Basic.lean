import ChangeImpact.Commit.Metadata
import ChangeImpact.Repository.Snapshot
import ChangeImpact.Text.Blank

/-!
# Repositories

A repository holds commits with their snapshots, branches and tags. A commit is named by the hash of
everything that is known about it.

* `Draft` — what a commit is made of; `Draft.store` — the commit with its id and its snapshot;
* `Repository.add` — the repository with one more commit;
* `Repository.target?` — the commit of a full reference name.
-/

namespace ChangeImpact

namespace Repository

/-! ## Commits -/

/-- A commit and what it holds. -/
structure Stored where
  commit : Commit
  files : Snapshot
deriving DecidableEq, Repr

/-- A commit that is to be made. -/
structure Draft where
  parents : List String
  /-- Each path with its new kind and content, or nothing if it is to go. -/
  changes : List (String × Option (EntryKind × List UInt8))
  message : String
  name : String
  email : String
  /-- When it was written, in seconds since 1970. -/
  written : Int
  /-- When it is committed, in seconds since 1970. -/
  committed : Int
  /-- The time zone, in minutes east. -/
  zone : Int
deriving DecidableEq, Repr

/-- Whether a character is cut off both ends of a name or an address. -/
def isCrud (c : Char) : Bool :=
  c.toNat ≤ 32 || c == '.' || c == ',' || c == ':' || c == ';' || c == '<' || c == '>' ||
    c == '"' || c == '\\' || c == '\''

/-- A name or an address without what does not belong to it. -/
def trimCrud (s : String) : String :=
  String.ofList ((s.toList.dropWhile isCrud).reverse.dropWhile isCrud).reverse

/-- The seconds that are kept of a time: they fit into 32 bits. -/
def keptSeconds (s : Int) : Nat :=
  (s % 4294967296).toNat

/-- Two digits. -/
def twoDigits (n : Nat) : String :=
  (if n < 10 then "0" else "") ++ n.repr

/-- The text of a time zone. -/
def zoneText (zone : Int) : String :=
  let n := zone.natAbs
  (if zone < 0 then "-" else "+") ++ twoDigits (n / 60) ++ twoDigits (n % 60)

namespace Draft

variable (d : Draft)

/-- Who wrote the commit. -/
def author : Author := ⟨trimCrud d.name, trimCrud d.email⟩

/-- The line that says who did something to the commit, and when. -/
def personLine (role : String) (time : Int) : String :=
  role ++ " " ++ d.author.name ++ " <" ++ d.author.email ++ "> " ++ (keptSeconds time).repr ++
    " " ++ zoneText d.zone ++ "\n"

/-- The stored form of the commit. -/
def text (tree : ObjectId) : String :=
  "tree " ++ tree.text ++ "\n" ++
    String.join (d.parents.map fun p => "parent " ++ p ++ "\n") ++
    d.personLine "author" d.written ++ d.personLine "committer" d.committed ++ "\n" ++ d.message

/-- The message without line feeds in front and blank characters at the end. -/
def shownMessage : String :=
  Text.trimEnd (String.ofList (d.message.toList.dropWhile (· == '\n')))

/-- The snapshot of the commit, from that of its first parent. -/
def apply (base : Snapshot) : Snapshot :=
  d.changes.foldl (fun s (path, change) =>
    match change with
    | some (kind, content) => s.put (.make path kind content)
    | none => s.erase path) base

/-- The commit. -/
def store (base : Snapshot) : Stored :=
  let files := d.apply base
  { files := files
    commit := {
      id := (objectId "commit" (bytesOf (d.text files.id))).text
      parents := d.parents
      message := d.shownMessage
      author := d.author
      timestamp := .ofSeconds (keptSeconds d.written)
      committedAt := .ofSeconds (keptSeconds d.committed) } }

end Draft

end Repository

/-! ## Repositories -/

/-- Commits, branches and tags. -/
structure Repository where
  commits : List Repository.Stored
  /-- The commit of each branch. -/
  branches : List (String × String)
  /-- The commit that each tag is attached to. -/
  tags : List (String × String)
deriving DecidableEq, Repr

namespace Repository

variable (r : Repository)

/-- Nothing. -/
def empty : Repository := ⟨[], [], []⟩

/-- The commit of an id. -/
def find? (id : String) : Option Stored :=
  r.commits.find? (·.commit.id == id)

/-- The repository with one more commit, and the id of that. -/
def add (d : Draft) : Repository × String :=
  let base := (d.parents.head?.bind r.find?).elim [] (·.files)
  let c := d.store base
  ({ r with commits := r.commits ++ [c] }, c.commit.id)

/-- The branch that is worked on. -/
def mainBranch : String := "main"

/-- What a name leads to. -/
inductive Target where
  | commit (id : String)
  /-- A tag, which is attached to a commit. -/
  | tag (id : String)
  /-- Something else that is stored. -/
  | other (id : String)
deriving DecidableEq, Repr

/-- The commits of branches and tags by their full names. -/
def references : List (String × Target) :=
  r.branches.map (fun (name, id) => ("refs/heads/" ++ name, .commit id)) ++
    r.tags.map (fun (name, id) => ("refs/tags/" ++ name, .tag id))

/-- What a full reference name leads to. -/
def target? (name : String) : Option Target :=
  let name := if name = "HEAD" then "refs/heads/" ++ mainBranch else name
  r.references.lookup name

/-- Everything else that is stored: the content of files, and directories as a whole. -/
def otherIds : List String :=
  r.commits.flatMap fun c => c.files.id.text :: c.files.map (·.id.text)

end Repository

end ChangeImpact
