import ChangeImpact.Error
import ChangeImpact.FileTree
import ChangeImpact.Json.Decode
import ChangeImpact.Json.Printer
import ChangeImpact.Text.Hex

/-!
# The cache of commits

A directory with one slot for the first seven bytes of a commit's name. A slot holds one document:
the fingerprint of the settings it was made under, the full name of its commit, and what is known
about the commit.

* `CommitCache.load` — what a slot holds for a commit. A document that cannot be read, or that
  belongs to another commit or to other settings, is a miss;
* `CommitCache.storeStep` — one step of a store: the directory is made, the document goes into a
  file beside the slot, and this file takes the slot's place. `CommitCache.store` takes all steps;
* `CommitCache.info`, `CommitCache.clear` — count and remove the slots.
-/

namespace ChangeImpact

/-- A cache directory, used under one fingerprint. -/
structure CommitCache where
  /-- The path of the directory. -/
  root : String
  fingerprint : UInt64
  /-- The number of the process; files that are being written bear it. -/
  process : Nat
deriving DecidableEq, Repr

/-- What a cache directory holds. -/
structure CacheInfo where
  entries : Nat
  totalBytes : Nat
deriving DecidableEq, Repr

/-- The 16 hexadecimal digits of a fingerprint. -/
def fingerprintText (fingerprint : UInt64) : String :=
  String.ofList ((List.range 16).map fun i =>
    Text.hexDigit 'a' (fingerprint.toNat / Nat.pow 16 (15 - i) % 16))

/-- The length of a slot's name in bytes. -/
def slotLength : Nat := 7

/-- The first characters of a text that take up exactly `n` bytes, if there are such. -/
def takeBytes : Nat → List Char → Option (List Char)
  | 0, _ => some []
  | _ + 1, [] => none
  | n + 1, c :: cs =>
    if n + 1 < c.utf8Size then none else (takeBytes (n + 1 - c.utf8Size) cs).map (c :: ·)

/-- The name of a commit's slot: its first seven bytes if they are whole characters, else all of
its name. -/
def slotName (commit : String) : String :=
  ((takeBytes slotLength commit.toList).map String.ofList).getD commit

namespace CommitCache

/-- The name of the file in a slot. -/
def entryName : String := "impact.json"

/-- Names a path in a failure of the files. -/
def fault {α : Type} (path : String) : Except FileError α → Except StorageError α
  | .ok a => .ok a
  | .error e => .error (.io path e.message)

/-- The path of a commit's slot. -/
def slotPath (c : CommitCache) (commit : String) : String :=
  joinPath c.root (slotName commit)

/-- The path of the document in a commit's slot. -/
def entryPath (c : CommitCache) (commit : String) : String :=
  joinPath (c.slotPath commit) entryName

/-- The path of the file that a document is written to first. -/
def draftPath (c : CommitCache) (commit : String) : String :=
  joinPath (c.slotPath commit) ("." ++ entryName ++ "." ++ toString c.process ++ ".tmp")

/-- Makes the directory, if it is not there. Where that fails, `FileTree.makeHalfway` says what is
left of it. -/
def «open» (root : String) (fingerprint : UInt64) (process : Nat) (t : FileTree) :
    Except StorageError (CommitCache × FileTree) := do
  let t ← fault root (t.makeDirs (.ofText root))
  return (⟨root, fingerprint, process⟩, t)

/-! ## Loading -/

/-- A document of a cache. -/
structure Document (α : Type) where
  fingerprint : String
  commit : String
  impact : α

/-- Reads a document. -/
def Document.decode {α : Type} (d : Json.Decoder α) : Json.Decoder (Document α) :=
    fun depth raw => do
  let fields ← raw.fields? ["fingerprint", "commit", "impact"] depth
  return ⟨← fields.need depth .text "fingerprint", ← fields.need depth .text "commit",
    ← fields.need depth d "impact"⟩

/-- The document that bytes spell. -/
def Document.parse? {α : Type} (d : Json.Decoder α) (bytes : ByteArray) : Option (Document α) := do
  Document.decode d Json.nestingLimit (← Json.Raw.parse? bytes)

/-- What the bytes of a slot say about a commit. -/
def accept? {α : Type} (c : CommitCache) (d : Json.Decoder α) (commit : String)
    (bytes : ByteArray) : Option α := do
  let document ← Document.parse? d bytes
  if document.commit = commit ∧ document.fingerprint = fingerprintText c.fingerprint then
    some document.impact
  else none

/-- What the cache knows about a commit. -/
def load {α : Type} (c : CommitCache) (d : Json.Decoder α) (commit : String) (t : FileTree) :
    Except StorageError (Option α) :=
  match t.read (.ofText (c.entryPath commit)) with
  | .ok bytes => .ok (c.accept? d commit bytes)
  | .error .notFound => .ok none
  | .error e => .error (.io (c.entryPath commit) e.message)

/-! ## Storing -/

/-- The bytes of a document. -/
def documentBytes (c : CommitCache) (commit : String) (impact : Json) : ByteArray :=
  ((Json.obj [("fingerprint", .str (fingerprintText c.fingerprint)), ("commit", .str commit),
    ("impact", impact)]).pretty ++ "\n").toUTF8

/-- How far a store has come. -/
inductive StoreStage where
  | makeSlot
  | writeDraft
  | moveDraft
  | dropDraft (failure : StorageError)
deriving DecidableEq, Repr

/-- One step of a store: on to the next stage, or the end, with the path of the document or a
failure. -/
def storeStep (c : CommitCache) (commit : String) (bytes : ByteArray) (t : FileTree) :
    StoreStage → FileTree × (StoreStage ⊕ Except StorageError String)
  | .makeSlot =>
    match t.makeDirs (.ofText (c.slotPath commit)) with
    | .ok t => (t, .inl .writeDraft)
    | .error e =>
      (t.makeHalfway (.ofText (c.slotPath commit)),
        .inr (.error (.io (c.slotPath commit) e.message)))
  | .writeDraft =>
    match t.write (.ofText (c.draftPath commit)) bytes with
    | .ok t => (t, .inl .moveDraft)
    | .error e => (t, .inr (.error (.io (c.draftPath commit) e.message)))
  | .moveDraft =>
    match t.move (.ofText (c.draftPath commit)) (.ofText (c.entryPath commit)) with
    | .ok t => (t, .inr (.ok (c.entryPath commit)))
    | .error e => (t, .inl (.dropDraft (.io (c.entryPath commit) e.message)))
  | .dropDraft failure =>
    match t.remove (.ofText (c.draftPath commit)) with
    | .ok t => (t, .inr (.error failure))
    | .error _ => (t, .inr (.error failure))

/-- How many steps a store takes at most. -/
def storeSteps : Nat := 4

/-- Takes at most `n` further steps of a store. -/
def storeFrom (c : CommitCache) (commit : String) (bytes : ByteArray) :
    Nat → FileTree → StoreStage → FileTree × Except StorageError String
  | 0, t, _ => (t, .ok (c.entryPath commit))
  | n + 1, t, stage =>
    match c.storeStep commit bytes t stage with
    | (t, .inl stage) => storeFrom c commit bytes n t stage
    | (t, .inr result) => (t, result)

/-- Puts a document into a commit's slot. -/
def store (c : CommitCache) (commit : String) (impact : Json) (t : FileTree) :
    FileTree × Except StorageError String :=
  c.storeFrom commit (c.documentBytes commit impact) storeSteps t .makeSlot

/-! ## All slots -/

/-- The names of the directories that hold a document, ascending. A directory that is missing holds
none; nor is there one of the empty name, although a path below it leads to the top. -/
def slots (c : CommitCache) (t : FileTree) : Except StorageError (List String) :=
  let root := FilePath.ofText c.root
  if c.root = "" then .ok []
  else
    match t.names root with
    | .ok names => .ok (names.filter fun name => t.isFile (root ++ [name, entryName]))
    | .error .notFound => .ok []
    | .error e => .error (.io c.root e.message)

/-- How many slots hold a document, and the size of all documents. -/
def info (c : CommitCache) (t : FileTree) : Except StorageError CacheInfo := do
  let slots ← c.slots t
  let sizes := slots.filterMap fun name =>
    ((t.get? (FilePath.ofText c.root ++ [name, entryName])).bind (·.bytes?)).map (·.size)
  return ⟨slots.length, sizes.foldr (· + ·) 0⟩

/-- Removes every slot that holds a document; the count is returned. -/
def clear (c : CommitCache) (t : FileTree) : Except StorageError (Nat × FileTree) := do
  let slots ← c.slots t
  let root := FilePath.ofText c.root
  return (slots.length, slots.foldl (fun t name => t.removeAll (root ++ [name])) t)

end CommitCache

end ChangeImpact
