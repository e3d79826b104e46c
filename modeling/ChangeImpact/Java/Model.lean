import ChangeImpact.Java.Extraction
import ChangeImpact.Java.Repair
import ChangeImpact.SourceModel

/-!
# Reading Java files

* `parseText` — the declarations of a text and the number of its faults;
* `parseFile` — the same for a file: it must have the right extension and be UTF-8;
* `ParseCache`, `parseCached` — texts that were read before are not read again.
-/

namespace ChangeImpact.Java

/-- What is learned from a text. -/
structure Parsed where
  declarations : List Declaration
  faults : Nat
deriving DecidableEq, Repr

/-- Reads a text. -/
def parseText (s : String) : Parsed :=
  let t := Tree.ofSource s
  ⟨declarations t, t.faults⟩

/-- Whether the path is that of a Java file. -/
def supports (path : String) : Bool := Text.hasSuffix ".java" path

/-- The text of a file that can be read. -/
def sourceText (f : SourceFile) : Except SourceError String :=
  if !supports f.path then .error (.unsupported f.path)
  else
    match String.fromUTF8? f.content with
    | some s => .ok s
    | none => .error (.invalidEncoding f.path)

/-- What is known of a file with the given path. -/
def Parsed.facts (p : Parsed) (path : String) : SourceFacts := ⟨path, p.declarations, p.faults⟩

/-- Reads a file. -/
def parseFile (f : SourceFile) : Except SourceError SourceFacts := do
  return (parseText (← sourceText f)).facts f.path

/-- The model of Java. -/
def model : SourceModel := ⟨supports, parseFile⟩

/-! ## Cache -/

/-- Texts that were read, by the hashes of their bytes. -/
structure ParseCache where
  capacity : Nat
  entries : List (UInt64 × Parsed)
deriving DecidableEq, Repr

/-- The capacity where none is given. -/
def defaultCapacity : Nat := 10000

/-- A cache that holds nothing yet. -/
def ParseCache.empty (capacity : Nat) : ParseCache := ⟨capacity, []⟩

/-- What was learned from the text of a hash. -/
def ParseCache.get? (c : ParseCache) (hash : UInt64) : Option Parsed :=
  (c.entries.find? (·.1 == hash)).map (·.2)

/-- Keeps what was learned, in place of what is held for this hash. -/
def ParseCache.put (c : ParseCache) (hash : UInt64) (p : Parsed) : ParseCache :=
  { c with entries := c.entries.filter (·.1 != hash) ++ [(hash, p)] }

/-- Holds on to some of the entries, chosen by their positions. -/
def ParseCache.retain (c : ParseCache) (keep : Nat → Bool) : ParseCache :=
  { c with entries := (c.entries.zipIdx.filter (keep ·.2)).map (·.1) }

/-- Keeps what was learned, if there is room. -/
def ParseCache.insert (c : ParseCache) (hash : UInt64) (p : Parsed) : ParseCache :=
  (c.put hash p).retain (· < c.capacity)

/-- How many texts are held. -/
def ParseCache.size (c : ParseCache) : Nat := c.entries.length

/-- Reads a file through a cache. -/
def parseCached (c : ParseCache) (f : SourceFile) : Except SourceError SourceFacts × ParseCache :=
  match sourceText f with
  | .error e => (.error e, c)
  | .ok s =>
    let hash := Hash.xxh3 f.content
    match c.get? hash with
    | some p => (.ok (p.facts f.path), c)
    | none =>
      let p := parseText s
      (.ok (p.facts f.path), c.insert hash p)

end ChangeImpact.Java
