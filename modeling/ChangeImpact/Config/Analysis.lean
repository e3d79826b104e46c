import ChangeImpact.Hash.Xxh3
import ChangeImpact.Text.Blank
import ChangeImpact.Text.Segment

/-!
# Bounds of an analysis
-/

namespace ChangeImpact.Config

/-- The bounds of one analysis. -/
structure Analysis where
  /-- How many calls are followed back from a changed method. -/
  maxDepth : Nat
  /-- How many files a unit may have. -/
  maxFiles : Nat
  /-- A package; only files under it are read. -/
  scope : String
  /-- How many calls are followed back in search of tests; all when not given. -/
  gapSearchDepth : Option Nat
deriving DecidableEq, Repr

/-- The bounds where nothing is set. -/
def Analysis.default : Analysis :=
  ⟨10, 1000, "", none⟩

instance : Inhabited Analysis := ⟨.default⟩

/-- The scope as a part of a path, with slashes for dots. -/
def Analysis.scopePath (a : Analysis) : Option String :=
  let scope := Text.trim a.scope
  if scope = "" then none else some (Text.replaceChar '.' '/' scope)

/-- The text of an optional number in the canonical form. -/
def optionalText : Option Nat → String
  | none => "None"
  | some n => "Some(" ++ toString n ++ ")"

/-- All bounds in one text; equal bounds have equal texts. -/
def Analysis.canonical (a : Analysis) : String :=
  "max_depth=" ++ toString a.maxDepth ++ ";max_files=" ++ toString a.maxFiles ++ ";scope=" ++
    a.scope ++ ";gap_search_depth=" ++ optionalText a.gapSearchDepth

/-- The hash of the canonical text. Results kept under another fingerprint are stale. -/
def Analysis.fingerprint (a : Analysis) : UInt64 :=
  Hash.xxh3 a.canonical.toUTF8

end ChangeImpact.Config
