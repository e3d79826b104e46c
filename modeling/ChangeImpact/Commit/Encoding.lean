import ChangeImpact.Commit.Record
import ChangeImpact.Json.Decode
import ChangeImpact.Time.Timestamp

/-!
# Records of commits as documents

* `CommitRecord.toJson` — the document of a record;
* `CommitRecord.decode` — the record of a document. Methods are written as signatures, sets and maps
  in ascending order, and classifications only if there are some.
-/

namespace ChangeImpact

/-- A list of methods. -/
def Method.listJson (ms : List Method) : Json :=
  .arr (ms.map fun m => .str m.signature)

/-- The document of an author. -/
def Author.toJson (a : Author) : Json :=
  .obj [("name", .str a.name), ("email", .str a.email)]

/-- The document of a gap. -/
def Coverage.Gap.toJson (g : Coverage.Gap) : Json :=
  .obj [("method", .str g.method.signature), ("risk_level", .str g.riskLevel.name),
    ("risk_score", .nat g.riskScore), ("impacted_callers", Method.listJson g.callers),
    ("reason", .str g.reason)]

/-- The document of coverage counts. -/
def Coverage.Stats.toJson (s : Coverage.Stats) : Json :=
  .obj [("business_methods", .nat s.business), ("covered_methods", .nat s.covered),
    ("high_risk_gaps", .nat s.highGaps), ("medium_risk_gaps", .nat s.mediumGaps),
    ("low_risk_gaps", .nat s.lowGaps)]

/-- The document of tests by owner. -/
def Impact.ByOwner.toJson (tests : Impact.ByOwner) : Json :=
  .obj (tests.map fun (owner, names) => (owner, .strs names))

/-- The document of a record. -/
def CommitRecord.toJson (r : CommitRecord) : Json :=
  let classifications :=
    if r.classifications.isEmpty then [] else [("classifications", .obj r.classifications)]
  .obj ([("commit_id", .str r.id), ("short_id", .str r.shortId), ("message", .str r.message),
    ("author", r.author.toJson), ("timestamp", .str r.timestamp.text),
    ("changed_files", .nat r.changedFiles), ("changed_methods", Method.listJson r.changedMethods),
    ("skipped_files", .nat r.skippedFiles),
    ("impacted_methods", Method.listJson r.impactedMethods),
    ("impacted_tests", Impact.ByOwner.toJson r.impactedTests),
    ("test_coverage_gaps", .arr (r.gaps.map (·.toJson))), ("coverage", r.coverage.toJson),
    ("risk_score", .nat r.risk)] ++ classifications)

/-! ## Reading -/

open Json (Decoder Raw)

/-- A method by its signature. -/
def Method.decode : Decoder Method :=
  Decoder.text.filterMap fun s => some (.ofSignature s)

/-- A set of methods, in any order. -/
def Method.decodeSet : Decoder (List Method) :=
  (Decoder.list Method.decode).filterMap fun ms => some (sortedSet ms)

/-- An author. -/
def Author.decode : Decoder Author := fun depth raw => do
  let fields ← raw.fields? ["name", "email"] depth
  return ⟨← fields.need depth .text "name", ← fields.need depth .text "email"⟩

/-- A point in time. -/
def Instant.decode : Decoder Instant :=
  Decoder.text.filterMap Instant.parse?

/-- A level of risk: its name, or an object whose only member has that name and holds nothing. -/
def Coverage.RiskLevel.decode : Decoder Coverage.RiskLevel := fun depth raw =>
  match raw with
  | .str s => s.decode?.bind ofName?
  | .obj [(name, .null)] => if depth ≤ 1 then none else name.decode?.bind ofName?
  | _ => none

/-- A gap. -/
def Coverage.Gap.decode : Decoder Coverage.Gap := fun depth raw => do
  let fields ← raw.fields?
    ["method", "risk_level", "risk_score", "impacted_callers", "reason"] depth
  return {
    method := ← fields.need depth Method.decode "method"
    riskLevel := ← fields.need depth RiskLevel.decode "risk_level"
    riskScore := ← fields.need depth (.number maxWord32) "risk_score"
    callers := ← fields.need depth Method.decodeSet "impacted_callers"
    reason := ← fields.need depth .text "reason" }

/-- Coverage counts. -/
def Coverage.Stats.decode : Decoder Coverage.Stats := fun depth raw => do
  let fields ← raw.fields?
    ["business_methods", "covered_methods", "high_risk_gaps", "medium_risk_gaps", "low_risk_gaps"]
    depth
  let count := fields.need depth (.number maxWord64)
  return ⟨← count "business_methods", ← count "covered_methods", ← count "high_risk_gaps",
    ← count "medium_risk_gaps", ← count "low_risk_gaps"⟩

/-- A map from members in any order; of members of one name the last counts. -/
def namedMap {α : Type} (members : List (String × α)) : List (String × α) :=
  members.foldl (fun done (name, value) => Json.putMember name value done) []

/-- A set of texts, in any order. -/
def decodeTexts : Decoder (List String) :=
  (Decoder.list .text).filterMap fun l => some (sortedSet l)

/-- Tests by owner. -/
def Impact.ByOwner.decode : Decoder Impact.ByOwner :=
  (Decoder.members decodeTexts).filterMap fun ms => some (namedMap ms)

/-- What classifiers say. -/
def decodeClassifications : Decoder (List (String × Json)) :=
  (Decoder.members .any).filterMap fun ms => some (namedMap ms)

/-- The names of a record's fields. -/
def CommitRecord.fieldNames : List String :=
  ["commit_id", "short_id", "message", "author", "timestamp", "changed_files", "changed_methods",
    "skipped_files", "impacted_methods", "impacted_tests", "test_coverage_gaps", "coverage",
    "risk_score", "classifications"]

/-- A record. -/
def CommitRecord.decode : Decoder CommitRecord := fun depth raw => do
  let fields ← raw.fields? fieldNames depth
  return {
    id := ← fields.need depth .text "commit_id"
    shortId := ← fields.need depth .text "short_id"
    message := ← fields.need depth .text "message"
    author := ← fields.need depth Author.decode "author"
    timestamp := ← fields.need depth Instant.decode "timestamp"
    changedFiles := ← fields.need depth (.number maxWord64) "changed_files"
    changedMethods := ← fields.need depth Method.decodeSet "changed_methods"
    skippedFiles := ← fields.need depth (.number maxWord64) "skipped_files"
    impactedMethods := ← fields.need depth Method.decodeSet "impacted_methods"
    impactedTests := ← fields.need depth Impact.ByOwner.decode "impacted_tests"
    gaps := ← fields.need depth (.list Coverage.Gap.decode) "test_coverage_gaps"
    coverage := ← fields.need depth Coverage.Stats.decode "coverage"
    risk := ← fields.need depth (.number maxWord32) "risk_score"
    classifications := ← fields.orElse depth decodeClassifications "classifications" [] }

end ChangeImpact
