import ChangeImpact.Proofs.ChangedLines
import ChangeImpact.Proofs.CommitAnalysis
import ChangeImpact.Proofs.IgnoringCase
import ChangeImpact.Proofs.ImpactLaws
import ChangeImpact.Proofs.SharedParsing

/-!
# What the record of a commit says

The record of a commit is compared with the files that its history shows, the unit that they make
and the declarations of that unit.

* `CommitAnalyzer.changed_methods_exact` — its changed methods are those that share a line with a
  hunk;
* `CommitAnalyzer.length_contents` — what becomes of the changed files;
* `CommitAnalyzer.points` — what the risk is made of;
* `CommitAnalyzer.RecordFits`, `CommitAnalyzer.records_fit` — its counts, gaps, tests and risk.
-/

namespace ChangeImpact

namespace CommitAnalyzer

/-! ## Changed methods -/

/-- The lines that a change of different files lists touch a declaration if one of its lines is
covered by a hunk of its file. -/
theorem touchedBy_hunks {diffs : List FileDiff} {x : Build.Site}
    (hpaths : (diffs.map (·.path)).Nodup)
    (hwords : ∀ d ∈ diffs, ∀ h ∈ d.hunks, h.newStart + h.newLength < 2 ^ 32)
    (hlines : x.declaration.startLine ≤ x.declaration.endLine) :
    x.touchedBy (diffs.map (·.lineChanges)) = true ↔
      ∃ d ∈ diffs, d.path = x.path ∧ ∃ h ∈ d.hunks, ∃ line,
        (x.declaration.startLine ≤ line ∧ line ≤ x.declaration.endLine) ∧ h.Covers line := by
  have hspan : x.touchedBy (diffs.map (·.lineChanges)) =
      (Build.entryOf [] x).span.touchedBy (diffs.map (·.lineChanges)) := rfl
  have hnodup : ((diffs.map (·.lineChanges)).map (·.path)).Nodup := by
    rw [List.map_map]
    exact hpaths
  have hoverlaps : ∀ d ∈ diffs, ∀ h ∈ d.hunks,
      ((Build.entryOf [] x).span.overlaps (.ofHunk h.newStart h.newLength) = true ↔
        ∃ line, (x.declaration.startLine ≤ line ∧ line ≤ x.declaration.endLine) ∧
          h.Covers line) := by
    intro d hd h hh
    have hword := hwords d hd h hh
    rw [MethodSpan.overlaps_iff hlines (LineRange.start_le_stop_ofHunk hword)]
    simp only [LineRange.has_ofHunk hword]
    rfl
  rw [hspan, MethodSpan.touchedBy_iff]
  simp only [LineChanges.lastIn_iff_mem hnodup, List.mem_map]
  constructor
  · rintro ⟨_, ⟨d, hd, rfl⟩, hpath, r, hr, htouch⟩
    obtain ⟨h, hh, rfl⟩ := List.mem_map.1 hr
    exact ⟨d, hd, hpath, h, hh, (hoverlaps d hd h hh).1 htouch⟩
  · rintro ⟨d, hd, hpath, h, hh, hline⟩
    exact ⟨_, ⟨d, hd, rfl⟩, hpath, _, List.mem_map_of_mem hh, (hoverlaps d hd h hh).2 hline⟩

/-- The changed methods of a commit are those with a declaration in a changed file of which a line
is covered by a hunk of that file. -/
theorem changed_methods_exact (a : CommitAnalyzer) (c : Commit) (diffs : List FileDiff)
    (contents : List (String × Option ByteArray)) (hshows : a.Shows c diffs contents)
    (hpaths : (diffs.map (·.path)).Nodup)
    (hwords : ∀ d ∈ diffs, ∀ h ∈ d.hunks, h.newStart + h.newLength < 2 ^ 32)
    (hlines : ∀ f ∈ (a.unitOf contents).files, ∀ d ∈ f.declarations, d.startLine ≤ d.endLine) :
    ∃ r, a.analyze c = .ok r ∧ ∀ m, m ∈ r.changedMethods ↔
      ∃ x ∈ Build.sites (a.unitOf contents).files,
        Build.vertexAt (a.unitOf contents).files x.file x.place = some m ∧
        ∃ d ∈ diffs, d.path = x.path ∧ ∃ h ∈ d.hunks, ∃ line,
          (x.declaration.startLine ≤ line ∧ line ≤ x.declaration.endLine) ∧ h.Covers line := by
  refine ⟨_, analyze_ok_iff.2 ⟨diffs, contents, hshows, rfl⟩, ?_⟩
  intro m
  have hmem : m ∈ (a.assemble c (a.found diffs contents)).changedMethods ↔
      ∃ x ∈ Build.sites (a.unitOf contents).files,
        x.touchedBy (diffs.map (·.lineChanges)) = true ∧
          Build.vertexOf (Build.sites (a.unitOf contents).files) x = m := Build.mem_changedMethods
  rw [hmem]
  refine exists_congr fun x => and_congr_right fun hx => ?_
  obtain ⟨f, hf, -, hd⟩ := Build.mem_sites.1 hx
  have hline := hlines f (List.mem_of_getElem? hf) _ (List.mem_of_getElem? hd)
  rw [touchedBy_hunks hpaths hwords hline, Build.vertexAt_eq hx, Option.some.injEq, and_comm]

/-- The new side of a change of six files: two that are read, one that is missing, one that is no
text, one beyond the limit and one out of scope. The first hunk deletes the top of its file. -/
def depotDiffs : List FileDiff :=
  [⟨"src/Depot.java", none, .modified, [⟨1, 2, 0, 0⟩]⟩,
    ⟨"src/COMMON/Shed.java", none, .modified, [⟨2, 0, 2, 1⟩]⟩,
    ⟨"src/Gone.java", none, .modified, [⟨1, 1, 1, 1⟩]⟩,
    ⟨"src/Broken.java", none, .added, [⟨0, 0, 1, 1⟩]⟩,
    ⟨"src/Late.java", none, .added, [⟨0, 0, 1, 1⟩]⟩,
    ⟨"old/Attic.java", none, .modified, [⟨1, 1, 1, 1⟩]⟩]

def depotContents : List (String × Option ByteArray) :=
  [("src/Depot.java",
      some "class Depot \x7b void open() \x7b\x7d\n  void close() \x7b\x7d\n\x7d\n".toUTF8),
    ("src/COMMON/Shed.java", some "class Shed \x7b\n  void lock() \x7b\x7d\n\x7d\n".toUTF8),
    ("src/Gone.java", none),
    ("src/Broken.java", some ⟨#[255]⟩),
    ("src/Late.java", some "class Late \x7b\x7d\n".toUTF8),
    ("old/Attic.java", some "class Attic \x7b\x7d\n".toUTF8)]

/-- The commit that makes the change. -/
def depotCommit : Commit :=
  ⟨"abcdefg2", ["abcdefg1"], "two", ⟨"dev", "dev@x"⟩, .ofSeconds 0, .ofSeconds 0⟩

def depot : RecordedHistory where
  commits := [depotCommit]
  refs := []
  diffs := [⟨"abcdefg1", "abcdefg2", depotDiffs⟩]
  files := depotContents.filterMap fun file => file.2.map (RecordedFile.mk "abcdefg2" file.1)
  walkError := none
  unreadable := []

def depotAnalyzer : CommitAnalyzer :=
  ⟨depot.history, Java.model, ⟨10, 3, "src", none⟩, []⟩

/-- The history shows the change as it is written down. -/
theorem shows_depot : depotAnalyzer.Shows depotCommit depotDiffs depotContents := by
  have hdiff : depotAnalyzer.history.diff "abcdefg1" "abcdefg2" depotAnalyzer.model.supports =
      .ok depotDiffs := by decide +kernel
  have hcontents : depotAnalyzer.contents "abcdefg2" depotDiffs = .ok depotContents := by
    decide +kernel
  exact ⟨⟨"abcdefg1", rfl, hdiff⟩, contents_ok_iff.1 hcontents⟩

/-- The unit of the two files that are read. -/
def depotUnit : SourceUnit where
  files :=
    [⟨"src/Depot.java", [⟨"Depot", "open", 1, 1, .method, [], []⟩,
        ⟨"Depot", "close", 2, 2, .method, [], []⟩], 0⟩,
      ⟨"src/COMMON/Shed.java", [⟨"Shed", "lock", 2, 2, .method, [], []⟩], 0⟩]
  skipped := 1
  truncated := 1

theorem unitOf_depot : depotAnalyzer.unitOf depotContents = depotUnit := by
  decide +kernel

/-- The methods on the line that was below the deleted top and on the second line of the other file.
-/
theorem changed_methods_exact_depot :
    ∃ r, depotAnalyzer.analyze depotCommit = .ok r ∧
      ∀ m, m ∈ r.changedMethods ↔ m = ⟨"Depot", "open"⟩ ∨ m = ⟨"Shed", "lock"⟩ := by
  have hlines : ∀ f ∈ (depotAnalyzer.unitOf depotContents).files, ∀ d ∈ f.declarations,
      d.startLine ≤ d.endLine := by
    rw [unitOf_depot]
    decide
  obtain ⟨r, hr, hexact⟩ := changed_methods_exact depotAnalyzer depotCommit depotDiffs depotContents
    shows_depot (by decide +kernel) (by decide) hlines
  refine ⟨r, hr, ?_⟩
  intro m
  have hsites : Build.sites depotUnit.files =
      [⟨0, 0, "src/Depot.java", ⟨"Depot", "open", 1, 1, .method, [], []⟩⟩,
        ⟨0, 1, "src/Depot.java", ⟨"Depot", "close", 2, 2, .method, [], []⟩⟩,
        ⟨1, 0, "src/COMMON/Shed.java", ⟨"Shed", "lock", 2, 2, .method, [], []⟩⟩] := rfl
  have hopen : Build.vertexAt depotUnit.files 0 0 = some ⟨"Depot", "open"⟩ := by decide +kernel
  have hclose : Build.vertexAt depotUnit.files 0 1 = some ⟨"Depot", "close"⟩ := by decide +kernel
  have hlock : Build.vertexAt depotUnit.files 1 0 = some ⟨"Shed", "lock"⟩ := by decide +kernel
  have hline : ∃ line, (2 ≤ line ∧ line ≤ 2) ∧ (2 ≤ line ∧ 1 ≤ line) ∧ line ≤ 2 := ⟨2, by decide⟩
  rw [hexact, unitOf_depot, hsites]
  simp [depotDiffs, Hunk.Covers, hopen, hclose, hlock, hline, eq_comm (a := m)]

/-! ## Files -/

/-- The changed files that are there do not belong to the unit if the model does not support them or
they lie out of scope. -/
def outside (a : CommitAnalyzer) (contents : List (String × Option ByteArray)) : List SourceFile :=
  (present contents).filter fun f => !(a.model.supports f.path && inScope a.config f.path)

theorem length_present (contents : List (String × Option ByteArray)) :
    (present contents).length + contents.countP (·.2.isNone) = contents.length := by
  unfold present
  induction contents with
  | nil => rfl
  | cons file contents ih =>
    cases hcontent : file.2 with
    | none => simp [hcontent, ← ih, Nat.add_assoc]
    | some content => simp [hcontent, ← ih, Nat.add_right_comm]

/-- Every changed file is skipped, a file of the unit, or outside of it. -/
theorem length_contents (a : CommitAnalyzer) (contents : List (String × Option ByteArray)) :
    contents.length =
      a.skipped contents + (a.unitOf contents).files.length + (a.outside contents).length := by
  have hload : (a.unitOf contents).files.length + (a.unitOf contents).skipped +
      (a.unitOf contents).truncated = (admitted a.model a.config (present contents)).length :=
    SourceUnit.length_load a.model a.config (present contents)
  have hsplit : (present contents).length =
      (admitted a.model a.config (present contents)).length + (a.outside contents).length :=
    List.length_eq_length_filter_add _
  have hpresent := length_present contents
  unfold skipped
  omega

/-! ## Risk -/

theorem isSharedPath_iff {path : String} :
    isSharedPath path = true ↔
      Text.ContainsIgnoringCase "util" path ∨ Text.ContainsIgnoringCase "common" path := by
  have hutil : Text.IsPlainWord "util".toList := ⟨List.all_eq_true.1 (by decide), by decide⟩
  have hcommon : Text.IsPlainWord "common".toList :=
    ⟨List.all_eq_true.1 (by decide), by decide⟩
  unfold isSharedPath
  rw [Bool.or_eq_true, Text.hasInfix_lowercase_iff hutil (by decide),
    Text.hasInfix_lowercase_iff hcommon (by decide)]

/-- The points of gaps by their levels. -/
theorem foldr_gapPoints (gaps : List Coverage.Gap) :
    (gaps.map (·.riskLevel)).foldr (gapPoints · + ·) 0 =
      15 * gaps.countP (·.riskLevel = .high) + 8 * gaps.countP (·.riskLevel = .medium) +
        3 * gaps.countP (·.riskLevel = .low) := by
  induction gaps with
  | nil => rfl
  | cons gap gaps ih =>
    rw [List.map_cons, List.foldr_cons, ih]
    cases hlevel : gap.riskLevel <;> simp [hlevel, gapPoints] <;> omega

theorem testCount_eq_zero_iff {tests : Impact.ByOwner} :
    Impact.testCount tests = 0 ↔ ¬∃ owner name, tests.Lists owner name := by
  rw [Impact.testCount_eq_length, List.length_eq_zero_iff, List.eq_nil_iff_forall_not_mem]
  simp only [Impact.mem_methods_iff, not_exists]
  exact ⟨fun h owner name => h ⟨owner, name⟩, fun h m => h m.owner m.name⟩

open Classical in
/-- The points that the parts of a record add up to. -/
noncomputable def points (diffs : List FileDiff) (r : CommitRecord) : Nat :=
  r.changedFiles + 2 * {m | m ∈ r.changedMethods}.ncard + 3 * {m | m ∈ r.impactedMethods}.ncard
    + (if ¬∃ owner name, r.impactedTests.Lists owner name then 10 else 0)
    + (if ∃ d ∈ diffs, Text.ContainsIgnoringCase "util" d.path ∨
        Text.ContainsIgnoringCase "common" d.path then 5 else 0)
    + 15 * r.coverage.highGaps + 8 * r.coverage.mediumGaps + 3 * r.coverage.lowGaps

/-! ## Records -/

theorem mem_tests {u : SourceUnit} {m : Method} :
    m ∈ u.tests ↔ ∃ f ∈ u.files, ∃ d ∈ f.declarations,
      d.kind = .method ∧ d.isTest = true ∧ d.ownMethod = m := by
  unfold SourceUnit.tests
  simp only [mem_firstOccurrences, List.mem_map, List.mem_filter, List.mem_flatMap,
    Bool.and_eq_true, decide_eq_true_eq]
  constructor
  · rintro ⟨d, ⟨⟨f, hf, hd⟩, hkind, htest⟩, hm⟩
    exact ⟨f, hf, d, hd, hkind, htest, hm⟩
  · rintro ⟨f, hf, d, hd, hkind, htest, hm⟩
    exact ⟨d, ⟨⟨f, hf, hd⟩, hkind, htest⟩, hm⟩

theorem gaps_found (a : CommitAnalyzer) (diffs : List FileDiff)
    (contents : List (String × Option ByteArray)) (gap : Coverage.Gap)
    (hgap : gap ∈ (a.found diffs contents).report.gaps) :
    gap.method ∈ (a.found diffs contents).changed ∨
      gap.method ∈ (a.found diffs contents).report.result.impacted :=
  (Coverage.mem_gaps.1 hgap).1.1.1

theorem tests_found (a : CommitAnalyzer) (diffs : List FileDiff)
    (contents : List (String × Option ByteArray)) (owner name : String)
    (hlists : (a.found diffs contents).report.result.tests.Lists owner name) :
    ∃ f ∈ (a.unitOf contents).files, ∃ d ∈ f.declarations,
      d.kind = .method ∧ d.isTest = true ∧ d.ownMethod = ⟨owner, name⟩ :=
  mem_tests.1 (Impact.lists_impact.1 hlists).1

/-- The gaps of each level are counted. -/
structure CountsGaps (report : Impact.Report) : Prop where
  high : report.coverage.highGaps = report.gaps.countP (·.riskLevel = .high)
  medium : report.coverage.mediumGaps = report.gaps.countP (·.riskLevel = .medium)
  low : report.coverage.lowGaps = report.gaps.countP (·.riskLevel = .low)

theorem countsGaps_report (p : Impact.Prepared) (config : Config.Analysis) (changed : List Method) :
    CountsGaps (p.report config changed) :=
  ⟨rfl, rfl, rfl⟩

/-- The parts of a record fit together and with the changed files. -/
structure RecordFits (a : CommitAnalyzer) (diffs : List FileDiff)
    (contents : List (String × Option ByteArray)) (r : CommitRecord) : Prop where
  changed : r.changedFiles = diffs.length
  /-- Every changed file is skipped, a file of the unit, or outside of it. -/
  files : r.changedFiles =
    r.skippedFiles + (a.unitOf contents).files.length + (a.outside contents).length
  skipped : r.skippedFiles ≤ r.changedFiles
  gaps : ∀ gap ∈ r.gaps, gap.method ∈ r.changedMethods ∨ gap.method ∈ r.impactedMethods
  /-- Only ordinary methods that are tests are listed as tests. -/
  tests : ∀ owner name, r.impactedTests.Lists owner name →
    ∃ f ∈ (a.unitOf contents).files, ∃ d ∈ f.declarations,
      d.kind = .method ∧ d.isTest = true ∧ d.ownMethod = ⟨owner, name⟩
  high : r.coverage.highGaps = r.gaps.countP (·.riskLevel = .high)
  medium : r.coverage.mediumGaps = r.gaps.countP (·.riskLevel = .medium)
  low : r.coverage.lowGaps = r.gaps.countP (·.riskLevel = .low)
  risk : r.risk = min (2 ^ 32 - 1) (points diffs r)

open Classical in
/-- The risk of a record is that of its points. -/
theorem risk_assemble (a : CommitAnalyzer) (c : Commit) (diffs : List FileDiff)
    (found : RangeAnalysis) (hpaths : found.paths = diffs.map (·.path))
    (hchanged : found.changed.Nodup)
    (himpacted : found.report.result.impacted.Nodup) (hcounts : CountsGaps found.report) :
    (a.assemble c found).risk = min (2 ^ 32 - 1) (points diffs (a.assemble c found)) := by
  have hshared : found.paths.any isSharedPath = true ↔
      ∃ d ∈ diffs, Text.ContainsIgnoringCase "util" d.path ∨
        Text.ContainsIgnoringCase "common" d.path := by
    rw [hpaths]
    simp only [List.any_eq_true, List.mem_map, exists_exists_and_eq_and, isSharedPath_iff]
  have hrisk : (a.assemble c found).risk = min (2 ^ 32 - 1) (found.paths.length +
      found.changed.length * 2 + found.report.result.impacted.length * 3
      + (if Impact.testCount found.report.result.tests = 0 then 10 else 0)
      + (if found.paths.any isSharedPath then 5 else 0)
      + (found.report.gaps.map (·.riskLevel)).foldr (gapPoints · + ·) 0) := rfl
  have hpoints : points diffs (a.assemble c found) = found.paths.length +
      2 * {m | m ∈ found.changed}.ncard + 3 * {m | m ∈ found.report.result.impacted}.ncard
      + (if ¬∃ owner name, found.report.result.tests.Lists owner name then 10 else 0)
      + (if ∃ d ∈ diffs, Text.ContainsIgnoringCase "util" d.path ∨
          Text.ContainsIgnoringCase "common" d.path then 5 else 0)
      + 15 * found.report.coverage.highGaps + 8 * found.report.coverage.mediumGaps
      + 3 * found.report.coverage.lowGaps := rfl
  have hmethods : {m | m ∈ found.changed}.ncard = found.changed.length :=
    ncard_of_nodup hchanged fun _ => Iff.rfl
  have hreached : {m | m ∈ found.report.result.impacted}.ncard =
      found.report.result.impacted.length :=
    ncard_of_nodup himpacted fun _ => Iff.rfl
  rw [hrisk, hpoints, foldr_gapPoints, if_congr testCount_eq_zero_iff rfl rfl,
    if_congr hshared rfl rfl, hmethods, hreached, hcounts.high, hcounts.medium,
    hcounts.low]
  congr 1
  omega

/-- The record of a commit fits together and with what the history shows of the commit. -/
theorem records_fit (a : CommitAnalyzer) (c : Commit) (r : CommitRecord) (h : a.analyze c = .ok r) :
    ∃ diffs contents, a.Shows c diffs contents ∧ RecordFits a diffs contents r := by
  obtain ⟨diffs, contents, hshows, rfl⟩ := analyze_ok_iff.1 h
  have hpaths : (a.found diffs contents).paths = diffs.map (·.path) := rfl
  have hskipped : (a.found diffs contents).skippedFiles = a.skipped contents := rfl
  have hgaps := gaps_found a diffs contents
  have htests := tests_found a diffs contents
  have hcounts : CountsGaps (a.found diffs contents).report := countsGaps_report _ _ _
  have hrisk := risk_assemble a c diffs (a.found diffs contents) hpaths
    (ascending_sortedSet _).nodup (ascending_sortedSet _).nodup hcounts
  -- nothing else is needed of what is found
  generalize a.found diffs contents = found at *
  have hchanged : (a.assemble c found).changedFiles = diffs.length := by
    show found.paths.length = _
    rw [hpaths, List.length_map]
  have hfiles : (a.assemble c found).changedFiles = (a.assemble c found).skippedFiles +
      (a.unitOf contents).files.length + (a.outside contents).length := by
    show _ = found.skippedFiles + _ + _
    rw [hchanged, hskipped, hshows.hold.length_eq]
    exact length_contents a contents
  refine ⟨diffs, contents, hshows, hchanged, hfiles, ?_, hgaps, htests, hcounts.high,
    hcounts.medium, hcounts.low, hrisk⟩
  omega

/-- Of the six files two are read; one lies out of scope and the other three are skipped. -/
theorem records_fit_depot :
    ∃ r diffs contents, depotAnalyzer.analyze depotCommit = .ok r ∧
      depotAnalyzer.Shows depotCommit diffs contents ∧ RecordFits depotAnalyzer diffs contents r ∧
      r.changedFiles = 6 ∧ r.skippedFiles = 3 := by
  have hr := analyze_ok_iff.2 ⟨depotDiffs, depotContents, shows_depot, rfl⟩
  obtain ⟨diffs, contents, hshows, hfits⟩ := records_fit depotAnalyzer depotCommit _ hr
  have hskipped : depotAnalyzer.skipped depotContents = 3 := by
    rw [skipped, unitOf_depot]
    decide
  exact ⟨_, diffs, contents, hr, hshows, hfits, rfl, hskipped⟩

end CommitAnalyzer

end ChangeImpact
