import ChangeImpact.Commit.Analyzer
import Mathlib.Data.List.Forall2

/-!
# When a commit has a record

A commit is analysed if its history shows the files that differ from its first parent and what each
of them holds. The record is then that of the unit which these files make. Otherwise there is an
error that names the commit.

* `bind_eq_ok_iff`, `bind_eq_error_iff`, `mapM_eq_ok_iff` — when computations succeed together, and
  when one of them fails;
* `CommitAnalyzer.Shows` — what a history has to tell;
* `CommitAnalyzer.found`, `CommitAnalyzer.analyze_ok_iff` — when there is a record, and which;
* `PipelineError.AttributedTo` — an error that names a commit, once;
* `CommitAnalyzer.attributed_of_analyze`, `CommitAnalyzer.attributed_of_range` — every error of an
  analysis is one.
-/

namespace ChangeImpact

/-! ## Computations that may fail -/

theorem bind_eq_ok_iff {ε α β : Type} {x : Except ε α} {f : α → Except ε β} {b : β} :
    (x >>= f) = .ok b ↔ ∃ a, x = .ok a ∧ f a = .ok b := by
  cases x <;> simp [bind, Except.bind]

theorem mapError_eq_ok_iff {ε ε' α : Type} {f : ε → ε'} {x : Except ε α} {a : α} :
    x.mapError f = .ok a ↔ x = .ok a := by
  cases x <;> simp [Except.mapError]

theorem pure_eq_ok_iff {ε α : Type} {a b : α} : (pure a : Except ε α) = .ok b ↔ a = b := by
  simp [pure, Except.pure]

theorem bind_eq_error_iff {ε α β : Type} {x : Except ε α} {f : α → Except ε β} {e : ε} :
    (x >>= f) = .error e ↔ x = .error e ∨ ∃ a, x = .ok a ∧ f a = .error e := by
  cases x <;> simp [bind, Except.bind]

theorem mapError_eq_error_iff {ε ε' α : Type} {f : ε → ε'} {x : Except ε α} {e : ε'} :
    x.mapError f = .error e ↔ ∃ cause, x = .error cause ∧ f cause = e := by
  cases x <;> simp [Except.mapError]

/-- A computation for every member of a list succeeds if each does. -/
theorem mapM_eq_ok_iff {ε α β : Type} {f : α → Except ε β} {l : List α} {bs : List β} :
    l.mapM f = .ok bs ↔ List.Forall₂ (fun a b => f a = .ok b) l bs := by
  induction l generalizing bs with
  | nil => rw [List.mapM_nil, pure_eq_ok_iff, List.forall₂_nil_left_iff, eq_comm]
  | cons a l ih =>
    simp only [List.mapM_cons, bind_eq_ok_iff, pure_eq_ok_iff, List.forall₂_cons_left_iff, ih]
    constructor
    · rintro ⟨b, hb, rest, hrest, rfl⟩
      exact ⟨b, rest, hb, hrest, rfl⟩
    · rintro ⟨b, rest, hb, hrest, rfl⟩
      exact ⟨b, hb, rest, hrest, rfl⟩

namespace CommitAnalyzer

/-! ## When there is a record -/

variable {a : CommitAnalyzer} {c : Commit} {r : CommitRecord} {diffs : List FileDiff}
  {contents : List (String × Option ByteArray)}

/-- The history shows that these files differ from the first parent and hold these contents; a file
that is missing at the commit has none. -/
structure Shows (a : CommitAnalyzer) (c : Commit) (diffs : List FileDiff)
    (contents : List (String × Option ByteArray)) : Prop where
  differ : ∃ parent, c.firstParent = some parent ∧
    a.history.diff parent c.id a.model.supports = .ok diffs
  hold : List.Forall₂ (fun d file => file.1 = d.path ∧ a.history.content c.id d.path = .ok file.2)
    diffs contents

/-- The changed files that are there. -/
def present (contents : List (String × Option ByteArray)) : List SourceFile :=
  contents.filterMap fun file => file.2.map (SourceFile.mk file.1)

/-- The unit that is made of the changed files. -/
def unitOf (a : CommitAnalyzer) (contents : List (String × Option ByteArray)) : SourceUnit :=
  (SourceUnit.load a.model a.config (present contents)).data

/-- The methods of the unit that the hunks touch. -/
def touched (a : CommitAnalyzer) (diffs : List FileDiff)
    (contents : List (String × Option ByteArray)) : List Method :=
  (a.unitOf contents).build.changedMethods (diffs.map (·.lineChanges))

/-- How many of the changed files are missing, cannot be read or are beyond the limit. -/
def skipped (a : CommitAnalyzer) (contents : List (String × Option ByteArray)) : Nat :=
  contents.countP (·.2.isNone) + (a.unitOf contents).skipped + (a.unitOf contents).truncated

/-- What is found between the revisions. -/
def found (a : CommitAnalyzer) (diffs : List FileDiff)
    (contents : List (String × Option ByteArray)) : RangeAnalysis where
  paths := diffs.map (·.path)
  skippedFiles := a.skipped contents
  changed := a.touched diffs contents
  report := (Impact.Prepared.ofUnit (a.unitOf contents)).report a.config (a.touched diffs contents)

theorem contents_ok_iff {target : String} :
    a.contents target diffs = .ok contents ↔
      List.Forall₂ (fun d file => file.1 = d.path ∧ a.history.content target d.path = .ok file.2)
        diffs contents := by
  have hread : ∀ (d : FileDiff) (file : String × Option ByteArray),
      (do return (d.path, ← a.history.content target d.path) : Except HistoryError _) = .ok file ↔
        file.1 = d.path ∧ a.history.content target d.path = .ok file.2 := by
    rintro d ⟨path, content⟩
    simp only [bind_eq_ok_iff, pure_eq_ok_iff, Prod.mk.injEq]
    constructor
    · rintro ⟨_, hcontent, rfl, rfl⟩
      exact ⟨rfl, hcontent⟩
    · rintro ⟨rfl, hcontent⟩
      exact ⟨content, hcontent, rfl, rfl⟩
  unfold CommitAnalyzer.contents
  simp only [mapM_eq_ok_iff, hread]

theorem between_ok_iff {source target : String} {result : RangeAnalysis} :
    a.between source target = .ok result ↔ ∃ diffs contents,
      a.history.diff source target a.model.supports = .ok diffs ∧
        a.contents target diffs = .ok contents ∧ a.found diffs contents = result := by
  unfold between
  simp only [bind_eq_ok_iff, mapError_eq_ok_iff, pure_eq_ok_iff]
  constructor
  · rintro ⟨diffs, hdiffs, contents, hcontents, hresult⟩
    exact ⟨diffs, contents, hdiffs, hcontents, hresult⟩
  · rintro ⟨diffs, contents, hdiffs, hcontents, hresult⟩
    exact ⟨diffs, hdiffs, contents, hcontents, hresult⟩

/-- There is a record if the history shows the changed files, and then it is the record of what is
found in them. -/
theorem analyze_ok_iff :
    a.analyze c = .ok r ↔
      ∃ diffs contents, a.Shows c diffs contents ∧ a.assemble c (a.found diffs contents) = r := by
  unfold analyze
  dsimp only
  rw [mapError_eq_ok_iff]
  cases hparent : c.firstParent with
  | none =>
    simp only [reduceCtorEq, false_iff, not_exists, not_and]
    rintro diffs contents ⟨⟨parent, hsome, -⟩, -⟩
    rw [hparent] at hsome
    cases hsome
  | some parent =>
    simp only [bind_eq_ok_iff, pure_eq_ok_iff, between_ok_iff, contents_ok_iff]
    constructor
    · rintro ⟨_, ⟨diffs, contents, hdiffs, hcontents, rfl⟩, hrecord⟩
      exact ⟨diffs, contents, ⟨⟨parent, hparent, hdiffs⟩, hcontents⟩, hrecord⟩
    · rintro ⟨diffs, contents, ⟨⟨parent', hparent', hdiffs⟩, hcontents⟩, hrecord⟩
      obtain rfl : parent = parent' := Option.some.inj (hparent.symm.trans hparent')
      exact ⟨_, ⟨diffs, contents, hdiffs, hcontents, rfl⟩, hrecord⟩

end CommitAnalyzer

/-! ## Attributed errors -/

namespace PipelineError

variable {e : PipelineError} {id : String}

/-- The error names the commit, and what it is around names none. -/
def AttributedTo (e : PipelineError) (id : String) : Prop :=
  ∃ cause, e = .commit id cause ∧ cause.atCommit? = none

theorem attributedTo_forCommit (h : e.atCommit? = none) : (e.forCommit id).AttributedTo id := by
  refine ⟨e, ?_, h⟩
  cases e with
  | commit id' cause => cases h
  | config | source | history | storage | workerPool | cancelled => rfl

/-- Only an error that names a commit has the code of one. -/
theorem code_ne_of_atCommit? (h : e.atCommit? = none) : e.code ≠ "COMMIT_FAILED" := by
  cases e with
  | commit id' cause => cases h
  | source e => cases e <;> simp [code, SourceError.code]
  | history e => cases e <;> simp [code, HistoryError.code]
  | config | storage | workerPool | cancelled => simp [code, ConfigError.code, StorageError.code]

end PipelineError

namespace CommitAnalyzer

variable {a : CommitAnalyzer} {c : Commit} {e : PipelineError}

/-- A history that fails has not named a commit yet. -/
theorem atCommit?_of_history {α : Type} {x : Except HistoryError α}
    (h : x.mapError PipelineError.history = .error e) : e.atCommit? = none := by
  rcases mapError_eq_error_iff.1 h with ⟨cause, -, rfl⟩
  rfl

/-- The impact between two revisions fails only where the history does. -/
theorem atCommit?_of_between {source target : String} (h : a.between source target = .error e) :
    e.atCommit? = none := by
  simp only [between, bind_eq_error_iff] at h
  rcases h with hdiff | ⟨diffs, -, hcontents | ⟨contents, -, hpure⟩⟩
  · exact atCommit?_of_history hdiff
  · exact atCommit?_of_history hcontents
  · cases hpure

theorem attributed_of_analyze (h : a.analyze c = .error e) : e.AttributedTo c.id := by
  rcases mapError_eq_error_iff.1 h with ⟨inner, hrun, rfl⟩
  refine PipelineError.attributedTo_forCommit ?_
  cases hparent : c.firstParent with
  | none =>
    simp only [hparent, Except.error.injEq] at hrun
    rw [← hrun]
    rfl
  | some parent =>
    simp only [hparent, bind_eq_error_iff] at hrun
    rcases hrun with hbetween | ⟨found, -, hpure⟩
    · exact atCommit?_of_between hbetween
    · cases hpure

theorem attributed_of_range {source target : String} (h : a.range source target = .error e) :
    e.AttributedTo target := by
  rcases mapError_eq_error_iff.1 h with ⟨inner, hrun, rfl⟩
  refine PipelineError.attributedTo_forCommit ?_
  -- four questions, any of which may be the one that fails
  simp only [bind_eq_error_iff] at hrun
  rcases hrun with hbase | ⟨base, -, htip | ⟨tip, -, hcommit |
    ⟨c, -, hbetween | ⟨found, -, hpure⟩⟩⟩⟩
  · exact atCommit?_of_history hbase
  · exact atCommit?_of_history htip
  · exact atCommit?_of_history hcommit
  · exact atCommit?_of_between hbetween
  · cases hpure

end CommitAnalyzer

end ChangeImpact
