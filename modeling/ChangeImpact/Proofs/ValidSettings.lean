import Mathlib.Data.List.DropRight
import ChangeImpact.Config.Settings
import ChangeImpact.Proofs.EventTrace

/-!
# Settings without a fault

Settings are checked three times: when they are loaded, when an inspection is set up, and when it
runs. The checks differ, and defaults are filled in between the first two. Settings that pass the
first check give bounds in their ranges; they set up an inspection unless something is missing that
the first check does not ask for; and an inspection that is set up never fails for its settings.

* `Text.Blank`, `Text.trim_eq_empty_iff` — texts with nothing but white space;
* `Settings.InRange`, `Settings.fault?_eq_none_iff` — what the first check asks for;
* `Settings.Lacks`, `Settings.inspection_cases` — what the second one asks for beyond it;
* `Monitor.runIn_config_iff` — when a run fails for its settings;
* `StaysValid`, `accepted_stays_valid` — the three together.
-/

namespace ChangeImpact

/-! ## Blank texts -/

namespace Text

/-- All characters are blank, if there are any. -/
def Blank (s : String) : Prop :=
  ∀ c ∈ s.toList, isBlank c = true

/-- Nothing is left of a blank text without the blank characters at its ends, and of no other. -/
theorem trim_eq_empty_iff {s : String} : trim s = "" ↔ Blank s := by
  have hends : trim s = "" ↔ (s.toList.dropWhile isBlank).rdropWhile isBlank = [] := by
    rw [trim, dropBlankEnd, ← String.toList_inj, String.toList_ofList]
    exact Iff.rfl
  rw [hends, List.rdropWhile_eq_nil_iff]
  constructor
  · intro hall
    -- what is left at the start would begin with a character that is not blank
    by_contra hsome
    have hne : s.toList.dropWhile isBlank ≠ [] := mt List.dropWhile_eq_nil_iff.1 hsome
    have hhead := List.head_dropWhile_not isBlank hne
    simp [hall _ (List.head_mem hne)] at hhead
  · intro hblank c hc
    exact hblank c ((List.dropWhile_suffix _).subset hc)

end Text

/-! ## The first check -/

namespace Config

variable {s : Settings} {c : Inspect} {e : ConfigError}

/-- Everything that is set is in its range. -/
structure Settings.InRange (s : Settings) : Prop where
  maxDepth : ∀ depth ∈ s.analysis.maxDepth, 1 ≤ depth ∧ depth ≤ maxDepthLimit
  maxFiles : ∀ files ∈ s.analysis.maxFiles, 1 ≤ files
  gapSearchDepth : ∀ depth ∈ s.analysis.gapSearchDepth, 1 ≤ depth
  threads : ∀ threads ∈ s.inspect.threads, 1 ≤ threads
  since : ∀ text ∈ s.inspect.since, ∃ day, Date.parse (Text.trim text) = .ok day

/-- A number that may be unset is not 0 if it is at least 1 wherever it is set. -/
theorem ne_some_zero_iff {n : Option Nat} : n ≠ some 0 ↔ ∀ k ∈ n, 1 ≤ k := by
  cases n with
  | none => simp
  | some k => simp [Nat.one_le_iff_ne_zero]

theorem AnalysisSection.fault?_eq_none_iff {a : AnalysisSection} :
    a.fault? = none ↔ (∀ depth ∈ a.maxDepth, 1 ≤ depth ∧ depth ≤ maxDepthLimit) ∧
      (∀ files ∈ a.maxFiles, 1 ≤ files) ∧ ∀ depth ∈ a.gapSearchDepth, 1 ≤ depth := by
  have hdepth : (a.maxDepth.any fun depth => depth = 0 ∨ maxDepthLimit < depth) = true ↔
      ¬∀ depth ∈ a.maxDepth, 1 ≤ depth ∧ depth ≤ maxDepthLimit := by
    cases a.maxDepth with
    | none => simp
    | some depth =>
      simp only [Option.any_some, decide_eq_true_eq, Option.mem_some_iff, forall_eq']
      omega
  rw [← ne_some_zero_iff, ← ne_some_zero_iff, fault?]
  split_ifs with hany hfiles hgaps
  · exact iff_of_false (by simp) fun h => hdepth.1 hany h.1
  · exact iff_of_false (by simp) fun h => h.2.1 hfiles
  · exact iff_of_false (by simp) fun h => h.2.2 hgaps
  · exact iff_of_true rfl ⟨not_not.1 (mt hdepth.2 hany), hfiles, hgaps⟩

/-- The day of a text that names one. -/
theorem parseSince_ok_iff {text : String} {day : Date} :
    parseSince text = .ok day ↔ Date.parse (Text.trim text) = .ok day := by
  unfold parseSince
  cases Date.parse (Text.trim text) <;> simp

theorem InspectSection.sinceDay_ok_iff {i : InspectSection} :
    (∃ day, i.sinceDay = .ok day) ↔
      ∀ text ∈ i.since, ∃ day, Date.parse (Text.trim text) = .ok day := by
  unfold sinceDay
  cases i.since with
  | none => simp
  | some text =>
    simp only [Option.mem_some_iff, forall_eq', ← parseSince_ok_iff]
    cases parseSince text <;> simp [Except.map]

theorem InspectSection.fault?_eq_none_iff {i : InspectSection} :
    i.fault? = none ↔ (∀ threads ∈ i.threads, 1 ≤ threads) ∧
      ∀ text ∈ i.since, ∃ day, Date.parse (Text.trim text) = .ok day := by
  rw [← ne_some_zero_iff, ← sinceDay_ok_iff, fault?]
  split_ifs with hthreads
  · simp [hthreads]
  · cases i.sinceDay <;> simp [hthreads]

/-- Settings have no fault if what they set is in range; nothing has to be set. -/
theorem Settings.fault?_eq_none_iff : s.fault? = none ↔ s.InRange := by
  rw [fault?, Option.or_eq_none_iff, AnalysisSection.fault?_eq_none_iff,
    InspectSection.fault?_eq_none_iff]
  constructor
  · rintro ⟨⟨hdepth, hfiles, hgaps⟩, hthreads, hsince⟩
    exact ⟨hdepth, hfiles, hgaps, hthreads, hsince⟩
  · intro h
    exact ⟨⟨h.maxDepth, h.maxFiles, h.gapSearchDepth⟩, h.threads, h.since⟩

/-! ## The second check -/

/-- The settings are too few for an inspection. -/
inductive Settings.Lacks (s : Settings) : ConfigError → Prop where
  /-- No branch is named. -/
  | branch (h : ∀ b ∈ s.inspect.branch, Text.Blank b) :
    Lacks s (.validationFailed "inspect.branch" "a branch name is required")
  /-- There is no bound on the commits. -/
  | bound (hcommits : s.inspect.commits = none) (hsince : s.inspect.since = none) :
    Lacks s (.validationFailed "inspect.commits"
      "either a commit count or a since date is required")
  /-- No commits are wanted. -/
  | count (h : s.inspect.commits = some 0) :
    Lacks s (.validationFailed "inspect.commits" "must be greater than 0")

theorem Settings.exists_lacks_iff :
    (∃ e, s.Lacks e) ↔ (s.inspect.branch = none ∨ ∃ b, s.inspect.branch = some b ∧ Text.Blank b) ∨
      (s.inspect.commits = none ∧ s.inspect.since = none) ∨ s.inspect.commits = some 0 := by
  constructor
  · rintro ⟨_, h | ⟨hcommits, hsince⟩ | h⟩
    · left
      cases hbranch : s.inspect.branch with
      | none => exact .inl rfl
      | some b => exact .inr ⟨b, rfl, h b hbranch⟩
    · exact .inr (.inl ⟨hcommits, hsince⟩)
    · exact .inr (.inr h)
  · rintro ((hbranch | ⟨b, hbranch, hblank⟩) | ⟨hcommits, hsince⟩ | h)
    · exact ⟨_, .branch (by simp [hbranch])⟩
    · exact ⟨_, .branch (by simpa [hbranch] using hblank)⟩
    · exact ⟨_, .bound hcommits hsince⟩
    · exact ⟨_, .count h⟩

/-- An inspection with everything that the settings say about it. -/
structure Settings.SetsUp (s : Settings) (c : Inspect) : Prop where
  branch : s.inspect.branch = some c.branch
  commits : s.inspect.commits = c.commits
  since : s.inspect.sinceDay = .ok c.since
  cacheDir : c.cacheDir = s.inspect.cacheDir.getD defaultCacheDir
  threads : s.inspect.threads = c.threads

/-- A day is known if and only if one is set. -/
theorem InspectSection.sinceDay_none_iff {i : InspectSection} {day : Option Date}
    (h : i.sinceDay = .ok day) : day = none ↔ i.since = none := by
  unfold sinceDay at h
  cases hsince : i.since with
  | none =>
    rw [hsince] at h
    simp [← Except.ok.inj h]
  | some text =>
    rw [hsince] at h
    cases hday : parseSince text with
    | error e => simp [hday, Except.map] at h
    | ok d =>
      simp only [hday, Except.map, Except.ok.injEq] at h
      simp [← h]

namespace Settings.SetsUp

/-- An inspection is set up if it passes its own check, and else refused for what this finds. -/
theorem inspection_eq (h : s.SetsUp c) : s.inspection = c.fault?.elim (.ok c) .error := by
  obtain ⟨branch, commits, since, cacheDir, threads⟩ := c
  obtain ⟨hbranch, rfl, hsince, rfl, rfl⟩ := h
  unfold inspection
  rw [hbranch, hsince]
  simp only [bind, Except.bind]
  split <;> simp [*]

/-- If the threads are in range, then the check can only find that something is missing. -/
theorem lacks (h : s.SetsUp c) (hthreads : ∀ n ∈ c.threads, 1 ≤ n) (hfault : c.fault? = some e) :
    s.Lacks e := by
  rw [Inspect.fault?] at hfault
  split_ifs at hfault with hbranch hbound hcount hzero
  · cases hfault
    refine .branch fun b hb => ?_
    cases h.branch.symm.trans hb
    exact Text.trim_eq_empty_iff.1 hbranch
  · cases hfault
    exact .bound (h.commits.trans hbound.1)
      ((InspectSection.sinceDay_none_iff h.since).1 hbound.2)
  · cases hfault
    exact .count (h.commits.trans hcount)
  · exact absurd hzero (ne_some_zero_iff.2 hthreads)

/-- Nothing is missing in an inspection that passes its own check. -/
theorem not_lacks (h : s.SetsUp c) (hfault : c.fault? = none) : ¬s.Lacks e := by
  rw [Inspect.fault?] at hfault
  split_ifs at hfault with hbranch hbound hcount hzero
  rintro (hblank | ⟨hcommits, hsince⟩ | hnone)
  · exact hbranch (Text.trim_eq_empty_iff.2 (hblank _ h.branch))
  · exact hbound ⟨h.commits.symm.trans hcommits,
      (InspectSection.sinceDay_none_iff h.since).2 hsince⟩
  · exact hcount (h.commits.symm.trans hnone)

end Settings.SetsUp

/-- Settings in range set up an inspection that passes its own check, or something is missing. -/
theorem Settings.inspection_cases (h : s.InRange) :
    (∃ c, s.inspection = .ok c ∧ s.SetsUp c ∧ c.fault? = none ∧ ∀ e, ¬s.Lacks e) ∨
      ∃ e, s.inspection = .error e ∧ s.Lacks e := by
  cases hbranch : s.inspect.branch with
  | none =>
    refine .inr ⟨_, ?_, .branch (by simp [hbranch])⟩
    unfold inspection
    rw [hbranch]
  | some b =>
    -- the day was checked before, so that it cannot be what is wrong now
    obtain ⟨since, hsince⟩ := InspectSection.sinceDay_ok_iff.2 h.since
    have hsets : s.SetsUp ⟨b, s.inspect.commits, since, s.inspect.cacheDir.getD defaultCacheDir,
      s.inspect.threads⟩ := ⟨hbranch, rfl, hsince, rfl, rfl⟩
    generalize (⟨b, s.inspect.commits, since, s.inspect.cacheDir.getD defaultCacheDir,
      s.inspect.threads⟩ : Inspect) = c at hsets
    rw [hsets.inspection_eq]
    cases hfault : c.fault? with
    | none => exact .inl ⟨c, rfl, hsets, hfault, fun _ => hsets.not_lacks hfault⟩
    | some e =>
      have hthreads : ∀ n ∈ c.threads, 1 ≤ n := hsets.threads ▸ h.threads
      exact .inr ⟨e, rfl, hsets.lacks hthreads hfault⟩

/-- What holds of a value wherever it is set, and of its default, holds of the value in effect. -/
theorem getD_of_forall {α : Type} (P : α → Prop) {o : Option α} {d : α} (h : ∀ a ∈ o, P a)
    (hd : P d) : P (o.getD d) := by
  cases o with
  | none => exact hd
  | some a => exact h a rfl

/-- The bounds of an analysis are in range, also where defaults stand in. -/
theorem Settings.InRange.bounds (h : s.InRange) :
    1 ≤ s.bounds.maxDepth ∧ s.bounds.maxDepth ≤ 1024 ∧ 1 ≤ s.bounds.maxFiles ∧
      s.bounds.gapSearchDepth ≠ some 0 := by
  have hdepth : 1 ≤ s.bounds.maxDepth ∧ s.bounds.maxDepth ≤ 1024 :=
    getD_of_forall (fun depth => 1 ≤ depth ∧ depth ≤ 1024) h.maxDepth (by decide)
  have hfiles : 1 ≤ s.bounds.maxFiles :=
    getD_of_forall (fun files => 1 ≤ files) h.maxFiles (by decide)
  exact ⟨hdepth.1, hdepth.2, hfiles, ne_some_zero_iff.2 h.gapSearchDepth⟩

end Config

/-! ## The third check -/

namespace Inspection.Monitor

/-- A run fails for its settings if and only if they do not pass their check, whatever else stands
against it. -/
theorem runIn_config_iff {m : Monitor} {pool : Except String (Nat → List PoolAction)} {s : Session}
    {e : ConfigError} :
    (m.runIn pool s).2 = .error (.config e) ↔ m.config.fault? = some e := by
  constructor
  · intro hrun
    rcases m.prepare_cases s with ⟨e', hprepare, hfatal⟩ |
      ⟨commits, cache, files, hprepare, hselects, -⟩
    · rw [runIn_of_error pool hprepare] at hrun
      cases hrun
      cases hfatal pool with
      | config h => exact h
    · cases pool with
      | error message =>
        unfold runIn at hrun
        rw [hprepare] at hrun
        cases hrun
      | ok schedule =>
        obtain ⟨outcomes, told, hreport, -⟩ := trace_runWith hprepare hselects
        have hrun' : (m.runWith schedule s).2 = .error (.config e) := hrun
        rw [hreport] at hrun'
        cases hrun'
  · intro hfault
    have hprepare : m.prepare s = .error (.config e) := by
      unfold prepare
      rw [hfault]
    rw [runIn_of_error pool hprepare]

end Inspection.Monitor

namespace Config

open Inspection

/-- What settings that pass the first check are good for. -/
structure StaysValid (s : Settings) : Prop where
  bounds : 1 ≤ s.bounds.maxDepth ∧ s.bounds.maxDepth ≤ 1024 ∧ 1 ≤ s.bounds.maxFiles ∧
    s.bounds.gapSearchDepth ≠ some 0
  /-- An inspection is refused exactly if no branch is named, or the commits are not bounded, or
  none are wanted, -/
  refused : (∃ e, s.inspection = .error e) ↔
    (s.inspect.branch = none ∨ ∃ b, s.inspect.branch = some b ∧ Text.Blank b) ∨
      (s.inspect.commits = none ∧ s.inspect.since = none) ∨ s.inspect.commits = some 0
  /-- and the reason that is given is one that applies; none is about the day or the threads. -/
  reason : ∀ e, s.inspection = .error e → s.Lacks e
  /-- An inspection that is set up is the one that was set, and it passes its own check; -/
  passes : ∀ c, s.inspection = .ok c → s.SetsUp c ∧ c.fault? = none
  /-- so no run of it fails for its settings. -/
  runs : ∀ m : Monitor, s.inspection = .ok m.config →
    ∀ pool session e, (m.runIn pool session).2 ≠ .error (.config e)

/-- Settings that pass the first check set everything in range for all that follows. -/
theorem accepted_stays_valid (s : Settings) (h : s.fault? = none) : StaysValid s := by
  have hrange := Settings.fault?_eq_none_iff.1 h
  have hpasses : ∀ c, s.inspection = .ok c → s.SetsUp c ∧ c.fault? = none := by
    intro c hc
    rcases Settings.inspection_cases hrange with ⟨c', hc', hsets, hfault, -⟩ | ⟨e, he, -⟩
    · cases hc.symm.trans hc'
      exact ⟨hsets, hfault⟩
    · cases hc.symm.trans he
  constructor
  case bounds => exact hrange.bounds
  case refused =>
    rw [← Settings.exists_lacks_iff]
    rcases Settings.inspection_cases hrange with ⟨c, hc, -, -, hnone⟩ | ⟨e, he, hlacks⟩
    · exact iff_of_false (by simp [hc]) (not_exists.2 hnone)
    · exact iff_of_true ⟨e, he⟩ ⟨e, hlacks⟩
  case reason =>
    intro e he
    rcases Settings.inspection_cases hrange with ⟨c, hc, -⟩ | ⟨e', he', hlacks⟩
    · cases he.symm.trans hc
    · cases he.symm.trans he'
      exact hlacks
  case passes => exact hpasses
  case runs =>
    intro m hm pool session e hrun
    have hfault := Monitor.runIn_config_iff.1 hrun
    rw [(hpasses _ hm).2] at hfault
    cases hfault

/-- The greatest depth, a day with white space around it, and no number of commits. -/
def dayOnly : Settings :=
  ⟨⟨some 1024, none, none, some 1⟩, ⟨some "main", none, some " 2024-02-29\n", none, some 1⟩⟩

/-- These settings are accepted, and the inspection that they set up passes its check. -/
theorem accepted_stays_valid_dayOnly :
    dayOnly.fault? = none ∧ StaysValid dayOnly ∧
      dayOnly.inspection = .ok ⟨"main", none, some ⟨2024, 2, 29⟩, ".inspect_cache", some 1⟩ := by
  have h : dayOnly.fault? = none := by decide +kernel
  exact ⟨h, accepted_stays_valid dayOnly h, by decide +kernel⟩

end Config

end ChangeImpact
