import ChangeImpact.Config.Settings
import ChangeImpact.Proofs.TomlDocuments

/-!
# Settings are read back from their document

Settings are written as a document with one header for each section and a line for each setting that
is set. Whatever texts are set, the document is read back as the same settings. A number has to fit
into the whole numbers of a document; otherwise there is none.

* `Entry`, `present` — the settings of a section by name, and the table of those that are set;
* `readsLines_textLine`, `readsLines_numberLine` — the line of a setting is read as its entry;
* `ofStatements_sections` — two headers and their lines make two tables;
* `Settings.Typed` — the widths of the numbers;
* `settings_read_back` — when settings can be written, and that they are read back.
-/

namespace ChangeImpact.Config

open Toml

/-! ## Entries -/

/-- A setting by its name, with its value if it is set. -/
abbrev Entry := String × Option Toml

/-- The table of the settings that are set. -/
def present (entries : List Entry) : Members :=
  entries.filterMap fun e => e.2.map fun v => (e.1, v)

/-- The lines of a table, as statements. -/
def assigns (ms : Members) : List Statement :=
  ms.map fun m => .assign [] m.1 m.2

theorem keys_present (entries : List Entry) :
    ((present entries).map (·.1)).Sublist (entries.map (·.1)) := by
  induction entries with
  | nil => exact List.Sublist.refl _
  | cons e entries ih =>
    rcases e with ⟨key, value⟩
    cases value with
    | none => exact ih.cons key
    | some v => exact ih.cons_cons key

/-- A setting is found under its name if it is set. -/
theorem get?_present {entries : List Entry} (hnodup : (entries.map (·.1)).Nodup) {key : String}
    {value : Option Toml} (h : (key, value) ∈ entries) : (present entries).get? key = value := by
  induction entries with
  | nil => cases h
  | cons first entries ih =>
    rcases first with ⟨key', value'⟩
    rw [List.map_cons, List.nodup_cons] at hnodup
    rcases hnodup with ⟨hnew, hnodup⟩
    rcases List.mem_cons.1 h with heq | hmem
    · rcases Prod.mk.inj heq with ⟨rfl, rfl⟩
      cases value with
      | none =>
        -- no later setting has this name
        refine get?_eq_none_iff.2 ?_
        intro hkey
        exact hnew ((keys_present entries).subset hkey)
      | some v =>
        show List.lookup key ((key, v) :: present entries) = some v
        exact List.lookup_cons_self
    · cases value' with
      | none => exact ih hnodup hmem
      | some v =>
        have hne : key ≠ key' := by
          rintro rfl
          exact hnew (List.mem_map.2 ⟨_, hmem, rfl⟩)
        show List.lookup key ((key', v) :: present entries) = value
        rw [List.lookup_cons, beq_false_of_ne hne]
        exact ih hnodup hmem

/-! ## Lines -/

theorem isKey_name {key : String}
    (h : key ∈ ["analysis", "inspect"] ++ analysisKeys ++ inspectKeys) : IsKey key := by
  have hall : (["analysis", "inspect"] ++ analysisKeys ++ inspectKeys).all
      (fun key => !key.toList.isEmpty && key.toList.all isKeyChar) = true := by
    decide
  have hkey := List.all_eq_true.1 hall key h
  rw [Bool.and_eq_true] at hkey
  refine ⟨?_, List.all_eq_true.1 hkey.2⟩
  simpa using hkey.1

theorem readsLines_textLine {key : String} (h : IsKey key) (text : Option String) :
    ReadsLines (textLine key text) (assigns (present [(key, text.map .str)])) := by
  cases text with
  | none => exact readsLines_nil
  | some text => exact readsLines_assign h (spells_text text)

theorem readsLines_numberLine {key : String} (h : IsKey key) {number : Option Nat}
    (hn : ∀ n ∈ number, (n : Int) ≤ maxInt) :
    ReadsLines (numberLine key number)
      (assigns (present [(key, number.map fun n : Nat => .int n)])) := by
  cases number with
  | none => exact readsLines_nil
  | some n => exact readsLines_assign h (spells_number (hn n rfl))

/-- The lines of some settings under the header of a section. -/
def ReadsSection (name : String) (lines : List Char) (entries : List Entry) : Prop :=
  ReadsLines lines (.header (.table [] name) :: assigns (present entries))

theorem ReadsSection.snoc {name : String} {lines line : List Char} {entries : List Entry}
    {e : Entry} (h : ReadsSection name lines entries)
    (hline : ReadsLines line (assigns (present [e]))) :
    ReadsSection name (lines ++ line) (entries ++ [e]) := by
  have hentries : assigns (present (entries ++ [e])) =
      assigns (present entries) ++ assigns (present [e]) := by
    rw [present, List.filterMap_append, assigns, List.map_append]
    rfl
  rw [ReadsSection, hentries, ← List.cons_append]
  exact h.append hline

/-- The settings of the analysis by their names. -/
def AnalysisSection.entries (s : AnalysisSection) : List Entry :=
  [("max_depth", s.maxDepth.map fun n : Nat => .int n),
    ("max_files", s.maxFiles.map fun n : Nat => .int n), ("scope", s.scope.map .str),
    ("gap_search_depth", s.gapSearchDepth.map fun n : Nat => .int n)]

/-- The settings of the inspection by their names. -/
def InspectSection.entries (s : InspectSection) : List Entry :=
  [("branch", s.branch.map .str), ("commits", s.commits.map fun n : Nat => .int n),
    ("since", s.since.map .str), ("cache_dir", s.cacheDir.map .str),
    ("threads", s.threads.map fun n : Nat => .int n)]

/-- Every number that is set is a whole number of a document. -/
def Settings.Writable (s : Settings) : Prop := ∀ n ∈ s.numbers, (n : Int) ≤ maxInt

theorem Settings.Writable.le {s : Settings} (hs : s.Writable) {number : Option Nat}
    (h : number ∈ [s.analysis.maxDepth, s.analysis.maxFiles, s.analysis.gapSearchDepth,
      s.inspect.commits, s.inspect.threads]) : ∀ n ∈ number, (n : Int) ≤ maxInt := by
  intro n hn
  exact hs n (List.mem_filterMap.2 ⟨number, h, hn⟩)

theorem readsSection_analysis {s : Settings} (hs : s.Writable) :
    ReadsSection "analysis" s.analysis.lines s.analysis.entries := by
  have hkey : IsKey "analysis" := isKey_name (by decide)
  have hheader : ReadsSection "analysis" "[analysis]\n".toList [] := readsLines_header hkey
  exact (((hheader.snoc
    (readsLines_numberLine (isKey_name (by decide)) (hs.le (by simp)))).snoc
    (readsLines_numberLine (isKey_name (by decide)) (hs.le (by simp)))).snoc
    (readsLines_textLine (isKey_name (by decide)) _)).snoc
    (readsLines_numberLine (isKey_name (by decide)) (hs.le (by simp)))

theorem readsSection_inspect {s : Settings} (hs : s.Writable) :
    ReadsSection "inspect" s.inspect.lines s.inspect.entries := by
  have hkey : IsKey "inspect" := isKey_name (by decide)
  have hheader : ReadsSection "inspect" "[inspect]\n".toList [] := readsLines_header hkey
  exact ((((hheader.snoc
    (readsLines_textLine (isKey_name (by decide)) _)).snoc
    (readsLines_numberLine (isKey_name (by decide)) (hs.le (by simp)))).snoc
    (readsLines_textLine (isKey_name (by decide)) _)).snoc
    (readsLines_textLine (isKey_name (by decide)) _)).snoc
    (readsLines_numberLine (isKey_name (by decide)) (hs.le (by simp)))

/-! ## Tables -/

/-- Two headers and the lines under them make two tables. -/
theorem ofStatements_sections {ms ms' : Members} (hms : (ms.map (·.1)).Nodup)
    (hms' : (ms'.map (·.1)).Nodup) :
    ofStatements (.header (.table [] "analysis") :: assigns ms ++
        .header (.table [] "inspect") :: assigns ms') =
      some [("analysis", .table .defined ms), ("inspect", .table .defined ms')] := by
  have hfirst : (assigns ms).foldlM Statement.run ⟨[], .table [] "analysis", []⟩ =
      some ⟨[], .table [] "analysis", ms⟩ :=
    foldlM_assigns hms
  have hsecond : (assigns ms').foldlM Statement.run
      ⟨[("analysis", .table .defined ms)], .table [] "inspect", []⟩ =
        some ⟨[("analysis", .table .defined ms)], .table [] "inspect", ms'⟩ :=
    foldlM_assigns hms'
  have hopen : Statement.run .empty (.header (.table [] "analysis")) =
      some ⟨[], .table [] "analysis", []⟩ := rfl
  have hnext : Statement.run ⟨[], .table [] "analysis", ms⟩ (.header (.table [] "inspect")) =
      some ⟨[("analysis", .table .defined ms)], .table [] "inspect", []⟩ := rfl
  rw [ofStatements, List.foldlM_append, List.foldlM_cons, hopen]
  simp only [Option.bind_eq_bind, Option.bind_some, hfirst, List.foldlM_cons, hnext, hsecond]
  rfl

/-- A text is taken from a table as it is. -/
theorem optional_text (text : Option String) : optional textOf? (text.map .str) = some text := by
  cases text with
  | none => rfl
  | some text => rfl

/-- A number is taken from a table if it has the width of the setting. -/
theorem optional_number {max : Nat} {number : Option Nat} (h : ∀ n ∈ number, n ≤ max) :
    optional (numberOf? max) (number.map fun n : Nat => .int n) = some number := by
  cases number with
  | none => rfl
  | some n =>
    have hn : n ≤ max := h n rfl
    simp [optional, numberOf?, hn]

/-- Every number that is set has the width of its setting: 32 bits for depths, 64 bits for
counts. -/
structure Settings.Typed (s : Settings) : Prop where
  maxDepth : ∀ n ∈ s.analysis.maxDepth, n ≤ maxWord32
  maxFiles : ∀ n ∈ s.analysis.maxFiles, n ≤ maxWord64
  gapSearchDepth : ∀ n ∈ s.analysis.gapSearchDepth, n ≤ maxWord32
  commits : ∀ n ∈ s.inspect.commits, n ≤ maxWord64
  threads : ∀ n ∈ s.inspect.threads, n ≤ maxWord64

/-- The parts of a table of settings are the settings. -/
theorem part?_present {keys : List String} {entries : List Entry}
    (hnodup : (entries.map (·.1)).Nodup) :
    ∀ e ∈ entries, part? keys (.table .defined (present entries)) e.1 = some e.2 := by
  rintro ⟨key, value⟩ he
  exact congrArg some (get?_present hnodup he)

theorem ofToml?_analysis {s : Settings} (hs : s.Typed) {v : Toml}
    (h : ∀ e ∈ s.analysis.entries, part? analysisKeys v e.1 = some e.2) :
    AnalysisSection.ofToml? v = some s.analysis := by
  simp only [AnalysisSection.entries, List.forall_mem_cons] at h
  rcases h with ⟨hdepth, hfiles, hscope, hsearch, -⟩
  simp only [AnalysisSection.ofToml?, hdepth, hfiles, hscope, hsearch, optional_text,
    optional_number hs.maxDepth, optional_number hs.maxFiles, optional_number hs.gapSearchDepth,
    Option.bind_eq_bind, Option.bind_some]

theorem ofToml?_inspect {s : Settings} (hs : s.Typed) {v : Toml}
    (h : ∀ e ∈ s.inspect.entries, part? inspectKeys v e.1 = some e.2) :
    InspectSection.ofToml? v = some s.inspect := by
  simp only [InspectSection.entries, List.forall_mem_cons] at h
  rcases h with ⟨hbranch, hcommits, hsince, hcache, hthreads, -⟩
  simp only [InspectSection.ofToml?, hbranch, hcommits, hsince, hcache, hthreads, optional_text,
    optional_number hs.commits, optional_number hs.threads, Option.bind_eq_bind, Option.bind_some]

/-! ## Settings -/

theorem toToml_of_writable {s : Settings} (hs : s.Writable) :
    s.toToml = .ok (String.ofList (s.analysis.lines ++ '\n' :: s.inspect.lines)) := by
  refine if_pos (List.all_eq_true.2 ?_)
  intro n hn
  exact decide_eq_true (hs n hn)

theorem writable_of_toToml {s : Settings} {text : String} (h : s.toToml = .ok text) :
    s.Writable := by
  unfold Settings.toToml at h
  split at h
  · next hall =>
    intro n hn
    exact of_decide_eq_true (List.all_eq_true.1 hall n hn)
  · cases h

/-- The tables of the document that settings are written as. -/
theorem parse?_lines {s : Settings} (hs : s.Writable) :
    parse? (String.ofList (s.analysis.lines ++ '\n' :: s.inspect.lines)) =
      some [("analysis", .table .defined (present s.analysis.entries)),
        ("inspect", .table .defined (present s.inspect.entries))] := by
  have hlines := (readsSection_analysis hs).append
    (readsLines_blank.append (readsSection_inspect hs))
  have hanalysis : (s.analysis.entries.map (·.1)).Nodup := show analysisKeys.Nodup by decide
  have hinspect : (s.inspect.entries.map (·.1)).Nodup := show inspectKeys.Nodup by decide
  rw [← List.singleton_append, parse?_of_readsLines hlines rfl]
  exact ofStatements_sections ((keys_present _).nodup hanalysis) ((keys_present _).nodup hinspect)

theorem ofToml?_lines {s : Settings} (hs : s.Writable) (htyped : s.Typed) :
    Settings.ofToml? (String.ofList (s.analysis.lines ++ '\n' :: s.inspect.lines)) = some s := by
  have hanalysis := ofToml?_analysis htyped (part?_present (show analysisKeys.Nodup by decide))
  have hinspect := ofToml?_inspect htyped (part?_present (show inspectKeys.Nodup by decide))
  rw [Settings.ofToml?, parse?_lines hs]
  simp only [Option.bind_eq_bind, Option.bind_some]
  rw [Settings.ofMembers?, Members.get?, List.lookup_cons_self, Members.get?, List.lookup_cons,
    show ("inspect" == "analysis") = false from rfl]
  simp only [List.lookup_cons_self, optional, hanalysis, hinspect, Option.map_some,
    Option.bind_eq_bind, Option.bind_some, Option.getD_some]

/-- Settings can be written if every number that is set is below `2 ^ 63`, and a document that they
are written as is read back as them. -/
theorem settings_read_back (s : Settings) (hs : s.Typed) :
    ((∃ text, s.toToml = .ok text) ↔ ∀ n ∈ s.numbers, n ≤ 9223372036854775807) ∧
      ∀ text, s.toToml = .ok text → ∀ path, Settings.parse path text = .ok s := by
  have hwritable : s.Writable ↔ ∀ n ∈ s.numbers, n ≤ 9223372036854775807 := by
    refine forall₂_congr ?_
    intro n hn
    show (n : Int) ≤ 9223372036854775807 ↔ n ≤ 9223372036854775807
    omega
  refine ⟨?_, ?_⟩
  · rw [← hwritable]
    constructor
    · rintro ⟨text, htext⟩
      exact writable_of_toToml htext
    · intro hw
      exact ⟨_, toToml_of_writable hw⟩
  · intro text htext path
    have hw := writable_of_toToml htext
    rw [toToml_of_writable hw] at htext
    cases htext
    rw [Settings.parse, ofToml?_lines hw hs]

/-- Quotes at both ends, backslashes, line ends and control characters, with a number of files. -/
def crowdedSettings (maxFiles : Nat) : Settings where
  analysis :=
    { maxDepth := some 4294967295, maxFiles := some maxFiles, scope := some "'''\r\n\x00\\\"\"\"" }
  inspect :=
    { branch := some "'main\"", since := some "\n2024-01-01", cacheDir := some "C:\\cache",
      threads := some 0 }

/-- The number of files decides: one more than the greatest is refused. -/
theorem settings_read_back_crowded :
    ((crowdedSettings 9223372036854775807).Typed ∧
      ∃ text, (crowdedSettings 9223372036854775807).toToml = .ok text ∧
        Settings.parse "<string>" text = .ok (crowdedSettings 9223372036854775807)) ∧
    (crowdedSettings 9223372036854775808).Typed ∧
      ¬∃ text, (crowdedSettings 9223372036854775808).toToml = .ok text := by
  have htyped : ∀ maxFiles ≤ 9223372036854775808, (crowdedSettings maxFiles).Typed := by
    intro maxFiles hfiles
    constructor <;> simp [crowdedSettings, maxWord32, maxWord64]
    omega
  have hlast := htyped 9223372036854775807 (by decide)
  have hover := htyped 9223372036854775808 (by decide)
  refine ⟨⟨hlast, ?_⟩, hover, ?_⟩
  · rcases (settings_read_back _ hlast).1.2 (by decide) with ⟨text, htext⟩
    exact ⟨text, htext, (settings_read_back _ hlast).2 text htext _⟩
  · rw [(settings_read_back _ hover).1]
    decide

end ChangeImpact.Config
