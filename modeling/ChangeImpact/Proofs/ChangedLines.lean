import ChangeImpact.Commit.Metadata
import ChangeImpact.Proofs.Relabelling
import ChangeImpact.Proofs.UnitGraph

/-!
# Changed lines and the methods that they touch

A change lists ranges of lines by file. If a file is listed more than once, its last entry counts
and the others are lost, so two changes that list the same file need not add up.

* `MethodSpan.overlaps_iff`, `LineRange.has_ofHunk` — ranges and hunks by the lines that they have;
* `LineChanges.LastIn`, `LineChanges.lookup_eq_some_iff` — the entry that counts for a file;
* `Build.LastEntriesCount`, `Build.last_entries_count` — the methods that a change touches, and
  those that two changes touch one after the other;
* `Build.repeated_path_loses_lines` — two changes of one file that do not add up.
-/

namespace ChangeImpact

/-! ## Lines -/

/-- The range has the line. -/
def LineRange.Has (r : LineRange) (line : Nat) : Prop := r.start ≤ line ∧ line ≤ r.stop

/-- The lines that a hunk leaves in the new text. A deletion leaves none, and stands for the line
before it or the first one. -/
def Hunk.Covers (h : Hunk) (line : Nat) : Prop :=
  if h.newLength = 0 then line = max h.newStart 1
  else max h.newStart 1 ≤ line ∧ line ≤ max h.newStart 1 + h.newLength - 1

/-- Two ranges that are not empty have a line in common if neither ends before the other starts. -/
theorem exists_line_iff {a b c d : Nat} (hab : a ≤ b) (hcd : c ≤ d) :
    a ≤ d ∧ c ≤ b ↔ ∃ line, (a ≤ line ∧ line ≤ b) ∧ c ≤ line ∧ line ≤ d := by
  constructor
  · rintro ⟨had, hcb⟩
    -- the later one of the two starts lies in both
    refine ⟨max a c, ⟨Nat.le_max_left a c, ?_⟩, Nat.le_max_right a c, ?_⟩
    · exact Nat.max_le.2 ⟨hab, hcb⟩
    · exact Nat.max_le.2 ⟨had, hcd⟩
  · rintro ⟨line, ⟨hal, hlb⟩, hcl, hld⟩
    exact ⟨hal.trans hld, hcl.trans hlb⟩

/-- The lines of a hunk whose end is a word. -/
theorem LineRange.has_ofHunk {h : Hunk} (hword : h.newStart + h.newLength < 2 ^ 32) (line : Nat) :
    (LineRange.ofHunk h.newStart h.newLength).Has line ↔ h.Covers line := by
  unfold LineRange.Has LineRange.ofHunk Hunk.Covers
  dsimp only
  by_cases hlength : h.newLength = 0
  · rw [if_pos hlength, if_pos hlength]
    omega
  · have hend : max h.newStart 1 + h.newLength - 1 < 4294967296 := by omega
    rw [if_neg hlength, if_neg hlength, Nat.mod_eq_of_lt hend]

theorem LineRange.start_le_stop_ofHunk {h : Hunk} (hword : h.newStart + h.newLength < 2 ^ 32) :
    (LineRange.ofHunk h.newStart h.newLength).start ≤
      (LineRange.ofHunk h.newStart h.newLength).stop := by
  have hfirst : h.Covers (max h.newStart 1) := by
    unfold Hunk.Covers
    split
    · rfl
    · exact ⟨le_rfl, by omega⟩
  exact ((has_ofHunk hword _).2 hfirst).2

/-! ## Entries -/

namespace LineChanges

variable {changes earlier later : List LineChanges} {path : String} {c : LineChanges}

/-- The entry is there and none after it is for the same path. -/
def LastIn (changes : List LineChanges) (c : LineChanges) : Prop :=
  ∃ before after, changes = before ++ c :: after ∧ ∀ d ∈ after, d.path ≠ c.path

/-- The last entry of a path counts. -/
theorem lookup_eq_some_iff : lookup changes path = some c ↔ LastIn changes c ∧ c.path = path := by
  unfold lookup LastIn
  rw [List.find?_eq_some_iff_append]
  constructor
  · rintro ⟨hpath, after, before, hchanges, hafter⟩
    have hpath : c.path = path := beq_iff_eq.1 hpath
    refine ⟨⟨before.reverse, after.reverse, ?_, ?_⟩, hpath⟩
    · rw [← List.reverse_reverse changes, hchanges]
      simp
    · intro d hd
      rw [hpath]
      simpa using hafter d (List.mem_reverse.1 hd)
  · rintro ⟨⟨before, after, rfl, hafter⟩, rfl⟩
    refine ⟨beq_self_eq_true _, after.reverse, before.reverse, by simp, ?_⟩
    intro d hd
    simpa using hafter d (List.mem_reverse.1 hd)

theorem lookup_eq_none_iff : lookup changes path = none ↔ path ∉ changes.map (·.path) := by
  unfold lookup
  simp [List.find?_eq_none]

theorem LastIn.mem (h : LastIn changes c) : c ∈ changes := by
  obtain ⟨before, after, rfl, -⟩ := h
  simp

/-- If no path is repeated, every entry counts. -/
theorem lastIn_iff_mem (hpaths : (changes.map (·.path)).Nodup) :
    LastIn changes c ↔ c ∈ changes := by
  refine ⟨LastIn.mem, ?_⟩
  intro hc
  obtain ⟨before, after, rfl⟩ := List.append_of_mem hc
  refine ⟨before, after, rfl, ?_⟩
  intro d hd heq
  rw [List.map_append, List.map_cons] at hpaths
  have hnot := (List.nodup_cons.1 (List.nodup_append.1 hpaths).2.1).1
  exact hnot (heq ▸ List.mem_map_of_mem hd)

/-- Later entries are asked first. -/
theorem lookup_append (earlier later : List LineChanges) (path : String) :
    lookup (earlier ++ later) path = (lookup later path).or (lookup earlier path) := by
  unfold lookup
  rw [List.reverse_append, List.find?_append]

/-- The entries whose paths are not among those of later ones. -/
def notIn (later earlier : List LineChanges) : List LineChanges :=
  earlier.filter fun c => c.path ∉ later.map (·.path)

theorem lookup_notIn (hpath : path ∉ later.map (·.path)) :
    lookup (notIn later earlier) path = lookup earlier path := by
  unfold lookup notIn
  rw [← List.filter_reverse, List.find?_filter]
  congr 1
  funext c
  by_cases hc : c.path = path
  · simp [hc, hpath]
  · simp [hc]

theorem lookup_notIn_of_mem (hpath : path ∈ later.map (·.path)) :
    lookup (notIn later earlier) path = none := by
  rw [lookup_eq_none_iff]
  intro hmem
  obtain ⟨c, hc, rfl⟩ := List.mem_map.1 hmem
  exact of_decide_eq_true (List.mem_filter.1 hc).2 hpath

end LineChanges

/-! ## Touched spans -/

namespace MethodSpan

variable {s : MethodSpan} {changes earlier later : List LineChanges}

/-- A span that is not empty overlaps with a range if they have a line in common. -/
theorem overlaps_iff {r : LineRange} (hs : s.startLine ≤ s.endLine) (hr : r.start ≤ r.stop) :
    s.overlaps r = true ↔ ∃ line, (s.startLine ≤ line ∧ line ≤ s.endLine) ∧ r.Has line := by
  unfold overlaps
  rw [Bool.and_eq_true, decide_eq_true_iff, decide_eq_true_iff]
  exact exists_line_iff hs hr

theorem touchedBy_iff :
    s.touchedBy changes = true ↔
      ∃ c, LineChanges.LastIn changes c ∧ c.path = s.file ∧
        ∃ r ∈ c.ranges, s.overlaps r = true := by
  unfold touchedBy
  rw [Option.any_eq_true]
  simp only [LineChanges.lookup_eq_some_iff, List.any_eq_true, and_assoc]

/-- Later entries for the file of a span leave nothing of the earlier ones. -/
theorem touchedBy_append (s : MethodSpan) (earlier later : List LineChanges) :
    s.touchedBy (earlier ++ later) =
      (s.touchedBy (LineChanges.notIn later earlier) || s.touchedBy later) := by
  unfold touchedBy
  rw [LineChanges.lookup_append]
  by_cases hfile : s.file ∈ later.map (·.path)
  · rw [LineChanges.lookup_notIn_of_mem hfile]
    cases hlater : LineChanges.lookup later s.file with
    | none => exact absurd hfile (LineChanges.lookup_eq_none_iff.1 hlater)
    | some c => simp
  · rw [LineChanges.lookup_notIn hfile, LineChanges.lookup_eq_none_iff.2 hfile]
    simp

/-- The entries that are not replaced touch a span if it lies in none of the files listed later. -/
theorem touchedBy_notIn_iff :
    s.touchedBy (LineChanges.notIn later earlier) = true ↔
      s.file ∉ later.map (·.path) ∧ s.touchedBy earlier = true := by
  unfold touchedBy
  by_cases hfile : s.file ∈ later.map (·.path)
  · rw [LineChanges.lookup_notIn_of_mem hfile]
    exact iff_of_false Bool.false_ne_true fun h => h.1 hfile
  · rw [LineChanges.lookup_notIn hfile]
    exact (and_iff_right hfile).symm

end MethodSpan

/-! ## Changed methods -/

namespace Build

variable {b : Build} {changes earlier later : List LineChanges} {m : Method}

theorem mem_changedMethods_spans :
    m ∈ b.changedMethods changes ↔ ∃ s ∈ b.spans, s.touchedBy changes = true ∧ s.method = m := by
  unfold changedMethods
  simp only [mem_sortedSet, List.mem_map, List.mem_filter, and_assoc]

/-- One change after another touches what the second touches, and what the first touches in files
that the second does not list. -/
theorem changedMethods_append (b : Build) (earlier later : List LineChanges) :
    b.changedMethods (earlier ++ later) =
      sortedSet (b.changedMethods (LineChanges.notIn later earlier) ++ b.changedMethods later) := by
  refine sortedSet_congr fun m => ?_
  simp only [List.mem_append, mem_changedMethods_spans, List.mem_map, List.mem_filter,
    MethodSpan.touchedBy_append, Bool.or_eq_true]
  constructor
  · rintro ⟨s, ⟨hs, hfirst | hsecond⟩, hm⟩
    · exact .inl ⟨s, hs, hfirst, hm⟩
    · exact .inr ⟨s, hs, hsecond, hm⟩
  · rintro (⟨s, hs, hfirst, hm⟩ | ⟨s, hs, hsecond, hm⟩)
    · exact ⟨s, ⟨hs, .inl hfirst⟩, hm⟩
    · exact ⟨s, ⟨hs, .inr hsecond⟩, hm⟩

theorem mem_changedMethods_append :
    m ∈ b.changedMethods (earlier ++ later) ↔ m ∈ b.changedMethods later ∨
      ∃ s ∈ b.spans, s.method = m ∧ s.file ∉ later.map (·.path) ∧ s.touchedBy earlier = true := by
  rw [changedMethods_append, mem_sortedSet, List.mem_append, or_comm]
  refine or_congr_right ?_
  rw [mem_changedMethods_spans]
  simp only [MethodSpan.touchedBy_notIn_iff, and_comm]

/-- What two changes touch, one after the other, one of them touches. -/
theorem changedMethods_append_subset (hm : m ∈ b.changedMethods (earlier ++ later)) :
    m ∈ b.changedMethods earlier ∨ m ∈ b.changedMethods later := by
  rcases mem_changedMethods_append.1 hm with hlater | ⟨s, hs, hmethod, -, htouched⟩
  · exact .inr hlater
  · exact .inl (mem_changedMethods_spans.2 ⟨s, hs, htouched, hmethod⟩)

/-- How the entries of a change are read: of several for one file the last one counts. -/
structure LastEntriesCount (b : Build) : Prop where
  /-- A method is touched if one of its spans overlaps with a range of the last entry of its file.
  -/
  touched : ∀ changes m, m ∈ b.changedMethods changes ↔
    ∃ s ∈ b.spans, s.method = m ∧ ∃ c, LineChanges.LastIn changes c ∧ c.path = s.file ∧
      ∃ r ∈ c.ranges, s.overlaps r = true
  /-- Where no file is listed twice, every entry counts. -/
  distinct : ∀ changes, (changes.map (·.path)).Nodup → ∀ m, m ∈ b.changedMethods changes ↔
    ∃ s ∈ b.spans, s.method = m ∧ ∃ c ∈ changes, c.path = s.file ∧
      ∃ r ∈ c.ranges, s.overlaps r = true
  /-- Of two changes, the second replaces the first in the files that it lists. -/
  append : ∀ earlier later, b.changedMethods (earlier ++ later) =
    sortedSet (b.changedMethods (LineChanges.notIn later earlier) ++ b.changedMethods later)
  /-- Two changes add up if every method that the first touches is touched by the second or in a
  file that the second does not list. -/
  sum : ∀ earlier later, b.changedMethods (earlier ++ later) =
      sortedSet (b.changedMethods earlier ++ b.changedMethods later) ↔
    ∀ m ∈ b.changedMethods earlier, m ∈ b.changedMethods later ∨
      ∃ s ∈ b.spans, s.method = m ∧ s.file ∉ later.map (·.path) ∧ s.touchedBy earlier = true
  /-- Nothing is touched by two changes that neither of them touches. -/
  within : ∀ earlier later, ∀ m ∈ b.changedMethods (earlier ++ later),
    m ∈ b.changedMethods earlier ∨ m ∈ b.changedMethods later
  /-- Changes of different files add up. -/
  union : ∀ earlier later, (∀ c ∈ earlier, c.path ∉ later.map (·.path)) →
    b.changedMethods (earlier ++ later) =
      sortedSet (b.changedMethods earlier ++ b.changedMethods later)

/-- The last entry of each file counts, for every build and every list of changes. -/
theorem last_entries_count (b : Build) : LastEntriesCount b where
  touched := by
    intro changes m
    rw [mem_changedMethods_spans]
    simp only [MethodSpan.touchedBy_iff, and_comm]
  distinct := by
    intro changes hpaths m
    rw [mem_changedMethods_spans]
    simp only [MethodSpan.touchedBy_iff, LineChanges.lastIn_iff_mem hpaths, and_comm]
  append := changedMethods_append b
  sum := by
    intro earlier later
    constructor
    · intro hsum m hm
      rw [← mem_changedMethods_append, hsum, mem_sortedSet, List.mem_append]
      exact .inl hm
    · intro hkept
      have hmem : ∀ m, m ∈ b.changedMethods (LineChanges.notIn later earlier) ++
          b.changedMethods later ↔ m ∈ b.changedMethods (earlier ++ later) := by
        intro m
        rw [changedMethods_append, mem_sortedSet]
      rw [changedMethods_append]
      refine sortedSet_congr fun m => ?_
      rw [hmem, List.mem_append]
      refine ⟨changedMethods_append_subset, ?_⟩
      rintro (hearlier | hlater)
      · exact mem_changedMethods_append.2 (hkept m hearlier)
      · exact mem_changedMethods_append.2 (.inl hlater)
  within := fun _ _ _ => changedMethods_append_subset
  union := by
    intro earlier later hdisjoint
    have hall : LineChanges.notIn later earlier = earlier := by
      rw [LineChanges.notIn, List.filter_eq_self]
      intro c hc
      exact decide_eq_true (hdisjoint c hc)
    rw [changedMethods_append, hall]

/-- Two methods of one file. -/
def gate : SourceUnit :=
  .ofFiles [⟨"Gate.java", [⟨"Gate", "open", 1, 2, .method, [], []⟩,
    ⟨"Gate", "close", 4, 5, .method, [], []⟩], 0⟩]

/-- Two changes of one file touch a method each. If they come one after the other, only the method
of the second is touched. -/
theorem repeated_path_loses_lines :
    gate.build.changedMethods ([⟨"Gate.java", [.ofHunk 1 1]⟩] ++ [⟨"Gate.java", [.ofHunk 4 1]⟩]) =
        [⟨"Gate", "close"⟩] ∧
      sortedSet (gate.build.changedMethods [⟨"Gate.java", [.ofHunk 1 1]⟩] ++
          gate.build.changedMethods [⟨"Gate.java", [.ofHunk 4 1]⟩]) =
        [⟨"Gate", "close"⟩, ⟨"Gate", "open"⟩] := by
  decide +kernel

end Build

end ChangeImpact
