import ChangeImpact.FileTree
import ChangeImpact.Proofs.AscendingLists
import Mathlib.Data.List.Basic
import Mathlib.Data.List.TakeWhile

/-!
# Steps on a tree of files

What each step on a tree needs to succeed, and what is at every path afterwards.

* `FileTree.bytesAt` — the bytes of the file at a path; `FileTree.Open` — no file is in the way to
  it; `FilePath.Fits` — no name in it is too long;
* `get?_makeDirs`, `bytesAt_makeDirs` — making directories changes no file, and neither does an
  attempt that fails: `makeHalfway_cases`, `bytesAt_makeHalfway`;
* `write_ok`, `move_ok` — when a file can be written or moved; `eq_of_write`, `eq_of_move`,
  `eq_of_remove` — what has changed then;
* `mem_names`, `get?_removeAll` — listing a directory, and removing one.
-/

namespace ChangeImpact

/-- No name of the path is too long. -/
def FilePath.Fits (p : FilePath) : Prop := ∀ name ∈ p, nameFits name

theorem FilePath.fits_append {p q : FilePath} : FilePath.Fits (p ++ q) ↔ p.Fits ∧ q.Fits :=
  List.forall_mem_append

theorem FilePath.not_prefix_of_length_lt {p q : FilePath} (h : p.length < q.length) : ¬q <+: p := by
  intro hin
  have hle := hin.length_le
  omega

theorem FilePath.not_child_prefix (p : FilePath) (name : String) : ¬p ++ [name] <+: p :=
  not_prefix_of_length_lt (by simp)

namespace FileTree

variable {t t' : FileTree} {p q : FilePath} {bytes : ByteArray}

/-! ## What is at a path -/

theorem lookup_others_self (p : FilePath) (nodes : List (FilePath × FileNode)) :
    (nodes.filter (·.1 ≠ p)).lookup p = none := by
  rw [List.lookup_eq_none_iff]
  intro entry hentry
  have hne : entry.1 ≠ p := by simpa using (List.mem_filter.1 hentry).2
  simpa using hne.symm

theorem lookup_others_ne (hq : q ≠ p) (nodes : List (FilePath × FileNode)) :
    (nodes.filter (·.1 ≠ p)).lookup q = nodes.lookup q := by
  induction nodes with
  | nil => rfl
  | cons entry nodes ih =>
    obtain ⟨r, node⟩ := entry
    by_cases hr : r = p
    · have hqr : (q == r) = false := by simpa [hr] using hq
      rw [List.filter_cons_of_neg (by simpa using hr), List.lookup_cons, hqr, ih]
    · rw [List.filter_cons_of_pos (by simpa using hr), List.lookup_cons, List.lookup_cons, ih]

/-- Other paths keep what they hold. -/
theorem get?_set_ne (hq : q ≠ p) (node : Option FileNode) :
    (t.set p node).get? q = t.get? q := by
  have hothers := lookup_others_ne hq t.nodes
  have hqp : (q == p) = false := by simpa using hq
  cases node with
  | none => simp only [get?, set, hothers]
  | some node =>
    simp only [get?, set, List.lookup_append, hothers, List.lookup_cons, hqp, List.lookup_nil,
      Option.or_none]

/-- A path holds what was put there. -/
theorem get?_set_self (hp : p ≠ []) (node : Option FileNode) : (t.set p node).get? p = node := by
  have hothers := lookup_others_self p t.nodes
  cases node with
  | none => simp only [get?, set, hothers, if_neg hp]
  | some node =>
    simp only [get?, set, List.lookup_append, hothers, if_neg hp, Option.none_or,
      List.lookup_cons_self]

/-- The bytes of the file at a path. -/
def bytesAt (t : FileTree) (p : FilePath) : Option ByteArray :=
  (t.get? p).bind (·.bytes?)

theorem bytesAt_eq_some_iff : t.bytesAt p = some bytes ↔ t.get? p = some (.file bytes) := by
  unfold bytesAt
  cases hget : t.get? p with
  | none => simp
  | some node => cases node <;> simp [FileNode.bytes?]

theorem bytesAt_eq_none_iff :
    t.bytesAt p = none ↔ t.get? p = none ∨ t.get? p = some .directory := by
  unfold bytesAt
  cases hget : t.get? p with
  | none => simp
  | some node => cases node <;> simp [FileNode.bytes?]

theorem bytesAt_congr (h : t'.get? p = t.get? p) : t'.bytesAt p = t.bytesAt p := by
  rw [bytesAt, h, bytesAt]

theorem isFile_eq_false_iff : t.isFile p = false ↔ t.bytesAt p = none := by
  unfold isFile bytesAt
  cases hget : t.get? p with
  | none => simp
  | some node => cases node <;> simp [FileNode.bytes?]

theorem isDirectory_iff : t.isDirectory p = true ↔ t.get? p = some .directory := by
  unfold isDirectory
  cases hget : t.get? p with
  | none => simp
  | some node => cases node <;> simp

theorem mem_ancestors : q ∈ ancestors p ↔ q <+: p ∧ q ≠ p := by
  induction p generalizing q with
  | nil =>
    simp only [ancestors, List.not_mem_nil, List.prefix_nil, false_iff, not_and, not_not]
    exact id
  | cons name p ih =>
    rw [ancestors, List.mem_cons, List.mem_map]
    cases q with
    | nil => simp
    | cons first q =>
      constructor
      · rintro (hnil | ⟨inner, hinner, heq⟩)
        · cases hnil
        · obtain ⟨rfl, rfl⟩ := List.cons.inj heq
          obtain ⟨hfront, hne⟩ := ih.1 hinner
          exact ⟨List.cons_prefix_cons.2 ⟨rfl, hfront⟩, by simpa using hne⟩
      · rintro ⟨hfront, hne⟩
        obtain ⟨rfl, hinner⟩ := List.cons_prefix_cons.1 hfront
        exact .inr ⟨q, ih.2 ⟨hinner, by simpa using hne⟩, rfl⟩

theorem mem_ancestors_concat : q ∈ ancestors p ++ [p] ↔ q <+: p := by
  rw [List.mem_append, mem_ancestors, List.mem_singleton]
  constructor
  · rintro (⟨hq, -⟩ | rfl)
    · exact hq
    · exact List.prefix_refl _
  · intro hq
    by_cases heq : q = p
    · exact .inr heq
    · exact .inl ⟨hq, heq⟩

/-- No file stands where the path needs a directory. -/
def Open (t : FileTree) (p : FilePath) : Prop :=
  ∀ q, q <+: p → q ≠ p → t.bytesAt q = none

theorem blocked_eq_false_iff : t.blocked p = false ↔ t.Open p := by
  rw [blocked, List.any_eq_false, Open]
  simp only [mem_ancestors, Bool.not_eq_true, isFile_eq_false_iff, and_imp]

/-- The way is open into a directory that is no file. -/
theorem Open.child (h : t.Open p) (hp : t.bytesAt p = none) (name : String) :
    t.Open (p ++ [name]) := by
  intro q hq hne
  rcases List.prefix_concat_iff.1 hq with heq | hq
  · exact absurd heq hne
  · by_cases heq : q = p
    · rw [heq]
      exact hp
    · exact h q hq heq

theorem blocked_congr (h : ∀ q, q <+: p → q ≠ p → t'.bytesAt q = t.bytesAt q) :
    t'.blocked p = t.blocked p := by
  rw [Bool.eq_iff_iff, ← Bool.not_eq_false, ← Bool.not_eq_false, not_iff_not,
    blocked_eq_false_iff, blocked_eq_false_iff]
  refine forall_congr' fun q => forall_congr' fun hq => forall_congr' fun hne => ?_
  rw [h q hq hne]

/-- A read depends on the file at its path and on what stands in the way to it. -/
theorem read_congr (hway : ∀ q, q <+: p → q ≠ p → t'.bytesAt q = t.bytesAt q)
    (hget : t'.get? p = t.get? p) : t'.read p = t.read p := by
  unfold read
  rw [blocked_congr hway, hget]

theorem read_ok_iff : t.read p = .ok bytes ↔ t.Open p ∧ t.get? p = some (.file bytes) := by
  rw [← blocked_eq_false_iff]
  unfold read
  cases hblocked : t.blocked p with
  | true => simp
  | false =>
    cases hget : t.get? p with
    | none => simp
    | some node => cases node <;> simp

/-! ## Directories -/

theorem get?_setDirectories (paths : List FilePath) (t : FileTree) (q : FilePath) :
    (paths.foldl (fun t q => t.set q (some .directory)) t).get? q =
      if q ∈ paths then some .directory else t.get? q := by
  induction paths generalizing t with
  | nil => simp
  | cons r paths ih =>
    rw [List.foldl_cons, ih]
    by_cases hlater : q ∈ paths
    · simp [hlater]
    · by_cases hq : q = r
      · subst hq
        by_cases hroot : q = []
        · simp [hroot, get?]
        · simp [get?_set_self hroot]
      · simp [hlater, hq, get?_set_ne hq]

/-- Making a directory succeeds exactly if no file is at its path or above, and its names fit. -/
theorem makeDirs_ok_iff :
    (∃ t', t.makeDirs p = .ok t') ↔ t.Open p ∧ t.bytesAt p = none ∧ p.Fits := by
  have hfits : p.Fits ↔ p.all nameFits = true := List.all_eq_true.symm
  rw [← blocked_eq_false_iff, ← isFile_eq_false_iff, hfits]
  unfold makeDirs
  cases t.blocked p <;> cases t.isFile p <;> cases p.all nameFits <;> simp

/-- All directories down to the path are there, and nothing else has changed. -/
theorem get?_makeDirs (h : t.makeDirs p = .ok t') (q : FilePath) :
    t'.get? q = if q <+: p then some .directory else t.get? q := by
  obtain ⟨hopen, hself, hfits⟩ := makeDirs_ok_iff.1 ⟨t', h⟩
  have hfree : ∀ q, q <+: p → t.bytesAt q = none := by
    intro q hq
    by_cases heq : q = p
    · rw [heq]
      exact hself
    · exact hopen q hq heq
  unfold makeDirs at h
  rw [blocked_eq_false_iff.2 hopen, isFile_eq_false_iff.2 hself, List.all_eq_true.2 hfits] at h
  simp only [Bool.false_eq_true, Bool.not_true, if_false, Except.ok.injEq] at h
  subst h
  rw [get?_setDirectories]
  have hmissing : q ∈ (ancestors p ++ [p]).filter (fun q => (t.get? q).isNone) ↔
      q <+: p ∧ t.get? q = none := by
    rw [List.mem_filter, mem_ancestors_concat, Option.isNone_iff_eq_none]
  by_cases hq : q <+: p
  · rw [if_pos hq]
    by_cases hnone : t.get? q = none
    · rw [if_pos (hmissing.2 ⟨hq, hnone⟩)]
    · rw [if_neg fun hmem => hnone (hmissing.1 hmem).2]
      -- what is there is no file
      exact (bytesAt_eq_none_iff.1 (hfree q hq)).resolve_left hnone
  · rw [if_neg hq, if_neg fun hmem => hq (hmissing.1 hmem).1]

/-- Making directories changes no file. -/
theorem bytesAt_makeDirs (h : t.makeDirs p = .ok t') (q : FilePath) :
    t'.bytesAt q = t.bytesAt q := by
  obtain ⟨hopen, hself, -⟩ := makeDirs_ok_iff.1 ⟨t', h⟩
  have hget := get?_makeDirs h q
  by_cases hq : q <+: p
  · rw [if_pos hq] at hget
    have hfree : t.bytesAt q = none := by
      by_cases heq : q = p
      · rw [heq]
        exact hself
      · exact hopen q hq heq
    rw [hfree, bytesAt, hget]
    rfl
  · rw [if_neg hq] at hget
    exact bytesAt_congr hget

/-- An attempt that fails leaves the tree as it was, or makes a directory above. -/
theorem makeHalfway_cases (t : FileTree) (p : FilePath) :
    t.makeHalfway p = t ∨ ∃ q, q <+: p ∧ t.makeDirs q = .ok (t.makeHalfway p) := by
  unfold makeHalfway
  cases hmade : t.makeDirs (p.takeWhile nameFits) with
  | error e => exact .inl rfl
  | ok made => exact .inr ⟨_, List.takeWhile_prefix _, hmade⟩

/-- Only a name that is too long lets an attempt that fails make anything. -/
theorem makeHalfway_of_fits {e : FileError} (hfits : p.Fits) (h : t.makeDirs p = .error e) :
    t.makeHalfway p = t := by
  rw [makeHalfway, List.takeWhile_eq_self_iff.2 hfits, h]

theorem bytesAt_makeHalfway (t : FileTree) (p q : FilePath) :
    (t.makeHalfway p).bytesAt q = t.bytesAt q := by
  rcases makeHalfway_cases t p with hsame | ⟨r, -, hmade⟩
  · rw [hsame]
  · exact bytesAt_makeDirs hmade q

/-! ## Files -/

theorem bytesAt_set_ne {node : Option FileNode} (hq : q ≠ p) :
    (t.set p node).bytesAt q = t.bytesAt q :=
  bytesAt_congr (get?_set_ne hq node)

theorem bytesAt_set_file (hp : p ≠ []) : (t.set p (some (.file bytes))).bytesAt p = some bytes := by
  rw [bytesAt_eq_some_iff, get?_set_self hp]

theorem bytesAt_set_none (hp : p ≠ []) : (t.set p none).bytesAt p = none := by
  rw [bytesAt, get?_set_self hp]
  rfl

theorem write_ok (hopen : t.Open p) (hp : t.get? p ≠ some .directory)
    (hparent : t.get? p.dropLast = some .directory) :
    t.write p bytes = .ok (t.set p (some (.file bytes))) := by
  have hnot : t.isDirectory p = false := by
    rw [Bool.eq_false_iff]
    exact fun hdirectory => hp (isDirectory_iff.1 hdirectory)
  unfold write
  rw [blocked_eq_false_iff.2 hopen, hnot, isDirectory_iff.2 hparent]
  rfl

theorem eq_of_write (h : t.write p bytes = .ok t') : t' = t.set p (some (.file bytes)) := by
  unfold write at h
  repeat' split at h
  all_goals cases h
  rfl

theorem move_ok {target : FilePath} (hread : t.read p = .ok bytes) (hopen : t.Open target)
    (htarget : t.get? target ≠ some .directory)
    (hparent : t.get? target.dropLast = some .directory) :
    t.move p target = .ok ((t.set p none).set target (some (.file bytes))) := by
  have hnot : t.isDirectory target = false := by
    rw [Bool.eq_false_iff]
    exact fun hdirectory => htarget (isDirectory_iff.1 hdirectory)
  simp only [move, hread, bind, Except.bind, blocked_eq_false_iff.2 hopen, hnot,
    isDirectory_iff.2 hparent]
  rfl

theorem eq_of_move {target : FilePath} (h : t.move p target = .ok t') :
    ∃ bytes, t.bytesAt p = some bytes ∧ t' = (t.set p none).set target (some (.file bytes)) := by
  cases hread : t.read p with
  | error e => simp [move, hread, bind, Except.bind] at h
  | ok moved =>
    simp only [move, hread, bind, Except.bind] at h
    repeat' split at h
    all_goals cases h
    exact ⟨moved, bytesAt_eq_some_iff.2 (read_ok_iff.1 hread).2, rfl⟩

theorem eq_of_remove (h : t.remove p = .ok t') : t' = t.set p none := by
  cases hread : t.read p with
  | error e => simp [remove, hread, bind, Except.bind] at h
  | ok _ =>
    simp only [remove, hread, bind, Except.bind] at h
    cases h
    rfl

/-! ## Listing and removing directories -/

theorem get?_eq_none_iff (hp : p ≠ []) : t.get? p = none ↔ ∀ node, (p, node) ∉ t.nodes := by
  rw [get?, if_neg hp, List.lookup_eq_none_iff]
  constructor
  · intro hall node hmem
    simpa using hall (p, node) hmem
  · rintro hall ⟨r, node⟩ hmem
    have hne : p ≠ r := by
      rintro rfl
      exact hall node hmem
    simpa using hne

/-- The names in a directory are those of what is below it. -/
theorem mem_names {names : List String} {name : String} (h : t.names p = .ok names) :
    name ∈ names ↔ t.get? (p ++ [name]) ≠ none := by
  unfold FileTree.names at h
  repeat' split at h
  all_goals cases h
  rw [mem_sortedSet, List.mem_filterMap, Ne, get?_eq_none_iff (by simp)]
  push Not
  constructor
  · rintro ⟨⟨r, node⟩, hmem, hname⟩
    dsimp only at hname
    split at hname
    · next hbelow =>
      simp only [Bool.and_eq_true, decide_eq_true_eq, List.isPrefixOf_iff_prefix] at hbelow
      obtain ⟨hlength, rest, rfl⟩ := hbelow
      have hrest : rest = [name] := by
        rw [List.length_append] at hlength
        match rest, hlength with
        | [last], _ => simpa using hname
        | [], hlength => simp at hlength
        | _ :: _ :: _, hlength => simp at hlength
      exact ⟨node, hrest ▸ hmem⟩
    · cases hname
  · rintro ⟨node, hmem⟩
    exact ⟨(p ++ [name], node), hmem, by simp⟩

theorem ascending_names {names : List String} (h : t.names p = .ok names) : Ascending names := by
  unfold FileTree.names at h
  repeat' split at h
  all_goals cases h
  exact ascending_sortedSet _

theorem names_ok (hopen : t.Open p) (hp : t.get? p = some .directory) :
    ∃ names, t.names p = .ok names := by
  have hfile : t.isFile p = false := by simp [isFile, hp]
  simp [FileTree.names, blocked_eq_false_iff.2 hopen, hfile, hp]

theorem names_missing (hopen : t.Open p) (hp : t.get? p = none) :
    t.names p = .error .notFound := by
  have hfile : t.isFile p = false := by simp [isFile, hp]
  simp [FileTree.names, blocked_eq_false_iff.2 hopen, hfile, hp]

/-- Nothing is left at a path that is removed or below it. -/
theorem get?_removeAll (hp : p ≠ []) (q : FilePath) :
    (t.removeAll p).get? q = if p <+: q then none else t.get? q := by
  by_cases hroot : q = []
  · subst hroot
    have hnot : ¬p <+: [] := by simpa using hp
    simp [get?, hnot]
  by_cases hq : p <+: q
  · rw [if_pos hq, get?_eq_none_iff hroot]
    intro node hmem
    have hkept : (!p.isPrefixOf q) = true := (List.mem_filter.1 hmem).2
    rw [List.isPrefixOf_iff_prefix.2 hq] at hkept
    cases hkept
  · rw [if_neg hq, get?, get?, if_neg hroot, if_neg hroot, removeAll]
    induction t.nodes with
    | nil => rfl
    | cons entry nodes ih =>
      obtain ⟨r, node⟩ := entry
      cases hr : p.isPrefixOf r with
      | true =>
        have hne : (q == r) = false := by
          have hqr : q ≠ r := by
            rintro rfl
            exact hq (List.isPrefixOf_iff_prefix.1 hr)
          simpa using hqr
        rw [List.filter_cons_of_neg (by simp [hr]), List.lookup_cons, hne, ih]
      | false =>
        rw [List.filter_cons_of_pos (by simp [hr]), List.lookup_cons, List.lookup_cons, ih]

end FileTree

end ChangeImpact
