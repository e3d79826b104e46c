import ChangeImpact.CommitCache
import ChangeImpact.Proofs.TreeSteps

/-!
# The files of a cache

Everything that a cache writes lies below its directory, and a document gets there in one piece:
whatever holds of all files below the directory, and of the document that is stored, holds of all
files after any step of a store.

* `FileTree.FilesBelow` — all files below a directory satisfy a property;
* `ofText_joinPath` — the names of a joined path;
* `CommitCache.filesBelow_storeStep` — a step of a store keeps such a property.
-/

namespace ChangeImpact

/-! ## Paths -/

theorem splitSlashes_append (a b : List Char) :
    splitSlashes (a ++ '/' :: b) = splitSlashes a ++ splitSlashes b := by
  induction a with
  | nil => simp [splitSlashes]
  | cons c a ih =>
    rw [List.cons_append, splitSlashes, splitSlashes, ih]
    by_cases hc : c = '/'
    · rw [if_pos hc, if_pos hc, List.cons_append]
    · rw [if_neg hc, if_neg hc]
      cases hparts : splitSlashes a with
      | nil =>
        -- there is always a part
        unfold splitSlashes at hparts
        split at hparts
        · simp at hparts
        · split at hparts
          · simp at hparts
          · split at hparts <;> simp at hparts
      | cons part parts => rfl

/-- A slash divides the names of a path. -/
theorem ofText_append (a b : List Char) :
    FilePath.ofText (.ofList (a ++ '/' :: b)) =
      FilePath.ofText (.ofList a) ++ FilePath.ofText (.ofList b) := by
  simp only [FilePath.ofText, String.toList_ofList, splitSlashes_append, List.map_append,
    List.filter_append]

/-- The names of a joined path are those of its parts. -/
theorem ofText_joinPath (base text : String) :
    FilePath.ofText (joinPath base text) = FilePath.ofText base ++ FilePath.ofText text := by
  unfold joinPath
  split
  · -- nothing stands before the text
    rename_i hlast
    have hnil : base.toList = [] := List.getLast?_eq_none_iff.1 hlast
    have hbase : FilePath.ofText base = [] := by simp [FilePath.ofText, hnil, splitSlashes]
    rw [hbase, List.nil_append]
  · -- the base ends in a slash
    rename_i hlast
    obtain ⟨front, hfront⟩ := List.getLast?_eq_some_iff.1 hlast
    have hbase : base = .ofList (front ++ '/' :: []) := by rw [← hfront, String.ofList_toList]
    have hjoined : base ++ text = .ofList (front ++ '/' :: text.toList) := by
      rw [hbase, ← String.toList_inj]
      simp
    have hempty : FilePath.ofText (.ofList []) = [] := by decide
    rw [hjoined, hbase, ofText_append, ofText_append, String.ofList_toList, hempty, List.append_nil]
  · have hjoined : base ++ "/" ++ text = .ofList (base.toList ++ '/' :: text.toList) := by
      rw [← String.toList_inj]
      simp
    rw [hjoined, ofText_append, String.ofList_toList, String.ofList_toList]

/-- A text that is the name of one file. -/
def IsFileName (name : String) : Prop :=
  name ≠ "" ∧ name ≠ "." ∧ '/' ∉ name.toList

theorem splitSlashes_of_not_mem {cs : List Char} (h : '/' ∉ cs) : splitSlashes cs = [cs] := by
  induction cs with
  | nil => rfl
  | cons c cs ih =>
    have hc : c ≠ '/' := fun hc => h (by simp [hc])
    rw [splitSlashes, if_neg hc, ih fun hcs => h (List.mem_cons_of_mem _ hcs)]

theorem IsFileName.ofText {name : String} (h : IsFileName name) :
    FilePath.ofText name = [name] := by
  obtain ⟨hempty, hdot, hslash⟩ := h
  simp [FilePath.ofText, splitSlashes_of_not_mem hslash, hempty, hdot]

/-! ## Files below a directory -/

namespace FileTree

/-- All files below a directory satisfy a property. -/
def FilesBelow (root : FilePath) (P : ByteArray → Prop) (t : FileTree) : Prop :=
  ∀ p bytes, root <+: p → t.get? p = some (.file bytes) → P bytes

variable {root p : FilePath} {P : ByteArray → Prop} {t t' : FileTree} {bytes : ByteArray}

/-- A file was there before, or it has just been put there. -/
theorem get?_set_file {q : FilePath} {node : Option FileNode}
    (h : (t.set p node).get? q = some (.file bytes)) :
    node = some (.file bytes) ∨ t.get? q = some (.file bytes) := by
  by_cases hq : q = p
  · subst hq
    have hne : q ≠ [] := by
      rintro rfl
      simp [get?] at h
    exact .inl (by rw [← h, get?_set_self hne])
  · exact .inr (by rw [← h, get?_set_ne hq])

theorem FilesBelow.set {node : Option FileNode} (h : t.FilesBelow root P)
    (hnode : ∀ bytes, node = some (.file bytes) → P bytes) : (t.set p node).FilesBelow root P := by
  intro q bytes hq hget
  rcases get?_set_file hget with hnew | hold
  · exact hnode bytes hnew
  · exact h q bytes hq hold

/-- Directories are no files. -/
theorem FilesBelow.makeDirs (h : t.FilesBelow root P) (hmake : t.makeDirs p = .ok t') :
    t'.FilesBelow root P := by
  intro q bytes hq hget
  refine h q bytes hq ?_
  rw [← bytesAt_eq_some_iff, ← bytesAt_makeDirs hmake, bytesAt_eq_some_iff]
  exact hget

theorem FilesBelow.makeHalfway (h : t.FilesBelow root P) (p : FilePath) :
    (t.makeHalfway p).FilesBelow root P := by
  rcases makeHalfway_cases t p with hsame | ⟨q, -, hmade⟩
  · rw [hsame]
    exact h
  · exact h.makeDirs hmade

theorem FilesBelow.write (h : t.FilesBelow root P) (hbytes : P bytes)
    (hwrite : t.write p bytes = .ok t') : t'.FilesBelow root P := by
  rw [eq_of_write hwrite]
  exact h.set (by simpa using hbytes)

/-- A file that is moved was below the directory before. -/
theorem FilesBelow.move {target : FilePath} (h : t.FilesBelow root P) (hp : root <+: p)
    (hmove : t.move p target = .ok t') : t'.FilesBelow root P := by
  obtain ⟨moved, hread, rfl⟩ := eq_of_move hmove
  have hmoved : P moved := h p moved hp (bytesAt_eq_some_iff.1 hread)
  exact (h.set (by simp)).set (by simpa using hmoved)

theorem FilesBelow.remove (h : t.FilesBelow root P) (hremove : t.remove p = .ok t') :
    t'.FilesBelow root P := by
  rw [eq_of_remove hremove]
  exact h.set (by simp)

end FileTree

/-! ## Stores -/

namespace CommitCache

variable {c : CommitCache} {commit : String} {P : ByteArray → Prop} {t : FileTree}
  {bytes : ByteArray}

theorem ofText_slotPath (c : CommitCache) (commit : String) :
    FilePath.ofText (c.slotPath commit) = .ofText c.root ++ .ofText (slotName commit) :=
  ofText_joinPath c.root (slotName commit)

theorem ofText_entryPath (c : CommitCache) (commit : String) :
    FilePath.ofText (c.entryPath commit) =
      .ofText c.root ++ .ofText (slotName commit) ++ .ofText entryName := by
  rw [entryPath, ofText_joinPath, ofText_slotPath]

/-- The name of the file that a document is written to first. -/
def draftName (c : CommitCache) : String :=
  "." ++ entryName ++ "." ++ toString c.process ++ ".tmp"

theorem ofText_draftPath (c : CommitCache) (commit : String) :
    FilePath.ofText (c.draftPath commit) =
      .ofText c.root ++ .ofText (slotName commit) ++ .ofText c.draftName := by
  rw [draftPath, ofText_joinPath, ofText_slotPath]
  rfl

theorem isFileName_entryName : IsFileName entryName := by
  unfold IsFileName
  decide

theorem fits_entry_iff {dir : FilePath} : FilePath.Fits (dir ++ [entryName]) ↔ dir.Fits := by
  have hname : FilePath.Fits [entryName] := List.forall_mem_singleton.2 (by decide)
  rw [FilePath.fits_append, and_iff_left hname]

theorem isFileName_draftName (c : CommitCache) : IsFileName c.draftName := by
  have hchars : c.draftName.toList =
      ".impact.json.".toList ++ (Nat.toDigits 10 c.process ++ ".tmp".toList) := by
    simp [draftName, entryName]
  have hlong : 2 ≤ c.draftName.toList.length := by
    rw [hchars]
    simp
  refine ⟨?_, ?_, ?_⟩
  · intro hempty
    simp [hempty] at hlong
  · intro hdot
    simp [hdot] at hlong
  · rw [hchars, List.mem_append, List.mem_append]
    rintro (hfront | hdigit | hback)
    · exact absurd hfront (by decide)
    · exact absurd (Nat.isDigit_of_mem_toDigits (by decide) (by decide) hdigit) (by decide)
    · exact absurd hback (by decide)

theorem below_entryPath (c : CommitCache) (commit : String) :
    FilePath.ofText c.root <+: FilePath.ofText (c.entryPath commit) := by
  rw [ofText_entryPath, List.append_assoc]
  exact List.prefix_append _ _

theorem below_draftPath (c : CommitCache) (commit : String) :
    FilePath.ofText c.root <+: FilePath.ofText (c.draftPath commit) := by
  rw [ofText_draftPath, List.append_assoc]
  exact List.prefix_append _ _

/-- Every step of a store keeps what holds of all files and of the new document. -/
theorem filesBelow_storeStep {stage : StoreStage} (h : t.FilesBelow (.ofText c.root) P)
    (hbytes : P bytes) :
    (c.storeStep commit bytes t stage).1.FilesBelow (.ofText c.root) P := by
  unfold storeStep
  split
  · split
    · rename_i hmake
      exact h.makeDirs hmake
    · exact h.makeHalfway _
  · split
    · rename_i hwrite
      exact h.write hbytes hwrite
    · exact h
  · split
    · rename_i hmove
      exact h.move (c.below_draftPath commit) hmove
    · exact h
  · split
    · rename_i hremove
      exact h.remove hremove
    · exact h

/-- A cache is opened by making its directory. -/
theorem open_ok {root : String} {fingerprint : UInt64} {process : Nat} {t' : FileTree}
    (h : CommitCache.open root fingerprint process t = .ok (c, t')) :
    t.makeDirs (.ofText root) = .ok t' ∧ c = ⟨root, fingerprint, process⟩ := by
  cases hmake : t.makeDirs (.ofText root) with
  | error e => simp [CommitCache.open, hmake, fault, bind, Except.bind] at h
  | ok made =>
    simp only [CommitCache.open, hmake, fault, bind, Except.bind, pure, Except.pure,
      Except.ok.injEq, Prod.mk.injEq] at h
    obtain ⟨rfl, rfl⟩ := h
    exact ⟨rfl, rfl⟩

theorem makeDirs_of_open_error {root : String} {fingerprint : UInt64} {process : Nat}
    {failure : StorageError} (h : CommitCache.open root fingerprint process t = .error failure) :
    ∃ e, t.makeDirs (.ofText root) = .error e := by
  cases hmake : t.makeDirs (.ofText root) with
  | error e => exact ⟨e, rfl⟩
  | ok made =>
    simp [CommitCache.open, hmake, fault, bind, Except.bind, pure, Except.pure] at h

end CommitCache

end ChangeImpact
