import ChangeImpact.Proofs.CacheDocument
import ChangeImpact.Proofs.CacheFiles

/-!
# Steps of a store, and loads

What one step of a store does to the files of a cache, and what a load sees of them. Only two files
of a slot ever change: its entry, which a store only replaces by what its draft holds, and the
draft.

* `CommitCache.slotDir` — the directory of a commit's slot;
* `CommitCache.StoreMove` — the steps of a store; `CommitCache.storeMove_storeStep`;
* `StoreMove.bytesAt_entry`, `StoreMove.bytesAt_draft` — what becomes of the two files;
* `CommitCache.storeFrom_unblocked` — a store with nothing in its way succeeds;
* `CommitCache.load_ok_iff`, `CommitCache.load_some_iff` — what a load needs, and what it returns.
-/

namespace ChangeImpact.CommitCache

variable {α : Type} {c : CommitCache} {commit : String} {bytes : ByteArray} {t t' : FileTree}

/-! ## Paths -/

/-- The directory of a commit's slot. -/
def slotDir (c : CommitCache) (commit : String) : FilePath := .ofText (c.slotPath commit)

theorem entryPath_eq (c : CommitCache) (commit : String) :
    FilePath.ofText (c.entryPath commit) = c.slotDir commit ++ [entryName] := by
  rw [entryPath, ofText_joinPath, isFileName_entryName.ofText, slotDir]

theorem draftPath_eq (c : CommitCache) (commit : String) :
    FilePath.ofText (c.draftPath commit) = c.slotDir commit ++ [c.draftName] := by
  rw [ofText_draftPath, (isFileName_draftName c).ofText, slotDir, ofText_slotPath]

theorem slotDir_eq (hslot : IsFileName (slotName commit)) :
    c.slotDir commit = .ofText c.root ++ [slotName commit] := by
  rw [slotDir, ofText_slotPath, hslot.ofText]

/-- A draft is never taken for an entry. -/
theorem draftName_ne (c : CommitCache) : c.draftName ≠ entryName := by
  intro heq
  have hhead := congrArg (fun name : String => name.toList.head?) heq
  simp [draftName, entryName] at hhead

theorem entry_ne_draft (dir dir' : FilePath) : dir ++ [entryName] ≠ dir' ++ [c.draftName] := by
  intro heq
  have hlast := (List.append_inj' heq rfl).2
  exact c.draftName_ne (List.singleton_inj.1 hlast).symm

/-! ## Steps -/

/-- The steps of a store. Every failure but that of `moveDraft` ends it. -/
inductive StoreMove (c : CommitCache) (commit : String) (bytes : ByteArray) (t : FileTree) :
    StoreStage → FileTree → StoreStage ⊕ Except StorageError String → Prop where
  | made {t' : FileTree} (h : t.makeDirs (c.slotDir commit) = .ok t') :
    StoreMove c commit bytes t .makeSlot t' (.inl .writeDraft)
  | notMade {e : FileError} (h : t.makeDirs (c.slotDir commit) = .error e)
    (failure : StorageError) :
    StoreMove c commit bytes t .makeSlot (t.makeHalfway (c.slotDir commit)) (.inr (.error failure))
  | written {t' : FileTree} (h : t.write (c.slotDir commit ++ [c.draftName]) bytes = .ok t') :
    StoreMove c commit bytes t .writeDraft t' (.inl .moveDraft)
  | notWritten {e : FileError} (h : t.write (c.slotDir commit ++ [c.draftName]) bytes = .error e)
    (failure : StorageError) : StoreMove c commit bytes t .writeDraft t (.inr (.error failure))
  | moved {t' : FileTree} (h : t.move (c.slotDir commit ++ [c.draftName])
      (c.slotDir commit ++ [entryName]) = .ok t') :
    StoreMove c commit bytes t .moveDraft t' (.inr (.ok (c.entryPath commit)))
  | notMoved {e : FileError} (h : t.move (c.slotDir commit ++ [c.draftName])
      (c.slotDir commit ++ [entryName]) = .error e) (failure : StorageError) :
    StoreMove c commit bytes t .moveDraft t (.inl (.dropDraft failure))
  | dropped {t' : FileTree} (h : t.remove (c.slotDir commit ++ [c.draftName]) = .ok t')
    (failure : StorageError) :
    StoreMove c commit bytes t (.dropDraft failure) t' (.inr (.error failure))
  | notDropped (failure : StorageError) :
    StoreMove c commit bytes t (.dropDraft failure) t (.inr (.error failure))

theorem storeMove_storeStep (c : CommitCache) (commit : String) (bytes : ByteArray) (t : FileTree)
    (stage : StoreStage) :
    StoreMove c commit bytes t stage (c.storeStep commit bytes t stage).1
      (c.storeStep commit bytes t stage).2 := by
  unfold storeStep
  simp only [entryPath_eq, draftPath_eq]
  cases stage with
  | makeSlot =>
    dsimp only
    split
    · exact .made ‹_›
    · exact .notMade ‹_› _
  | writeDraft =>
    dsimp only
    split
    · exact .written ‹_›
    · exact .notWritten ‹_› _
  | moveDraft =>
    dsimp only
    split
    · exact .moved ‹_›
    · exact .notMoved ‹_› _
  | dropDraft failure =>
    dsimp only
    split
    · exact .dropped ‹_› _
    · exact .notDropped _

variable {stage : StoreStage} {next : StoreStage ⊕ Except StorageError String}

/-- How many steps a store still takes at most. -/
def StoreStage.left : StoreStage → Nat
  | .makeSlot => 4
  | .writeDraft => 3
  | .moveDraft => 2
  | .dropDraft _ => 1

/-- No file but the entry and the draft of the slot changes. -/
theorem StoreMove.bytesAt_other (h : StoreMove c commit bytes t stage t' next) {p : FilePath}
    (hentry : p ≠ c.slotDir commit ++ [entryName])
    (hdraft : p ≠ c.slotDir commit ++ [c.draftName]) : t'.bytesAt p = t.bytesAt p := by
  cases h with
  | made h => exact FileTree.bytesAt_makeDirs h p
  | written h =>
    rw [FileTree.eq_of_write h]
    exact FileTree.bytesAt_set_ne hdraft
  | moved h =>
    obtain ⟨moved, -, rfl⟩ := FileTree.eq_of_move h
    rw [FileTree.bytesAt_set_ne hentry, FileTree.bytesAt_set_ne hdraft]
  | dropped h =>
    rw [FileTree.eq_of_remove h]
    exact FileTree.bytesAt_set_ne hdraft
  | notMade => exact FileTree.bytesAt_makeHalfway t _ p
  | notWritten | notMoved | notDropped => rfl

/-- An entry only changes to what the draft beside it holds. -/
theorem StoreMove.bytesAt_entry (h : StoreMove c commit bytes t stage t' next) (dir : FilePath) :
    t'.bytesAt (dir ++ [entryName]) = t.bytesAt (dir ++ [entryName]) ∨
      dir = c.slotDir commit ∧ stage = .moveDraft ∧ ∃ moved,
        t.bytesAt (dir ++ [c.draftName]) = some moved ∧
        t'.bytesAt (dir ++ [entryName]) = some moved := by
  by_cases hdir : dir = c.slotDir commit
  · subst hdir
    cases h with
    | made h => exact .inl (FileTree.bytesAt_makeDirs h _)
    | written h =>
      rw [FileTree.eq_of_write h]
      exact .inl (FileTree.bytesAt_set_ne (entry_ne_draft _ _))
    | moved h =>
      obtain ⟨moved, hmoved, rfl⟩ := FileTree.eq_of_move h
      exact .inr ⟨rfl, rfl, moved, hmoved, FileTree.bytesAt_set_file (by simp)⟩
    | dropped h =>
      rw [FileTree.eq_of_remove h]
      exact .inl (FileTree.bytesAt_set_ne (entry_ne_draft _ _))
    | notMade => exact .inl (FileTree.bytesAt_makeHalfway t _ _)
    | notWritten | notMoved | notDropped => exact .inl rfl
  · refine .inl (h.bytesAt_other ?_ (entry_ne_draft _ _))
    exact fun heq => hdir (List.append_inj' heq rfl).1

/-- No entry is taken away. -/
theorem StoreMove.entry_stays (h : StoreMove c commit bytes t stage t' next) {dir : FilePath}
    (hentry : t.bytesAt (dir ++ [entryName]) ≠ none) : t'.bytesAt (dir ++ [entryName]) ≠ none := by
  rcases h.bytesAt_entry dir with hsame | ⟨-, -, moved, -, hmoved⟩
  · rw [hsame]
    exact hentry
  · rw [hmoved]
    simp

/-- A draft is written whole, and it goes when it is moved or dropped. -/
theorem StoreMove.bytesAt_draft (h : StoreMove c commit bytes t stage t' next) (dir : FilePath) :
    t'.bytesAt (dir ++ [c.draftName]) = t.bytesAt (dir ++ [c.draftName]) ∨
      dir = c.slotDir commit ∧
        (stage = .writeDraft ∧ t'.bytesAt (dir ++ [c.draftName]) = some bytes ∨
          t'.bytesAt (dir ++ [c.draftName]) = none ∧
            ((∃ path, next = .inr (.ok path)) ∨ ∃ failure, stage = .dropDraft failure)) := by
  by_cases hdir : dir = c.slotDir commit
  · subst hdir
    cases h with
    | made h => exact .inl (FileTree.bytesAt_makeDirs h _)
    | written h =>
      rw [FileTree.eq_of_write h]
      exact .inr ⟨rfl, .inl ⟨rfl, FileTree.bytesAt_set_file (by simp)⟩⟩
    | moved h =>
      obtain ⟨moved, -, rfl⟩ := FileTree.eq_of_move h
      refine .inr ⟨rfl, .inr ⟨?_, .inl ⟨_, rfl⟩⟩⟩
      rw [FileTree.bytesAt_set_ne (entry_ne_draft _ _).symm]
      exact FileTree.bytesAt_set_none (by simp)
    | dropped h failure =>
      rw [FileTree.eq_of_remove h]
      exact .inr ⟨rfl, .inr ⟨FileTree.bytesAt_set_none (by simp), .inr ⟨failure, rfl⟩⟩⟩
    | notMade => exact .inl (FileTree.bytesAt_makeHalfway t _ _)
    | notWritten | notMoved | notDropped => exact .inl rfl
  · refine .inl (h.bytesAt_other (entry_ne_draft _ _).symm ?_)
    exact fun heq => hdir (List.append_inj' heq rfl).1

/-! ## Whole stores -/

/-- A slot in which a store can work: its directory can have its name, no file is in the way of its
directory, and no directory in the way of its files. -/
structure Unblocked (c : CommitCache) (commit : String) (t : FileTree) : Prop where
  fits : (c.slotDir commit).Fits
  above : t.Open (c.slotDir commit)
  slot : t.bytesAt (c.slotDir commit) = none
  entry : t.get? (c.slotDir commit ++ [entryName]) ≠ some .directory
  draft : t.get? (c.slotDir commit ++ [c.draftName]) ≠ some .directory

theorem unblocked_empty (hfits : (c.slotDir commit).Fits) : Unblocked c commit .empty := by
  have hnone {p : FilePath} (hp : p ≠ []) : FileTree.empty.get? p = none := by
    simp [FileTree.get?, FileTree.empty, hp]
  have hbytes (p : FilePath) : FileTree.empty.bytesAt p = none := by
    by_cases hp : p = []
    · subst hp
      rfl
    · rw [FileTree.bytesAt, hnone hp]
      rfl
  exact ⟨hfits, fun q _ _ => hbytes q, hbytes _, by simp [hnone], by simp [hnone]⟩

theorem Unblocked.makeDirs (h : Unblocked c commit t)
    (hmake : t.makeDirs (c.slotDir commit) = .ok t') : Unblocked c commit t' := by
  have hnot := FilePath.not_child_prefix (c.slotDir commit)
  constructor
  · exact h.fits
  · intro q hq hne
    rw [FileTree.bytesAt_makeDirs hmake]
    exact h.above q hq hne
  · rw [FileTree.bytesAt_makeDirs hmake]
    exact h.slot
  · rw [FileTree.get?_makeDirs hmake, if_neg (hnot _)]
    exact h.entry
  · rw [FileTree.get?_makeDirs hmake, if_neg (hnot _)]
    exact h.draft

theorem storeFrom_inl {n : Nat} {stage' : StoreStage}
    (h : c.storeStep commit bytes t stage = (t', .inl stage')) :
    c.storeFrom commit bytes (n + 1) t stage = c.storeFrom commit bytes n t' stage' := by
  rw [storeFrom, h]

theorem storeFrom_inr {n : Nat} {result : Except StorageError String}
    (h : c.storeStep commit bytes t stage = (t', .inr result)) :
    c.storeFrom commit bytes (n + 1) t stage = (t', result) := by
  rw [storeFrom, h]

/-- A store into a slot that is unblocked succeeds. The slot then has the new document, and the
draft is gone. -/
theorem storeFrom_unblocked (h : Unblocked c commit t) (bytes : ByteArray) :
    ∃ t', c.storeFrom commit bytes storeSteps t .makeSlot = (t', .ok (c.entryPath commit)) ∧
      ∀ p, t'.get? p = if p = c.slotDir commit ++ [entryName] then some (.file bytes)
        else if p = c.slotDir commit ++ [c.draftName] then none
        else if p <+: c.slotDir commit then some .directory else t.get? p := by
  obtain ⟨made, hmake⟩ := FileTree.makeDirs_ok_iff.2 ⟨h.above, h.slot, h.fits⟩
  have hmade := h.makeDirs hmake
  have hdir : made.get? (c.slotDir commit) = some .directory := by
    rw [FileTree.get?_makeDirs hmake, if_pos (List.prefix_refl _)]
  have hwrite : made.write (c.slotDir commit ++ [c.draftName]) bytes =
      .ok (made.set (c.slotDir commit ++ [c.draftName]) (some (.file bytes))) :=
    FileTree.write_ok (hmade.above.child hmade.slot c.draftName) hmade.draft
      (by rw [List.dropLast_concat, hdir])
  -- the draft is no obstacle to the move
  have hne {q : FilePath} (hq : q <+: c.slotDir commit) :
      q ≠ c.slotDir commit ++ [c.draftName] := by
    rintro rfl
    exact FilePath.not_child_prefix _ _ hq
  have hopen (name : String) : (made.set (c.slotDir commit ++ [c.draftName])
      (some (.file bytes))).Open (c.slotDir commit ++ [name]) := by
    refine FileTree.Open.child ?_ ?_ name
    · intro q hq hproper
      rw [FileTree.bytesAt_set_ne (hne hq)]
      exact hmade.above q hq hproper
    · rw [FileTree.bytesAt_set_ne (hne (List.prefix_refl _))]
      exact hmade.slot
  have hread := FileTree.read_ok_iff.2 ⟨hopen c.draftName, FileTree.get?_set_self (by simp) _⟩
  have hmove := FileTree.move_ok hread (hopen entryName)
    (by rw [FileTree.get?_set_ne (entry_ne_draft _ _)]; exact hmade.entry)
    (by rw [List.dropLast_concat, FileTree.get?_set_ne (hne (List.prefix_refl _)), hdir])
  refine ⟨((made.set (c.slotDir commit ++ [c.draftName]) (some (.file bytes))).set
    (c.slotDir commit ++ [c.draftName]) none).set (c.slotDir commit ++ [entryName])
    (some (.file bytes)), ?_, ?_⟩
  · -- three steps lead to the end; the fourth is only for a move that fails
    have hmake' : c.storeStep commit bytes t .makeSlot = (made, .inl .writeDraft) := by
      unfold storeStep
      rw [← slotDir, hmake]
    have hwrite' : c.storeStep commit bytes made .writeDraft =
        (made.set (c.slotDir commit ++ [c.draftName]) (some (.file bytes)), .inl .moveDraft) := by
      unfold storeStep
      rw [draftPath_eq, hwrite]
    have hmove' : c.storeStep commit bytes (made.set (c.slotDir commit ++ [c.draftName])
        (some (.file bytes))) .moveDraft =
        (((made.set (c.slotDir commit ++ [c.draftName]) (some (.file bytes))).set
          (c.slotDir commit ++ [c.draftName]) none).set (c.slotDir commit ++ [entryName])
          (some (.file bytes)), .inr (.ok (c.entryPath commit))) := by
      unfold storeStep
      rw [draftPath_eq, entryPath_eq, hmove]
    rw [storeSteps, storeFrom_inl hmake', storeFrom_inl hwrite', storeFrom_inr hmove']
  · intro p
    by_cases hentry : p = c.slotDir commit ++ [entryName]
    · rw [if_pos hentry, hentry, FileTree.get?_set_self (by simp)]
    · rw [if_neg hentry, FileTree.get?_set_ne hentry]
      by_cases hdraft : p = c.slotDir commit ++ [c.draftName]
      · rw [if_pos hdraft, hdraft, FileTree.get?_set_self (by simp)]
      · rw [if_neg hdraft, FileTree.get?_set_ne hdraft, FileTree.get?_set_ne hdraft,
          FileTree.get?_makeDirs hmake]

/-! ## Loads -/

/-- What the document that bytes spell says. -/
def spelled (d : Json.Decoder α) (bytes : ByteArray) : Option α :=
  (Document.parse? d bytes).map (·.impact)

theorem accept?_eq_some_iff {d : Json.Decoder α} {v : α} :
    c.accept? d commit bytes = some v ↔ ∃ doc, Document.parse? d bytes = some doc ∧
      doc.commit = commit ∧ doc.fingerprint = fingerprintText c.fingerprint ∧ doc.impact = v := by
  unfold accept?
  cases Document.parse? d bytes with
  | none => simp
  | some doc =>
    simp only [Option.bind_eq_bind, Option.bind_some, Option.some.injEq, exists_eq_left',
      Option.ite_none_right_eq_some, and_assoc]

/-- A document is accepted for the commit and under the fingerprint it was made with. -/
theorem accept?_documentBytes {d : Json.Decoder α} {v : α} {writer : CommitCache} {other : String}
    {impact : Json} :
    c.accept? d commit (writer.documentBytes other impact) = some v ↔
      other = commit ∧ fingerprintText writer.fingerprint = fingerprintText c.fingerprint ∧
        spelled d (writer.documentBytes other impact) = some v := by
  rw [accept?_eq_some_iff, spelled, Option.map_eq_some_iff]
  constructor
  · rintro ⟨doc, hparse, hcommit, hfingerprint, himpact⟩
    obtain ⟨hown, hother⟩ := header_of_parse hparse
    exact ⟨hother.symm.trans hcommit, hown.symm.trans hfingerprint, doc, hparse, himpact⟩
  · rintro ⟨hcommit, hfingerprint, doc, hparse, himpact⟩
    obtain ⟨hown, hother⟩ := header_of_parse hparse
    exact ⟨doc, hparse, hother.trans hcommit, hown.trans hfingerprint, himpact⟩

/-- A load succeeds unless a file is in the way, a directory stands where the entry should be, or
the name of the slot is too long. -/
theorem load_ok_iff {d : Json.Decoder α} :
    (∃ found, c.load d commit t = .ok found) ↔ t.Open (c.slotDir commit ++ [entryName]) ∧
      t.get? (c.slotDir commit ++ [entryName]) ≠ some .directory ∧
      (t.get? (c.slotDir commit ++ [entryName]) = none → (c.slotDir commit).Fits) := by
  have hfits : (c.slotDir commit).Fits ↔ (c.slotDir commit ++ [entryName]).all nameFits = true := by
    rw [← fits_entry_iff, List.all_eq_true]
    rfl
  rw [← FileTree.blocked_eq_false_iff, hfits]
  unfold load FileTree.read
  rw [entryPath_eq]
  cases t.blocked (c.slotDir commit ++ [entryName]) with
  | true => simp
  | false =>
    cases t.get? (c.slotDir commit ++ [entryName]) with
    | none => cases (c.slotDir commit ++ [entryName]).all nameFits <;> simp
    | some node => cases node <;> simp

/-- Where a load did not fail and its entry has not been taken away, it only matters what is in its
way. -/
theorem load_ok_of_kept {d : Json.Decoder α} (hload : ∃ found, c.load d commit t = .ok found)
    (hkept : t.bytesAt (c.slotDir commit ++ [entryName]) ≠ none →
      t'.bytesAt (c.slotDir commit ++ [entryName]) ≠ none)
    (hopen : t'.Open (c.slotDir commit ++ [entryName]))
    (hentry : t'.get? (c.slotDir commit ++ [entryName]) ≠ some .directory) :
    ∃ found, c.load d commit t' = .ok found := by
  obtain ⟨-, hfile, hfits⟩ := load_ok_iff.1 hload
  refine load_ok_iff.2 ⟨hopen, hentry, fun hnone => hfits ?_⟩
  cases hget : t.get? (c.slotDir commit ++ [entryName]) with
  | none => rfl
  | some node =>
    cases node with
    | directory => exact absurd hget hfile
    | file bytes =>
      refine absurd ?_ (hkept ?_)
      · rw [FileTree.bytesAt, hnone]
        rfl
      · rw [FileTree.bytesAt_eq_some_iff.2 hget]
        simp

/-- A load returns what the entry says about the commit. -/
theorem load_some_iff {d : Json.Decoder α} {v : α} :
    c.load d commit t = .ok (some v) ↔ t.Open (c.slotDir commit ++ [entryName]) ∧
      ∃ bytes, t.bytesAt (c.slotDir commit ++ [entryName]) = some bytes ∧
        c.accept? d commit bytes = some v := by
  rw [← FileTree.blocked_eq_false_iff]
  unfold load FileTree.read FileTree.bytesAt
  rw [entryPath_eq]
  cases t.blocked (c.slotDir commit ++ [entryName]) with
  | true => simp
  | false =>
    cases t.get? (c.slotDir commit ++ [entryName]) with
    | none => cases (c.slotDir commit ++ [entryName]).all nameFits <;> simp
    | some node => cases node <;> simp [FileNode.bytes?]

end ChangeImpact.CommitCache
