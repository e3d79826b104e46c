import ChangeImpact.Proofs.CacheFiles
import ChangeImpact.Proofs.Inspections

/-!
# Reads of a cache

A cache keeps directories one level below its root and files two levels below it. Where the slots of
all commits are file names that are not too long, no file is ever in the way of a directory or the
other way round, and the cache can be read at every moment of every inspection.

* `FileTree.Shelved` — the shape of the files of a cache;
* `CommitCache.load_of_shelved` — a cache of this shape can be read;
* `Inspection.readsSucceed_of_fileNames` — reads succeed in any sequence of inspections.
-/

namespace ChangeImpact

namespace FileTree

/-- No file stands above the root, and below it directories are one level deep and files two. -/
structure Shelved (root : FilePath) (t : FileTree) : Prop where
  above : ∀ p bytes, p <+: root → t.get? p ≠ some (.file bytes)
  file : ∀ p bytes, root <+: p → t.get? p = some (.file bytes) → p.length = root.length + 2
  directory : ∀ p, root <+: p → t.get? p = some .directory → p.length ≤ root.length + 1

variable {root p : FilePath} {t t' : FileTree} {bytes : ByteArray}

/-- Nodes that may be put at a path. -/
def Shelvable (root p : FilePath) : Option FileNode → Prop
  | none => True
  | some .directory => p.length ≤ root.length + 1
  | some (.file _) => p.length = root.length + 2

theorem Shelved.set {node : Option FileNode} (h : t.Shelved root) (hnode : Shelvable root p node) :
    (t.set p node).Shelved root := by
  have hnew : ∀ q found, (t.set p node).get? q = some found → t.get? q ≠ some found →
      q = p ∧ node = some found := by
    intro q found hget hold
    by_cases hq : q = p
    · subst hq
      by_cases hroot : q = []
      · subst hroot
        simp [get?] at hget hold
        exact absurd hget hold
      · rw [get?_set_self hroot] at hget
        exact ⟨rfl, hget⟩
    · rw [get?_set_ne hq] at hget
      exact absurd hget hold
  constructor
  · intro q bytes hq hget
    obtain ⟨rfl, rfl⟩ := hnew q _ hget (h.above q bytes hq)
    have hlength : q.length = root.length + 2 := hnode
    have hle := hq.length_le
    omega
  · intro q bytes hq hget
    by_cases hold : t.get? q = some (.file bytes)
    · exact h.file q bytes hq hold
    · obtain ⟨rfl, rfl⟩ := hnew q _ hget hold
      exact hnode
  · intro q hq hget
    by_cases hold : t.get? q = some .directory
    · exact h.directory q hq hold
    · obtain ⟨rfl, rfl⟩ := hnew q _ hget hold
      exact hnode

theorem Shelved.makeDirs (h : t.Shelved root) (hp : p.length ≤ root.length + 1)
    (hmake : t.makeDirs p = .ok t') : t'.Shelved root := by
  have hfile : ∀ q bytes, t'.get? q = some (.file bytes) → t.get? q = some (.file bytes) := by
    intro q bytes hget
    rw [← bytesAt_eq_some_iff, ← bytesAt_makeDirs hmake, bytesAt_eq_some_iff]
    exact hget
  constructor
  · exact fun q bytes hq hget => h.above q bytes hq (hfile q bytes hget)
  · exact fun q bytes hq hget => h.file q bytes hq (hfile q bytes hget)
  · intro q hq hget
    rw [get?_makeDirs hmake] at hget
    split at hget
    · next habove => exact Nat.le_trans habove.length_le hp
    · exact h.directory q hq hget

theorem Shelved.makeHalfway (h : t.Shelved root) (hp : p.length ≤ root.length + 1) :
    (t.makeHalfway p).Shelved root := by
  rcases makeHalfway_cases t p with hsame | ⟨q, hq, hmade⟩
  · rw [hsame]
    exact h
  · exact h.makeDirs (Nat.le_trans hq.length_le hp) hmade

theorem Shelved.write (h : t.Shelved root) (hp : p.length = root.length + 2)
    (hwrite : t.write p bytes = .ok t') : t'.Shelved root := by
  rw [eq_of_write hwrite]
  exact h.set hp

theorem Shelved.move {target : FilePath} (h : t.Shelved root)
    (htarget : target.length = root.length + 2) (hmove : t.move p target = .ok t') :
    t'.Shelved root := by
  obtain ⟨moved, -, rfl⟩ := eq_of_move hmove
  have hremoved : (t.set p none).Shelved root := h.set trivial
  exact hremoved.set htarget

theorem Shelved.remove (h : t.Shelved root) (hremove : t.remove p = .ok t') :
    t'.Shelved root := by
  rw [eq_of_remove hremove]
  exact h.set trivial

/-- A path two levels below the root leads to a file or to nothing. -/
theorem Shelved.read {slot name : String} (h : t.Shelved root)
    (hfits : FilePath.Fits (root ++ [slot, name])) :
    (∃ bytes, t.read (root ++ [slot, name]) = .ok bytes) ∨
      t.read (root ++ [slot, name]) = .error .notFound := by
  have hopen : t.Open (root ++ [slot, name]) := by
    intro q hq hne
    by_contra hfile
    obtain ⟨bytes, hbytes⟩ := Option.ne_none_iff_exists'.1 hfile
    have hget := bytesAt_eq_some_iff.1 hbytes
    rcases List.prefix_or_prefix_of_prefix hq (List.prefix_append root _) with habove | hbelow
    · exact h.above q bytes habove hget
    · have hlength := h.file q bytes hbelow hget
      exact hne (hq.eq_of_length (by simp [hlength]))
  unfold FileTree.read
  rw [blocked_eq_false_iff.2 hopen, List.all_eq_true.2 hfits]
  cases hget : t.get? (root ++ [slot, name]) with
  | none => exact .inr (by simp)
  | some node =>
    cases node with
    | file bytes => exact .inl ⟨bytes, by simp⟩
    | directory =>
      have hlength := h.directory _ (List.prefix_append root _) hget
      simp at hlength

end FileTree

namespace CommitCache

variable {c : CommitCache} {commit : String} {t : FileTree} {bytes : ByteArray}

/-- A shelved cache can be read. -/
theorem load_of_shelved {α : Type} {d : Json.Decoder α} (h : t.Shelved (.ofText c.root))
    (hslot : IsFileName (slotName commit))
    (hfits : FilePath.Fits (.ofText c.root ++ [slotName commit])) :
    ∃ found, c.load d commit t = .ok found := by
  have hpath : FilePath.ofText (c.entryPath commit) =
      .ofText c.root ++ [slotName commit, entryName] := by
    rw [ofText_entryPath, hslot.ofText, isFileName_entryName.ofText, List.append_assoc]
    rfl
  unfold load
  rw [hpath]
  have hentry : FilePath.Fits (.ofText c.root ++ [slotName commit, entryName]) := by
    rw [List.append_cons]
    exact fits_entry_iff.2 hfits
  rcases h.read hentry with ⟨bytes, hread⟩ | hread
  · rw [hread]
    exact ⟨_, rfl⟩
  · rw [hread]
    exact ⟨none, rfl⟩

/-- Every step of a store keeps a cache shelved. -/
theorem shelved_storeStep {stage : StoreStage} (h : t.Shelved (.ofText c.root))
    (hslot : IsFileName (slotName commit)) :
    (c.storeStep commit bytes t stage).1.Shelved (.ofText c.root) := by
  have hentry : (FilePath.ofText (c.entryPath commit)).length =
      (FilePath.ofText c.root).length + 2 := by
    rw [ofText_entryPath, hslot.ofText, isFileName_entryName.ofText]
    simp
  have hdraft : (FilePath.ofText (c.draftPath commit)).length =
      (FilePath.ofText c.root).length + 2 := by
    rw [ofText_draftPath, hslot.ofText, (isFileName_draftName c).ofText]
    simp
  have hdir : (FilePath.ofText (c.slotPath commit)).length ≤
      (FilePath.ofText c.root).length + 1 := by
    rw [ofText_slotPath, hslot.ofText]
    simp
  unfold storeStep
  split
  · split
    · rename_i hmake
      exact h.makeDirs hdir hmake
    · exact h.makeHalfway hdir
  · split
    · rename_i hwrite
      exact h.write hdraft hwrite
    · exact h
  · split
    · rename_i hmove
      exact h.move hentry hmove
    · exact h
  · split
    · rename_i hremove
      exact h.remove hremove
    · exact h

end CommitCache

namespace Inspection

/-- The commit that a worker is busy with. -/
def Stage.commit : Stage → Commit
  | .lookUp c => c
  | .compute c => c
  | .save c _ _ => c
  | .announce c _ => c

namespace Monitor

variable {m : Monitor} {cache : CommitCache} {s : Session} {stage : Stage}

theorem step_shelved (hslot : IsFileName (slotName stage.commit.id))
    (hs : s.files.Shelved (.ofText cache.root)) :
    (m.step cache s stage).1.files.Shelved (.ofText cache.root) ∧
      ∀ next, (m.step cache s stage).2 = .inl next → next.commit = stage.commit := by
  unfold step
  cases stage with
  | lookUp c =>
    dsimp only
    split
    · exact ⟨hs, by simp⟩
    · exact ⟨hs, by simp [Stage.commit]⟩
    · exact ⟨hs, by simp [Stage.commit]⟩
  | compute c =>
    dsimp only
    split
    · exact ⟨hs, by simp⟩
    · exact ⟨hs, by simp [Stage.commit]⟩
  | save c r store =>
    have hfiles : (cache.storeStep c.id (cache.documentBytes c.id r.toJson) s.files store).1.Shelved
        (.ofText cache.root) := CommitCache.shelved_storeStep hs hslot
    dsimp only
    split
    · rename_i files next hstore
      rw [hstore] at hfiles
      exact ⟨hfiles, by simp [Stage.commit]⟩
    · rename_i files result hstore
      rw [hstore] at hfiles
      exact ⟨hfiles, by simp [Stage.commit]⟩
  | announce c v =>
    dsimp only
    exact ⟨hs, by simp⟩

/-- Under every schedule the cache stays shelved. -/
theorem shelved_batch {commits : List Commit} {schedule : List PoolAction}
    (hslots : ∀ c ∈ commits, IsFileName (slotName c.id))
    (hs : s.files.Shelved (.ofText cache.root)) :
    (Pool.run (m.task cache) commits schedule
      (Pool.init s commits)).shared.files.Shelved (.ofText cache.root) := by
  have hsound : Pool.Sound (fun s : Session => s.files.Shelved (.ofText cache.root))
      (fun c stage => stage.commit = c) (fun _ _ => True) commits
      (Pool.run (m.task cache) commits schedule (Pool.init s commits)) := by
    refine Pool.Sound.run_of_step (Pool.sound_init hs) (fun _ => id) (fun c _ => rfl) ?_
    intro c hc s stage hs hstage
    obtain ⟨hfiles, hnext⟩ : (m.step cache s stage).1.files.Shelved (.ofText cache.root) ∧
        ∀ next, (m.step cache s stage).2 = .inl next → next.commit = stage.commit :=
      step_shelved (hstage ▸ hslots c hc) hs
    refine ⟨hfiles, ?_⟩
    change Sum.elim _ _ (m.step cache s stage).2
    cases hstep : (m.step cache s stage).2 with
    | inl next => exact (hnext next hstep).trans hstage
    | inr b => exact trivial
  exact hsound.shared

end Monitor

variable {a : CommitAnalyzer} {call : Call} {files opened : FileTree} {commits : List Commit}
  {cache : CommitCache}

/-- At every moment of an inspection its cache is shelved, if it was so before. -/
theorem shelved_of_prepare (hslots : ∀ c, a.history.Lists c → IsFileName (slotName c.id))
    (hfiles : files.Shelved (.ofText call.config.cacheDir))
    (hprepare : (call.monitor a).prepare (call.session files) = .ok (commits, cache, opened))
    (actions : List PoolAction) :
    cache.root = call.config.cacheDir ∧
      (call.batch a commits cache opened actions).shared.files.Shelved (.ofText cache.root) := by
  obtain ⟨hselection, hopen⟩ := prepare_ok hprepare
  obtain ⟨hmake, hcache⟩ := CommitCache.open_ok hopen
  have hroot : cache.root = call.config.cacheDir := by rw [hcache]
  refine ⟨hroot,
    Monitor.shelved_batch (fun c hc => hslots c (lists_of_selection hselection c hc)) ?_⟩
  rw [hroot]
  show opened.Shelved _
  exact hfiles.makeDirs (Nat.le_succ _) hmake

theorem shelved_perform (hslots : ∀ c, a.history.Lists c → IsFileName (slotName c.id))
    (hfiles : files.Shelved (.ofText call.config.cacheDir)) :
    (call.perform a files).1.Shelved (.ofText call.config.cacheDir) := by
  cases hprepare : (call.monitor a).prepare (call.session files) with
  | error e =>
    rw [perform_error hprepare]
    exact refusedFiles_induction hfiles (hfiles.makeHalfway (Nat.le_succ _)) e
  | ok found =>
    obtain ⟨commits, cache, opened⟩ := found
    obtain ⟨hroot, hshelved⟩ := shelved_of_prepare hslots hfiles hprepare
      (call.schedule commits.length)
    rw [(perform_ok hprepare).1, ← hroot]
    exact hshelved

/-- Where the slots of all commits are file names of the length that is allowed, the cache can be
read in every inspection of a sequence. -/
theorem readsSucceed_of_fileNames {root : String} {earlier : List Call}
    (hslots : ∀ c, a.history.Lists c → IsFileName (slotName c.id))
    (hshort : ∀ c, a.history.Lists c → nameFits (slotName c.id))
    (hroot : ∀ other ∈ call :: earlier, other.config.cacheDir = root)
    (hfiles : files.Shelved (.ofText root)) : call.ReadsSucceed a (filesAfter a earlier files) := by
  have hbefore : (filesAfter a earlier files).Shelved (.ofText root) := by
    refine filesAfter_induction ?_ hfiles
    intro other hother files hfiles
    rw [← hroot other (List.mem_cons_of_mem _ hother)] at hfiles ⊢
    exact shelved_perform hslots hfiles
  rw [← hroot call List.mem_cons_self] at hbefore
  intro commits cache opened hprepare first _ c hc
  obtain ⟨hselection, hopen⟩ := prepare_ok hprepare
  obtain ⟨hmake, rfl⟩ := CommitCache.open_ok hopen
  have hlisted := lists_of_selection hselection c hc
  -- the directory of the cache has been made, so its names fit
  have hfits := (FileTree.makeDirs_ok_iff.1 ⟨_, hmake⟩).2.2
  exact CommitCache.load_of_shelved (shelved_of_prepare hslots hbefore hprepare first).2
    (hslots c hlisted)
    (FilePath.fits_append.2 ⟨hfits, List.forall_mem_singleton.2 (hshort c hlisted)⟩)

end Inspection

end ChangeImpact
