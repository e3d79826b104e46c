import ChangeImpact.Proofs.SlotMap

/-!
# Files that answer alike

Two trees of files that differ only in a draft, and in which of the directories down to it are
there. Whatever is done to a cache directory, it answers the same on both.

* `FileTree.Grounded` — everything lies in a directory;
* `FileTree.Alike` — the two trees; `Alike.makeDirs`, `Alike.write`, `Alike.move`, `Alike.remove` —
  a step fails on both or leaves them alike; `Alike.makeHalfway` — so do directories that could not
  all be made;
* `CommitCache.slots_alike`, `CommitCache.load_alike`, `CommitCache.store_alike` — so do the
  operations of a cache;
* `CommitCache.answers_alike` — so does any sequence of actions.
-/

namespace ChangeImpact

namespace FileTree

variable {t t' u : FileTree} {slot p q target : FilePath} {name : String} {bytes : ByteArray}
  {node : Option FileNode}

/-! ## Where a file can be put -/

/-- Why no file can be put at a path. -/
def hindrance? (t : FileTree) (p : FilePath) : Option FileError :=
  if t.blocked p then some .notDirectory
  else if t.isDirectory p then some .isDirectory
  else if !t.isDirectory p.dropLast then some .notFound
  else none

theorem hindrance?_eq_none_iff : t.hindrance? p = none ↔
    t.Open p ∧ t.get? p ≠ some .directory ∧ t.get? p.dropLast = some .directory := by
  rw [← blocked_eq_false_iff, Ne, ← isDirectory_iff, ← isDirectory_iff]
  unfold hindrance?
  cases t.blocked p <;> cases t.isDirectory p <;> cases t.isDirectory p.dropLast <;> simp

theorem write_eq : t.write p bytes =
    (t.hindrance? p).elim (.ok (t.set p (some (.file bytes)))) .error := by
  unfold write hindrance?
  cases t.blocked p <;> cases t.isDirectory p <;> cases t.isDirectory p.dropLast <;> rfl

theorem move_eq : t.move p target = (t.read p).bind fun bytes =>
    (t.hindrance? target).elim (.ok ((t.set p none).set target (some (.file bytes)))) .error := by
  unfold move hindrance?
  cases t.blocked target <;> cases t.isDirectory target <;>
    cases t.isDirectory target.dropLast <;> rfl

theorem write_ok_iff : t.write p bytes = .ok t' ↔
    t.hindrance? p = none ∧ t' = t.set p (some (.file bytes)) := by
  rw [write_eq]
  cases t.hindrance? p with
  | none => simp [eq_comm]
  | some e => simp

theorem move_ok_iff : t.move p target = .ok t' ↔ t.hindrance? target = none ∧
    ∃ bytes, t.read p = .ok bytes ∧ t' = (t.set p none).set target (some (.file bytes)) := by
  rw [move_eq]
  cases t.read p with
  | error e => simp [Except.bind]
  | ok bytes =>
    cases t.hindrance? target with
    | none => simp [Except.bind, eq_comm]
    | some e => simp [Except.bind]

theorem remove_ok_iff :
    t.remove p = .ok t' ↔ (∃ bytes, t.read p = .ok bytes) ∧ t' = t.set p none := by
  unfold remove
  cases t.read p with
  | error e => simp [bind, Except.bind]
  | ok bytes => simp [bind, Except.bind, eq_comm]

theorem isFile_congr (h : t'.bytesAt p = t.bytesAt p) : t'.isFile p = t.isFile p := by
  rw [Bool.eq_iff_iff, ← Bool.not_eq_false, ← Bool.not_eq_false, isFile_eq_false_iff,
    isFile_eq_false_iff, h]

theorem makeDirs_error_congr {e : FileError} (hblocked : t'.blocked p = t.blocked p)
    (hfile : t'.isFile p = t.isFile p) (h : t.makeDirs p = .error e) :
    t'.makeDirs p = .error e := by
  unfold makeDirs at h ⊢
  rw [hblocked, hfile]
  split at h
  · next hwall =>
    rw [if_pos hwall]
    exact h
  · next hfree =>
    rw [if_neg hfree]
    split at h
    · next hthere =>
      rw [if_pos hthere]
      exact h
    · next hnone =>
      rw [if_neg hnone]
      split at h
      · next hlong =>
        rw [if_pos hlong]
        exact h
      · cases h

theorem not_directory_of_read (h : t.read p = .ok bytes) : t.get? p ≠ some .directory := by
  rw [(read_ok_iff.1 h).2]
  simp

/-! ## Trees that stand on directories -/

/-- Everything lies in a directory. -/
def Grounded (t : FileTree) : Prop :=
  ∀ p q, t.get? p ≠ none → q <+: p → q ≠ p → t.get? q = some .directory

namespace Grounded

theorem makeDirs (h : t.Grounded) (hmake : t.makeDirs p = .ok t') : t'.Grounded := by
  intro r q hr hq hne
  rw [get?_makeDirs hmake] at hr ⊢
  by_cases hin : q <+: p
  · rw [if_pos hin]
  · rw [if_neg hin]
    rw [if_neg fun hrp => hin (hq.trans hrp)] at hr
    exact h r q hr hq hne

theorem makeHalfway (h : t.Grounded) (p : FilePath) : (t.makeHalfway p).Grounded := by
  rcases makeHalfway_cases t p with hsame | ⟨q, -, hmade⟩
  · rw [hsame]
    exact h
  · exact h.makeDirs hmade

/-- A file is put into a directory, or what is taken away is no directory. -/
theorem set (h : t.Grounded) (hp : t.get? p ≠ some .directory)
    (hparent : node = none ∨ t.get? p.dropLast = some .directory) : (t.set p node).Grounded := by
  have hroot : p ≠ [] := by
    rintro rfl
    exact hp rfl
  intro r q hr hq hne
  have hqp : q ≠ p := by
    -- nothing lies below what is no directory
    rintro rfl
    rw [get?_set_ne hne.symm] at hr
    exact hp (h r q hr hq hne)
  rw [get?_set_ne hqp]
  by_cases hrp : r = p
  · subst hrp
    rcases hparent with rfl | hparent
    · rw [get?_set_self hroot] at hr
      exact absurd rfl hr
    · have hfront : q <+: r.dropLast := by
        rw [← List.dropLast_append_getLast hroot] at hq hne
        exact (List.prefix_concat_iff.1 hq).resolve_left hne
      by_cases hself : q = r.dropLast
      · rw [hself, hparent]
      · exact h r.dropLast q (by rw [hparent]; simp) hfront hself
  · rw [get?_set_ne hrp] at hr
    exact h r q hr hq hne

theorem write (h : t.Grounded) (hwrite : t.write p bytes = .ok t') : t'.Grounded := by
  rcases write_ok_iff.1 hwrite with ⟨hfree, rfl⟩
  rcases hindrance?_eq_none_iff.1 hfree with ⟨-, hp, hparent⟩
  exact h.set hp (.inr hparent)

theorem remove (h : t.Grounded) (hremove : t.remove p = .ok t') : t'.Grounded := by
  rcases remove_ok_iff.1 hremove with ⟨⟨bytes, hread⟩, rfl⟩
  exact h.set (not_directory_of_read hread) (.inl rfl)

theorem move (h : t.Grounded) (hmove : t.move p target = .ok t') : t'.Grounded := by
  rcases move_ok_iff.1 hmove with ⟨hfree, bytes, hread, rfl⟩
  rcases hindrance?_eq_none_iff.1 hfree with ⟨-, htarget, hparent⟩
  have hp := not_directory_of_read hread
  have hroot : p ≠ [] := by
    rintro rfl
    exact hp rfl
  refine (h.set hp (.inl rfl)).set ?_ (.inr ?_)
  · by_cases heq : target = p
    · rw [heq, get?_set_self hroot]
      simp
    · rw [get?_set_ne heq]
      exact htarget
  · rw [get?_set_ne ?_]
    · exact hparent
    · intro heq
      rw [heq] at hparent
      exact hp hparent

theorem removeSlots (h : t.Grounded) (dir : FilePath) (names : List String) :
    (names.foldl (fun t name => t.removeAll (dir ++ [name])) t).Grounded := by
  intro r q hr hq hne
  rw [CommitCache.get?_removeSlots] at hr ⊢
  split at hr
  · exact absurd rfl hr
  · next hkept =>
    rw [if_neg]
    · exact h r q hr hq hne
    · rintro ⟨name, hname, hbelow⟩
      exact hkept ⟨name, hname, hbelow.trans hq⟩

end Grounded

/-! ## Trees that differ in a draft -/

/-- Trees that differ at most in one file of a directory, which is its draft, and in which of the
directories down to it are there. -/
structure Alike (slot : FilePath) (name : String) (t t' : FileTree) : Prop where
  elsewhere : ∀ p, p ≠ slot ++ [name] → ¬p <+: slot → t'.get? p = t.get? p
  above : ∀ p, p <+: slot → t'.get? p = t.get? p ∨ t.get? p = none ∧ t'.get? p = some .directory
  draft : t'.get? (slot ++ [name]) = some .directory ↔ t.get? (slot ++ [name]) = some .directory

namespace Alike

theorem refl (slot : FilePath) (name : String) (t : FileTree) : Alike slot name t t :=
  ⟨fun _ _ _ => rfl, fun _ _ => .inl rfl, Iff.rfl⟩

theorem trans (h : Alike slot name t t') (h' : Alike slot name t' u) : Alike slot name t u where
  elsewhere p hdraft hslot := (h'.elsewhere p hdraft hslot).trans (h.elsewhere p hdraft hslot)
  above p hp := by
    rcases h.above p hp with hsame | ⟨hnone, hmade⟩ <;>
      rcases h'.above p hp with hsame' | ⟨hnone', hmade'⟩
    · exact .inl (hsame'.trans hsame)
    · exact .inr ⟨hsame.symm.trans hnone', hmade'⟩
    · exact .inr ⟨hnone, hsame'.trans hmade⟩
    · rw [hnone'] at hmade
      cases hmade
  draft := h'.draft.trans h.draft

/-- No file differs but the draft. -/
theorem bytesAt (h : Alike slot name t t') (hp : p ≠ slot ++ [name]) :
    t'.bytesAt p = t.bytesAt p := by
  by_cases hslot : p <+: slot
  · rcases h.above p hslot with hsame | ⟨hnone, hmade⟩
    · exact bytesAt_congr hsame
    · rw [FileTree.bytesAt, FileTree.bytesAt, hnone, hmade]
      rfl
  · exact bytesAt_congr (h.elsewhere p hp hslot)

theorem directory (h : Alike slot name t t') (hp : t.get? p = some .directory) :
    t'.get? p = some .directory := by
  by_cases hdraft : p = slot ++ [name]
  · subst hdraft
    exact h.draft.2 hp
  · by_cases hslot : p <+: slot
    · rcases h.above p hslot with hsame | ⟨-, hmade⟩
      · rw [hsame, hp]
      · exact hmade
    · rw [h.elsewhere p hdraft hslot, hp]

theorem isDirectory (h : Alike slot name t t') (hp : ¬p <+: slot) :
    t'.isDirectory p = t.isDirectory p := by
  rw [Bool.eq_iff_iff, isDirectory_iff, isDirectory_iff]
  by_cases hdraft : p = slot ++ [name]
  · subst hdraft
    exact h.draft
  · rw [h.elsewhere p hdraft hp]

theorem read (h : Alike slot name t t') (hdraft : ¬slot ++ [name] <+: p) (hp : ¬p <+: slot) :
    t'.read p = t.read p := by
  refine read_congr ?_ (h.elsewhere p ?_ hp)
  · rintro q hq -
    refine h.bytesAt ?_
    rintro rfl
    exact hdraft hq
  · rintro rfl
    exact hdraft (List.prefix_refl _)

/-! ### Steps on one of the trees -/

theorem of_makeDirs (hp : p <+: slot) (h : t.makeDirs p = .ok t') : Alike slot name t t' := by
  have hget := get?_makeDirs h
  constructor
  · intro q _ hq
    rw [hget, if_neg fun hqp => hq (hqp.trans hp)]
  · intro q _
    by_cases hqp : q <+: p
    · -- what was there is no file
      have hmade : t'.get? q = some .directory := by rw [hget, if_pos hqp]
      have hfree : t.bytesAt q = none := by
        rw [← bytesAt_makeDirs h q, bytesAt_eq_none_iff]
        exact .inr hmade
      rcases bytesAt_eq_none_iff.1 hfree with hnone | hthere
      · exact .inr ⟨hnone, hmade⟩
      · exact .inl (hmade.trans hthere.symm)
    · rw [hget, if_neg hqp]
      exact .inl rfl
  · rw [hget, if_neg fun hdraft => FilePath.not_child_prefix slot name (hdraft.trans hp)]

theorem of_makeHalfway (hp : p <+: slot) : Alike slot name t (t.makeHalfway p) := by
  rcases makeHalfway_cases t p with hsame | ⟨q, hq, hmade⟩
  · rw [hsame]
    exact .refl slot name t
  · exact .of_makeDirs (hq.trans hp) hmade

theorem of_set_draft (hdraft : t.get? (slot ++ [name]) ≠ some .directory)
    (hnode : node ≠ some .directory) : Alike slot name t (t.set (slot ++ [name]) node) where
  elsewhere p hp _ := get?_set_ne hp node
  above p hp := by
    refine .inl (get?_set_ne ?_ node)
    rintro rfl
    exact FilePath.not_child_prefix slot name hp
  draft := by
    rw [get?_set_self (by simp)]
    exact iff_of_false hnode hdraft

theorem of_write (h : t.write (slot ++ [name]) bytes = .ok t') : Alike slot name t t' := by
  rcases write_ok_iff.1 h with ⟨hfree, rfl⟩
  exact .of_set_draft (hindrance?_eq_none_iff.1 hfree).2.1 (by simp)

/-! ### Steps on both -/

theorem set (h : Alike slot name t t') (hp : ¬p <+: slot) (node : Option FileNode) :
    Alike slot name (t.set p node) (t'.set p node) := by
  have hroot : p ≠ [] := by
    rintro rfl
    exact hp List.nil_prefix
  have hself : (t'.set p node).get? p = (t.set p node).get? p := by
    rw [get?_set_self hroot, get?_set_self hroot]
  constructor
  · intro q hdraft hslot
    by_cases hq : q = p
    · rw [hq, hself]
    · rw [get?_set_ne hq, get?_set_ne hq, h.elsewhere q hdraft hslot]
  · intro q hq
    have hne : q ≠ p := by
      rintro rfl
      exact hp hq
    rw [get?_set_ne hne, get?_set_ne hne]
    exact h.above q hq
  · by_cases hdraft : slot ++ [name] = p
    · rw [hdraft, hself]
    · rw [get?_set_ne hdraft, get?_set_ne hdraft]
      exact h.draft

theorem removeSlots (h : Alike slot name t t') (dir : FilePath) (names : List String) :
    Alike slot name (names.foldl (fun t name => t.removeAll (dir ++ [name])) t)
      (names.foldl (fun t name => t.removeAll (dir ++ [name])) t') := by
  constructor
  · intro p hdraft hslot
    rw [CommitCache.get?_removeSlots, CommitCache.get?_removeSlots, h.elsewhere p hdraft hslot]
  · intro p hp
    rw [CommitCache.get?_removeSlots, CommitCache.get?_removeSlots]
    split
    · exact .inl rfl
    · exact h.above p hp
  · rw [CommitCache.get?_removeSlots, CommitCache.get?_removeSlots]
    split
    · exact Iff.rfl
    · exact h.draft

/-- Two steps fail in the same way, or both succeed with trees that are related. -/
inductive Together (R : FileTree → FileTree → Prop) :
    Except FileError FileTree → Except FileError FileTree → Prop where
  | failed (e : FileError) : Together R (.error e) (.error e)
  | done {t t' : FileTree} (h : R t t') : Together R (.ok t) (.ok t')

theorem makeDirs (h : Alike slot name t t') (hp : p.length ≤ slot.length) :
    Together (fun u u' => Alike slot name u u' ∧ u.get? p = some .directory) (t.makeDirs p)
      (t'.makeDirs p) := by
  have hdraft : ¬slot ++ [name] <+: p := by
    refine FilePath.not_prefix_of_length_lt ?_
    rw [List.length_append, List.length_singleton]
    omega
  have hbytes : ∀ q, q <+: p → t'.bytesAt q = t.bytesAt q := by
    intro q hq
    refine h.bytesAt ?_
    rintro rfl
    exact hdraft hq
  have hblocked : t'.blocked p = t.blocked p := blocked_congr fun q hq _ => hbytes q hq
  cases hmake : t.makeDirs p with
  | error e =>
    rw [makeDirs_error_congr hblocked (isFile_congr (hbytes p (List.prefix_refl _))) hmake]
    exact .failed e
  | ok u =>
    rcases makeDirs_ok_iff.1 ⟨u, hmake⟩ with ⟨hopen, hself, hfits⟩
    obtain ⟨u', hmake'⟩ : ∃ u', t'.makeDirs p = .ok u' := by
      rw [makeDirs_ok_iff, ← blocked_eq_false_iff, hblocked, blocked_eq_false_iff,
        hbytes p (List.prefix_refl _)]
      exact ⟨hopen, hself, hfits⟩
    have hget := get?_makeDirs hmake
    have hget' := get?_makeDirs hmake'
    rw [hmake']
    refine .done ⟨⟨?_, ?_, ?_⟩, ?_⟩
    · intro q hq hslot
      rw [hget, hget', h.elsewhere q hq hslot]
    · intro q hq
      rw [hget, hget']
      split
      · exact .inl rfl
      · exact h.above q hq
    · rw [hget, hget', if_neg hdraft, if_neg hdraft]
      exact h.draft
    · rw [hget, if_pos (List.prefix_refl _)]

theorem makeHalfway (h : Alike slot name t t') (hp : p.length ≤ slot.length) :
    Alike slot name (t.makeHalfway p) (t'.makeHalfway p) := by
  have hboth := h.makeDirs (p := p.takeWhile nameFits)
    (Nat.le_trans (List.takeWhile_prefix _).length_le hp)
  unfold FileTree.makeHalfway
  generalize t.makeDirs (p.takeWhile nameFits) = r, t'.makeDirs (p.takeWhile nameFits) = r'
    at hboth ⊢
  cases hboth with
  | failed e => exact h
  | done hdone => exact hdone.1

/-- The way to a path that is no longer than that of the draft. -/
theorem bytesAt_way (h : Alike slot name t t') (hp : p.length = slot.length + 1) (hq : q <+: p)
    (hne : q ≠ p) : t'.bytesAt q = t.bytesAt q := by
  refine h.bytesAt ?_
  rintro rfl
  refine hne (hq.eq_of_length ?_)
  rw [hp, List.length_append, List.length_singleton]

theorem not_prefix_slot (hp : p.length = slot.length + 1) : ¬p <+: slot :=
  FilePath.not_prefix_of_length_lt (by omega)

theorem hindrance? (h : Alike slot name t t') (hp : p.length = slot.length + 1)
    (hparent : t.get? p.dropLast = some .directory) : t'.hindrance? p = t.hindrance? p := by
  have hblocked : t'.blocked p = t.blocked p :=
    blocked_congr fun q hq hne => h.bytesAt_way hp hq hne
  unfold FileTree.hindrance?
  rw [hblocked, h.isDirectory (not_prefix_slot hp), isDirectory_iff.2 hparent,
    isDirectory_iff.2 (h.directory hparent)]

theorem write (h : Alike slot name t t') (hp : p.length = slot.length + 1)
    (hparent : t.get? p.dropLast = some .directory) (bytes : ByteArray) :
    Together (fun u u' => Alike slot name u u' ∧ u.get? p.dropLast = some .directory ∧
      u'.get? p = u.get? p) (t.write p bytes) (t'.write p bytes) := by
  have hroot : p ≠ [] := by
    rintro rfl
    cases hp
  have hne : p.dropLast ≠ p := by
    intro heq
    have hlength := congrArg List.length heq
    rw [List.length_dropLast] at hlength
    omega
  rw [write_eq, write_eq, h.hindrance? hp hparent]
  cases t.hindrance? p with
  | some e => exact .failed e
  | none =>
    refine .done ⟨h.set (not_prefix_slot hp) _, ?_, ?_⟩
    · rw [get?_set_ne hne, hparent]
    · rw [get?_set_self hroot, get?_set_self hroot]

theorem move (h : Alike slot name t t') (hread : t'.read p = t.read p)
    (hp : p.length = slot.length + 1) (htarget : target.length = slot.length + 1)
    (hparent : t.get? target.dropLast = some .directory) :
    Together (Alike slot name) (t.move p target) (t'.move p target) := by
  rw [move_eq, move_eq, hread, h.hindrance? htarget hparent]
  cases t.read p with
  | error e => exact .failed e
  | ok bytes =>
    cases t.hindrance? target with
    | some e => exact .failed e
    | none => exact .done ((h.set (not_prefix_slot hp) _).set (not_prefix_slot htarget) _)

theorem remove (h : Alike slot name t t') (hread : t'.read p = t.read p)
    (hp : p.length = slot.length + 1) :
    Together (Alike slot name) (t.remove p) (t'.remove p) := by
  unfold FileTree.remove
  rw [hread]
  cases t.read p with
  | error e => exact .failed e
  | ok bytes => exact .done (h.set (not_prefix_slot hp) _)

end Alike

end FileTree

/-! ## Operations of a cache -/

namespace CommitCache

open FileTree

variable {α : Type} {c : CommitCache} {commit name : String} {bytes : ByteArray}
  {t t' : FileTree} {slot : FilePath} {stage : StoreStage}

theorem length_slotDir (h : IsFileName (slotName commit)) :
    (c.slotDir commit).length = (FilePath.ofText c.root).length + 1 := by
  rw [slotDir_eq h, List.length_append, List.length_singleton]

theorem entry_ne_of_ne (hname : name ≠ entryName) (dir : FilePath) (other : String) :
    dir ++ [other, entryName] ≠ slot ++ [name] := by
  intro heq
  have hlast := congrArg List.getLast? heq
  simp only [List.getLast?_append, List.getLast?_cons_cons, List.getLast?_singleton,
    Option.some_or, Option.some.injEq] at hlast
  exact hname hlast.symm

theorem slots_of_blocked (hname : c.root ≠ "")
    (h : ¬(t.Open (.ofText c.root) ∧ t.bytesAt (.ofText c.root) = none)) :
    c.slots t = .error (.io c.root FileError.notDirectory.message) := by
  have hnames : t.names (.ofText c.root) = .error .notDirectory := by
    rw [← blocked_eq_false_iff, ← isFile_eq_false_iff, ← Bool.or_eq_false_iff] at h
    rw [FileTree.names, if_pos (Bool.not_eq_false _ ▸ h)]
  rw [slots, if_neg hname, hnames]

/-- A cache finds the same slots. -/
theorem slots_alike (h : Alike slot name t t') (hground : t.Grounded)
    (hroot : FilePath.ofText c.root <+: slot) (hname : name ≠ entryName) :
    c.slots t' = c.slots t := by
  by_cases hnamed : c.root = ""
  · rw [slots_of_nameless hnamed, slots_of_nameless hnamed]
  have hup : ∀ q, q <+: FilePath.ofText c.root → t'.bytesAt q = t.bytesAt q := by
    intro q hq
    refine h.bytesAt ?_
    rintro rfl
    exact FilePath.not_child_prefix slot name (hq.trans hroot)
  have hentry : ∀ other, t'.bytesAt (.ofText c.root ++ [other, entryName]) =
      t.bytesAt (.ofText c.root ++ [other, entryName]) :=
    fun other => h.bytesAt (entry_ne_of_ne hname _ other)
  have hways : (t'.Open (.ofText c.root) ∧ t'.bytesAt (.ofText c.root) = none) ↔
      (t.Open (.ofText c.root) ∧ t.bytesAt (.ofText c.root) = none) := by
    rw [hup _ (List.prefix_refl _), ← blocked_eq_false_iff, ← blocked_eq_false_iff,
      blocked_congr fun q hq _ => hup q hq]
  -- a directory that is made only on one side holds no document, so it is no slot on either
  by_cases hopen : t.Open (.ofText c.root) ∧ t.bytesAt (.ofText c.root) = none
  · have hbelow : ∀ other, t.bytesAt (.ofText c.root ++ [other, entryName]) ≠ none →
        t.get? (.ofText c.root) = some .directory ∧
          t.get? (.ofText c.root ++ [other]) = some .directory := by
      intro other hfile
      have hthere : t.get? (.ofText c.root ++ [other, entryName]) ≠ none := by
        intro hnone
        rw [FileTree.bytesAt, hnone] at hfile
        exact hfile rfl
      constructor
      · exact hground _ _ hthere (List.prefix_append _ _) (by simp)
      · exact hground _ _ hthere (below_entry _ _ _) (below_ne _ _ _).symm
    rcases slots_of_open hnamed hopen.1 hopen.2 hbelow with ⟨names, hslots, hasc, hmem⟩
    rcases hways.2 hopen with ⟨hopen', hroot'⟩
    obtain ⟨names', hslots', hasc', hmem'⟩ := slots_of_open hnamed hopen' hroot' (by
      intro other hfile
      rw [hentry] at hfile
      rcases hbelow other hfile with ⟨hdir, hslot⟩
      exact ⟨h.directory hdir, h.directory hslot⟩)
    have hsame : names' = names := by
      refine hasc'.eq_of_mem_iff hasc ?_
      intro other
      rw [hmem, hmem', hentry]
    rw [hslots, hslots', hsame]
  · rw [slots_of_blocked hnamed hopen, slots_of_blocked hnamed (mt hways.1 hopen)]

theorem info_alike (h : Alike slot name t t') (hground : t.Grounded)
    (hroot : FilePath.ofText c.root <+: slot) (hname : name ≠ entryName) :
    c.info t' = c.info t := by
  have hentry : ∀ other, (t'.get? (.ofText c.root ++ [other, entryName])).bind (·.bytes?) =
      (t.get? (.ofText c.root ++ [other, entryName])).bind (·.bytes?) :=
    fun other => h.bytesAt (entry_ne_of_ne hname _ other)
  unfold info
  simp only [slots_alike h hground hroot hname, hentry]

/-- A load sees no difference, unless its entry is on the way to the draft or below it. -/
theorem load_alike {d : Json.Decoder α} (h : Alike slot name t t')
    (hdraft : ¬slot ++ [name] <+: c.slotDir commit ++ [entryName])
    (hslot : ¬c.slotDir commit ++ [entryName] <+: slot) :
    c.load d commit t' = c.load d commit t := by
  unfold load
  rw [entryPath_eq, h.read hdraft hslot]

/-- Trees on which a store has come equally far. -/
structure Ready (slot : FilePath) (name : String) (c : CommitCache) (commit : String)
    (stage : StoreStage) (t t' : FileTree) : Prop where
  alike : Alike slot name t t'
  made : stage ≠ .makeSlot → t.get? (c.slotDir commit) = some .directory
  written : stage ≠ .makeSlot → stage ≠ .writeDraft →
    t'.get? (c.slotDir commit ++ [c.draftName]) = t.get? (c.slotDir commit ++ [c.draftName])

theorem Ready.read_draft (h : Ready slot name c commit stage t t')
    (hslot : (c.slotDir commit).length = slot.length) (hmake : stage ≠ .makeSlot)
    (hwrite : stage ≠ .writeDraft) :
    t'.read (c.slotDir commit ++ [c.draftName]) = t.read (c.slotDir commit ++ [c.draftName]) :=
  read_congr (fun _ hq hne => h.alike.bytesAt_way (by simp [hslot]) hq hne)
    (h.written hmake hwrite)

/-- A step of a store does the same on both trees. -/
theorem Ready.step (h : Ready slot name c commit stage t t')
    (hslot : (c.slotDir commit).length = slot.length) (bytes : ByteArray) :
    (c.storeStep commit bytes t' stage).2 = (c.storeStep commit bytes t stage).2 ∧
      Alike slot name (c.storeStep commit bytes t stage).1 (c.storeStep commit bytes t' stage).1 ∧
      ∀ next, (c.storeStep commit bytes t stage).2 = .inl next →
        Ready slot name c commit next (c.storeStep commit bytes t stage).1
          (c.storeStep commit bytes t' stage).1 := by
  have hlength (file : String) : (c.slotDir commit ++ [file]).length = slot.length + 1 := by
    rw [List.length_append, List.length_singleton, hslot]
  have hparent (hmake : stage ≠ .makeSlot) (file : String) :
      t.get? (c.slotDir commit ++ [file]).dropLast = some .directory := by
    rw [List.dropLast_concat]
    exact h.made hmake
  unfold storeStep
  rw [draftPath_eq, entryPath_eq, ← slotDir]
  cases stage with
  | makeSlot =>
    have hboth := h.alike.makeDirs hslot.le
    have hhalfway := h.alike.makeHalfway hslot.le
    dsimp only
    generalize t.makeDirs (c.slotDir commit) = r, t'.makeDirs (c.slotDir commit) = r' at hboth ⊢
    cases hboth with
    | failed e => exact ⟨rfl, hhalfway, by simp⟩
    | done hdone =>
      refine ⟨rfl, hdone.1, ?_⟩
      rintro next ⟨⟩
      exact ⟨hdone.1, fun _ => hdone.2, fun _ hne => absurd rfl hne⟩
  | writeDraft =>
    have hboth := h.alike.write (hlength c.draftName) (hparent (by simp) _) bytes
    dsimp only
    generalize t.write (c.slotDir commit ++ [c.draftName]) bytes = r,
      t'.write (c.slotDir commit ++ [c.draftName]) bytes = r' at hboth ⊢
    cases hboth with
    | failed e => exact ⟨rfl, h.alike, by simp⟩
    | done hdone =>
      rcases hdone with ⟨halike, hmade, hdraft⟩
      rw [List.dropLast_concat] at hmade
      refine ⟨rfl, halike, ?_⟩
      rintro next ⟨⟩
      exact ⟨halike, fun _ => hmade, fun _ _ => hdraft⟩
  | moveDraft =>
    have hboth := h.alike.move (h.read_draft hslot (by simp) (by simp)) (hlength c.draftName)
      (hlength entryName) (hparent (by simp) _)
    dsimp only
    generalize t.move (c.slotDir commit ++ [c.draftName]) (c.slotDir commit ++ [entryName]) = r,
      t'.move (c.slotDir commit ++ [c.draftName]) (c.slotDir commit ++ [entryName]) = r' at hboth ⊢
    cases hboth with
    | failed e =>
      refine ⟨rfl, h.alike, ?_⟩
      rintro next ⟨⟩
      exact ⟨h.alike, fun _ => h.made (by simp), fun _ _ => h.written (by simp) (by simp)⟩
    | done hdone => exact ⟨rfl, hdone, by simp⟩
  | dropDraft failure =>
    have hboth := h.alike.remove (h.read_draft hslot (by simp) (by simp)) (hlength c.draftName)
    dsimp only
    generalize t.remove (c.slotDir commit ++ [c.draftName]) = r,
      t'.remove (c.slotDir commit ++ [c.draftName]) = r' at hboth ⊢
    cases hboth with
    | failed e => exact ⟨rfl, h.alike, by simp⟩
    | done hdone => exact ⟨rfl, hdone, by simp⟩

theorem Ready.storeFrom (h : Ready slot name c commit stage t t')
    (hslot : (c.slotDir commit).length = slot.length) (bytes : ByteArray) (n : Nat) :
    (c.storeFrom commit bytes n t' stage).2 = (c.storeFrom commit bytes n t stage).2 ∧
      Alike slot name (c.storeFrom commit bytes n t stage).1
        (c.storeFrom commit bytes n t' stage).1 := by
  induction n generalizing t t' stage with
  | zero => exact ⟨rfl, h.alike⟩
  | succ n ih =>
    rcases h.step hslot bytes with ⟨hresult, halike, hready⟩
    rcases hstep : c.storeStep commit bytes t stage with ⟨u, next⟩
    rcases hstep' : c.storeStep commit bytes t' stage with ⟨u', next'⟩
    rw [hstep, hstep'] at hresult halike hready
    dsimp only at hresult halike hready
    subst hresult
    cases next' with
    | inl stage' =>
      rw [storeFrom_inl hstep, storeFrom_inl hstep']
      exact ih (hready stage' rfl)
    | inr result =>
      rw [storeFrom_inr hstep, storeFrom_inr hstep']
      exact ⟨rfl, halike⟩

/-- A store succeeds on both trees or fails on both, and leaves them alike. -/
theorem store_alike (h : Alike slot name t t') (hslot : (c.slotDir commit).length = slot.length)
    (impact : Json) : (c.store commit impact t').2 = (c.store commit impact t).2 ∧
      Alike slot name (c.store commit impact t).1 (c.store commit impact t').1 := by
  have hready : Ready slot name c commit .makeSlot t t' :=
    ⟨h, fun hne => absurd rfl hne, fun hne => absurd rfl hne⟩
  exact hready.storeFrom hslot _ _

/-! ## Actions -/

theorem StoreMove.grounded {next : StoreStage ⊕ Except StorageError String}
    (h : StoreMove c commit bytes t stage t' next) (hground : t.Grounded) : t'.Grounded := by
  cases h with
  | made h => exact hground.makeDirs h
  | written h => exact hground.write h
  | moved h => exact hground.move h
  | dropped h => exact hground.remove h
  | notMade => exact hground.makeHalfway _
  | notWritten | notMoved | notDropped => exact hground

theorem grounded_storeFrom (hground : t.Grounded) (n : Nat) (stage : StoreStage) :
    (c.storeFrom commit bytes n t stage).1.Grounded := by
  induction n generalizing t stage with
  | zero => exact hground
  | succ n ih =>
    have hmove := (storeMove_storeStep c commit bytes t stage).grounded hground
    rcases hstep : c.storeStep commit bytes t stage with ⟨u, next | result⟩
    · rw [storeFrom_inl hstep]
      rw [hstep] at hmove
      exact ih hmove next
    · rw [storeFrom_inr hstep]
      rw [hstep] at hmove
      exact hmove

/-- What an action returns. -/
inductive Answer (α : Type) where
  | opened (result : Except StorageError Unit)
  | stored (result : Except StorageError String)
  | loaded (result : Except StorageError (Option α))
  | counted (result : Except StorageError CacheInfo)
  | cleared (result : Except StorageError Nat)
  /-- Who writes from outside is told nothing. -/
  | overwritten

/-- What an action returns on a tree of files. -/
def Action.answer (d : Json.Decoder α) (encode : α → Json) (root : String) (t : FileTree) :
    Action α → Answer α
  | .open h => .opened ((CommitCache.open root h.fingerprint h.process t).map fun _ => ())
  | .store h commit value => .stored ((h.on root).store commit (encode value) t).2
  | .load h commit => .loaded ((h.on root).load d commit t)
  | .info h => .counted ((h.on root).info t)
  | .clear h => .cleared (((h.on root).clear t).map (·.1))
  | .overwrite _ _ => .overwritten

/-- The commit that an action asks for or stores. -/
def Action.commit? : Action α → Option String
  | .store _ commit _ => some commit
  | .load _ commit => some commit
  | _ => none

theorem clear_eq (c : CommitCache) (t : FileTree) : c.clear t = (c.slots t).map fun names =>
    (names.length, names.foldl (fun t name => t.removeAll (.ofText c.root ++ [name])) t) := by
  unfold clear
  cases c.slots t <;> rfl

section Actions

variable {d : Json.Decoder α} {encode : α → Json} {root : String} {a : Action α}

theorem Action.grounded (hground : t.Grounded) : (a.onFiles encode root t).Grounded := by
  cases a with
  | «open» handle =>
    rw [Action.onFiles]
    split
    · rename_i hopen
      exact hground.makeDirs (open_ok hopen).1
    · exact hground.makeHalfway _
  | store handle commit value => exact grounded_storeFrom hground _ _
  | load | info => exact hground
  | clear handle =>
    rw [Action.onFiles, clear_eq]
    cases (handle.on root).slots t with
    | error e => exact hground
    | ok names => exact hground.removeSlots _ names
  | overwrite slot bytes =>
    rw [Action.onFiles]
    split
    · next hfile =>
      have hthere : t.bytesAt (.ofText root ++ [slot, entryName]) ≠ none := by
        rw [Ne, ← isFile_eq_false_iff, hfile]
        simp
      rcases Option.ne_none_iff_exists'.1 hthere with ⟨old, hold⟩
      rw [bytesAt_eq_some_iff] at hold
      refine hground.set (by rw [hold]; simp) (.inr ?_)
      refine hground _ _ (by rw [hold]; simp) (List.dropLast_prefix _) ?_
      intro heq
      have hlength := congrArg List.length heq
      simp at hlength
    · exact hground

/-- An action returns the same on both trees, and leaves them alike. -/
theorem Action.alike (h : Alike slot name t t') (hground : t.Grounded)
    (hroot : FilePath.ofText root <+: slot)
    (hlength : slot.length = (FilePath.ofText root).length + 1)
    (hname : name ≠ entryName)
    (hcommit : ∀ commit, a.commit? = some commit → IsFileName (slotName commit)) :
    a.answer d encode root t' = a.answer d encode root t ∧
      Alike slot name (a.onFiles encode root t) (a.onFiles encode root t') := by
  cases a with
  | «open» handle =>
    have hboth := h.makeDirs (p := FilePath.ofText root) (by omega)
    have hhalfway := h.makeHalfway (p := FilePath.ofText root) (by omega)
    rw [Action.answer, Action.answer, Action.onFiles, Action.onFiles]
    unfold CommitCache.open
    generalize t.makeDirs (.ofText root) = r, t'.makeDirs (.ofText root) = r' at hboth ⊢
    cases hboth with
    | failed e => exact ⟨rfl, hhalfway⟩
    | done hdone => exact ⟨rfl, hdone.1⟩
  | store handle commit value =>
    -- its slot is as deep as that of the draft, so the draft is not on the way to it
    have hslot : ((handle.on root).slotDir commit).length = slot.length :=
      (length_slotDir (hcommit commit rfl)).trans hlength.symm
    rcases store_alike h hslot (encode value) with ⟨hresult, halike⟩
    exact ⟨congrArg Answer.stored hresult, halike⟩
  | load handle commit =>
    have hslot : ((handle.on root).slotDir commit).length = slot.length :=
      (length_slotDir (hcommit commit rfl)).trans hlength.symm
    refine ⟨congrArg Answer.loaded (load_alike h ?_ ?_), h⟩
    · intro hin
      have heq := hin.eq_of_length (by simp [hslot])
      exact hname (List.singleton_inj.1 (List.append_inj' heq rfl).2)
    · exact Alike.not_prefix_slot (by simp [hslot])
  | info handle =>
    exact ⟨congrArg Answer.counted (info_alike h hground hroot hname), h⟩
  | clear handle =>
    have hslots : (handle.on root).slots t' = (handle.on root).slots t :=
      slots_alike h hground hroot hname
    rw [Action.answer, Action.answer, Action.onFiles, Action.onFiles, clear_eq, clear_eq, hslots]
    cases (handle.on root).slots t with
    | error e => exact ⟨rfl, h⟩
    | ok names => exact ⟨rfl, h.removeSlots _ names⟩
  | overwrite other bytes =>
    have hfile : t'.isFile (.ofText root ++ [other, entryName]) =
        t.isFile (.ofText root ++ [other, entryName]) :=
      isFile_congr (h.bytesAt (entry_ne_of_ne hname _ other))
    refine ⟨rfl, ?_⟩
    rw [Action.onFiles, Action.onFiles, hfile]
    split
    · exact h.set (Alike.not_prefix_slot (by simp [hlength])) _
    · exact h

end Actions

end CommitCache

end ChangeImpact
