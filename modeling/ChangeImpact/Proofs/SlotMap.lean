import ChangeImpact.Proofs.StoreSteps
import Mathlib.Algebra.BigOperators.Group.Finset.Basic
import Mathlib.Data.List.DropRight
import Mathlib.Data.String.Basic

/-!
# A cache is a map of slots

Any number of handles work on one directory: they open it, store, load, count and clear, and
somebody outside may overwrite the entries that are there. What the directory holds is a map from
the names of slots to bytes, which every action changes in the way one expects.

* `CommitCache.Action`, `CommitCache.filesAfter` — the actions, and the files after some of them;
* `CommitCache.contents` — the map after some actions; `CommitCache.storedSlots` and
  `CommitCache.lastStore` — what has been stored since the directory was last cleared;
* `CommitCache.Vacant` — a directory in which no slot is taken; other files may be there;
* `CommitCache.Holds` — the files are those of a map of slots; every action keeps this;
* `CommitCache.RefinesSlotMap`, `CommitCache.cache_refines_slot_map` — what each action returns;
* `CommitCache.nameless_uncounted` — where the directory has no name, nothing is ever counted or
  cleared.
-/

namespace ChangeImpact

/-! ## Names of commits -/

/-- A hexadecimal digit, of either case. -/
def isHexChar (ch : Char) : Bool :=
  "0123456789abcdefABCDEF".toList.contains ch

/-- A text of hexadecimal digits, at least one. -/
def IsHex (text : String) : Prop :=
  text ≠ "" ∧ text.toList.all isHexChar = true

instance (text : String) : Decidable (IsHex text) :=
  inferInstanceAs (Decidable (_ ∧ _))

theorem IsHex.isFileName {text : String} (h : IsHex text) : IsFileName text := by
  obtain ⟨hne, hall⟩ := h
  refine ⟨hne, ?_, ?_⟩
  · rintro rfl
    exact absurd hall (by decide)
  · intro hslash
    exact absurd (List.all_eq_true.1 hall '/' hslash) (by decide)

theorem prefix_of_takeBytes {n : Nat} {cs taken : List Char} (h : takeBytes n cs = some taken) :
    taken <+: cs := by
  fun_induction takeBytes n cs generalizing taken with
  | case1 => cases h; exact List.nil_prefix
  | case2 => cases h
  | case3 => cases h
  | case4 n c cs _ ih =>
    obtain ⟨rest, hrest, rfl⟩ := Option.map_eq_some_iff.1 h
    exact List.cons_prefix_cons.2 ⟨rfl, ih hrest⟩

theorem takeBytes_ne_nil {n : Nat} {cs taken : List Char} (h : takeBytes (n + 1) cs = some taken) :
    taken ≠ [] := by
  cases cs with
  | nil => simp [takeBytes] at h
  | cons c cs =>
    rw [takeBytes] at h
    split at h
    · cases h
    · obtain ⟨rest, -, rfl⟩ := Option.map_eq_some_iff.1 h
      simp

theorem IsHex.slotName {commit : String} (h : IsHex commit) : IsHex (slotName commit) := by
  unfold ChangeImpact.slotName
  cases htake : takeBytes slotLength commit.toList with
  | none => exact h
  | some taken =>
    have hne : taken ≠ [] := takeBytes_ne_nil htake
    simp only [Option.map_some, Option.getD_some]
    refine ⟨?_, ?_⟩
    · intro hempty
      have hnil := congrArg String.toList hempty
      rw [String.toList_ofList] at hnil
      exact hne hnil
    · rw [String.toList_ofList, List.all_eq_true]
      intro ch hch
      exact List.all_eq_true.1 h.2 ch ((prefix_of_takeBytes htake).subset hch)

/-! ### Their length -/

theorem utf8Len_takeBytes {n : Nat} {cs taken : List Char} (h : takeBytes n cs = some taken) :
    String.utf8Len taken = n := by
  fun_induction takeBytes n cs generalizing taken with
  | case1 => cases h; rfl
  | case2 => cases h
  | case3 => cases h
  | case4 n c cs hsize ih =>
    obtain ⟨rest, hrest, rfl⟩ := Option.map_eq_some_iff.1 h
    rw [String.utf8Len, ih hrest]
    omega

/-- Characters of one byte can be cut off anywhere, so that there are too few of them where this
fails. -/
theorem utf8Len_le_of_takeBytes {n : Nat} {cs : List Char} (hall : ∀ c ∈ cs, c.utf8Size = 1)
    (h : takeBytes n cs = none) : String.utf8Len cs ≤ n := by
  fun_induction takeBytes n cs with
  | case1 => cases h
  | case2 => exact Nat.zero_le _
  | case3 n c cs hsize =>
    rw [hall c List.mem_cons_self] at hsize
    omega
  | case4 n c cs hsize ih =>
    have hrest := ih (fun c hc => hall c (List.mem_cons_of_mem _ hc)) (Option.map_eq_none_iff.1 h)
    rw [String.utf8Len, hall c List.mem_cons_self]
    rw [hall c List.mem_cons_self] at hrest
    omega

theorem utf8Size_of_isHexChar {ch : Char} (h : isHexChar ch = true) : ch.utf8Size = 1 := by
  have hall : "0123456789abcdefABCDEF".toList.all (·.utf8Size == 1) = true := by decide
  exact beq_iff_eq.1 (List.all_eq_true.1 hall ch (List.contains_iff_mem.1 h))

/-- The slot of a commit that is named by hexadecimal digits can be made. -/
theorem IsHex.nameFits_slotName {commit : String} (h : IsHex commit) :
    nameFits (ChangeImpact.slotName commit) := by
  have hsize : (ChangeImpact.slotName commit).utf8ByteSize ≤ slotLength := by
    unfold ChangeImpact.slotName
    cases htake : takeBytes slotLength commit.toList with
    | none =>
      have hbytes := utf8Len_le_of_takeBytes
        (fun ch hch => utf8Size_of_isHexChar (List.all_eq_true.1 h.2 ch hch)) htake
      rw [String.utf8Len_toList] at hbytes
      exact hbytes
    | some taken =>
      rw [Option.map_some, Option.getD_some, String.utf8ByteSize_ofList, utf8Len_takeBytes htake]
  have hlimit : slotLength ≤ nameLimit := by decide
  exact decide_eq_true (hsize.trans hlimit)

/-! ## Fingerprints -/

theorem hexDigit_inj : ∀ m < 16, ∀ n < 16, Text.hexDigit 'a' m = Text.hexDigit 'a' n → m = n := by
  decide

/-- Numbers with the same last digits agree up to a multiple of the next power. -/
theorem mod_pow_eq_of_digits {a b w : Nat} (h : ∀ k < w, a / 16 ^ k % 16 = b / 16 ^ k % 16) :
    a % 16 ^ w = b % 16 ^ w := by
  induction w with
  | zero => simp [Nat.mod_one]
  | succ w ih =>
    rw [Nat.mod_pow_succ, Nat.mod_pow_succ, ih fun k hk => h k (Nat.lt_succ_of_lt hk),
      h w (Nat.lt_succ_self w)]

/-- No two fingerprints have the same text. -/
theorem fingerprintText_inj {f g : UInt64} (h : fingerprintText f = fingerprintText g) : f = g := by
  have hdigits := List.map_inj_left.1 (String.ofList_injective h)
  have hmod : f.toNat % 16 ^ 16 = g.toNat % 16 ^ 16 := by
    refine mod_pow_eq_of_digits ?_
    intro k hk
    have hdigit := hdigits (15 - k) (List.mem_range.2 (by omega))
    rw [show 15 - (15 - k) = k by omega] at hdigit
    exact hexDigit_inj _ (Nat.mod_lt _ (by decide)) _ (Nat.mod_lt _ (by decide)) hdigit
  have hf := f.toNat_lt
  have hg := g.toNat_lt
  rw [Nat.mod_eq_of_lt (by omega), Nat.mod_eq_of_lt (by omega)] at hmod
  exact UInt64.toNat_inj.1 hmod

namespace CommitCache

variable {α : Type}

/-! ## Actions -/

/-- A handle on the directory: the fingerprint it works under, and its process. -/
structure Handle where
  fingerprint : UInt64
  process : Nat

/-- The cache that a handle gives access to. -/
def Handle.on (h : Handle) (root : String) : CommitCache := ⟨root, h.fingerprint, h.process⟩

/-- What may happen to the directory. -/
inductive Action (α : Type) where
  | open (h : Handle)
  | store (h : Handle) (commit : String) (value : α)
  | load (h : Handle) (commit : String)
  | info (h : Handle)
  | clear (h : Handle)
  /-- Somebody outside overwrites an entry that is there. -/
  | overwrite (slot : String) (bytes : ByteArray)

/-- The files after an action. -/
def Action.onFiles (encode : α → Json) (root : String) (t : FileTree) : Action α → FileTree
  | .open h =>
    match CommitCache.open root h.fingerprint h.process t with
    | .ok (_, t) => t
    | .error _ => t.makeHalfway (.ofText root)
  | .store h commit value => ((h.on root).store commit (encode value) t).1
  | .load _ _ => t
  | .info _ => t
  | .clear h =>
    match (h.on root).clear t with
    | .ok (_, t) => t
    | .error _ => t
  | .overwrite slot bytes =>
    if t.isFile (.ofText root ++ [slot, entryName]) then
      t.set (.ofText root ++ [slot, entryName]) (some (.file bytes))
    else t

/-- The files after some actions. -/
def filesAfter (encode : α → Json) (root : String) (start : FileTree) (history : List (Action α)) :
    FileTree :=
  history.foldl (Action.onFiles encode root) start

/-! ## The map of slots -/

/-- The bytes of every slot that is taken. -/
abbrev SlotMap := String → Option ByteArray

/-- The map of slots after an action. -/
def Action.onMap (encode : α → Json) (root : String) (m : SlotMap) : Action α → SlotMap
  | .store h commit value => Function.update m (slotName commit)
      (some ((h.on root).documentBytes commit (encode value)))
  | .clear _ => fun _ => none
  | .overwrite slot bytes => if (m slot).isSome then Function.update m slot (some bytes) else m
  | .open _ | .load _ _ | .info _ => m

/-- The map of slots after some actions. -/
def contents (encode : α → Json) (root : String) (history : List (Action α)) : SlotMap :=
  history.foldl (Action.onMap encode root) fun _ => none

/-- Whether an action clears the directory. -/
def Action.isClear : Action α → Bool
  | .clear _ => true
  | _ => false

/-- The actions since the directory was last cleared. -/
def sinceClear (history : List (Action α)) : List (Action α) :=
  history.rtakeWhile fun a => !a.isClear

/-- The slot that an action stores into. -/
def Action.slot? : Action α → Option String
  | .store _ commit _ => some (slotName commit)
  | _ => none

/-- The slots stored into since the directory was last cleared. -/
def storedSlots (history : List (Action α)) : Finset String :=
  ((sinceClear history).filterMap (·.slot?)).toFinset

/-- Something that was stored. -/
structure Stored (α : Type) where
  handle : Handle
  commit : String
  value : α

/-- What an action stores into a slot. -/
def Action.storeInto? (slot : String) : Action α → Option (Stored α)
  | .store h commit value => if slotName commit = slot then some ⟨h, commit, value⟩ else none
  | _ => none

/-- What was last stored into a slot since the directory was last cleared. -/
def lastStore (history : List (Action α)) (slot : String) : Option (Stored α) :=
  (sinceClear history).reverse.findSome? (·.storeInto? slot)

variable {encode : α → Json} {root : String} {start : FileTree} {history : List (Action α)}
  {a : Action α}

theorem filesAfter_concat : filesAfter encode root start (history ++ [a]) =
    a.onFiles encode root (filesAfter encode root start history) := by
  simp [filesAfter]

theorem contents_concat : contents encode root (history ++ [a]) =
    a.onMap encode root (contents encode root history) := by
  simp [contents]

theorem sinceClear_concat (ha : a.isClear = false) :
    sinceClear (history ++ [a]) = sinceClear history ++ [a] :=
  List.rtakeWhile_concat_pos _ _ _ (by simp [ha])

theorem sinceClear_clear {h : Handle} : sinceClear (history ++ [.clear h]) = [] :=
  List.rtakeWhile_concat_neg _ _ _ (by simp [Action.isClear])

theorem mem_storedSlots_concat {slot : String} (ha : a.isClear = false) :
    slot ∈ storedSlots (history ++ [a]) ↔ slot ∈ storedSlots history ∨ a.slot? = some slot := by
  simp [storedSlots, sinceClear_concat ha]

/-- The slots that are taken are those stored into since the directory was last cleared. -/
theorem mem_storedSlots {slot : String} :
    slot ∈ storedSlots history ↔ contents encode root history slot ≠ none := by
  induction history using List.reverseRecOn with
  | nil => simp [storedSlots, sinceClear, contents]
  | append_singleton history a ih =>
    rw [contents_concat]
    cases a with
    | clear h => simp [storedSlots, sinceClear_clear, Action.onMap]
    | store h commit value =>
      rw [mem_storedSlots_concat rfl, ih, Action.onMap]
      by_cases hslot : slotName commit = slot
      · simp [Action.slot?, hslot]
      · simp [Action.slot?, hslot, Function.update_of_ne (Ne.symm hslot)]
    | overwrite other bytes =>
      rw [mem_storedSlots_concat rfl, ih, Action.onMap]
      split
      · rename_i htaken
        by_cases hslot : slot = other
        · subst hslot
          simpa [Action.slot?] using Option.isSome_iff_ne_none.1 htaken
        · simp [Action.slot?, Function.update_of_ne hslot]
      · simp [Action.slot?]
    | «open» | load | info =>
      rw [mem_storedSlots_concat rfl, ih]
      simp [Action.slot?, Action.onMap]

theorem lastStore_concat {slot : String} (ha : a.isClear = false) :
    lastStore (history ++ [a]) slot = (a.storeInto? slot).or (lastStore history slot) := by
  rw [lastStore, sinceClear_concat ha, List.reverse_append, List.reverse_singleton,
    List.singleton_append, List.findSome?_cons, lastStore]
  cases a.storeInto? slot <;> rfl

/-- What was last stored was stored at some time. -/
theorem mem_of_lastStore {slot : String} {stored : Stored α}
    (h : lastStore history slot = some stored) :
    .store stored.handle stored.commit stored.value ∈ history := by
  obtain ⟨a, ha, hstored⟩ := List.exists_of_findSome?_eq_some h
  have hmem : a ∈ history := (List.rtakeWhile_suffix _ _).subset (List.mem_reverse.1 ha)
  cases a with
  | store h commit value =>
    rw [Action.storeInto?] at hstored
    split at hstored
    · cases hstored
      exact hmem
    · cases hstored
  | «open» | load | info | clear | overwrite => cases hstored

/-- A slot that nobody has overwritten holds the document that was last stored into it. -/
theorem contents_eq_lastStore {slot : String}
    (h : ∀ bytes, .overwrite slot bytes ∉ sinceClear history) :
    contents encode root history slot = (lastStore history slot).map fun stored =>
      (stored.handle.on root).documentBytes stored.commit (encode stored.value) := by
  induction history using List.reverseRecOn with
  | nil => rfl
  | append_singleton history a ih =>
    rw [contents_concat]
    -- clearing forgets all stores, so that it is dealt with before anything is said about `a`
    by_cases hclear : a.isClear = true
    · cases a with
      | clear h => simp [lastStore, sinceClear_clear, Action.onMap]
      | «open» | store | load | info | overwrite => cases hclear
    have hclear : a.isClear = false := by simpa using hclear
    rw [sinceClear_concat hclear] at h
    have hbefore := ih fun bytes hmem => h bytes (List.mem_append_left _ hmem)
    rw [lastStore_concat hclear]
    cases a with
    | clear => cases hclear
    | store h commit value =>
      rw [Action.onMap, Action.storeInto?]
      by_cases hslot : slotName commit = slot
      · simp [hslot]
      · simp [hslot, Function.update_of_ne (Ne.symm hslot), hbefore]
    | overwrite other bytes =>
      have hother : slot ≠ other := by
        rintro rfl
        exact h bytes (by simp)
      rw [Action.onMap]
      split
      · rw [Function.update_of_ne hother, hbefore]
        rfl
      · exact hbefore
    | «open» | load | info => exact hbefore

/-! ## Directories that hold a map of slots -/

/-- No slot is taken: no file is at the directory or above it, nothing is where a slot could be,
and no directory holds an entry. Other files and directories may be there. The directory itself need
not be there, but its names are not too long. -/
structure Vacant (dir : FilePath) (t : FileTree) : Prop where
  fits : dir.Fits
  above : ∀ p, p <+: dir → t.bytesAt p = none
  slots : ∀ slot p, IsHex slot → dir ++ [slot] <+: p → t.get? p = none
  entries : ∀ name, t.bytesAt (dir ++ [name, entryName]) = none

/-- The directory has a slot for every name that the map takes, with an entry and nothing else. All
that is elsewhere is as it was at the start. -/
structure Holds (dir : FilePath) (start : FileTree) (m : SlotMap) (t : FileTree) : Prop where
  hex : ∀ slot, m slot ≠ none → IsHex slot
  above : ∀ p, p <+: dir → t.bytesAt p = none
  root : ∀ slot, m slot ≠ none → t.get? dir = some .directory
  slot : ∀ slot, m slot ≠ none → t.get? (dir ++ [slot]) = some .directory
  inside : ∀ slot p, m slot ≠ none → dir ++ [slot] <+: p → p ≠ dir ++ [slot] →
    t.get? p = if p = dir ++ [slot, entryName] then (m slot).map .file else none
  outside : ∀ p, ¬p <+: dir → (∀ slot, m slot ≠ none → ¬dir ++ [slot] <+: p) →
    t.get? p = start.get? p

section Paths

variable {dir p : FilePath} {slot slot' : String}

/-- No path is in two slots. -/
theorem slot_unique (h : dir ++ [slot] <+: p) (h' : dir ++ [slot'] <+: p) : slot = slot' := by
  have hshort := List.prefix_of_prefix_length_le h h' (by simp)
  have heq := hshort.eq_of_length (by simp)
  simpa using heq

theorem not_prefix_of_below (h : dir ++ [slot] <+: p) : ¬p <+: dir := by
  intro hp
  exact FilePath.not_child_prefix dir slot (h.trans hp)

theorem below_entry (dir : FilePath) (slot name : String) : dir ++ [slot] <+: dir ++ [slot, name] :=
  ⟨[name], by simp⟩

theorem below_ne (dir : FilePath) (slot name : String) : dir ++ [slot, name] ≠ dir ++ [slot] := by
  simp

end Paths

variable {dir : FilePath} {m : SlotMap} {t t' : FileTree} {slot : String} {p : FilePath}

namespace Holds

/-- Where a slot is not taken, everything is as it was at the start. -/
theorem get?_free (h : Holds dir start m t) (hfree : m slot = none) (hp : dir ++ [slot] <+: p) :
    t.get? p = start.get? p := by
  refine h.outside p (not_prefix_of_below hp) ?_
  intro other hother hbelow
  rw [slot_unique hbelow hp] at hother
  exact hother hfree

/-- What is in a slot, taken or not. -/
theorem get?_below (h : Holds dir start m t) (hvacant : Vacant dir start) (hslot : IsHex slot)
    (hp : dir ++ [slot] <+: p) (hne : p ≠ dir ++ [slot]) :
    t.get? p = if p = dir ++ [slot, entryName] then (m slot).map .file else none := by
  by_cases htaken : m slot = none
  · rw [h.get?_free htaken hp, hvacant.slots slot p hslot hp, htaken]
    simp
  · exact h.inside slot p htaken hp hne

/-- Where the directory has an entry, the map has its bytes. -/
theorem bytesAt_entry (h : Holds dir start m t) (hvacant : Vacant dir start) (slot : String) :
    t.bytesAt (dir ++ [slot, entryName]) = m slot := by
  by_cases hslot : IsHex slot
  · have hget := h.get?_below hvacant hslot (below_entry dir slot entryName) (below_ne _ _ _)
    rw [if_pos rfl] at hget
    rw [FileTree.bytesAt, hget]
    cases m slot <;> rfl
  · have htaken : m slot = none := by
      by_contra hne
      exact hslot (h.hex slot hne)
    have hget := h.get?_free htaken (below_entry dir slot entryName)
    rw [FileTree.bytesAt_congr hget, hvacant.entries, htaken]

theorem bytesAt_slot (h : Holds dir start m t) (hvacant : Vacant dir start) (hslot : IsHex slot) :
    t.bytesAt (dir ++ [slot]) = none := by
  by_cases htaken : m slot = none
  · rw [FileTree.bytesAt, h.get?_free htaken (List.prefix_refl _),
      hvacant.slots slot _ hslot (List.prefix_refl _)]
    rfl
  · rw [FileTree.bytesAt, h.slot slot htaken]
    rfl

theorem init (hvacant : Vacant dir start) : Holds dir start (fun _ => none) start where
  hex _ h := absurd rfl h
  above := hvacant.above
  root _ h := absurd rfl h
  slot _ h := absurd rfl h
  inside _ _ h := absurd rfl h
  outside _ _ _ := rfl

/-- Nothing is ever in the way of a store. -/
theorem unblocked {c : CommitCache} {commit : String} (h : Holds (.ofText c.root) start m t)
    (hvacant : Vacant (.ofText c.root) start) (hcommit : IsHex commit) : Unblocked c commit t := by
  have hdir := slotDir_eq (c := c) hcommit.slotName.isFileName
  have hbelow (name : String) : t.get? (.ofText c.root ++ [slotName commit, name]) ≠
      some .directory := by
    rw [h.get?_below hvacant hcommit.slotName (below_entry _ _ _) (below_ne _ _ _)]
    split
    · cases m (slotName commit) <;> simp
    · simp
  constructor
  · rw [hdir]
    exact FilePath.fits_append.2
      ⟨hvacant.fits, List.forall_mem_singleton.2 hcommit.nameFits_slotName⟩
  · rw [hdir]
    intro q hq hne
    rcases List.prefix_concat_iff.1 hq with heq | hq
    · exact absurd heq hne
    · exact h.above q hq
  · rw [hdir]
    exact h.bytesAt_slot hvacant hcommit.slotName
  · rw [hdir, List.append_assoc]
    exact hbelow entryName
  · rw [hdir, List.append_assoc]
    exact hbelow c.draftName

/-! ### Steps -/

theorem makeRoot (h : Holds dir start m t) (hmake : t.makeDirs dir = .ok t') :
    Holds dir start m t' := by
  have hget := FileTree.get?_makeDirs hmake
  have hbelow {slot : String} {p : FilePath} (hp : dir ++ [slot] <+: p) : t'.get? p = t.get? p := by
    rw [hget, if_neg (not_prefix_of_below hp)]
  constructor
  · exact h.hex
  · intro p hp
    rw [FileTree.bytesAt_makeDirs hmake]
    exact h.above p hp
  · intro slot _
    rw [hget, if_pos (List.prefix_refl _)]
  · intro slot htaken
    rw [hbelow (List.prefix_refl _)]
    exact h.slot slot htaken
  · intro slot p htaken hp hne
    rw [hbelow hp]
    exact h.inside slot p htaken hp hne
  · intro p hp hfree
    rw [hget, if_neg hp]
    exact h.outside p hp hfree

/-- A store puts its document into the map. -/
theorem store {c : CommitCache} {commit : String} {bytes : ByteArray}
    (h : Holds (.ofText c.root) start m t) (hvacant : Vacant (.ofText c.root) start)
    (hcommit : IsHex commit)
    (hget : ∀ p, t'.get? p = if p = c.slotDir commit ++ [entryName] then some (.file bytes)
      else if p = c.slotDir commit ++ [c.draftName] then none
      else if p <+: c.slotDir commit then some .directory else t.get? p) :
    Holds (.ofText c.root) start (Function.update m (slotName commit) (some bytes)) t' := by
  rw [slotDir_eq hcommit.slotName.isFileName] at hget
  simp only [List.append_assoc, List.singleton_append] at hget
  -- what is not in the slot is as before, but for the directories above
  have hother {p : FilePath} (hp : ¬FilePath.ofText c.root ++ [slotName commit] <+: p) : t'.get? p =
      if p <+: FilePath.ofText c.root then some .directory else t.get? p := by
    have hfile (name : String) : p ≠ FilePath.ofText c.root ++ [slotName commit, name] := by
      rintro rfl
      exact hp (below_entry _ _ _)
    rw [hget, if_neg (hfile _), if_neg (hfile _)]
    refine if_congr ?_ rfl rfl
    rw [List.prefix_concat_iff]
    constructor
    · rintro (rfl | hp')
      · exact absurd (List.prefix_refl _) hp
      · exact hp'
    · exact .inr
  -- in particular in all other slots
  have helse {slot : String} {p : FilePath} (hslot : slot ≠ slotName commit)
      (hp : FilePath.ofText c.root ++ [slot] <+: p) : t'.get? p = t.get? p := by
    rw [hother fun hp' => hslot (slot_unique hp hp'), if_neg (not_prefix_of_below hp)]
  have habove {p : FilePath} (hp : p <+: FilePath.ofText c.root) : t'.get? p = some .directory := by
    rw [hother fun hp' => not_prefix_of_below hp' hp, if_pos hp]
  constructor
  · intro slot htaken
    by_cases hslot : slot = slotName commit
    · rw [hslot]
      exact hcommit.slotName
    · rw [Function.update_of_ne hslot] at htaken
      exact h.hex slot htaken
  · intro p hp
    rw [FileTree.bytesAt, habove hp]
    rfl
  · exact fun _ _ => habove (List.prefix_refl _)
  · intro slot htaken
    by_cases hslot : slot = slotName commit
    · rw [hslot, hget, if_neg (Ne.symm (below_ne _ _ _)), if_neg (Ne.symm (below_ne _ _ _)),
        if_pos (List.prefix_refl _)]
    · rw [Function.update_of_ne hslot] at htaken
      rw [helse hslot (List.prefix_refl _)]
      exact h.slot slot htaken
  · intro slot p htaken hp hne
    by_cases hslot : slot = slotName commit
    · -- the slot was empty or had an old entry; both give way, and the draft is gone
      subst hslot
      have hlong : ¬p <+: FilePath.ofText c.root ++ [slotName commit] := by
        intro hp'
        exact hne (hp'.eq_of_length_le hp.length_le)
      rw [hget, if_neg hlong, h.get?_below hvacant hcommit.slotName hp hne, Function.update_self]
      split
      · rfl
      · split <;> rfl
    · rw [Function.update_of_ne hslot] at htaken ⊢
      rw [helse hslot hp]
      exact h.inside slot p htaken hp hne
  · intro p hp hfree
    rw [hother (hfree _ (by simp)), if_neg hp]
    refine h.outside p hp ?_
    intro slot htaken
    refine hfree slot ?_
    by_cases hslot : slot = slotName commit
    · simp [hslot]
    · rw [Function.update_of_ne hslot]
      exact htaken

/-- An entry that is overwritten has other bytes in the map. -/
theorem overwrite {bytes : ByteArray} (h : Holds dir start m t) (htaken : m slot ≠ none) :
    Holds dir start (Function.update m slot (some bytes))
      (t.set (dir ++ [slot, entryName]) (some (.file bytes))) := by
  have hkeys : ∀ other, Function.update m slot (some bytes) other ≠ none ↔ m other ≠ none := by
    intro other
    by_cases hother : other = slot
    · simp [hother, htaken]
    · rw [Function.update_of_ne hother]
  have hget {p : FilePath} (hp : p ≠ dir ++ [slot, entryName]) :
      (t.set (dir ++ [slot, entryName]) (some (.file bytes))).get? p = t.get? p :=
    FileTree.get?_set_ne hp _
  constructor
  · exact fun other hother => h.hex other ((hkeys other).1 hother)
  · intro p hp
    rw [FileTree.bytesAt_congr (hget ?_)]
    · exact h.above p hp
    · rintro rfl
      exact not_prefix_of_below (below_entry dir slot entryName) hp
  · intro other hother
    rw [hget (by simp)]
    exact h.root other ((hkeys other).1 hother)
  · intro other hother
    rw [hget ?_]
    · exact h.slot other ((hkeys other).1 hother)
    · intro heq
      simpa using congrArg List.length heq
  · intro other p hother hp hne
    by_cases hentry : p = dir ++ [slot, entryName]
    · subst hentry
      obtain rfl := slot_unique hp (below_entry dir slot entryName)
      rw [if_pos rfl, Function.update_self, FileTree.get?_set_self (by simp)]
      rfl
    · rw [hget hentry, h.inside other p ((hkeys other).1 hother) hp hne]
      by_cases hslot : other = slot
      · subst hslot
        rw [if_neg hentry, if_neg hentry]
      · rw [Function.update_of_ne hslot]
  · intro p hp hfree
    rw [hget ?_]
    · exact h.outside p hp fun other hother => hfree other ((hkeys other).2 hother)
    · rintro rfl
      exact hfree slot ((hkeys slot).2 htaken) (below_entry dir slot entryName)

/-- Removing all slots empties the map. -/
theorem removeSlots (h : Holds dir start m t) (hvacant : Vacant dir start)
    (hremoved : ∀ p slot, m slot ≠ none → dir ++ [slot] <+: p → t'.get? p = none)
    (hkept : ∀ p, (∀ slot, m slot ≠ none → ¬dir ++ [slot] <+: p) → t'.get? p = t.get? p) :
    Holds dir start (fun _ => none) t' := by
  constructor
  · exact fun _ hne => absurd rfl hne
  · intro p hp
    rw [FileTree.bytesAt_congr (hkept p fun _ _ hbelow => not_prefix_of_below hbelow hp)]
    exact h.above p hp
  · exact fun _ hne => absurd rfl hne
  · exact fun _ hne => absurd rfl hne
  · exact fun _ _ hne => absurd rfl hne
  · intro p hp _
    -- a slot that is removed was not there at the start
    by_cases hbelow : ∃ slot, m slot ≠ none ∧ dir ++ [slot] <+: p
    · obtain ⟨slot, htaken, hbelow⟩ := hbelow
      rw [hremoved p slot htaken hbelow, hvacant.slots slot p (h.hex slot htaken) hbelow]
    · have hfree : ∀ slot, m slot ≠ none → ¬dir ++ [slot] <+: p :=
        fun slot htaken hslot => hbelow ⟨slot, htaken, hslot⟩
      rw [hkept p hfree]
      exact h.outside p hp hfree

end Holds

/-! ## Listing and clearing -/

theorem slots_of_nameless {c : CommitCache} (hname : c.root = "") : c.slots t = .ok [] :=
  if_pos hname

/-- If documents lie in directories, the slots that are found are the names with a document. -/
theorem slots_of_open {c : CommitCache} (hname : c.root ≠ "") (hopen : t.Open (.ofText c.root))
    (hroot : t.bytesAt (.ofText c.root) = none)
    (hground : ∀ name, t.bytesAt (.ofText c.root ++ [name, entryName]) ≠ none →
      t.get? (.ofText c.root) = some .directory ∧
        t.get? (.ofText c.root ++ [name]) = some .directory) :
    ∃ names, c.slots t = .ok names ∧ Ascending names ∧
      ∀ name, name ∈ names ↔ t.bytesAt (.ofText c.root ++ [name, entryName]) ≠ none := by
  rcases FileTree.bytesAt_eq_none_iff.1 hroot with hnone | hdir
  · refine ⟨[], ?_, List.Pairwise.nil, ?_⟩
    · rw [slots, if_neg hname, FileTree.names_missing hopen hnone]
    · intro name
      refine iff_of_false List.not_mem_nil ?_
      intro hfile
      rw [(hground name hfile).1] at hnone
      cases hnone
  · obtain ⟨names, hnames⟩ := FileTree.names_ok hopen hdir
    refine ⟨names.filter fun name => t.isFile (.ofText c.root ++ [name, entryName]), ?_, ?_, ?_⟩
    · rw [slots, if_neg hname, hnames]
    · exact List.Pairwise.filter _ (FileTree.ascending_names hnames)
    · intro name
      rw [List.mem_filter, FileTree.mem_names hnames, Ne, Ne, ← FileTree.isFile_eq_false_iff,
        Bool.not_eq_false]
      refine and_iff_right_of_imp ?_
      intro hfile
      rw [← Bool.not_eq_false, FileTree.isFile_eq_false_iff] at hfile
      rw [(hground name hfile).2]
      simp

/-- The slots that are found are those of the map, each once. -/
theorem Holds.slots_ok {c : CommitCache} (h : Holds (.ofText c.root) start m t)
    (hvacant : Vacant (.ofText c.root) start) (hname : c.root ≠ "") :
    ∃ names, c.slots t = .ok names ∧ names.Nodup ∧ ∀ slot, slot ∈ names ↔ m slot ≠ none := by
  have hopen : t.Open (.ofText c.root) := fun q hq _ => h.above q hq
  have hentry := h.bytesAt_entry hvacant
  obtain ⟨names, hslots, hascending, hmem⟩ :=
    slots_of_open hname hopen (h.above _ (List.prefix_refl _)) fun slot hfile => by
      rw [hentry] at hfile
      exact ⟨h.root slot hfile, h.slot slot hfile⟩
  refine ⟨names, hslots, hascending.nodup, ?_⟩
  intro slot
  rw [hmem, hentry]

theorem get?_removeSlots (dir : FilePath) (names : List String) (t : FileTree) (p : FilePath) :
    (names.foldl (fun t name => t.removeAll (dir ++ [name])) t).get? p =
      if ∃ name ∈ names, dir ++ [name] <+: p then none else t.get? p := by
  induction names generalizing t with
  | nil => simp
  | cons name names ih =>
    rw [List.foldl_cons, ih, FileTree.get?_removeAll (by simp)]
    by_cases hlater : ∃ name ∈ names, dir ++ [name] <+: p
    · rw [if_pos hlater, if_pos]
      obtain ⟨other, hother, hp⟩ := hlater
      exact ⟨other, List.mem_cons_of_mem _ hother, hp⟩
    · rw [if_neg hlater]
      refine if_congr ?_ rfl rfl
      constructor
      · exact fun hp => ⟨name, List.mem_cons_self, hp⟩
      · rintro ⟨other, hother, hp⟩
        rcases List.mem_cons.1 hother with rfl | hother
        · exact hp
        · exact absurd ⟨other, hother, hp⟩ hlater

/-- Clearing removes the slots of the map and nothing else. -/
theorem Holds.clear_ok {c : CommitCache} (h : Holds (.ofText c.root) start m t)
    (hvacant : Vacant (.ofText c.root) start) (hname : c.root ≠ "") :
    ∃ (names : List String) (t' : FileTree), c.clear t = .ok (names.length, t') ∧ names.Nodup ∧
      (∀ slot, slot ∈ names ↔ m slot ≠ none) ∧
      (∀ p, t'.get? p =
        if ∃ name ∈ names, FilePath.ofText c.root ++ [name] <+: p then none else t.get? p) ∧
      Holds (.ofText c.root) start (fun _ => none) t' := by
  obtain ⟨names, hslots, hnodup, hmem⟩ := h.slots_ok hvacant hname
  have hget := get?_removeSlots (.ofText c.root) names t
  refine ⟨names, _, ?_, hnodup, hmem, hget, h.removeSlots hvacant ?_ ?_⟩
  · simp only [CommitCache.clear, hslots, bind, Except.bind, pure, Except.pure]
  · intro p slot htaken hp
    rw [hget, if_pos ⟨slot, (hmem slot).2 htaken, hp⟩]
  · intro p hfree
    rw [hget, if_neg]
    rintro ⟨slot, hslot, hp⟩
    exact hfree slot ((hmem slot).1 hslot) hp

theorem sum_filterMap (f : String → Option Nat) (names : List String) :
    (names.filterMap f).sum = (names.map fun name => (f name).getD 0).sum := by
  induction names with
  | nil => rfl
  | cons name names ih =>
    cases hname : f name with
    | none => simp [hname, ih]
    | some n => simp [hname, ih]

/-- The sizes that are counted are those of the map. -/
theorem Holds.info_ok {c : CommitCache} (h : Holds (.ofText c.root) start m t)
    (hvacant : Vacant (.ofText c.root) start) (hname : c.root ≠ "") :
    ∃ names : List String, names.Nodup ∧ (∀ slot, slot ∈ names ↔ m slot ≠ none) ∧ c.info t =
      .ok ⟨names.length, (names.map fun name => (m name).elim 0 (·.size)).sum⟩ := by
  obtain ⟨names, hslots, hnodup, hmem⟩ := h.slots_ok hvacant hname
  have hsizes : (names.filterMap fun name =>
      (t.bytesAt (.ofText c.root ++ [name, entryName])).map (·.size)) =
      names.filterMap fun name => (m name).map (·.size) := by
    simp only [h.bytesAt_entry hvacant]
  have hinfo : c.info t = .ok ⟨names.length, (names.filterMap fun name =>
      (t.bytesAt (.ofText c.root ++ [name, entryName])).map (·.size)).sum⟩ := by
    simp only [info, hslots, bind, Except.bind, pure, Except.pure]
    rfl
  refine ⟨names, hnodup, hmem, ?_⟩
  rw [hinfo, hsizes, sum_filterMap]
  congr 4
  funext name
  cases m name <;> rfl

/-! ## All actions -/

theorem Holds.onFiles (h : Holds (.ofText root) start m t) (hvacant : Vacant (.ofText root) start)
    (hname : root ≠ "")
    (ha : ∀ handle commit value, a = .store handle commit value → IsHex commit) :
    Holds (.ofText root) start (a.onMap encode root m) (a.onFiles encode root t) := by
  cases a with
  | «open» handle =>
    rw [Action.onFiles, Action.onMap]
    split
    · rename_i hopen
      exact h.makeRoot (open_ok hopen).1
    · rename_i hopen
      obtain ⟨e, hmake⟩ := makeDirs_of_open_error hopen
      rw [FileTree.makeHalfway_of_fits hvacant.fits hmake]
      exact h
  | store handle commit value =>
    have hcommit := ha handle commit value rfl
    have hroot : Holds (.ofText (handle.on root).root) start m t := h
    obtain ⟨t', hstore, hget⟩ := storeFrom_unblocked (hroot.unblocked hvacant hcommit)
      ((handle.on root).documentBytes commit (encode value))
    rw [Action.onFiles, Action.onMap, CommitCache.store, hstore]
    exact hroot.store hvacant hcommit hget
  | load | info => exact h
  | clear handle =>
    have hroot : Holds (.ofText (handle.on root).root) start m t := h
    obtain ⟨names, t', hclear, -, -, -, hempty⟩ := hroot.clear_ok hvacant hname
    rw [Action.onFiles, Action.onMap, hclear]
    exact hempty
  | overwrite slot bytes =>
    have hentry : t.isFile (.ofText root ++ [slot, entryName]) = (m slot).isSome := by
      rw [← h.bytesAt_entry hvacant slot, Bool.eq_iff_iff, Option.isSome_iff_ne_none, Ne,
        ← FileTree.isFile_eq_false_iff, Bool.not_eq_false]
    rw [Action.onFiles, Action.onMap, hentry]
    split
    · rename_i htaken
      exact h.overwrite (Option.isSome_iff_ne_none.1 htaken)
    · exact h

/-- The files of the directory are those of the map, whatever has happened. -/
theorem holds_filesAfter (hvacant : Vacant (.ofText root) start) (hname : root ≠ "")
    (hhex : ∀ handle commit value, .store handle commit value ∈ history → IsHex commit) :
    Holds (.ofText root) start (contents encode root history)
      (filesAfter encode root start history) := by
  induction history using List.reverseRecOn with
  | nil => exact Holds.init hvacant
  | append_singleton history a ih =>
    rw [filesAfter_concat, contents_concat]
    refine Holds.onFiles (ih ?_) hvacant hname ?_
    · intro handle commit value hmem
      exact hhex handle commit value (List.mem_append_left _ hmem)
    · rintro handle commit value rfl
      exact hhex handle commit value (by simp)

/-! ## What the actions return -/

theorem Holds.load_ok {c : CommitCache} {commit : String} {d : Json.Decoder α}
    (h : Holds (.ofText c.root) start m t) (hvacant : Vacant (.ofText c.root) start)
    (hcommit : IsHex commit) : ∃ found, c.load d commit t = .ok found := by
  have hfree := h.unblocked hvacant hcommit
  exact load_ok_iff.2 ⟨hfree.above.child hfree.slot _, hfree.entry, fun _ => hfree.fits⟩

theorem Holds.load_iff {c : CommitCache} {commit : String} {d : Json.Decoder α} {v : α}
    (h : Holds (.ofText c.root) start m t) (hvacant : Vacant (.ofText c.root) start)
    (hcommit : IsHex commit) : c.load d commit t = .ok (some v) ↔
      ∃ bytes, m (slotName commit) = some bytes ∧ c.accept? d commit bytes = some v := by
  have hfree := h.unblocked hvacant hcommit
  have hentry : t.bytesAt (c.slotDir commit ++ [entryName]) = m (slotName commit) := by
    rw [slotDir_eq hcommit.slotName.isFileName, List.append_assoc]
    exact h.bytesAt_entry hvacant (slotName commit)
  rw [load_some_iff, hentry]
  exact and_iff_right (hfree.above.child hfree.slot _)

/-- The slots that are taken in the end, counted. -/
theorem toFinset_eq_storedSlots {names : List String}
    (h : ∀ slot, slot ∈ names ↔ contents encode root history slot ≠ none) :
    names.toFinset = storedSlots history := by
  ext slot
  rw [List.mem_toFinset, h, mem_storedSlots]

/-- A directory that is used through handles is a map of slots. -/
structure RefinesSlotMap (d : Json.Decoder α) (encode : α → Json) (root : String)
    (start : FileTree) (history : List (Action α)) : Prop where
  /-- The entries are those of the map. -/
  entries : ∀ slot, (filesAfter encode root start history).bytesAt
    (.ofText root ++ [slot, entryName]) = contents encode root history slot
  open_ok : ∀ h : Handle, ∃ t', CommitCache.open root h.fingerprint h.process
    (filesAfter encode root start history) = .ok (h.on root, t')
  store_ok : ∀ (h : Handle) commit impact, IsHex commit →
    ((h.on root).store commit impact (filesAfter encode root start history)).2 =
      .ok ((h.on root).entryPath commit)
  load_ok : ∀ (h : Handle) commit, IsHex commit →
    ∃ found, (h.on root).load d commit (filesAfter encode root start history) = .ok found
  /-- A load returns what the bytes of the slot say about the commit. -/
  load_iff : ∀ (h : Handle) commit v, IsHex commit →
    ((h.on root).load d commit (filesAfter encode root start history) = .ok (some v) ↔
      ∃ bytes doc, contents encode root history (slotName commit) = some bytes ∧
        Document.parse? d bytes = some doc ∧ doc.commit = commit ∧
        doc.fingerprint = fingerprintText h.fingerprint ∧ doc.impact = v)
  /-- Where nobody has overwritten the slot, a load returns what was last stored into it, if this
  was stored for the commit and under the fingerprint. -/
  load_last : ∀ (h : Handle) commit v, IsHex commit →
    (∀ bytes, .overwrite (slotName commit) bytes ∉ sinceClear history) →
    ((h.on root).load d commit (filesAfter encode root start history) = .ok (some v) ↔
      ∃ writer : Handle, writer.fingerprint = h.fingerprint ∧
        lastStore history (slotName commit) = some ⟨writer, commit, v⟩)
  info_eq : ∀ h : Handle, (h.on root).info (filesAfter encode root start history) =
    .ok ⟨(storedSlots history).card,
      ∑ slot ∈ storedSlots history, (contents encode root history slot).elim 0 (·.size)⟩
  /-- Clearing returns the number of slots and removes them, and leaves everything else alone. -/
  clear_ok : ∀ h : Handle, ∃ t', (h.on root).clear (filesAfter encode root start history) =
      .ok ((storedSlots history).card, t') ∧
    (∀ slot, t'.bytesAt (.ofText root ++ [slot, entryName]) = none) ∧
    ∀ p, t'.get? p = if ∃ slot ∈ storedSlots history, FilePath.ofText root ++ [slot] <+: p
      then none else (filesAfter encode root start history).get? p

/-- A directory without a name can be stored into and loaded from, but it cannot be listed, and so
its entries are neither counted nor cleared. -/
theorem nameless_uncounted {c : CommitCache} (hname : c.root = "") (t : FileTree) :
    c.info t = .ok ⟨0, 0⟩ ∧ c.clear t = .ok (0, t) := by
  have hslots : c.slots t = .ok [] := slots_of_nameless hname
  constructor
  · rw [info, hslots]
    rfl
  · rw [clear, hslots]
    rfl

/-- Whatever the handles and somebody outside have done to a directory in which no slot was taken,
it is a map of slots. The directory has a name: see `nameless_uncounted`. -/
theorem cache_refines_slot_map (d : Json.Decoder α) (encode : α → Json) (root : String)
    (start : FileTree) (history : List (Action α)) (hname : root ≠ "")
    (hvacant : Vacant (.ofText root) start)
    (hhex : ∀ handle commit value, .store handle commit value ∈ history → IsHex commit)
    (hvalues : ∀ handle commit value, .store handle commit value ∈ history →
      spelled d ((handle.on root).documentBytes commit (encode value)) = some value) :
    RefinesSlotMap d encode root start history := by
  have hholds : Holds (.ofText root) start (contents encode root history)
      (filesAfter encode root start history) := holds_filesAfter hvacant hname hhex
  constructor
  case entries => exact hholds.bytesAt_entry hvacant
  case open_ok =>
    intro h
    have hopen : (filesAfter encode root start history).Open (.ofText root) :=
      fun q hq _ => hholds.above q hq
    obtain ⟨t', hmake⟩ := FileTree.makeDirs_ok_iff.2
      ⟨hopen, hholds.above _ (List.prefix_refl _), hvacant.fits⟩
    exact ⟨t', by simp [CommitCache.open, hmake, fault, bind, Except.bind, pure, Except.pure,
      Handle.on]⟩
  case store_ok =>
    intro h commit impact hcommit
    obtain ⟨t', hstore, -⟩ := storeFrom_unblocked
      (hholds.unblocked (c := h.on root) hvacant hcommit) ((h.on root).documentBytes commit impact)
    rw [CommitCache.store, hstore]
  case load_ok => exact fun h commit hcommit => hholds.load_ok (c := h.on root) hvacant hcommit
  case load_iff =>
    intro h commit v hcommit
    rw [hholds.load_iff (c := h.on root) hvacant hcommit]
    simp only [accept?_eq_some_iff, ← exists_and_left]
    rfl
  case load_last =>
    intro h commit v hcommit huntouched
    rw [hholds.load_iff (c := h.on root) hvacant hcommit, contents_eq_lastStore huntouched]
    constructor
    · rintro ⟨bytes, hbytes, haccept⟩
      obtain ⟨⟨writer, other, value⟩, hlast, rfl⟩ := Option.map_eq_some_iff.1 hbytes
      -- the header is that of the store, and its texts tell commits and fingerprints apart
      obtain ⟨rfl, hfingerprint, hspelled⟩ := accept?_documentBytes.1 haccept
      have hvalue := hvalues writer other value (mem_of_lastStore hlast)
      obtain rfl : value = v := Option.some.inj (hvalue.symm.trans hspelled)
      exact ⟨writer, fingerprintText_inj hfingerprint, hlast⟩
    · rintro ⟨writer, hfingerprint, hlast⟩
      refine ⟨_, by rw [hlast]; rfl, accept?_documentBytes.2 ⟨rfl, ?_, ?_⟩⟩
      · exact congrArg fingerprintText hfingerprint
      · exact hvalues writer commit v (mem_of_lastStore hlast)
  case info_eq =>
    intro h
    obtain ⟨names, hnodup, hmem, hinfo⟩ := hholds.info_ok (c := h.on root) hvacant hname
    rw [hinfo, ← toFinset_eq_storedSlots hmem, List.toFinset_card_of_nodup hnodup,
      List.sum_toFinset _ hnodup]
  case clear_ok =>
    intro h
    obtain ⟨names, t', hclear, hnodup, hmem, hget, hempty⟩ :=
      hholds.clear_ok (c := h.on root) hvacant hname
    rw [← toFinset_eq_storedSlots hmem, List.toFinset_card_of_nodup hnodup]
    simp only [List.mem_toFinset]
    exact ⟨t', hclear, hempty.bytesAt_entry hvacant, hget⟩

/-- A directory with a file of somebody else. -/
def notedDirectory : FileTree :=
  ⟨[(["cache"], .directory), (["cache", "notes.txt"], .file "keep".toUTF8)]⟩

theorem vacant_notedDirectory : Vacant (.ofText "cache") notedDirectory := by
  have hroot : FilePath.ofText "cache" = ["cache"] := by decide
  rw [hroot]
  constructor
  · unfold FilePath.Fits
    decide
  · intro p hp
    rcases List.prefix_cons_iff.1 hp with rfl | ⟨rest, rfl, hrest⟩
    · rfl
    · rw [List.prefix_nil.1 hrest]
      rfl
  · rintro slot p hslot ⟨rest, rfl⟩
    have hnotes : (slot == "notes.txt") = false := by
      rw [beq_eq_false_iff_ne]
      rintro rfl
      exact absurd hslot (by decide)
    simp [FileTree.get?, notedDirectory, List.lookup_cons, hnotes]
  · intro name
    simp [FileTree.bytesAt, FileTree.get?, notedDirectory, List.lookup_cons]

/-- Two handles under different fingerprints. They share a slot, and another slot is spoiled. -/
def twoHandles : List (Action String) :=
  [.open ⟨7, 1⟩, .store ⟨7, 1⟩ "abcdef12" "u", .clear ⟨8, 2⟩, .store ⟨7, 1⟩ "abcdef12" "x",
    .store ⟨8, 2⟩ "abcdef13" "y", .store ⟨7, 1⟩ "0123" "z", .overwrite "0123" "spoiled".toUTF8,
    .load ⟨7, 1⟩ "abcdef12", .info ⟨8, 2⟩]

theorem cache_refines_slot_map_two_handles :
    (storedSlots twoHandles).card = 2 ∧
      RefinesSlotMap .text .str "cache" notedDirectory twoHandles := by
  refine ⟨by decide, cache_refines_slot_map .text .str "cache" notedDirectory twoHandles
    (by decide) vacant_notedDirectory ?_ ?_⟩
  · intro handle commit value hmem
    simp only [twoHandles, List.mem_cons, List.not_mem_nil, reduceCtorEq, Action.store.injEq,
      false_or, or_false] at hmem
    rcases hmem with ⟨-, rfl, -⟩ | ⟨-, rfl, -⟩ | ⟨-, rfl, -⟩ | ⟨-, rfl, -⟩
    all_goals decide
  · intro handle commit value hmem
    simp only [twoHandles, List.mem_cons, List.not_mem_nil, reduceCtorEq, Action.store.injEq,
      false_or, or_false] at hmem
    rcases hmem with ⟨rfl, rfl, rfl⟩ | ⟨rfl, rfl, rfl⟩ | ⟨rfl, rfl, rfl⟩ | ⟨rfl, rfl, rfl⟩
    all_goals decide +kernel

end CommitCache

end ChangeImpact
