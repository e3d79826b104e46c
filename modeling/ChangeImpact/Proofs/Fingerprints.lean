import ChangeImpact.Config.Analysis
import ChangeImpact.Proofs.MintedNames
import ChangeImpact.Proofs.SlotMap

/-!
# Bounds and their fingerprints

The fingerprint of the bounds of an analysis is the hash of a text that names all of them. The scope
stands in it as it is, so it may hold the very words that follow it. The text is unambiguous all
the same: the numbers in front of the scope end at the first semicolon, and what follows the scope
has no semicolon after its own, so that the last marker is the one that was written.

* `number_mark_inj` — a number ends at the semicolon behind it;
* `splitLast_scope` — the last marker stands behind the scope;
* `Analysis.canonical_inj` — equal texts come from equal bounds;
* `ToldApart`, `canonical_tells_apart` — so caches under different bounds share a document only if
  two texts have one hash.
-/

namespace ChangeImpact

namespace Config

variable {a b : Analysis}

/-! ## Parts of the text -/

/-- Digits up to a character that is none can be read in one way only. -/
theorem digits_semicolon_inj {xs ys rest rest' : List Char} (hxs : ∀ c ∈ xs, c.isDigit = true)
    (hys : ∀ c ∈ ys, c.isDigit = true) (h : xs ++ ';' :: rest = ys ++ ';' :: rest') :
    xs = ys ∧ rest = rest' := by
  induction xs generalizing ys with
  | nil =>
    cases ys with
    | nil => exact ⟨rfl, (List.cons.inj h).2⟩
    | cons y ys =>
      obtain ⟨rfl, -⟩ := List.cons.inj h
      exact absurd (hys ';' List.mem_cons_self) (by decide)
  | cons x xs ih =>
    cases ys with
    | nil =>
      obtain ⟨rfl, -⟩ := List.cons.inj h
      exact absurd (hxs ';' List.mem_cons_self) (by decide)
    | cons y ys =>
      obtain ⟨rfl, htail⟩ := List.cons.inj h
      obtain ⟨rfl, hrest⟩ := ih (fun c hc => hxs c (List.mem_cons_of_mem _ hc))
        (fun c hc => hys c (List.mem_cons_of_mem _ hc)) htail
      exact ⟨rfl, hrest⟩

/-- A number in front of a mark that begins with a semicolon. -/
theorem number_mark_inj {m n : Nat} {mark tail rest rest' : List Char} (hmark : mark = ';' :: tail)
    (h : (toString m).toList ++ (mark ++ rest) = (toString n).toList ++ (mark ++ rest')) :
    m = n ∧ rest = rest' := by
  subst hmark
  obtain ⟨hdigits, hrest⟩ := digits_semicolon_inj (fun _ => Method.isDigit_of_mem_toString)
    (fun _ => Method.isDigit_of_mem_toString) h
  exact ⟨Method.toString_inj hdigits, List.append_cancel_left hrest⟩

/-- The characters of a number that may be missing. -/
theorem toList_optionalText (o : Option Nat) : (optionalText o).toList =
    o.elim "None".toList fun n => "Some(".toList ++ (toString n).toList ++ [')'] := by
  cases o with
  | none => rfl
  | some n => rw [optionalText, String.toList_append, String.toList_append]; rfl

theorem semicolon_not_mem_optionalText (o : Option Nat) : ';' ∉ (optionalText o).toList := by
  rw [toList_optionalText]
  cases o with
  | none => decide
  | some n =>
    simp only [Option.elim_some, List.mem_append, not_or]
    exact ⟨⟨by decide, fun h => absurd (Method.isDigit_of_mem_toString h) (by decide)⟩, by decide⟩

theorem optionalText_inj {o o' : Option Nat}
    (h : (optionalText o).toList = (optionalText o').toList) : o = o' := by
  rw [toList_optionalText, toList_optionalText] at h
  cases o with
  | none =>
    cases o' with
    | none => rfl
    | some n => cases h
  | some m =>
    cases o' with
    | none => cases h
    | some n =>
      simp only [Option.elim_some, List.append_assoc, List.append_cancel_left_eq] at h
      rw [Method.toString_inj (List.append_cancel_right h)]

/-- What stands between the scope and the number behind it. -/
def scopeEnd : List Char := ";gap_search_depth=".toList

/-- The last marker is the one behind the scope, whatever the scope holds. -/
theorem splitLast_scope (scope : List Char) (o : Option Nat) :
    Text.splitLast scopeEnd (scope ++ scopeEnd ++ (optionalText o).toList) =
      some (scope, (optionalText o).toList) := by
  have hend : scopeEnd = ';' :: "gap_search_depth=".toList := rfl
  rw [hend]
  refine Text.splitLast_numbered (Text.splitLast_of_not_mem ?_) scope
  rw [List.mem_append, not_or]
  exact ⟨by decide, semicolon_not_mem_optionalText o⟩

/-! ## The whole text -/

theorem toList_joined (s₁ s₂ s₃ s₄ s₅ s₆ s₇ s₈ : String) :
    (s₁ ++ s₂ ++ s₃ ++ s₄ ++ s₅ ++ s₆ ++ s₇ ++ s₈).toList = s₁.toList ++ (s₂.toList ++ (s₃.toList ++
      (s₄.toList ++ (s₅.toList ++ (s₆.toList ++ s₇.toList ++ s₈.toList))))) := by
  simp only [String.toList_append, List.append_assoc]

theorem Analysis.toList_canonical (a : Analysis) : a.canonical.toList =
    "max_depth=".toList ++ ((toString a.maxDepth).toList ++ (";max_files=".toList ++
      ((toString a.maxFiles).toList ++ (";scope=".toList ++
        (a.scope.toList ++ scopeEnd ++ (optionalText a.gapSearchDepth).toList))))) :=
  toList_joined ..

/-- Equal texts come from equal bounds. -/
theorem Analysis.canonical_inj (h : a.canonical = b.canonical) : a = b := by
  have htext := congrArg String.toList h
  rw [toList_canonical, toList_canonical] at htext
  obtain ⟨hdepth, hrest⟩ := number_mark_inj rfl (List.append_cancel_left htext)
  obtain ⟨hfiles, hrest⟩ := number_mark_inj rfl hrest
  have hlast := congrArg (Text.splitLast scopeEnd) hrest
  rw [splitLast_scope, splitLast_scope] at hlast
  obtain ⟨hscope, hgap⟩ := Prod.mk.inj (Option.some.inj hlast)
  obtain ⟨maxDepth, maxFiles, scope, gapSearchDepth⟩ := a
  rw [Analysis.mk.injEq]
  exact ⟨hdepth, hfiles, String.toList_inj.1 hscope, optionalText_inj hgap⟩

-- the scope of the first one ends like the text of the second one
example : (⟨1, 2, "a;gap_search_depth=None", none⟩ : Analysis).canonical =
    "max_depth=1;max_files=2;scope=a;gap_search_depth=None;gap_search_depth=None" := by
  decide +kernel

/-! ## Fingerprints -/

/-- Two texts have one hash. -/
def Collide (s t : String) : Prop :=
  s.toUTF8 ≠ t.toUTF8 ∧ Hash.xxh3 s.toUTF8 = Hash.xxh3 t.toUTF8

/-- Bounds have one fingerprint if they are equal or their texts collide. -/
theorem Analysis.fingerprint_eq_iff :
    a.fingerprint = b.fingerprint ↔ a = b ∨ Collide a.canonical b.canonical := by
  constructor
  · intro h
    by_cases htext : a.canonical.toUTF8 = b.canonical.toUTF8
    · exact .inl (canonical_inj (String.toByteArray_inj.1 htext))
    · exact .inr ⟨htext, h⟩
  · rintro (rfl | h)
    · rfl
    · exact h.2

/-- What tells two bounds apart. -/
structure ToldApart (a b : Analysis) : Prop where
  /-- The texts are equal if and only if all four bounds are. -/
  canonical : a.canonical = b.canonical ↔ a.maxDepth = b.maxDepth ∧ a.maxFiles = b.maxFiles ∧
    a.scope = b.scope ∧ a.gapSearchDepth = b.gapSearchDepth
  /-- The fingerprints are equal if and only if the bounds are or their texts collide. -/
  fingerprint : a.fingerprint = b.fingerprint ↔ a = b ∨ Collide a.canonical b.canonical
  /-- A cache that works under one of them and finds in a slot what was written under the other
  takes it for the commit if and only if it was written for this commit and the bounds are equal or
  their texts collide. -/
  shared : ∀ {α : Type} (d : Json.Decoder α) (writer reader : CommitCache) (t : FileTree)
    (commit other : String) (impact : Json) (v : α),
    writer.fingerprint = a.fingerprint → reader.fingerprint = b.fingerprint →
    t.Open (reader.slotDir commit ++ [CommitCache.entryName]) →
    t.bytesAt (reader.slotDir commit ++ [CommitCache.entryName]) =
      some (writer.documentBytes other impact) →
    (reader.load d commit t = .ok (some v) ↔
      other = commit ∧ (a = b ∨ Collide a.canonical b.canonical) ∧
        CommitCache.spelled d (writer.documentBytes other impact) = some v)

/-- For all bounds, whatever numbers they have and whatever their scopes hold. -/
theorem canonical_tells_apart (a b : Analysis) : ToldApart a b where
  canonical := by
    constructor
    · intro h
      rw [Analysis.canonical_inj h]
      exact ⟨rfl, rfl, rfl, rfl⟩
    · rintro ⟨hdepth, hfiles, hscope, hgap⟩
      unfold Analysis.canonical
      rw [hdepth, hfiles, hscope, hgap]
  fingerprint := Analysis.fingerprint_eq_iff
  shared := by
    intro α d writer reader t commit other impact v hwriter hreader hopen hbytes
    have htexts : fingerprintText writer.fingerprint = fingerprintText reader.fingerprint ↔
        a = b ∨ Collide a.canonical b.canonical := by
      rw [← Analysis.fingerprint_eq_iff, hwriter, hreader]
      exact ⟨fingerprintText_inj, congrArg fingerprintText⟩
    rw [← htexts, ← CommitCache.accept?_documentBytes, CommitCache.load_some_iff, hbytes]
    simp [hopen]

end Config

end ChangeImpact
