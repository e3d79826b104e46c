import ChangeImpact.Java.Model
import ChangeImpact.Proofs.DepthLaws
import ChangeImpact.Proofs.VertexNames

/-!
# What the name of a vertex tells

Whether a vertex was minted is asked of its name alone where gaps are sought. Every minted vertex is
recognised. An ordinary method is taken for a minted one if it is written with a name of the minted
form, as are the methods of a nested type `Outer$Anonymous1`, and then it has no gap.

* `Coverage.WorthTesting`, `Coverage.isBusiness_iff` — what is asked of a method beside the form of
  its name;
* `NamesRead`, `names_read` — which vertices are taken for what they are, and what the others miss;
* `nested_type_taken_for_anonymous` — a Java text with such a nested type.
-/

namespace ChangeImpact

namespace Coverage

/-- A method that calls for a test, whatever the form of its name: no test itself, no framework,
helper or accessor. -/
structure WorthTesting (tests : List Method) (m : Method) : Prop where
  noTest : m ∉ tests
  noFramework : isFramework m = false
  noUtility : isUtility m = false
  noAccessor : isAccessor m.name = false

theorem isBusiness_iff {tests : List Method} {m : Method} :
    isBusiness tests m = true ↔ ¬m.LooksMinted ∧ WorthTesting tests m := by
  unfold isBusiness
  rw [← Method.isSynthetic_iff]
  simp only [Bool.and_eq_true, Bool.not_eq_true', List.contains_eq_mem, decide_eq_false_iff_not,
    Bool.not_eq_true]
  constructor
  · rintro ⟨⟨⟨⟨htest, hform⟩, hframework⟩, hutility⟩, haccessor⟩
    exact ⟨hform, htest, hframework, hutility, haccessor⟩
  · rintro ⟨hform, htest, hframework, hutility, haccessor⟩
    exact ⟨⟨⟨⟨htest, hform⟩, hframework⟩, hutility⟩, haccessor⟩

end Coverage

namespace Build

open Coverage Impact

variable {u : SourceUnit} {x : Site} {s : MethodSpan}

/-- The spans of a unit are those of its declarations. -/
theorem mem_spans :
    s ∈ u.build.spans ↔ ∃ x ∈ sites u.files, (entryOf (sites u.files) x).span = s := by
  have hspans : u.build.spans = (entries u.files).map Entry.span := rfl
  rw [hspans, entries_eq, List.map_map, List.mem_map]
  rfl

/-- A span is misread if it is that of an ordinary method which is written like a minted one. -/
theorem misread_iff (all : List Site) (x : Site) :
    (entryOf all x).span.method.isSynthetic ≠ (entryOf all x).span.synthetic ↔
      x.declaration.kind = .method ∧ x.declaration.ownMethod.LooksMinted := by
  have hform : (entryOf all x).span.method.isSynthetic = true ↔
      x.declaration.kind ≠ .method ∨ x.declaration.ownMethod.LooksMinted := by
    rw [← Method.isSynthetic_iff]
    exact isSynthetic_vertexOf_iff
  have hkind : (entryOf all x).span.synthetic = true ↔ x.declaration.kind ≠ .method :=
    decide_eq_true_iff
  rw [Ne, Bool.eq_iff_iff, hform, hkind]
  tauto

/-- The methods that a report has gaps for. -/
theorem mem_report_gaps (u : SourceUnit) (config : Config.Analysis) (changed : List Method)
    (m : Method) :
    m ∈ ((Prepared.ofUnit u).report config changed).gaps.map (·.method) ↔
      ¬m.LooksMinted ∧
        (m ∈ changed ∨ m ∈ ((Prepared.ofUnit u).report config changed).result.impacted) ∧
        WorthTesting u.tests m ∧
        ¬Covered u.build.graph u.tests
          (some (config.gapSearchDepth.getD CallGraph.unbounded)) m := by
  have hgaps : m ∈ ((Prepared.ofUnit u).report config changed).gaps.map (·.method) ↔
      Demands u.tests changed ((Prepared.ofUnit u).report config changed).result.impacted m ∧
        ¬Covered u.build.graph u.tests
          (some (config.gapSearchDepth.getD CallGraph.unbounded)) m := mem_gap_methods
  rw [hgaps, Demands, isBusiness_iff]
  tauto

/-- What can be told of the declarations of a unit by the names of their vertices. -/
structure NamesRead (u : SourceUnit) : Prop where
  /-- No closure and no member of an anonymous class passes for an ordinary method. -/
  minted : ∀ s ∈ u.build.spans, s.synthetic = true → s.method.isSynthetic = true
  /-- The vertex of a declaration is misread if that is an ordinary method written like a minted
  one. -/
  misread : ∀ x ∈ sites u.files, ∃ s,
    u.build.spans[offset u.files x.file + x.place]? = some s ∧
      (s.method.isSynthetic ≠ s.synthetic ↔
        x.declaration.kind = .method ∧ x.declaration.ownMethod.LooksMinted)
  /-- No vertex is misread if no ordinary method is written like a minted one. -/
  agree : (∀ s ∈ u.build.spans, s.method.isSynthetic = s.synthetic) ↔
    ∀ f ∈ u.files, ∀ d ∈ f.declarations, d.kind = .method → ¬d.ownMethod.LooksMinted
  /-- A change leaves a gap where a method calls for a test and has none, but for those that look
  minted. -/
  gaps : ∀ (config : Config.Analysis) (changed : List Method) (m : Method),
    m ∈ ((Prepared.ofUnit u).report config changed).gaps.map (·.method) ↔
      ¬m.LooksMinted ∧
        (m ∈ changed ∨ m ∈ ((Prepared.ofUnit u).report config changed).result.impacted) ∧
        WorthTesting u.tests m ∧
        ¬Covered u.build.graph u.tests
          (some (config.gapSearchDepth.getD CallGraph.unbounded)) m

/-- The names of all minted vertices are recognised, and those of some ordinary methods. -/
theorem names_read (u : SourceUnit) : NamesRead u where
  minted := by
    intro s hs hsynthetic
    obtain ⟨x, -, rfl⟩ := mem_spans.1 hs
    exact isSynthetic_vertexOf_iff.2 (.inl (of_decide_eq_true hsynthetic))
  misread := by
    intro x hx
    exact ⟨_, getElem?_spans hx, misread_iff (sites u.files) x⟩
  agree := by
    constructor
    · intro hagree f hf d hd hkind hlooks
      obtain ⟨file, hfile⟩ := List.getElem?_of_mem hf
      obtain ⟨place, hplace⟩ := List.getElem?_of_mem hd
      have hx : (⟨file, place, f.path, d⟩ : Site) ∈ sites u.files :=
        mem_sites.2 ⟨f, hfile, rfl, hplace⟩
      exact (misread_iff _ _).2 ⟨hkind, hlooks⟩ (hagree _ (mem_spans.2 ⟨_, hx, rfl⟩))
    · intro hplain s hs
      obtain ⟨x, hx, rfl⟩ := mem_spans.1 hs
      obtain ⟨f, hf, -, hd⟩ := mem_sites.1 hx
      by_contra hmisread
      obtain ⟨hkind, hlooks⟩ := (misread_iff _ _).1 hmisread
      exact hplain f (List.mem_of_getElem? hf) _ (List.mem_of_getElem? hd) hkind hlooks
  gaps := mem_report_gaps u

/-- A nested type with the name that the first anonymous class would get. -/
def numberedType : SourceUnit :=
  (SourceUnit.load Java.model .default [⟨"Outer.java",
    ("class Outer \x7b\n  static class Anonymous1 \x7b\n    void save() \x7b\x7d\n  \x7d\n"
      ++ "\x7d\n").toUTF8⟩]).data

theorem numberedType_eq : numberedType =
    .ofFiles [⟨"Outer.java", [⟨"Outer$Anonymous1", "save", 3, 3, .method, [], []⟩], 0⟩] := by
  decide +kernel

/-- The method of the nested type is an ordinary one. It is changed, calls for a test and has none,
but it is taken for a member of an anonymous class and there is no gap. -/
theorem nested_type_taken_for_anonymous :
    ∃ s ∈ numberedType.build.spans, s.synthetic = false ∧ s.method.isSynthetic = true ∧
      s.method ∈ numberedType.build.changedMethods [⟨"Outer.java", [.ofHunk 3 1]⟩] ∧
      WorthTesting numberedType.tests s.method ∧ numberedType.tests = [] ∧
      s.method ∉ ((Prepared.ofUnit numberedType).report .default
        (numberedType.build.changedMethods [⟨"Outer.java", [.ofHunk 3 1]⟩])).gaps.map
          (·.method) := by
  have hspans : numberedType.build.spans =
      [⟨⟨"Outer$Anonymous1", "save"⟩, "Outer.java", 3, 3, false⟩] := by
    rw [numberedType_eq]
    decide +kernel
  have htests : numberedType.tests = [] := by
    rw [numberedType_eq]
    decide +kernel
  have hchanged : numberedType.build.changedMethods [⟨"Outer.java", [.ofHunk 3 1]⟩] =
      [⟨"Outer$Anonymous1", "save"⟩] := by
    rw [numberedType_eq]
    decide +kernel
  have hlooks : (⟨"Outer$Anonymous1", "save"⟩ : Method).isSynthetic = true := by decide +kernel
  have hworth : WorthTesting [] ⟨"Outer$Anonymous1", "save"⟩ :=
    ⟨by simp, by decide +kernel, by decide +kernel, by decide +kernel⟩
  rw [hspans, htests, hchanged]
  refine ⟨_, List.mem_singleton_self _, rfl, hlooks, List.mem_singleton_self _, hworth, rfl, ?_⟩
  rw [mem_report_gaps]
  intro hgap
  exact hgap.1 (Method.isSynthetic_iff.1 hlooks)

end Build

end ChangeImpact
