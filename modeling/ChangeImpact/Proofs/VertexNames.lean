import ChangeImpact.Proofs.UnitGraph

/-!
# Declarations told apart by their vertices

Names are minted from what is written and a number, and may contain dollar signs of their own.
Still, a vertex tells whether it was minted, and two declarations share one only if they are
overloads.

* `Site.Overloads`, `Site.OverloadsInBody` — two declarations of one owner and name, ordinary ones
  or members of one anonymous body; `Site.same_iff` — no others are the same;
* `NamedApart`, `vertices_named_apart` — what the vertices of a unit tell about its declarations.
-/

namespace ChangeImpact.Build

/-- Two ordinary methods of one owner and name. -/
def Site.Overloads (x y : Site) : Prop :=
  x.declaration.kind = .method ∧ y.declaration.kind = .method ∧
    x.declaration.ownMethod = y.declaration.ownMethod

/-- Two members of one anonymous body, of one owner and name. -/
def Site.OverloadsInBody (x y : Site) : Prop :=
  ∃ body, x.declaration.kind = .anonymousMethod body ∧ y.declaration.kind = .anonymousMethod body ∧
    x.file = y.file ∧ x.declaration.ownMethod = y.declaration.ownMethod

variable {u : SourceUnit} {x y : Site} {m : Method}

/-- Different declarations are the same if they are overloads. -/
theorem Site.same_iff (hne : x ≠ y) : x.Same y ↔ x.Overloads y ∨ x.OverloadsInBody y := by
  unfold Site.Same Site.Overloads Site.OverloadsInBody
  cases hx : x.declaration.kind with
  | method => cases hy : y.declaration.kind <;> simp
  | closure => cases hy : y.declaration.kind <;> simp [hne]
  | anonymousMethod body =>
    cases hy : y.declaration.kind with
    | method | closure => simp
    | anonymousMethod body' =>
      have hbodies : x.body? = y.body? ↔ x.file = y.file ∧ body = body' := by
        simp [Site.body?, hx, hy]
      rw [hbodies]
      constructor
      · rintro ⟨hown, hfile, rfl⟩
        exact .inr ⟨body, rfl, rfl, hfile, hown⟩
      · rintro (⟨hmethod, -⟩ | ⟨_, hbody, hbody', hfile, hown⟩)
        · cases hmethod
        · cases hbody
          cases hbody'
          exact ⟨hown, hfile, rfl⟩

/-- The span in the place of a declaration. -/
theorem getElem?_spans (hx : x ∈ sites u.files) :
    u.build.spans[offset u.files x.file + x.place]? = some (entryOf (sites u.files) x).span := by
  obtain ⟨f, hf, hpath, hd⟩ := mem_sites.1 hx
  have hsite : (sites u.files)[offset u.files x.file + x.place]? = some x := by
    rw [sites, getElem?_sitesFrom hf hd, Nat.zero_add, ← hpath]
  have hspans : u.build.spans = (entries u.files).map Entry.span := rfl
  rw [hspans, entries_eq, List.map_map, List.getElem?_map, hsite]
  rfl

/-- What the vertices of a unit tell about its declarations. -/
structure NamedApart (u : SourceUnit) : Prop where
  /-- Every declaration has a vertex of the graph, and the span in its place tells which. -/
  named : ∀ x ∈ sites u.files, ∃ m ∈ u.build.graph.methods,
    vertexAt u.files x.file x.place = some m ∧
    (u.build.spans[offset u.files x.file + x.place]?).map (·.method) = some m
  /-- Different declarations share a vertex if they are overloads, of a type or of an anonymous
  body. -/
  shared : ∀ x ∈ sites u.files, ∀ y ∈ sites u.files, x ≠ y →
    (vertexAt u.files x.file x.place = vertexAt u.files y.file y.place ↔
      x.Overloads y ∨ x.OverloadsInBody y)
  /-- A closure shares its vertex with no other declaration. -/
  closures : ∀ x ∈ sites u.files, ∀ y ∈ sites u.files, x ≠ y → x.declaration.kind = .closure →
    vertexAt u.files x.file x.place ≠ vertexAt u.files y.file y.place
  /-- No minted vertex is that of an ordinary method. -/
  minted : ∀ x ∈ sites u.files, ∀ y ∈ sites u.files, x.declaration.kind = .method →
    y.declaration.kind ≠ .method →
      vertexAt u.files x.file x.place ≠ vertexAt u.files y.file y.place
  /-- The name of a vertex tells whether it was minted. -/
  recognised : ∀ x ∈ sites u.files, ∀ m, vertexAt u.files x.file x.place = some m →
    (m.isSynthetic = true ↔ x.declaration.kind ≠ .method)

/-- Where no declaration is written with a name of the minted form, vertices tell declarations apart
up to overloads, and minted vertices from ordinary ones. -/
theorem vertices_named_apart (u : SourceUnit)
    (hplain : ∀ f ∈ u.files, ∀ d ∈ f.declarations, d.ownMethod.isSynthetic = false) :
    NamedApart u := by
  have hplain' : Plain (sites u.files) := plain_of_declarations hplain
  have hshared : ∀ x ∈ sites u.files, ∀ y ∈ sites u.files, x ≠ y →
      (vertexAt u.files x.file x.place = vertexAt u.files y.file y.place ↔
        x.Overloads y ∨ x.OverloadsInBody y) := by
    intro x hx y hy hne
    rw [vertexAt_eq hx, vertexAt_eq hy, Option.some.injEq, vertexOf_eq_iff hplain' hx hy,
      Site.same_iff hne]
  refine ⟨?_, hshared, ?_, ?_, ?_⟩
  · intro x hx
    refine ⟨vertexOf (sites u.files) x, mem_methods.2 ⟨x, hx, rfl⟩, vertexAt_eq hx, ?_⟩
    rw [getElem?_spans hx]
    rfl
  · intro x hx y hy hne hclosure heq
    rcases (hshared x hx y hy hne).1 heq with ⟨hmethod, -⟩ | ⟨body, hbody, -⟩
    · rw [hclosure] at hmethod
      cases hmethod
    · rw [hclosure] at hbody
      cases hbody
  · intro x hx y hy hmethod hminted
    rw [vertexAt_eq hx, vertexAt_eq hy, Ne, Option.some.injEq]
    exact vertexOf_ne_of_kind hplain' hx hy hmethod hminted
  · intro x hx m hm
    rw [vertexAt_eq hx, Option.some.injEq] at hm
    rw [← hm, isSynthetic_vertexOf hplain' hx, decide_eq_true_eq]

/-- Overloads, closures of one method and of one whose name looks almost minted, and anonymous
bodies with one number in different files. -/
def kiosk : List SourceFacts :=
  [⟨"Kiosk.java",
      [⟨"Kiosk", "open", 1, 9, .method, [], []⟩, ⟨"Kiosk", "open", 2, 2, .closure, [], []⟩,
        ⟨"Kiosk", "open", 3, 3, .closure, [], []⟩, ⟨"Kiosk", "open", 11, 12, .method, [], []⟩,
        ⟨"Kiosk", "compare", 5, 5, .anonymousMethod 0, [], []⟩,
        ⟨"Kiosk", "compare", 6, 6, .anonymousMethod 0, [], []⟩,
        ⟨"Kiosk", "compare", 8, 8, .anonymousMethod 1, [], []⟩], 0⟩,
    ⟨"Stall.java",
      [⟨"Kiosk", "compare", 1, 1, .anonymousMethod 0, [], []⟩,
        ⟨"Kiosk$AnonymousUser", "open$lambda$", 3, 5, .method, [], []⟩,
        ⟨"Kiosk$AnonymousUser", "open$lambda$", 4, 4, .closure, [], []⟩], 0⟩]

/-- The overloads of `open` share a vertex, and those of `compare` in the first body. The body of
the second file has a number of its own. -/
theorem vertices_named_apart_kiosk :
    (∀ f ∈ (SourceUnit.ofFiles kiosk).files, ∀ d ∈ f.declarations,
      d.ownMethod.isSynthetic = false) ∧
    NamedApart (.ofFiles kiosk) ∧
    (SourceUnit.ofFiles kiosk).build.spans.map (·.method) =
      [⟨"Kiosk", "open"⟩, ⟨"Kiosk", "open$lambda$1"⟩, ⟨"Kiosk", "open$lambda$2"⟩, ⟨"Kiosk", "open"⟩,
        ⟨"Kiosk$Anonymous1", "compare"⟩, ⟨"Kiosk$Anonymous1", "compare"⟩,
        ⟨"Kiosk$Anonymous2", "compare"⟩, ⟨"Kiosk$Anonymous3", "compare"⟩,
        ⟨"Kiosk$AnonymousUser", "open$lambda$"⟩,
        ⟨"Kiosk$AnonymousUser", "open$lambda$$lambda$3"⟩] := by
  have hplain : ∀ f ∈ (SourceUnit.ofFiles kiosk).files, ∀ d ∈ f.declarations,
      d.ownMethod.isSynthetic = false := by
    decide +kernel
  exact ⟨hplain, vertices_named_apart (.ofFiles kiosk) hplain, by decide +kernel⟩

end ChangeImpact.Build
