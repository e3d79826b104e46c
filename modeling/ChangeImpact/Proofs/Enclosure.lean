import ChangeImpact.Java.Model
import ChangeImpact.Proofs.Callers
import ChangeImpact.Proofs.UnitGraph
import ChangeImpact.Proofs.WalkInvariant

/-!
# Closures stand for nothing on their own

What happens in a closure or in a member of an anonymous class happens in the method around it: if a
change touches the one it touches the other, and who is reached through the one is reached through
the other. So nothing is lost where vertices with minted names are left out.

* `Represents` — whatever shares the vertex of a declaration lies in another one, calls included;
* `Represents.changed`, `Represents.caller` — what follows for changes and for callers;
* `represents_of_active` — what is active when a closure or member is made represents it;
* `enclosing_method_represents` — the statement about the method around it.
-/

namespace ChangeImpact.Java

/-! ## Representation in the graph -/

open Build

/-- Whatever shares the vertex of a declaration `x` lies in `y`, file and calls included. -/
def Represents (all : List Site) (x y : Site) : Prop :=
  ∀ z ∈ all, vertexOf all z = vertexOf all x →
    z.path = y.path ∧ LiesIn z.declaration y.declaration ∧
      z.declaration.targets ⊆ y.declaration.targets

theorem touchedBy_of_liesIn {x y : Site} {changes : List LineChanges} (hpath : x.path = y.path)
    (h : LiesIn x.declaration y.declaration) (ht : x.touchedBy changes = true) :
    y.touchedBy changes = true := by
  unfold Site.touchedBy at ht ⊢
  rw [hpath] at ht
  obtain ⟨c, hc, hranges⟩ := (Option.any_eq_true _ _).1 ht
  obtain ⟨r, hr, hoverlap⟩ := List.any_eq_true.1 hranges
  simp only [Bool.and_eq_true, decide_eq_true_eq] at hoverlap
  have hstart := h.start
  have hstop := h.stop
  refine (Option.any_eq_true _ _).2 ⟨c, hc, List.any_eq_true.2 ⟨r, hr, ?_⟩⟩
  simp only [Bool.and_eq_true, decide_eq_true_eq]
  omega

variable {u : SourceUnit} {x y : Site}

/-- A change in `x` is a change in what represents it. -/
theorem Represents.changed (h : Represents (sites u.files) x y) (hy : y ∈ sites u.files)
    {changes : List LineChanges}
    (hx : vertexOf (sites u.files) x ∈ u.build.changedMethods changes) :
    vertexOf (sites u.files) y ∈ u.build.changedMethods changes := by
  obtain ⟨z, hz, htouched, hvertex⟩ := mem_changedMethods.1 hx
  obtain ⟨hpath, hlies, -⟩ := h z hz hvertex
  exact mem_changedMethods.2 ⟨y, hy, touchedBy_of_liesIn hpath hlies htouched, rfl⟩

/-- What `x` calls, its representative calls. -/
theorem Represents.edge (h : Represents (sites u.files) x y) (hplain : Plain (sites u.files))
    (hy : y ∈ sites u.files) {m : Method}
    (hx : (vertexOf (sites u.files) x, m) ∈ u.build.graph.edges) :
    (vertexOf (sites u.files) y, m) ∈ u.build.graph.edges := by
  obtain ⟨z, hz, hvertex, target, htarget, hresolve⟩ := (mem_edges hplain).1 hx
  obtain ⟨-, hlies, htargets⟩ := h z hz hvertex
  refine (mem_edges hplain).2 ⟨y, hy, rfl, target, htargets htarget, ?_⟩
  rw [hlies.owner, hresolve]

/-- Who is reached through `x` is reached through what represents it. -/
theorem Represents.caller (h : Represents (sites u.files) x y) (hplain : Plain (sites u.files))
    (hy : y ∈ sites u.files) {seeds : List Method} {depth : Nat}
    (hx : vertexOf (sites u.files) x ∈ u.build.graph.transitiveCallers seeds depth) :
    vertexOf (sites u.files) y ∈ u.build.graph.transitiveCallers seeds depth := by
  obtain ⟨seed, hseed, k, hk, hdepth, hchain⟩ := CallGraph.mem_transitiveCallers.1 hx
  refine CallGraph.mem_transitiveCallers.2 ⟨seed, hseed, k, hk, hdepth, ?_⟩
  -- only the first call of the chain is another one
  cases hchain with
  | refl => omega
  | step hedge hrest => exact .step (h.edge hplain hy hedge) hrest

/-- The unit of syntax trees, each with the path of its file. -/
def unitOf (trees : List (String × Tree)) : SourceUnit :=
  .ofFiles (trees.map fun p => Parsed.facts ⟨declarations p.2, p.2.faults⟩ p.1)

variable {trees : List (String × Tree)}

theorem mem_sites_unitOf {z : Site} (hz : z ∈ sites (unitOf trees).files) :
    ∃ t, trees[z.file]? = some (z.path, t) ∧ (declarations t)[z.place]? = some z.declaration := by
  obtain ⟨f, hf, hpath, hd⟩ := mem_sites.1 hz
  have hfiles : (unitOf trees).files[z.file]? =
      trees[z.file]?.map fun p => Parsed.facts ⟨declarations p.2, p.2.faults⟩ p.1 :=
    List.getElem?_map ..
  rw [hfiles] at hf
  obtain ⟨⟨path, t⟩, htree, rfl⟩ := Option.map_eq_some_iff.1 hf
  exact ⟨t, by rw [htree, hpath]; rfl, hd⟩

theorem site_mem_unitOf {file place : Nat} {path : String} {t : Tree} {d : Declaration}
    (htree : trees[file]? = some (path, t)) (hd : (declarations t)[place]? = some d) :
    (⟨file, place, path, d⟩ : Site) ∈ sites (unitOf trees).files := by
  refine mem_sites.2 ⟨Parsed.facts ⟨declarations t, t.faults⟩ path, ?_, rfl, hd⟩
  show (trees.map _)[file]? = _
  rw [List.getElem?_map, htree]
  rfl

theorem plain_unitOf
    (h : ∀ p ∈ trees, ∀ d ∈ declarations p.2, d.ownMethod.isSynthetic = false) :
    Plain (sites (unitOf trees).files) := by
  intro z hz
  obtain ⟨t, htree, hd⟩ := mem_sites_unitOf hz
  exact h _ (List.mem_of_getElem? htree) _ (List.mem_of_getElem? hd)

/-- The declarations of a tree are those that the walk with stacks leaves behind. -/
theorem declarations_eq (t : Tree) :
    (trace (nestingLimit + 1) .outside .start t).declarations = declarations t := by
  rw [Trace.declarations, found_trace]
  rfl

section Stack

variable {file inner outer : Nat} {path : String} {t : Tree} {d e : Declaration} {active : List Nat}

/-- Declarations that share the vertex of a closure or member stand in the same tree and were made
under the same stack. -/
theorem same_stack (hnested : t.nested = true) (hplain : Plain (sites (unitOf trees).files))
    (htree : trees[file]? = some (path, t)) (hinner : (declarations t)[inner]? = some d)
    (hkind : d.kind ≠ .method) (hactive : activeAt t inner = some active) {z : Site}
    (hz : z ∈ sites (unitOf trees).files)
    (hvertex : vertexOf (sites (unitOf trees).files) z =
      vertexOf (sites (unitOf trees).files) ⟨file, inner, path, d⟩) :
    z.path = path ∧ (declarations t)[z.place]? = some z.declaration ∧
      z.declaration.kind ≠ .method ∧ activeAt t z.place = some active := by
  have hx := site_mem_unitOf htree hinner
  obtain ⟨-, hsame⟩ := (vertexOf_eq_iff hplain hz hx).1 hvertex
  cases hk : d.kind with
  | method => exact absurd hk hkind
  | closure =>
    cases hkz : z.declaration.kind with
    | method | anonymousMethod => simp [hk, hkz] at hsame
    | closure =>
      simp only [hk, hkz] at hsame
      subst hsame
      exact ⟨rfl, hinner, by simp, hactive⟩
  | anonymousMethod body =>
    cases hkz : z.declaration.kind with
    | method | closure => simp [hk, hkz] at hsame
    | anonymousMethod body' =>
      simp only [hk, hkz, Site.body?, Option.some.injEq, Prod.mk.injEq] at hsame
      obtain ⟨hfile, rfl⟩ := hsame
      obtain ⟨t', htree', hd⟩ := mem_sites_unitOf hz
      rw [hfile, htree] at htree'
      obtain ⟨hpath, rfl⟩ := Prod.mk.inj (Option.some.inj htree')
      have htogether := (good_end hnested).together z.place inner z.declaration d body'
        (by rw [declarations_eq, hd]) (by rw [declarations_eq, hinner]) hkz hk
      exact ⟨hpath.symm, hd, by simp, htogether.trans hactive⟩

/-- What is active when a closure or member is made represents it. -/
theorem represents_of_active (hnested : t.nested = true)
    (hplain : Plain (sites (unitOf trees).files)) (htree : trees[file]? = some (path, t))
    (hinner : (declarations t)[inner]? = some d) (hkind : d.kind ≠ .method)
    (hactive : activeAt t inner = some active) (hmem : outer ∈ active)
    (houter : (declarations t)[outer]? = some e) :
    Represents (sites (unitOf trees).files) ⟨file, inner, path, d⟩ ⟨file, outer, path, e⟩ := by
  intro z hz hvertex
  obtain ⟨hpath, hd, hkz, hactive'⟩ :=
    same_stack hnested hplain htree hinner hkind hactive hz hvertex
  obtain ⟨e', he', hlies, htargets⟩ := (good_end hnested).covered z.place z.declaration active
    (by rw [declarations_eq, hd]) hkz hactive' outer hmem
  rw [declarations_eq, houter] at he'
  obtain rfl := Option.some.inj he'
  exact ⟨hpath, hlies, htargets⟩

/-- A closure or member of an anonymous class that is made while a method is active is represented
by that method: a change that touches it touches the method, and if it is among the callers of some
methods, so is the method. -/
theorem enclosing_method_represents (hnested : ∀ p ∈ trees, p.2.nested = true)
    (hplain : ∀ p ∈ trees, ∀ d ∈ declarations p.2, d.ownMethod.isSynthetic = false)
    (htree : trees[file]? = some (path, t))
    (hinner : (declarations t)[inner]? = some d) (hkind : d.kind ≠ .method)
    (hactive : activeAt t inner = some active) (hmem : outer ∈ active)
    (houter : (declarations t)[outer]? = some e) (hmethod : e.kind = .method) :
    ∃ s m, vertexAt (unitOf trees).files file inner = some s ∧
      vertexAt (unitOf trees).files file outer = some m ∧
      s.isSynthetic = true ∧ m.isSynthetic = false ∧
      (∀ changes, s ∈ (unitOf trees).build.changedMethods changes →
        m ∈ (unitOf trees).build.changedMethods changes) ∧
      (∀ seeds depth, s ∈ (unitOf trees).build.graph.transitiveCallers seeds depth →
        m ∈ (unitOf trees).build.graph.transitiveCallers seeds depth) := by
  have hplain' := plain_unitOf hplain
  have hx := site_mem_unitOf htree hinner
  have hy := site_mem_unitOf htree houter
  have hrepresents := represents_of_active (hnested _ (List.mem_of_getElem? htree)) hplain' htree
    hinner hkind hactive hmem houter
  refine ⟨_, _, vertexAt_eq hx, vertexAt_eq hy, ?_, ?_, ?_, ?_⟩
  · rw [isSynthetic_vertexOf hplain' hx]
    exact decide_eq_true hkind
  · rw [isSynthetic_vertexOf hplain' hy]
    exact decide_eq_false fun h => h hmethod
  · exact fun changes hchanged => hrepresents.changed hy hchanged
  · exact fun seeds depth hcaller => hrepresents.caller hplain' hy hcaller

end Stack

/-- A closure in a member of an anonymous class in a method. -/
def nestedClosure : Tree :=
  .ofSource ("class A \x7b\n void run() \x7b\n  f(new B() \x7b\n"
    ++ "   void go() \x7b g(() -> help()); \x7d\n  \x7d);\n \x7d\n\x7d\n")

theorem walk_nestedClosure :
    nestedClosure.nested = true ∧ activeAt nestedClosure 2 = some [0, 1] ∧
      declarations nestedClosure =
        [⟨"A", "run", 2, 6, .method, [], ["f", "g", "help"]⟩,
          ⟨"A", "go", 4, 4, .anonymousMethod 0, [], ["g", "help"]⟩,
          ⟨"A", "go", 4, 4, .closure, [], ["help"]⟩] := by
  decide +kernel

/-- The closure is represented by the method, across the anonymous class. -/
theorem enclosing_method_represents_nestedClosure :
    activeAt nestedClosure 2 = some [0, 1] ∧
      ∃ s m, vertexAt (unitOf [("A.java", nestedClosure)]).files 0 2 = some s ∧
        vertexAt (unitOf [("A.java", nestedClosure)]).files 0 0 = some m ∧
        s.isSynthetic = true ∧ m.isSynthetic = false ∧
        (∀ changes, s ∈ (unitOf [("A.java", nestedClosure)]).build.changedMethods changes →
          m ∈ (unitOf [("A.java", nestedClosure)]).build.changedMethods changes) ∧
        (∀ seeds depth,
          s ∈ (unitOf [("A.java", nestedClosure)]).build.graph.transitiveCallers seeds depth →
            m ∈ (unitOf [("A.java", nestedClosure)]).build.graph.transitiveCallers
              seeds depth) := by
  obtain ⟨hnested, hactive, hdeclarations⟩ := walk_nestedClosure
  refine ⟨hactive, enclosing_method_represents (d := ⟨"A", "go", 4, 4, .closure, [], ["help"]⟩)
    (e := ⟨"A", "run", 2, 6, .method, [], ["f", "g", "help"]⟩) ?_ ?_ rfl ?_ (by decide) hactive
    List.mem_cons_self ?_ rfl⟩
  · intro p hp
    rw [List.mem_singleton.1 hp]
    dsimp only
    exact hnested
  · intro p hp
    rw [List.mem_singleton.1 hp]
    dsimp only
    rw [hdeclarations]
    decide +kernel
  · rw [hdeclarations]
    rfl
  · rw [hdeclarations]
    rfl

end ChangeImpact.Java
