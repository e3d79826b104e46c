import ChangeImpact.Proofs.Relabelling
import ChangeImpact.Proofs.UnitGraph

/-!
# The order of files does not matter

Closures and anonymous bodies are numbered in the order in which they are met, so that another order
of the files, or of the declarations in them, gives other names. Nothing else of an analysis hangs
on that order.

* `Rearranged` — the same files and declarations in another order;
* `Moves` — a map between the declarations of two units; `exists_moves` — one for every
  rearrangement;
* `carry` — the renaming of vertices that goes with it;
* `relabels_carry` — it makes the one graph into the other;
* `report_rearranged` — what the analyses of the two units have in common.
-/

namespace ChangeImpact.Build

/-! ## Rearranged units -/

/-- The same files, with their declarations in another order. -/
def SameFile (f g : SourceFacts) : Prop :=
  g.path = f.path ∧ g.faults = f.faults ∧ f.declarations.Perm g.declarations

/-- The same files in another order, with the declarations of each in another order. -/
def Rearranged (files files' : List SourceFacts) : Prop :=
  ∃ middle, List.Forall₂ SameFile files middle ∧ middle.Perm files'

/-- The places of a list, and where its members stand in another order. -/
theorem exists_reindex {α : Type} [DecidableEq α] {xs ys : List α} (h : xs.Perm ys) :
    ∃ τ : Nat → Nat, Set.BijOn τ {i | i < xs.length} {i | i < ys.length} ∧
      ∀ i < xs.length, ys[τ i]? = xs[i]? := by
  refine ⟨fun i => if hi : i < xs.length then h.idxBij ⟨i, hi⟩ else i, ⟨?_, ?_, ?_⟩, ?_⟩
  · intro i hi
    have hi' : i < xs.length := hi
    simp only [hi', dif_pos]
    exact (h.idxBij ⟨i, hi'⟩).isLt
  · intro i hi j hj heq
    have hi' : i < xs.length := hi
    have hj' : j < xs.length := hj
    simp only [hi', hj', dif_pos] at heq
    exact congrArg Fin.val (h.idxBij_injective (Fin.ext heq))
  · intro j hj
    have hj' : j < ys.length := hj
    refine ⟨h.symm.idxBij ⟨j, hj'⟩, (h.symm.idxBij ⟨j, hj'⟩).isLt, ?_⟩
    simp only [(h.symm.idxBij ⟨j, hj'⟩).isLt, dif_pos, Fin.eta, h.idxBij_idxBij_symm]
  · intro i hi
    simp only [hi, dif_pos]
    rw [List.getElem?_eq_getElem (h.idxBij ⟨i, hi⟩).isLt, List.getElem?_eq_getElem hi,
      h.getElem_idxBij_eq_getElem]

/-! ## Moved declarations -/

/-- A one-to-one map between the declarations of two units that keeps each as it is, and those of a
file together. -/
structure Moves (f : Site → Site) (all all' : List Site) : Prop where
  bijOn : Set.BijOn f {x | x ∈ all} {x | x ∈ all'}
  path : ∀ x ∈ all, (f x).path = x.path
  declaration : ∀ x ∈ all, (f x).declaration = x.declaration
  file : ∀ x ∈ all, ∀ y ∈ all, (f x).file = (f y).file ↔ x.file = y.file

/-- Where the declarations of a file go. -/
structure Places (τ : Nat → Nat) (f g : SourceFacts) : Prop where
  path : g.path = f.path
  bijOn : Set.BijOn τ {i | i < f.declarations.length} {i | i < g.declarations.length}
  moved : ∀ i < f.declarations.length, g.declarations[τ i]? = f.declarations[i]?

variable {files files' : List SourceFacts}

/-- Where the files and their declarations go. -/
theorem exists_places (h : Rearranged files files') :
    ∃ (σ : Nat → Nat) (τ : Nat → Nat → Nat),
      Set.BijOn σ {k | k < files.length} {k | k < files'.length} ∧
      ∀ k f, files[k]? = some f → ∃ g, files'[σ k]? = some g ∧ Places (τ k) f g := by
  obtain ⟨middle, hsame, hperm⟩ := h
  obtain ⟨σ, hσ, hfiles⟩ := exists_reindex hperm
  have hlength : files.length = middle.length := hsame.length_eq
  have hplaces : ∀ k : Nat, ∃ τ : Nat → Nat, ∀ f, files[k]? = some f →
      ∃ g, middle[k]? = some g ∧ Places τ f g := by
    intro k
    by_cases hk : k < files.length
    · have hk' : k < middle.length := hlength ▸ hk
      obtain ⟨hpath, -, hdeclarations⟩ : SameFile files[k] middle[k] := hsame.get hk hk'
      obtain ⟨τ, hτ, hmoved⟩ := exists_reindex hdeclarations
      refine ⟨τ, ?_⟩
      intro f hf
      rw [List.getElem?_eq_getElem hk] at hf
      obtain rfl := Option.some.inj hf
      exact ⟨middle[k], List.getElem?_eq_getElem hk', hpath, hτ, hmoved⟩
    · refine ⟨id, ?_⟩
      intro f hf
      exact absurd (List.getElem?_eq_some_iff.1 hf).1 hk
  choose τ hτ using hplaces
  rw [← hlength] at hσ
  refine ⟨σ, τ, hσ, ?_⟩
  intro k f hf
  obtain ⟨g, hg, hplaced⟩ := hτ k f hf
  have hk : k < middle.length := (List.getElem?_eq_some_iff.1 hg).1
  exact ⟨g, (hfiles k hk).trans hg, hplaced⟩

/-- A rearrangement moves the declarations. -/
theorem exists_moves (h : Rearranged files files') : ∃ f, Moves f (sites files) (sites files') := by
  obtain ⟨σ, τ, hσ, hplaces⟩ := exists_places h
  have hfile : ∀ x ∈ sites files, x.file < files.length := by
    intro x hx
    obtain ⟨f, hf, -⟩ := mem_sites.1 hx
    exact (List.getElem?_eq_some_iff.1 hf).1
  refine ⟨fun x => ⟨σ x.file, τ x.file x.place, x.path, x.declaration⟩, ⟨?_, ?_, ?_⟩,
    fun _ _ => rfl, fun _ _ => rfl, ?_⟩
  · intro x hx
    obtain ⟨f, hf, hpath, hd⟩ := mem_sites.1 hx
    obtain ⟨g, hg, hplaced⟩ := hplaces x.file f hf
    have hplace : x.place < f.declarations.length := (List.getElem?_eq_some_iff.1 hd).1
    refine mem_sites.2 ⟨g, hg, ?_, ?_⟩
    · exact hpath.trans hplaced.path.symm
    · exact (hplaced.moved x.place hplace).trans hd
  · intro x hx y hy heq
    obtain ⟨heqfile, heqplace, -, -⟩ := Site.mk.inj heq
    have hsame : x.file = y.file := hσ.injOn (hfile x hx) (hfile y hy) heqfile
    obtain ⟨f, hf, -, hdx⟩ := mem_sites.1 hx
    obtain ⟨f', hf', -, hdy⟩ := mem_sites.1 hy
    obtain ⟨g, -, hplaced⟩ := hplaces x.file f hf
    rw [← hsame] at heqplace hf'
    obtain rfl : f = f' := Option.some.inj (hf.symm.trans hf')
    have hplace : x.place = y.place := hplaced.bijOn.injOn
      (List.getElem?_eq_some_iff.1 hdx).1 (List.getElem?_eq_some_iff.1 hdy).1 heqplace
    exact site_ext hx hy hsame hplace
  · intro y hy
    obtain ⟨g, hg, hpath, hd⟩ := mem_sites.1 hy
    obtain ⟨k, hk, hk'⟩ := hσ.surjOn (List.getElem?_eq_some_iff.1 hg).1
    have hf : files[k]? = some files[k] := List.getElem?_eq_getElem hk
    obtain ⟨g', hg', hplaced⟩ := hplaces k _ hf
    rw [hk', hg] at hg'
    obtain rfl := Option.some.inj hg'
    obtain ⟨i, hi, hi'⟩ := hplaced.bijOn.surjOn (List.getElem?_eq_some_iff.1 hd).1
    have hmoved := hplaced.moved i hi
    rw [hi', hd] at hmoved
    refine ⟨⟨k, i, y.path, y.declaration⟩, mem_sites.2 ⟨_, hf, ?_, hmoved.symm⟩, ?_⟩
    · exact hpath.trans hplaced.path
    · show (⟨σ k, τ k i, y.path, y.declaration⟩ : Site) = y
      rw [hk', hi']
  · intro x hx y hy
    constructor
    · exact fun heq => hσ.injOn (hfile x hx) (hfile y hy) heq
    · exact fun heq => congrArg σ heq

/-! ## Renamed vertices -/

section Carry

variable {f : Site → Site} {all all' : List Site} {x y : Site}

theorem Moves.plain (h : Moves f all all') (hplain : Plain all) : Plain all' := by
  intro y hy
  obtain ⟨x, hx, rfl⟩ := h.bijOn.surjOn hy
  rw [h.declaration x hx]
  exact hplain x hx

/-- Declarations share a vertex after the move if they did before. -/
theorem Moves.same_iff (h : Moves f all all') (hx : x ∈ all) (hy : y ∈ all) :
    (f x).Same (f y) ↔ x.Same y := by
  unfold Site.Same
  rw [h.declaration x hx, h.declaration y hy]
  refine and_congr_right fun _ => ?_
  cases hkx : x.declaration.kind with
  | method => cases y.declaration.kind <;> rfl
  | closure =>
    cases hky : y.declaration.kind with
    | method | anonymousMethod => rfl
    | closure => exact h.bijOn.injOn.eq_iff hx hy
  | anonymousMethod body =>
    cases hky : y.declaration.kind with
    | method | closure => rfl
    | anonymousMethod body' =>
      simp only [Site.body?, h.declaration x hx, h.declaration y hy, hkx, hky, Option.some.injEq,
        Prod.mk.injEq, h.file x hx y hy]

theorem Moves.vertexOf_eq_iff (h : Moves f all all') (hplain : Plain all) (hx : x ∈ all)
    (hy : y ∈ all) :
    vertexOf all' (f x) = vertexOf all' (f y) ↔ vertexOf all x = vertexOf all y := by
  rw [Build.vertexOf_eq_iff (h.plain hplain) (h.bijOn.mapsTo hx) (h.bijOn.mapsTo hy),
    Build.vertexOf_eq_iff hplain hx hy, h.same_iff hx hy]

/-- The vertex of a moved declaration, by the vertex it had. Other methods stay what they are. -/
def carry (f : Site → Site) (all all' : List Site) (m : Method) : Method :=
  match all.find? fun x => vertexOf all x = m with
  | some x => vertexOf all' (f x)
  | none => m

theorem carry_cases (f : Site → Site) (all all' : List Site) (m : Method) :
    (∃ x ∈ all, vertexOf all x = m ∧ carry f all all' m = vertexOf all' (f x)) ∨
      (∀ x ∈ all, vertexOf all x ≠ m) ∧ carry f all all' m = m := by
  unfold carry
  cases hfind : all.find? fun x => vertexOf all x = m with
  | none =>
    refine .inr ⟨?_, rfl⟩
    intro x hx
    simpa using List.find?_eq_none.1 hfind x hx
  | some x =>
    refine .inl ⟨x, List.mem_of_find?_eq_some hfind, ?_, rfl⟩
    simpa using List.find?_some hfind

theorem Moves.carry_vertexOf (h : Moves f all all') (hplain : Plain all) (hx : x ∈ all) :
    carry f all all' (vertexOf all x) = vertexOf all' (f x) := by
  rcases carry_cases f all all' (vertexOf all x) with ⟨y, hy, hvertex, hcarry⟩ | ⟨hnone, -⟩
  · rw [hcarry]
    exact (h.vertexOf_eq_iff hplain hy hx).2 hvertex
  · exact absurd rfl (hnone x hx)

theorem Moves.isSynthetic_carry (h : Moves f all all') (hplain : Plain all) (hx : x ∈ all) :
    (vertexOf all' (f x)).isSynthetic = (vertexOf all x).isSynthetic := by
  rw [isSynthetic_vertexOf (h.plain hplain) (h.bijOn.mapsTo hx), isSynthetic_vertexOf hplain hx,
    h.declaration x hx]

/-- Ordinary methods keep their names. -/
theorem Moves.carry_ordinary (h : Moves f all all') (hplain : Plain all) {m : Method}
    (hm : m.isSynthetic = false) : carry f all all' m = m := by
  rcases carry_cases f all all' m with ⟨x, hx, hvertex, hcarry⟩ | ⟨-, hcarry⟩
  · have hkind : x.declaration.kind = .method := by
      have hsynthetic := isSynthetic_vertexOf hplain hx
      rw [hvertex, hm] at hsynthetic
      simpa using hsynthetic.symm
    rw [hcarry, ← hvertex]
    simp only [vertexOf, h.declaration x hx, hkind]
  · exact hcarry

/-- The declarations, in the order of the second unit. -/
theorem Moves.perm (h : Moves f (sites files) (sites files')) :
    ((sites files).map (·.declaration)).Perm ((sites files').map (·.declaration)) := by
  have hmap : ((sites files).map f).Nodup := by
    refine List.Nodup.map_on ?_ nodup_sitesFrom
    exact fun x hx y hy heq => h.bijOn.injOn hx hy heq
  have hsites : ((sites files).map f).Perm (sites files') := by
    refine (List.perm_ext_iff_of_nodup hmap nodup_sitesFrom).2 ?_
    intro y
    rw [List.mem_map]
    constructor
    · rintro ⟨x, hx, rfl⟩
      exact h.bijOn.mapsTo hx
    · exact fun hy => h.bijOn.surjOn hy
  have hkept : ((sites files).map f).map (·.declaration) = (sites files).map (·.declaration) := by
    rw [List.map_map]
    exact List.map_congr_left fun x hx => h.declaration x hx
  rw [← hkept]
  exact hsites.map _

end Carry

/-! ## The second unit -/

section Unit

variable {f : Site → Site} {u v : SourceUnit}

/-- Calls mean the same. -/
theorem Moves.resolve_eq (h : Moves f (sites files) (sites files')) (target caller : String) :
    (known files').resolve target caller = (known files).resolve target caller := by
  refine Resolution.resolve_eq_of_same_owners (tracks_known files') (tracks_known files)
    (Text.isLastSegment_iff.2 rfl) ?_
  intro owner
  constructor
  · rintro ⟨y, hy, hkind, hown⟩
    obtain ⟨x, hx, rfl⟩ := h.bijOn.surjOn hy
    rw [h.declaration x hx] at hkind hown
    exact ⟨x, hx, hkind, hown⟩
  · rintro ⟨x, hx, hkind, hown⟩
    refine ⟨f x, h.bijOn.mapsTo hx, ?_⟩
    rw [h.declaration x hx]
    exact ⟨hkind, hown⟩

theorem isSynthetic_of_resolve (hplain : Plain (sites files)) {target caller : String} {m : Method}
    (h : ((known files).resolve target caller).map (·.1) = some m) : m.isSynthetic = false := by
  obtain ⟨r, hr, rfl⟩ := Option.map_eq_some_iff.1 h
  exact isSynthetic_of_mem_ordinary hplain (mem_ordinary_of_resolve hr)

/-- Edges go along. -/
theorem Moves.mem_edges_iff (h : Moves f (sites u.files) (sites v.files))
    (hplain : Plain (sites u.files)) {a b : Method} (ha : a ∈ u.build.graph.methods)
    (hb : b ∈ u.build.graph.methods) :
    (carry f (sites u.files) (sites v.files) a, carry f (sites u.files) (sites v.files) b) ∈
      v.build.graph.edges ↔ (a, b) ∈ u.build.graph.edges := by
  have hplain' := h.plain hplain
  obtain ⟨x₀, hx₀, rfl⟩ := mem_methods.1 ha
  rw [mem_edges hplain', mem_edges hplain, h.carry_vertexOf hplain hx₀]
  constructor
  · rintro ⟨y, hy, hvertex, target, htarget, hresolve⟩
    obtain ⟨x, hx, rfl⟩ := h.bijOn.surjOn hy
    rw [h.declaration x hx] at htarget hresolve
    rw [h.resolve_eq] at hresolve
    refine ⟨x, hx, (h.vertexOf_eq_iff hplain hx hx₀).1 hvertex, target, htarget, ?_⟩
    -- what is called is an ordinary method, and keeps its name
    have hordinary := isSynthetic_of_resolve hplain hresolve
    obtain ⟨z, hz, rfl⟩ := mem_methods.1 hb
    rw [h.carry_vertexOf hplain hz, h.isSynthetic_carry hplain hz] at hordinary
    rw [hresolve, h.carry_ordinary hplain hordinary]
  · rintro ⟨x, hx, hvertex, target, htarget, hresolve⟩
    have hordinary := isSynthetic_of_resolve hplain hresolve
    refine ⟨f x, h.bijOn.mapsTo hx, (h.vertexOf_eq_iff hplain hx hx₀).2 hvertex, target, ?_, ?_⟩
    · rw [h.declaration x hx]
      exact htarget
    · rw [h.declaration x hx, h.resolve_eq, hresolve, h.carry_ordinary hplain hordinary]

/-- The renaming makes the one graph into the other. -/
theorem Moves.relabels_carry (h : Moves f (sites u.files) (sites v.files))
    (hplain : Plain (sites u.files)) :
    CallGraph.Relabels (carry f (sites u.files) (sites v.files)) u.build.graph v.build.graph := by
  have hplain' := h.plain hplain
  refine ⟨⟨?_, ?_, ?_⟩, ?_, ?_, ?_⟩
  · intro m hm
    obtain ⟨x, hx, rfl⟩ := mem_methods.1 hm
    rw [h.carry_vertexOf hplain hx]
    exact mem_methods.2 ⟨f x, h.bijOn.mapsTo hx, rfl⟩
  · intro a ha b hb heq
    obtain ⟨x, hx, rfl⟩ := mem_methods.1 ha
    obtain ⟨y, hy, rfl⟩ := mem_methods.1 hb
    rw [h.carry_vertexOf hplain hx, h.carry_vertexOf hplain hy] at heq
    exact (h.vertexOf_eq_iff hplain hx hy).1 heq
  · intro m hm
    obtain ⟨y, hy, rfl⟩ := mem_methods.1 hm
    obtain ⟨x, hx, rfl⟩ := h.bijOn.surjOn hy
    refine ⟨vertexOf (sites u.files) x, mem_methods.2 ⟨x, hx, rfl⟩, ?_⟩
    exact h.carry_vertexOf hplain hx
  · exact fun a ha b hb => h.mem_edges_iff hplain ha hb
  · exact fun m hm => h.carry_ordinary hplain hm
  · intro m hm hminted
    obtain ⟨x, hx, rfl⟩ := mem_methods.1 hm
    rw [h.carry_vertexOf hplain hx, h.isSynthetic_carry hplain hx]
    exact hminted

/-- Changed methods correspond. -/
theorem Moves.carries_changed (h : Moves f (sites u.files) (sites v.files))
    (hplain : Plain (sites u.files)) (changes : List LineChanges) :
    CallGraph.Relabels.Carries (carry f (sites u.files) (sites v.files)) u.build.graph v.build.graph
      (u.build.changedMethods changes) (v.build.changedMethods changes) := by
  have hplain' := h.plain hplain
  have htouched : ∀ x ∈ sites u.files, (f x).touchedBy changes = x.touchedBy changes := by
    intro x hx
    unfold Site.touchedBy
    rw [h.path x hx, h.declaration x hx]
  refine ⟨?_, ?_, ?_⟩
  · intro m hm
    obtain ⟨x, hx, -, hvertex⟩ := mem_changedMethods.1 hm
    exact mem_methods.2 ⟨x, hx, hvertex⟩
  · intro m hm
    obtain ⟨x, hx, -, hvertex⟩ := mem_changedMethods.1 hm
    exact mem_methods.2 ⟨x, hx, hvertex⟩
  · intro m hm
    obtain ⟨x₀, hx₀, rfl⟩ := mem_methods.1 hm
    rw [h.carry_vertexOf hplain hx₀, mem_changedMethods, mem_changedMethods]
    constructor
    · rintro ⟨y, hy, ht, hvertex⟩
      obtain ⟨x, hx, rfl⟩ := h.bijOn.surjOn hy
      exact ⟨x, hx, htouched x hx ▸ ht, (h.vertexOf_eq_iff hplain hx hx₀).1 hvertex⟩
    · rintro ⟨x, hx, ht, hvertex⟩
      refine ⟨f x, h.bijOn.mapsTo hx, ?_, (h.vertexOf_eq_iff hplain hx hx₀).2 hvertex⟩
      rw [htouched x hx]
      exact ht

theorem map_declaration_sitesOfFile {file place : Nat} {path : String} {ds : List Declaration} :
    (sitesOfFile file path place ds).map (·.declaration) = ds := by
  induction ds generalizing place with
  | nil => rfl
  | cons d ds ih => rw [sitesOfFile, List.map_cons, ih]

theorem map_declaration_sites (files : List SourceFacts) :
    (sites files).map (·.declaration) = files.flatMap (·.declarations) := by
  have hfrom : ∀ file, (sitesFrom file files).map (·.declaration) =
      files.flatMap (·.declarations) := by
    induction files with
    | nil => exact fun _ => rfl
    | cons f files ih =>
      intro file
      rw [sitesFrom, List.map_append, map_declaration_sitesOfFile, ih, List.flatMap_cons]
  exact hfrom 0

/-- The tests are the same. -/
theorem Moves.mem_tests_iff (h : Moves f (sites u.files) (sites v.files)) (m : Method) :
    m ∈ v.tests ↔ m ∈ u.tests := by
  have hperm := h.perm
  rw [map_declaration_sites, map_declaration_sites] at hperm
  unfold SourceUnit.tests
  rw [mem_firstOccurrences, mem_firstOccurrences]
  exact ((hperm.filter _).map _).symm.mem_iff

theorem isSynthetic_of_mem_tests (hplain : Plain (sites u.files)) {m : Method} (hm : m ∈ u.tests) :
    m.isSynthetic = false := by
  unfold SourceUnit.tests at hm
  rw [mem_firstOccurrences, ← map_declaration_sites] at hm
  obtain ⟨d, hd, rfl⟩ := List.mem_map.1 hm
  obtain ⟨x, hx, rfl⟩ := List.mem_map.1 (List.mem_filter.1 hd).1
  exact hplain x hx

/-- What the calls of a unit mean, as seen from the types around them. -/
theorem meanings_eq (hplain : Plain (sites files)) :
    meanings files = ((sites files).map (·.declaration)).flatMap fun d =>
      d.targets.map fun target => (known files).resolve target d.owner := by
  rw [List.flatMap_map]
  unfold meanings
  simp only [resolve_vertexOf hplain]

/-- The meanings of all calls, in another order. -/
theorem Moves.perm_meanings (h : Moves f (sites files) (sites files'))
    (hplain : Plain (sites files)) : (meanings files').Perm (meanings files) := by
  rw [meanings_eq hplain, meanings_eq (h.plain hplain)]
  simp only [h.resolve_eq]
  exact (h.perm.flatMap_right _).symm

/-- Every rule resolves as many calls. -/
theorem Moves.resolved_eq (h : Moves f (sites u.files) (sites v.files))
    (hplain : Plain (sites u.files)) : v.build.stats.resolved = u.build.stats.resolved := by
  have hperm := (h.perm_meanings hplain).filterMap fun r => r.map (·.2)
  rw [Build.resolved_eq, Build.resolved_eq]
  unfold countStrategies
  simp only [hperm.count_eq]

/-- As many calls have no meaning. -/
theorem Moves.unresolved_eq (h : Moves f (sites u.files) (sites v.files))
    (hplain : Plain (sites u.files)) : v.build.stats.unresolved = u.build.stats.unresolved := by
  rw [Build.unresolved_eq, Build.unresolved_eq, (h.perm_meanings hplain).countP_eq]

theorem Moves.corresponds (h : Moves f (sites u.files) (sites v.files))
    (hplain : Plain (sites u.files)) (changes : List LineChanges) :
    Impact.Corresponds (carry f (sites u.files) (sites v.files)) u.build.graph v.build.graph
      u.tests v.tests (u.build.changedMethods changes) (v.build.changedMethods changes) :=
  ⟨h.relabels_carry hplain, h.mem_tests_iff, fun _ hm => isSynthetic_of_mem_tests hplain hm,
    h.carries_changed hplain changes⟩

end Unit

/-! ## Analyses -/

/-- The report of a change of lines. -/
def lineReport (u : SourceUnit) (config : Config.Analysis) (changes : List LineChanges) :
    Impact.Report :=
  (Impact.Prepared.ofUnit u).report config (u.build.changedMethods changes)

/-- The analyses of a change in two units differ in minted names only. -/
structure Alike (u v : SourceUnit) (config : Config.Analysis) (changes : List LineChanges) :
    Prop where
  /-- A renaming of the vertices that keeps ordinary methods. -/
  vertices : ∃ σ : Method → Method,
    (∀ m, m.isSynthetic = false → σ m = m) ∧
    Set.BijOn σ {m | m ∈ u.build.graph.methods} {m | m ∈ v.build.graph.methods} ∧
    Set.BijOn (Prod.map σ σ) {e | e ∈ u.build.graph.edges} {e | e ∈ v.build.graph.edges} ∧
    Set.BijOn σ {m | m ∈ u.build.changedMethods changes} {m | m ∈ v.build.changedMethods changes} ∧
    Set.BijOn σ {m | m ∈ (lineReport u config changes).result.impacted}
      {m | m ∈ (lineReport v config changes).result.impacted}
  tests : (lineReport v config changes).result.tests = (lineReport u config changes).result.tests
  coverage : (lineReport v config changes).coverage = (lineReport u config changes).coverage
  resolved : v.build.stats.resolved = u.build.stats.resolved
  unresolved : v.build.stats.unresolved = u.build.stats.unresolved
  gaps : (lineReport v config changes).gaps.map Coverage.Gap.summary =
    (lineReport u config changes).gaps.map Coverage.Gap.summary

/-- The order of files, and of the declarations in each, leaves its mark on minted names only. -/
theorem report_rearranged (u : SourceUnit) {files' : List SourceFacts}
    (hplain : ∀ f ∈ u.files, ∀ d ∈ f.declarations, d.ownMethod.isSynthetic = false)
    (hfiles : Rearranged u.files files') (config : Config.Analysis) (changes : List LineChanges) :
    Alike u { u with files := files' } config changes := by
  have hplain' := plain_of_declarations hplain
  obtain ⟨f, hmoves⟩ := exists_moves hfiles
  have hmoves' : Moves f (sites u.files) (sites { u with files := files' }.files) := hmoves
  have hgraph := hmoves'.relabels_carry hplain'
  have hcorresponds := hmoves'.corresponds hplain' changes
  have himpacted := hcorresponds.impacted config
  refine ⟨⟨_, hgraph.fixes, hgraph.methods, hgraph.edges_bijOn, ?_, ?_⟩, ?_, ?_, ?_, ?_, ?_⟩
  · exact hcorresponds.changes.bijOn hgraph
  · exact himpacted.bijOn hgraph
  · exact hcorresponds.tests_eq
  · exact hcorresponds.stats_eq himpacted
  · exact hmoves'.resolved_eq hplain'
  · exact hmoves'.unresolved_eq hplain'
  · exact hcorresponds.gaps_eq himpacted

/-- Two files with a closure each. The test reaches `total`; no test reaches `audit`, which a method
and its closure call. -/
def shop : List SourceFacts :=
  [⟨"Cart.java",
      [⟨"Cart", "total", 1, 4, .method, [], []⟩,
        ⟨"Cart", "refund", 6, 9, .method, [], ["each", "audit"]⟩,
        ⟨"Cart", "refund", 7, 8, .closure, [], ["audit"]⟩,
        ⟨"Cart", "audit", 11, 12, .method, [], []⟩], 0⟩,
    ⟨"CartTest.java",
      [⟨"CartTest", "adds", 1, 8, .method, ["Test"], ["Cart.total"]⟩,
        ⟨"CartTest", "adds", 4, 4, .closure, [], ["Cart.total"]⟩], 0⟩]

/-- The same files, last declarations and last file first. -/
def shopReversed : List SourceFacts :=
  (shop.map fun f => { f with declarations := f.declarations.reverse }).reverse

/-- A change of `total` and `audit`. -/
def shopChanges : List LineChanges := [⟨"Cart.java", [⟨2, 2⟩, ⟨12, 12⟩]⟩]

theorem rearranged_shop : Rearranged shop shopReversed := by
  refine ⟨shop.map fun f => { f with declarations := f.declarations.reverse }, ?_,
    (List.reverse_perm _).symm⟩
  rw [List.forall₂_map_right_iff, List.forall₂_same]
  exact fun f _ => ⟨rfl, rfl, (List.reverse_perm _).symm⟩

/-- The closures of the two files change their numbers, and the gap of `audit` one of its callers.
-/
theorem report_rearranged_shop :
    (Coverage.gapOf (SourceUnit.ofFiles shop).build.graph ⟨"Cart", "audit"⟩).callers =
        [⟨"Cart", "refund"⟩, ⟨"Cart", "refund$lambda$1"⟩] ∧
      (Coverage.gapOf (SourceUnit.ofFiles shopReversed).build.graph ⟨"Cart", "audit"⟩).callers =
        [⟨"Cart", "refund"⟩, ⟨"Cart", "refund$lambda$2"⟩] ∧
      Alike (.ofFiles shop) (.ofFiles shopReversed) .default shopChanges :=
  ⟨by decide +kernel, by decide +kernel,
    report_rearranged (.ofFiles shop) (by decide +kernel) rearranged_shop .default shopChanges⟩

end ChangeImpact.Build
