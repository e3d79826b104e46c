import ChangeImpact.Impact.LineRange
import ChangeImpact.Proofs.Naming
import ChangeImpact.Proofs.ResolutionRules

/-!
# The graph of a unit by its declarations

What a build puts together out of lists that grow file by file is said here by membership: which
vertices, edges and changed methods there are, given the declarations.

* `resolve_anonymous` — a call means the same in an anonymous class as in the type around it;
* `tracks_known` — the methods among which the calls of a unit are resolved;
* `links_eq` — every call that is resolved gives a link;
* `mem_methods`, `mem_edges`, `mem_changedMethods` — the graph and the changed methods of a unit.
-/

namespace ChangeImpact

/-! ## Resolution -/

namespace Resolution

variable {d : Index} {target caller owner name : String}

/-- The meaning of a call hangs on nothing but the four rules. -/
theorem resolve_congr {d' : Index} {caller' : String}
    (hdeclares : ∀ owner name, d.declares owner name = d'.declares owner name)
    (hreceiver : ∀ receiver name, d.byReceiver receiver name = d'.byReceiver receiver name)
    (hsame : ∀ name, d.bySameOwner caller name = d'.bySameOwner caller' name)
    (hname : ∀ name, d.byUniqueName name = d'.byUniqueName name) :
    d.resolve target caller = d'.resolve target caller' := by
  unfold Index.resolve
  dsimp only
  rw [hsame, hname]
  simp only [hdeclares, hreceiver]

/-- No type declares a method of the minted form, so that an anonymous class is passed over when
owners are tried from the inside out. -/
theorem bySameOwner_anonymous
    (hplain : ∀ m : Method, d.declares m.owner m.name = true → m.isSynthetic = false)
    (member : String) (n : Nat) :
    d.bySameOwner (Method.anonymous owner member n).owner name = d.bySameOwner owner name := by
  have hnot : d.declares (Method.anonymous owner member n).owner name = false := by
    rw [Bool.eq_false_iff]
    intro hdeclares
    have hminted : (Method.anonymous owner name n).isSynthetic = true :=
      Method.isSynthetic_anonymous owner name n
    rw [hplain (Method.anonymous owner name n) hdeclares] at hminted
    cases hminted
  unfold Index.bySameOwner
  rw [enclosingOwners_anonymous, List.find?_cons_of_neg (by simp [hnot])]

/-- A call means the same in an anonymous class as in the type around it. -/
theorem resolve_anonymous
    (hplain : ∀ m : Method, d.declares m.owner m.name = true → m.isSynthetic = false)
    (member : String) (n : Nat) :
    d.resolve target (Method.anonymous owner member n).owner = d.resolve target owner := by
  refine resolve_congr (fun _ _ => rfl) (fun _ _ => rfl) ?_ (fun _ => rfl)
  exact fun name => bySameOwner_anonymous hplain member n

end Resolution

/-! ## Vertices and edges -/

namespace Build

variable {files : List SourceFacts} {m : Method}

/-- The ordinary methods among which the calls of a unit are resolved. -/
def known (files : List SourceFacts) : Resolution.Index := index (entries files)

/-- The methods that the ordinary declarations of a unit spell. -/
def ordinary (files : List SourceFacts) : Set Method :=
  {m | ∃ x ∈ sites files, x.declaration.kind = .method ∧ x.declaration.ownMethod = m}

theorem known_eq (files : List SourceFacts) :
    known files = .ofList (((sites files).filter (·.declaration.kind = .method)).map
      (·.declaration.ownMethod)) := by
  rw [known, index, entries_eq, List.filter_map, List.map_map]
  congr 1
  refine List.map_congr_left fun x hx => ?_
  have hkind : x.declaration.kind = .method := of_decide_eq_true (List.mem_filter.1 hx).2
  simp [entryOf, vertexOf, hkind]

theorem tracks_known (files : List SourceFacts) : (known files).Tracks (ordinary files) := by
  have hset : ordinary files = {m | m ∈ ((sites files).filter (·.declaration.kind = .method)).map
      (·.declaration.ownMethod)} := by
    ext m
    simp only [ordinary, Set.mem_ofPred_eq, List.mem_map, List.mem_filter, decide_eq_true_eq,
      and_assoc]
  rw [known_eq, hset]
  exact Resolution.tracks_ofList _

/-- A call is resolved to an ordinary method of the unit. -/
theorem mem_ordinary_of_resolve {target caller : String} {s : Resolution.Strategy}
    (h : (known files).resolve target caller = some (m, s)) : m ∈ ordinary files :=
  ((Resolution.resolve_iff_meaning (tracks_known files)).1 h).mem

theorem isSynthetic_of_mem_ordinary (hplain : Plain (sites files)) (hm : m ∈ ordinary files) :
    m.isSynthetic = false := by
  obtain ⟨x, hx, -, rfl⟩ := hm
  exact hplain x hx

/-- An ordinary method is a vertex. -/
theorem mem_vertices_of_ordinary (hm : m ∈ ordinary files) :
    m ∈ (entries files).map (·.method) := by
  obtain ⟨x, hx, hkind, rfl⟩ := hm
  rw [entries_eq, List.map_map]
  exact List.mem_map.2 ⟨x, hx, by simp [entryOf, vertexOf, hkind]⟩

/-- The link of a call that was resolved. -/
def Call.linkOf (c : Call) : Option Link :=
  c.meaning.map fun r => ⟨(c.caller, r.1), r.2⟩

theorem mem_calls {c : Call} (h : c ∈ calls (entries files)) :
    ∃ e ∈ entries files, c.caller = e.method ∧ c.target ∈ e.declaration.targets ∧
      c.meaning = (known files).resolve c.target e.method.owner := by
  obtain ⟨e, he, hc⟩ := List.mem_flatMap.1 h
  obtain ⟨target, htarget, rfl⟩ := List.mem_map.1 hc
  exact ⟨e, he, rfl, htarget, rfl⟩

/-- Every call that is resolved gives a link: what it means is found among the vertices. -/
theorem links_eq (files : List SourceFacts) :
    (calls (entries files)).filterMap (Call.link? ((entries files).map (·.method))) =
      (calls (entries files)).filterMap Call.linkOf := by
  refine List.filterMap_congr fun c hc => ?_
  obtain ⟨e, -, -, -, hmeaning⟩ := mem_calls hc
  rw [Call.link?, Call.linkOf, hmeaning]
  cases hresolve : (known files).resolve c.target e.method.owner with
  | none => rfl
  | some found =>
    have hvertex := mem_vertices_of_ordinary (mem_ordinary_of_resolve hresolve)
    dsimp only
    rw [if_pos hvertex]
    rfl

/-- Calls are resolved as seen from the type that is written around them. -/
theorem resolve_vertexOf (hplain : Plain (sites files)) (x : Site) (target : String) :
    (known files).resolve target (vertexOf (sites files) x).owner =
      (known files).resolve target x.declaration.owner := by
  unfold vertexOf
  cases x.declaration.kind with
  | method => rfl
  | closure => rfl
  | anonymousMethod body =>
    refine Resolution.resolve_anonymous (fun m hm => ?_) _ _
    exact isSynthetic_of_mem_ordinary hplain (((tracks_known files).declares _ _).1 hm)

/-- The call of a target in a declaration. -/
def callOf (files : List SourceFacts) (x : Site) (target : String) : Call :=
  ⟨vertexOf (sites files) x, target,
    (known files).resolve target (vertexOf (sites files) x).owner⟩

/-- All calls of a unit, by its declarations. -/
theorem calls_eq (files : List SourceFacts) :
    calls (entries files) =
      (sites files).flatMap fun x => x.declaration.targets.map (callOf files x) := by
  have hcalls : calls (entries files) = (entries files).flatMap fun e =>
      e.declaration.targets.map fun t =>
        ⟨e.method, t, (known files).resolve t e.method.owner⟩ := rfl
  rw [hcalls, entries_eq, List.flatMap_map]
  rfl

variable {u : SourceUnit} {changes : List LineChanges} {a b : Method}

theorem edges_eq (u : SourceUnit) :
    u.build.graph.edges =
      firstOccurrences (((calls (entries u.files)).filterMap Call.linkOf).map (·.edge)) := by
  rw [← links_eq]
  rfl

/-- The edges of a unit, by the owners of its vertices. -/
theorem mem_edges_iff :
    (a, b) ∈ u.build.graph.edges ↔
      ∃ x ∈ sites u.files, vertexOf (sites u.files) x = a ∧ ∃ target ∈ x.declaration.targets,
        ((known u.files).resolve target a.owner).map (·.1) = some b := by
  rw [edges_eq, mem_firstOccurrences, List.mem_map, calls_eq]
  constructor
  · rintro ⟨link, hlink, hedge⟩
    obtain ⟨c, hc, hlink⟩ := List.mem_filterMap.1 hlink
    obtain ⟨x, hx, hc⟩ := List.mem_flatMap.1 hc
    obtain ⟨target, htarget, rfl⟩ := List.mem_map.1 hc
    obtain ⟨r, hr, rfl⟩ := Option.map_eq_some_iff.1 hlink
    obtain ⟨rfl, rfl⟩ := Prod.mk.inj hedge
    exact ⟨x, hx, rfl, target, htarget, Option.map_eq_some_iff.2 ⟨r, hr, rfl⟩⟩
  · rintro ⟨x, hx, rfl, target, htarget, hresolve⟩
    obtain ⟨r, hr, rfl⟩ := Option.map_eq_some_iff.1 hresolve
    refine ⟨⟨(vertexOf (sites u.files) x, r.1), r.2⟩, ?_, rfl⟩
    refine List.mem_filterMap.2 ⟨callOf u.files x target, ?_, ?_⟩
    · exact List.mem_flatMap.2 ⟨x, hx, List.mem_map.2 ⟨target, htarget, rfl⟩⟩
    · exact Option.map_eq_some_iff.2 ⟨r, hr, rfl⟩

/-- The edges of a unit, by the types that are written around the calls. -/
theorem mem_edges (hplain : Plain (sites u.files)) :
    (a, b) ∈ u.build.graph.edges ↔
      ∃ x ∈ sites u.files, vertexOf (sites u.files) x = a ∧ ∃ target ∈ x.declaration.targets,
        ((known u.files).resolve target x.declaration.owner).map (·.1) = some b := by
  rw [mem_edges_iff]
  refine exists_congr fun x => and_congr_right fun _ => and_congr_right fun hvertex => ?_
  rw [← hvertex]
  simp only [resolve_vertexOf hplain]

/-- The vertices of a unit are those of its declarations: the ends of edges are among them. -/
theorem methods_eq (u : SourceUnit) :
    u.build.graph.methods = firstOccurrences ((sites u.files).map (vertexOf (sites u.files))) := by
  have hvertices : (entries u.files).map (·.method) =
      (sites u.files).map (vertexOf (sites u.files)) := by
    rw [entries_eq, List.map_map]
    rfl
  have hmethods : u.build.graph.methods = firstOccurrences ((entries u.files).map (·.method) ++
      (((calls (entries u.files)).filterMap (Call.link? ((entries u.files).map (·.method)))).map
        (·.edge)).flatMap fun e => [e.1, e.2]) := rfl
  rw [hmethods, firstOccurrences_append_of_subset, hvertices]
  intro m hm
  obtain ⟨⟨a, b⟩, hedge, hend⟩ := List.mem_flatMap.1 hm
  have hmem : (a, b) ∈ u.build.graph.edges := mem_firstOccurrences.2 hedge
  obtain ⟨x, hx, rfl, target, -, hresolve⟩ := mem_edges_iff.1 hmem
  simp only [List.mem_cons, List.not_mem_nil, or_false] at hend
  rcases hend with rfl | rfl
  · rw [hvertices]
    exact List.mem_map_of_mem hx
  · obtain ⟨r, hr, rfl⟩ := Option.map_eq_some_iff.1 hresolve
    exact mem_vertices_of_ordinary (mem_ordinary_of_resolve hr)

/-- The vertices of a unit. -/
theorem mem_methods :
    m ∈ u.build.graph.methods ↔ ∃ x ∈ sites u.files, vertexOf (sites u.files) x = m := by
  rw [methods_eq, mem_firstOccurrences, List.mem_map]

/-! ## Counts -/

/-- What the calls of a unit mean, in order. -/
def meanings (files : List SourceFacts) : List (Option (Method × Resolution.Strategy)) :=
  (sites files).flatMap fun x => x.declaration.targets.map fun target =>
    (known files).resolve target (vertexOf (sites files) x).owner

theorem map_meaning_calls (files : List SourceFacts) :
    (calls (entries files)).map (·.meaning) = meanings files := by
  rw [calls_eq, List.map_flatMap]
  simp only [List.map_map]
  rfl

/-- The rules of the links are those of the calls that have a meaning. -/
theorem resolved_eq (u : SourceUnit) :
    u.build.stats.resolved =
      countStrategies ((meanings u.files).filterMap fun r => r.map (·.2)) := by
  have hresolved : u.build.stats.resolved = countStrategies (((calls (entries u.files)).filterMap
      (Call.link? ((entries u.files).map (·.method)))).map (·.strategy)) := rfl
  rw [hresolved, links_eq, List.map_filterMap, ← map_meaning_calls, List.filterMap_map]
  congr 2
  funext c
  cases hmeaning : c.meaning <;> simp [Call.linkOf, hmeaning]

/-- The calls that give no link are those without a meaning. -/
theorem unresolved_eq (u : SourceUnit) :
    u.build.stats.unresolved = (meanings u.files).countP (·.isNone) := by
  have hunresolved : u.build.stats.unresolved = (calls (entries u.files)).length -
      ((calls (entries u.files)).filterMap
        (Call.link? ((entries u.files).map (·.method)))).length := rfl
  rw [hunresolved, links_eq, ← map_meaning_calls, List.countP_map]
  have hlinks : ((calls (entries u.files)).filterMap Call.linkOf).length =
      (calls (entries u.files)).countP fun c => c.meaning.isSome := by
    rw [List.length_filterMap_eq_countP]
    congr 1
    funext c
    cases hmeaning : c.meaning <;> simp [Call.linkOf, hmeaning]
  have hall := List.length_eq_countP_add_countP (fun c : Call => c.meaning.isSome)
    (l := calls (entries u.files))
  have hnone : (calls (entries u.files)).countP (fun c => !c.meaning.isSome) =
      (calls (entries u.files)).countP ((·.isNone) ∘ (·.meaning)) := by
    congr 1
    funext c
    cases hmeaning : c.meaning <;> simp [hmeaning]
  simp only [Bool.not_eq_true, Bool.decide_eq_false] at hall
  omega

/-! ## Changed methods -/

/-- Whether a change touches the lines of a declaration. -/
def Site.touchedBy (x : Site) (changes : List LineChanges) : Bool :=
  (LineChanges.lookup changes x.path).any fun c =>
    c.ranges.any fun r => x.declaration.startLine ≤ r.stop && r.start ≤ x.declaration.endLine

/-- The changed methods of a unit. -/
theorem mem_changedMethods :
    m ∈ u.build.changedMethods changes ↔
      ∃ x ∈ sites u.files, x.touchedBy changes = true ∧ vertexOf (sites u.files) x = m := by
  have hspans : u.build.spans = (entries u.files).map Entry.span := rfl
  have htouched : ∀ x : Site,
      (entryOf (sites u.files) x).span.touchedBy changes = x.touchedBy changes := fun _ => rfl
  rw [Build.changedMethods, mem_sortedSet, hspans, entries_eq]
  simp only [List.mem_map, List.mem_filter]
  constructor
  · rintro ⟨s, ⟨⟨e, ⟨x, hx, rfl⟩, rfl⟩, ht⟩, rfl⟩
    exact ⟨x, hx, htouched x ▸ ht, rfl⟩
  · rintro ⟨x, hx, ht, rfl⟩
    exact ⟨_, ⟨⟨_, ⟨x, hx, rfl⟩, rfl⟩, (htouched x).symm ▸ ht⟩, rfl⟩

end Build

end ChangeImpact
