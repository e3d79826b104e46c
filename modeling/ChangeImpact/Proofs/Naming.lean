import ChangeImpact.CallGraph.Build
import ChangeImpact.Proofs.FirstOccurrences
import ChangeImpact.Proofs.MintedNames
import Mathlib.Algebra.GroupWithZero.Nat
import Mathlib.Data.List.Basic

/-!
# Vertices of declarations

The counters of a build are run through once, from the first declaration to the last. Their outcome
can be said without them: a closure's number is its place among the closures, and the number of an
anonymous body its place among the bodies.

* `Site` — a declaration with its place in the unit; `sites` — all of them in order;
* `vertexOf` — the vertex of a declaration, without counters; `entries_eq` — the counters give it;
* `vertexOf_eq_iff` — which declarations share a vertex;
* `vertexAt` — the vertex of the declaration at a place.
-/

namespace ChangeImpact.Build

/-! ## Sites -/

/-- A declaration and where it stands: the `place`-th of the `file`-th file. -/
structure Site where
  file : Nat
  place : Nat
  path : String
  declaration : Declaration
deriving DecidableEq, Repr

/-- The declarations of a file, from a place on. -/
def sitesOfFile (file : Nat) (path : String) (place : Nat) : List Declaration → List Site
  | [] => []
  | d :: ds => ⟨file, place, path, d⟩ :: sitesOfFile file path (place + 1) ds

/-- The declarations of files, the first of them being the `file`-th. -/
def sitesFrom (file : Nat) : List SourceFacts → List Site
  | [] => []
  | f :: fs => sitesOfFile file f.path 0 f.declarations ++ sitesFrom (file + 1) fs

/-- All declarations of a unit in order. -/
def sites (files : List SourceFacts) : List Site := sitesFrom 0 files

variable {file place : Nat} {path : String} {ds : List Declaration} {files : List SourceFacts}
  {x y : Site}

theorem mem_sitesOfFile :
    x ∈ sitesOfFile file path place ds ↔
      x.file = file ∧ x.path = path ∧ place ≤ x.place ∧
        ds[x.place - place]? = some x.declaration := by
  induction ds generalizing place with
  | nil => simp [sitesOfFile]
  | cons d ds ih =>
    obtain ⟨xfile, xplace, xpath, xd⟩ := x
    simp only [sitesOfFile, List.mem_cons, ih, Site.mk.injEq]
    constructor
    · rintro (⟨rfl, rfl, rfl, rfl⟩ | ⟨rfl, rfl, hle, hget⟩)
      · simp
      · have hsub : xplace - place = xplace - (place + 1) + 1 := by omega
        rw [hsub, List.getElem?_cons_succ]
        exact ⟨rfl, rfl, by omega, hget⟩
    · rintro ⟨rfl, rfl, hle, hget⟩
      by_cases hplace : xplace = place
      · subst hplace
        rw [Nat.sub_self, List.getElem?_cons_zero] at hget
        exact .inl ⟨rfl, rfl, rfl, (Option.some.inj hget).symm⟩
      · have hsub : xplace - place = xplace - (place + 1) + 1 := by omega
        rw [hsub, List.getElem?_cons_succ] at hget
        exact .inr ⟨rfl, rfl, by omega, hget⟩

theorem mem_sitesFrom :
    x ∈ sitesFrom file files ↔
      file ≤ x.file ∧ ∃ f, files[x.file - file]? = some f ∧ x.path = f.path ∧
        f.declarations[x.place]? = some x.declaration := by
  induction files generalizing file with
  | nil => simp [sitesFrom]
  | cons f files ih =>
    rw [sitesFrom, List.mem_append, mem_sitesOfFile, ih]
    constructor
    · rintro (⟨rfl, hpath, -, hget⟩ | ⟨hle, g, hg, hpath, hget⟩)
      · exact ⟨Nat.le_refl _, f, by simp, hpath, hget⟩
      · have hsub : x.file - file = x.file - (file + 1) + 1 := by omega
        exact ⟨by omega, g, by rw [hsub, List.getElem?_cons_succ, hg], hpath, hget⟩
    · rintro ⟨hle, g, hg, hpath, hget⟩
      by_cases hfile : x.file = file
      · rw [hfile, Nat.sub_self, List.getElem?_cons_zero] at hg
        obtain rfl := Option.some.inj hg
        exact .inl ⟨hfile, hpath, Nat.zero_le _, hget⟩
      · have hsub : x.file - file = x.file - (file + 1) + 1 := by omega
        rw [hsub, List.getElem?_cons_succ] at hg
        exact .inr ⟨by omega, g, hg, hpath, hget⟩

/-- The sites of a unit are the declarations of its files. -/
theorem mem_sites :
    x ∈ sites files ↔ ∃ f, files[x.file]? = some f ∧ x.path = f.path ∧
      f.declarations[x.place]? = some x.declaration := by
  rw [sites, mem_sitesFrom, Nat.sub_zero]
  exact ⟨fun h => h.2, fun h => ⟨Nat.zero_le _, h⟩⟩

/-- A site is known by its place. -/
theorem site_ext (hx : x ∈ sites files) (hy : y ∈ sites files) (hfile : x.file = y.file)
    (hplace : x.place = y.place) : x = y := by
  obtain ⟨f, hf, hpath, hget⟩ := mem_sites.1 hx
  obtain ⟨g, hg, hpath', hget'⟩ := mem_sites.1 hy
  rw [← hfile, hf] at hg
  obtain rfl := Option.some.inj hg
  rw [← hplace, hget] at hget'
  cases x
  cases y
  simp_all

theorem nodup_sitesOfFile : (sitesOfFile file path place ds).Nodup := by
  induction ds generalizing place with
  | nil => exact List.nodup_nil
  | cons d ds ih =>
    refine List.nodup_cons.2 ⟨?_, ih⟩
    intro hmem
    have hplace : place + 1 ≤ place := (mem_sitesOfFile.1 hmem).2.2.1
    omega

theorem nodup_sitesFrom : (sitesFrom file files).Nodup := by
  induction files generalizing file with
  | nil => exact List.nodup_nil
  | cons f files ih =>
    refine List.nodup_append.2 ⟨nodup_sitesOfFile, ih, ?_⟩
    rintro x hx y hy rfl
    have hfile : x.file = file := (mem_sitesOfFile.1 hx).1
    have hle : file + 1 ≤ x.file := (mem_sitesFrom.1 hy).1
    omega

/-! ## Vertices without counters -/

/-- Whether the declaration is a closure. -/
def Site.isClosure (x : Site) : Bool := x.declaration.kind = .closure

/-- The anonymous body that the declaration is a member of, by file and number. -/
def Site.body? (x : Site) : Option (Nat × Nat) :=
  match x.declaration.kind with
  | .anonymousMethod body => some (x.file, body)
  | _ => none

/-- The anonymous bodies among declarations, in order. -/
def bodies (all : List Site) : List (Nat × Nat) :=
  firstOccurrences (all.filterMap Site.body?)

/-- The vertex of one of the declarations: closures and anonymous bodies are numbered in order. -/
def vertexOf (all : List Site) (x : Site) : Method :=
  match x.declaration.kind with
  | .method => x.declaration.ownMethod
  | .closure =>
    .closure x.declaration.owner x.declaration.name ((all.filter Site.isClosure).idxOf x + 1)
  | .anonymousMethod body =>
    .anonymous x.declaration.owner x.declaration.name ((bodies all).idxOf (x.file, body) + 1)

/-- The entry of a declaration. -/
def entryOf (all : List Site) (x : Site) : Entry :=
  ⟨x.path, x.declaration, vertexOf all x⟩

/-- Names declarations in order. -/
def Naming.nameAll (s : Naming) : List Site → List Entry
  | [] => []
  | x :: xs =>
    let (m, s) := s.identity x.file x.declaration
    ⟨x.path, x.declaration, m⟩ :: s.nameAll xs

/-- What the counters hold after some declarations. -/
def namingOf (done : List Site) : Naming :=
  ⟨(done.filter Site.isClosure).length, bodies done⟩

theorem bodies_append (done rest : List Site) : bodies done <+: bodies (done ++ rest) := by
  unfold bodies
  rw [List.filterMap_append]
  exact firstOccurrences_append _ _

theorem bodies_append_singleton (done : List Site) (x : Site) :
    bodies (done ++ [x]) = match x.body? with
      | some b => addNew (bodies done) b
      | none => bodies done := by
  unfold bodies
  rw [List.filterMap_append]
  cases hb : x.body? with
  | none => simp [hb]
  | some b => simp [hb, firstOccurrences, List.foldl_append]

/-- One declaration: the counters give the vertex, and hold what is known after it. -/
theorem identity_namingOf {done rest : List Site} (hx : x ∉ done) :
    (namingOf done).identity x.file x.declaration =
      (vertexOf (done ++ x :: rest) x, namingOf (done ++ [x])) := by
  have hbodies := bodies_append_singleton done x
  unfold Naming.identity vertexOf namingOf
  cases hkind : x.declaration.kind with
  | method =>
    have hclosure : x.isClosure = false := by simp [Site.isClosure, hkind]
    have hbody : x.body? = none := by simp [Site.body?, hkind]
    rw [hbody] at hbodies
    simp [hbodies, hclosure]
  | closure =>
    have hclosure : x.isClosure = true := by simp [Site.isClosure, hkind]
    have hbody : x.body? = none := by simp [Site.body?, hkind]
    rw [hbody] at hbodies
    have hnot : x ∉ done.filter Site.isClosure := fun h => hx (List.mem_filter.1 h).1
    simp [hbodies, hclosure, List.filter_append, List.idxOf_append_of_notMem hnot]
  | anonymousMethod body =>
    have hclosure : x.isClosure = false := by simp [Site.isClosure, hkind]
    have hbody : x.body? = some (x.file, body) := by simp [Site.body?, hkind]
    rw [hbody] at hbodies
    have hmem : (x.file, body) ∈ bodies (done ++ [x]) := by
      rw [hbodies]
      exact mem_addNew.2 (.inr rfl)
    -- later declarations number their bodies behind this one
    have hsplit : done ++ x :: rest = done ++ [x] ++ rest := by simp
    obtain ⟨more, hmore⟩ := bodies_append (done ++ [x]) rest
    rw [← hsplit] at hmore
    have hindex : (bodies (done ++ x :: rest)).idxOf (x.file, body) =
        (addNew (bodies done) (x.file, body)).idxOf (x.file, body) := by
      rw [← hmore, List.idxOf_append_of_mem hmem, hbodies]
    simp [hindex, hbodies, hclosure]

theorem nameAll_namingOf {done rest : List Site} (h : (done ++ rest).Nodup) :
    (namingOf done).nameAll rest = rest.map (entryOf (done ++ rest)) := by
  induction rest generalizing done with
  | nil => rfl
  | cons x rest ih =>
    have hx : x ∉ done := by
      intro hmem
      exact (List.nodup_append.1 h).2.2 x hmem x List.mem_cons_self rfl
    have hsplit : done ++ x :: rest = done ++ [x] ++ rest := by simp
    rw [Naming.nameAll, identity_namingOf hx, List.map_cons]
    dsimp only
    rw [ih (hsplit ▸ h), hsplit]
    rfl

/-- The counters after the declarations of a file. -/
theorem nameAll_sitesOfFile (s : Naming) (rest : List Site) :
    s.nameAll (sitesOfFile file path place ds ++ rest) =
      (s.entries file path ds).1 ++ (s.entries file path ds).2.nameAll rest := by
  induction ds generalizing s place with
  | nil => rfl
  | cons d ds ih =>
    rw [sitesOfFile, List.cons_append, Naming.nameAll, Naming.entries]
    dsimp only
    rw [ih]
    rfl

theorem nameAll_sitesFrom (s : Naming) :
    s.nameAll (sitesFrom file files) = s.entriesOfFiles file files := by
  induction files generalizing s file with
  | nil => rfl
  | cons f files ih =>
    rw [sitesFrom, nameAll_sitesOfFile, ih, Naming.entriesOfFiles]

/-- The entries of a unit, without counters. -/
theorem entries_eq (files : List SourceFacts) :
    entries files = (sites files).map (entryOf (sites files)) := by
  have hstart : namingOf [] = ⟨0, []⟩ := rfl
  have hall :
      (namingOf []).nameAll (sites files) = (sites files).map (entryOf ([] ++ sites files)) :=
    nameAll_namingOf nodup_sitesFrom
  rw [List.nil_append] at hall
  rw [entries, ← nameAll_sitesFrom, ← hstart]
  exact hall

/-! ## Shared vertices -/

/-- No declaration is written with a name of the minted form. -/
def Plain (all : List Site) : Prop :=
  ∀ x ∈ all, x.declaration.ownMethod.isSynthetic = false

theorem plain_of_declarations
    (h : ∀ f ∈ files, ∀ d ∈ f.declarations, d.ownMethod.isSynthetic = false) :
    Plain (sites files) := by
  intro x hx
  obtain ⟨f, hf, -, hd⟩ := mem_sites.1 hx
  exact h f (List.mem_of_getElem? hf) _ (List.mem_of_getElem? hd)

/-- Declarations that share a vertex: methods of one owner and name, or members of one anonymous
body and name. A closure shares its vertex with no other declaration. -/
def Site.Same (x y : Site) : Prop :=
  x.declaration.ownMethod = y.declaration.ownMethod ∧
    match x.declaration.kind, y.declaration.kind with
    | .method, .method => True
    | .closure, .closure => x = y
    | .anonymousMethod _, .anonymousMethod _ => x.body? = y.body?
    | _, _ => False

variable {all : List Site}

/-- A vertex is taken for a minted one if it was minted, or if its declaration is written like one.
-/
theorem isSynthetic_vertexOf_iff :
    (vertexOf all x).isSynthetic = true ↔
      x.declaration.kind ≠ .method ∨ x.declaration.ownMethod.isSynthetic = true := by
  unfold vertexOf
  cases hkind : x.declaration.kind with
  | method => simp
  | closure => simpa using Method.isSynthetic_closure _ _ _
  | anonymousMethod body => simpa using Method.isSynthetic_anonymous _ _ _

/-- The minted vertices are those of closures and members of anonymous classes. -/
theorem isSynthetic_vertexOf (hplain : Plain all) (hx : x ∈ all) :
    (vertexOf all x).isSynthetic = decide (x.declaration.kind ≠ .method) := by
  rw [Bool.eq_iff_iff, isSynthetic_vertexOf_iff, hplain x hx, decide_eq_true_iff]
  simp

/-- An ordinary method shares its vertex with no closure or member. -/
theorem vertexOf_ne_of_kind (hplain : Plain all) (hx : x ∈ all) (hy : y ∈ all)
    (hkx : x.declaration.kind = .method) (hky : y.declaration.kind ≠ .method) :
    vertexOf all x ≠ vertexOf all y := by
  intro heq
  have hsx := isSynthetic_vertexOf hplain hx
  rw [heq, isSynthetic_vertexOf hplain hy, hkx] at hsx
  simp [hky] at hsx

theorem mem_bodies {b : Nat × Nat} (hx : x ∈ all) (hb : x.body? = some b) : b ∈ bodies all :=
  mem_firstOccurrences.2 (List.mem_filterMap.2 ⟨x, hx, hb⟩)

/-- Which declarations share a vertex. -/
theorem vertexOf_eq_iff (hplain : Plain all) (hx : x ∈ all) (hy : y ∈ all) :
    vertexOf all x = vertexOf all y ↔ x.Same y := by
  unfold Site.Same
  cases hkx : x.declaration.kind with
  | method =>
    cases hky : y.declaration.kind with
    | method => simp [vertexOf, hkx, hky]
    | closure | anonymousMethod =>
      simp only [and_false, iff_false]
      exact vertexOf_ne_of_kind hplain hx hy hkx (by simp [hky])
  | closure =>
    cases hky : y.declaration.kind with
    | method =>
      simp only [and_false, iff_false]
      exact (vertexOf_ne_of_kind hplain hy hx hky (by simp [hkx])).symm
    | closure =>
      have hmem : x ∈ all.filter Site.isClosure := by
        exact List.mem_filter.2 ⟨hx, by simp [Site.isClosure, hkx]⟩
      constructor
      · intro heq
        simp only [vertexOf, hkx, hky] at heq
        obtain ⟨-, -, hnumber⟩ := Method.closure_inj heq
        obtain rfl : x = y := (List.idxOf_inj hmem).1 (by omega)
        exact ⟨rfl, rfl⟩
      · rintro ⟨-, rfl⟩
        rfl
    | anonymousMethod body =>
      simp only [and_false, iff_false, vertexOf, hkx, hky]
      exact Method.closure_ne_anonymous (hplain x hx)
  | anonymousMethod body =>
    cases hky : y.declaration.kind with
    | method =>
      simp only [and_false, iff_false]
      exact (vertexOf_ne_of_kind hplain hy hx hky (by simp [hkx])).symm
    | closure =>
      simp only [and_false, iff_false, vertexOf, hkx, hky]
      exact (Method.closure_ne_anonymous (hplain y hy)).symm
    | anonymousMethod body' =>
      have hbx : x.body? = some (x.file, body) := by simp [Site.body?, hkx]
      have hby : y.body? = some (y.file, body') := by simp [Site.body?, hky]
      rw [hbx, hby, Option.some.injEq]
      simp only [vertexOf, hkx, hky]
      constructor
      · intro heq
        obtain ⟨howner, hname, hnumber⟩ := Method.anonymous_inj heq
        refine ⟨by simp [Declaration.ownMethod, howner, hname], ?_⟩
        exact (List.idxOf_inj (mem_bodies hx hbx)).1 (by omega)
      · rintro ⟨hown, hbody⟩
        obtain ⟨howner, hname⟩ := Method.mk.inj hown
        rw [howner, hname, hbody]

/-! ## Vertices by place -/

/-- How many declarations stand before those of a file. -/
def offset (files : List SourceFacts) (file : Nat) : Nat :=
  ((files.take file).map (·.declarations.length)).sum

/-- The vertex that a build gives to the `place`-th declaration of the `file`-th file. -/
def vertexAt (files : List SourceFacts) (file place : Nat) : Option Method := do
  let f ← files[file]?
  let _ ← f.declarations[place]?
  ((entries files)[offset files file + place]?).map (·.method)

theorem length_sitesOfFile : (sitesOfFile file path place ds).length = ds.length := by
  induction ds generalizing place with
  | nil => rfl
  | cons d ds ih => rw [sitesOfFile, List.length_cons, List.length_cons, ih]

theorem getElem?_sitesOfFile (i : Nat) :
    (sitesOfFile file path place ds)[i]? = ds[i]?.map (⟨file, place + i, path, ·⟩) := by
  induction ds generalizing place i with
  | nil => rfl
  | cons d ds ih =>
    cases i with
    | zero => rfl
    | succ i =>
      rw [sitesOfFile, List.getElem?_cons_succ, List.getElem?_cons_succ, ih]
      congr 2
      funext d
      congr 1
      omega

theorem getElem?_sitesFrom {k i : Nat} {f : SourceFacts} {d : Declaration} (hf : files[k]? = some f)
    (hd : f.declarations[i]? = some d) :
    (sitesFrom file files)[offset files k + i]? = some ⟨file + k, i, f.path, d⟩ := by
  induction files generalizing file k with
  | nil => simp at hf
  | cons g files ih =>
    cases k with
    | zero =>
      obtain rfl : g = f := by simpa using hf
      have hi : i < g.declarations.length := (List.getElem?_eq_some_iff.1 hd).1
      have hoffset : offset (g :: files) 0 + i = i := by simp [offset]
      rw [sitesFrom, hoffset, List.getElem?_append_left (length_sitesOfFile.symm ▸ hi),
        getElem?_sitesOfFile, hd]
      simp
    | succ k =>
      have hoffset : offset (g :: files) (k + 1) + i =
          g.declarations.length + (offset files k + i) := by
        simp only [offset, List.take_succ_cons, List.map_cons, List.sum_cons]
        omega
      rw [sitesFrom, hoffset, List.getElem?_append_right (by rw [length_sitesOfFile]; omega),
        length_sitesOfFile, Nat.add_sub_cancel_left, ih (by simpa using hf)]
      congr 2
      omega

/-- The vertex at a place is the one known without counters. -/
theorem vertexAt_eq (hx : x ∈ sites files) :
    vertexAt files x.file x.place = some (vertexOf (sites files) x) := by
  obtain ⟨f, hf, hpath, hd⟩ := mem_sites.1 hx
  have hsite : (sitesFrom 0 files)[offset files x.file + x.place]? =
      some ⟨0 + x.file, x.place, f.path, x.declaration⟩ := getElem?_sitesFrom hf hd
  unfold vertexAt
  rw [hf, entries_eq, List.getElem?_map, sites, hsite]
  simp [hd, entryOf, ← hpath]

end ChangeImpact.Build
