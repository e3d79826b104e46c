import ChangeImpact.Proofs.CallSites
import Mathlib.Data.List.Nodup

/-!
# The targets of a method

What the walk finds, said about the tree: every method that it meets is listed, and its targets are
those of the calls and method references that lie in it, in their order.

* `Describes` — the declaration of a method that was met where some variables are known;
* `IsListing` — the same with the order of the targets;
* `Yields` — what a part of the walk adds to what was found before: targets to the declarations that
  are active, and declarations of methods;
* `Walks` — the walk adds what is said in a tree; there is a lemma for each kind of tree, and
  `walks_plain` and `walks_creation` put one level of the walk together;
* `method_listing`, `method_listed` — the whole walk over a tree that is not too deep.
-/

namespace ChangeImpact.Java

variable {active active' : List Nat} {f f₁ f₂ : Found} {s : Scope} {d : Declaration}
  {v : Variables} {t M : Tree} {n : Nat}

/-- The declaration of a method that was met where the variables `v` are known. -/
structure Describes (d : Declaration) (M : Tree) (v : Variables) : Prop where
  kind : d.kind = .method
  name : (M.child? .name).map (·.text) = some d.name
  startLine : d.startLine = M.startRow + 1
  endLine : d.endLine = M.endRow + 1
  annotations : d.annotations = annotationNames M
  targets : ∀ x, x ∈ d.targets ↔ ∃ c ∈ M.children, Said (locals M v) c x

/-- What is listed for a method that was met where the variables `v` are known. All but the owner
can be read off its tree. -/
def IsListing (d : Declaration) (M : Tree) (v : Variables) : Prop :=
  ∃ owner name, M.child? .name = some name ∧
    d = ⟨owner, name.text, M.startRow + 1, M.endRow + 1, .method, annotationNames M,
      M.children.flatMap (targetsIn (locals M v))⟩

theorem IsListing.targets (h : IsListing d M v) :
    d.targets = M.children.flatMap (targetsIn (locals M v)) := by
  rcases h with ⟨owner, name, -, rfl⟩
  rfl

theorem IsListing.describes (h : IsListing d M v) : Describes d M v := by
  rcases h with ⟨owner, name, hname, rfl⟩
  refine ⟨rfl, by rw [hname]; rfl, rfl, rfl, rfl, ?_⟩
  intro x
  exact mem_flatMap_congr fun c _ => mem_targetsIn _ c

/-! ## Parts of the walk -/

/-- Adds calls to a declaration. -/
def addTargets (targets : List String) (d : Declaration) : Declaration :=
  { d with targets := d.targets ++ targets }

@[simp] theorem addTargets_nil (d : Declaration) : addTargets [] d = d := by
  simp [addTargets]

theorem addTargets_addTargets (S S' : List String) (d : Declaration) :
    addTargets S' (addTargets S d) = addTargets (S ++ S') d := by
  simp [addTargets]

/-- A part of the walk adds the targets `S` to the declarations that are active, and declarations of
the methods in `L`. -/
structure Yields (active : List Nat) (S : List String) (L : Tree → Variables → Prop)
    (f f' : Found) : Prop where
  old : ∀ (i : Nat) d, f.declarations[i]? = some d →
    f'.declarations[i]? = some (addTargets (if i ∈ active then S else []) d)
  new : ∀ M v, L M v → ∃ (i : Nat) (d : Declaration), f.declarations.length ≤ i ∧
    f'.declarations[i]? = some d ∧ IsListing d M v

namespace Yields

variable {S S' : List String} {L L' : Tree → Variables → Prop}

theorem length_le_of_old
    (h : ∀ (i : Nat) d, f.declarations[i]? = some d → ∃ d', f₁.declarations[i]? = some d') :
    f.declarations.length ≤ f₁.declarations.length := by
  by_contra hlt
  rcases h f₁.declarations.length _ (List.getElem?_eq_getElem (by omega)) with ⟨d', hd'⟩
  rw [List.getElem?_eq_none (Nat.le_refl _)] at hd'
  cases hd'

theorem length_le (h : Yields active S L f f₁) :
    f.declarations.length ≤ f₁.declarations.length :=
  length_le_of_old fun i d hd => ⟨_, h.old i d hd⟩

theorem of_same (h : f₁.declarations = f.declarations) :
    Yields active [] (fun _ _ => False) f f₁ where
  old i d hd := by simp [h, hd]
  new _ _ hfalse := hfalse.elim

theorem congr (h : Yields active S L f f₁) (hS : active ≠ [] → S' = S)
    (hL : ∀ M v, L' M v → L M v) : Yields active S' L' f f₁ where
  old i d hd := by
    rw [h.old i d hd]
    by_cases hi : i ∈ active
    · rw [hS (List.ne_nil_of_mem hi)]
    · rw [if_neg hi, if_neg hi]
  new M v hL' := h.new M v (hL M v hL')

theorem trans (h : Yields active S L f f₁) (h' : Yields active S' L' f₁ f₂)
    (hactive : ∀ i ∈ active, i < f.declarations.length) :
    Yields active (S ++ S') (fun M v => L M v ∨ L' M v) f f₂ where
  old i d hd := by
    rw [h'.old i _ (h.old i d hd), addTargets_addTargets]
    split <;> rfl
  new M v hL := by
    rcases hL with hL | hL
    · -- what is new is not active, so that it stays as it is
      rcases h.new M v hL with ⟨i, d, hi, hd, hlisting⟩
      have hnot : i ∉ active := by
        intro hmem
        have hlt := hactive i hmem
        omega
      have hkept := h'.old i d hd
      rw [if_neg hnot, addTargets_nil] at hkept
      exact ⟨i, d, hi, hkept, hlisting⟩
    · rcases h'.new M v hL with ⟨i, d, hi, hd, hlisting⟩
      exact ⟨i, d, Nat.le_trans h.length_le hi, hd, hlisting⟩

theorem foldl {g : Found → Tree → Found} {S : Tree → List String}
    {L : Tree → Tree → Variables → Prop} {cs : List Tree}
    (h : ∀ c ∈ cs, ∀ f, (∀ i ∈ active, i < f.declarations.length) →
      Yields active (S c) (L c) f (g f c))
    (hactive : ∀ i ∈ active, i < f.declarations.length) :
    Yields active (cs.flatMap S) (fun M v => ∃ c ∈ cs, L c M v) f (cs.foldl g f) := by
  induction cs generalizing f with
  | nil => exact (of_same rfl).congr (fun _ => rfl) (by simp)
  | cons c cs ih =>
    have hfirst := h c List.mem_cons_self f hactive
    have hrest := ih (fun c hc => h c (List.mem_cons_of_mem _ hc)) fun i hi =>
      Nat.lt_of_lt_of_le (hactive i hi) hfirst.length_le
    rw [List.foldl_cons, List.flatMap_cons]
    exact (hfirst.trans hrest hactive).congr (fun _ => rfl) (by simp)

/-- Something else is active inside. `P` says whether what was active still is. -/
theorem widen {P : Prop} [Decidable P] (h : Yields active' S L f₁ f₂)
    (hsame : ∀ (i : Nat) d, f.declarations[i]? = some d → f₁.declarations[i]? = some d)
    (hactive : ∀ i, i < f.declarations.length → (i ∈ active' ↔ i ∈ active ∧ P)) :
    Yields active (if P then S else []) L f f₂ where
  old i d hd := by
    -- of the declarations that are active inside, only those from before matter here
    have hiff := hactive i (List.getElem?_eq_some_iff.1 hd).1
    rw [h.old i d (hsame i d hd)]
    by_cases hi : i ∈ active
    · simp [hiff, hi]
    · simp [hiff, hi]
  new M v hL := by
    rcases h.new M v hL with ⟨i, d, hi, hd, hlisting⟩
    have hle := length_le_of_old fun i d hd => ⟨d, hsame i d hd⟩
    exact ⟨i, d, Nat.le_trans hle hi, hd, hlisting⟩

/-- A call counts once for what is active. -/
theorem record (f : Found) (hactive : active.Nodup) (target : Option String) :
    Yields active target.toList (fun _ _ => False) f (f.record active target) where
  old i d hd := by
    cases target with
    | none => simpa [Found.record] using hd
    | some target =>
      rw [Found.record, Trace.getElem?_credited, hd, Option.map_some]
      by_cases hi : i ∈ active
      · rw [List.count_eq_one_of_mem hactive hi, if_pos hi]
        rfl
      · rw [List.count_eq_zero.2 hi, if_neg hi]
        rfl
  new _ _ hfalse := hfalse.elim

end Yields

/-! ## The walk -/

/-- What is active was declared, in a named type, and counts once. -/
structure Scope.Fits (s : Scope) (f : Found) : Prop where
  lt : ∀ i ∈ s.active, i < f.declarations.length
  nodup : s.active.Nodup
  typed : s.owner = none → s.active = []

/-- The place of a scope. -/
def Scope.place (s : Scope) : Place := ⟨s.owner.isSome, s.known⟩

/-- The walk over a tree that is not too deep adds what is said in it and lists its methods. -/
def Walks (n : Nat) : Prop :=
  ∀ (s : Scope) (f : Found) (t : Tree), t.height < n → s.Fits f →
    Yields s.active (targetsIn s.known t) (Lists s.place t) f (visit n s f t)

theorem Walks.children (h : Walks n) {cs : List Tree} (hcs : ∀ c ∈ cs, c.height < n)
    (hfits : s.Fits f) :
    Yields s.active (cs.flatMap (targetsIn s.known))
      (fun M v => ∃ c ∈ cs, Lists s.place c M v) f (cs.foldl (visit n s) f) :=
  Yields.foldl (fun c hc f hf => h s f c (hcs c hc) ⟨hf, hfits.nodup, hfits.typed⟩) hfits.lt

theorem getElem?_declare {i : Nat} {owner name : String} {kind : Declaration.Kind}
    (h : f.declarations[i]? = some d) :
    (f.declare owner name t kind).2.declarations[i]? = some d := by
  change (f.declarations ++ [_])[i]? = some d
  rw [List.getElem?_append_left (List.getElem?_eq_some_iff.1 h).1, h]

theorem length_declare {owner name : String} {kind : Declaration.Kind} :
    (f.declare owner name t kind).2.declarations.length = f.declarations.length + 1 := by
  change (f.declarations ++ [_]).length = _
  rw [List.length_append, List.length_singleton]

/-- A tree that is passed through: the scope stays, and nothing is found at the tree itself. -/
theorem Walks.through (h : Walks n) (ht : t.height < n + 1) (hfits : s.Fits f)
    (hcreation : t.kind ≠ .objectCreation) (hopen : s.active ≠ [] → t.shuts = false)
    (htarget : target? s.known t = none) (hmethod : (s.place.inType && t.isMethod) = false)
    (hinside : s.place.inside t = s.place) :
    Yields s.active (targetsIn s.known t) (Lists s.place t) f (t.children.foldl (visit n s) f) := by
  refine (h.children (fun _ => Tree.height_child_lt ht) hfits).congr ?_ ?_
  · intro hactive
    rw [targetsIn_plain hcreation, htarget, hopen hactive]
    rfl
  · intro M v hlists
    have hbelow := (lists_below hcreation hmethod hlists).2
    rwa [hinside] at hbelow

/-- The children of a tree that are walked in another scope. -/
theorem Walks.inner {P : Prop} [Decidable P] {s' : Scope} (h : Walks n) (ht : t.height < n + 1)
    (hfits : s'.Fits f₁)
    (hsame : ∀ (i : Nat) d, f.declarations[i]? = some d → f₁.declarations[i]? = some d)
    (hactive : ∀ i, i < f.declarations.length → (i ∈ s'.active ↔ i ∈ s.active ∧ P)) :
    Yields s.active (if P then t.children.flatMap (targetsIn s'.known) else [])
      (fun M v => ∃ c ∈ t.children, Lists s'.place c M v) f
      (t.children.foldl (visit n s') f₁) :=
  (h.children (fun _ => Tree.height_child_lt ht) hfits).widen hsame hactive

/-- What is active outside is not inside. -/
theorem Walks.apart {s' : Scope} (h : Walks n) (ht : t.height < n + 1) (hfits : s'.Fits f)
    (hactive : s'.active = []) (hcreation : t.kind ≠ .objectCreation) (hshuts : t.shuts = true)
    (htarget : target? s.known t = none) (hmethod : t.isMethod = false)
    (hinside : s.place.inside t = s'.place) :
    Yields s.active (targetsIn s.known t) (Lists s.place t) f
      (t.children.foldl (visit n s') f) := by
  refine (h.inner (P := False) ht hfits (fun _ _ hd => hd) (by simp [hactive])).congr ?_ ?_
  · intro _
    rw [targetsIn_of_shuts hshuts htarget, if_neg not_false]
  · intro M v hlists
    have hbelow := (lists_below hcreation (by simp [hmethod]) hlists).2
    rwa [hinside] at hbelow

/-- A method of a named type is listed, with what is said in it. -/
theorem Walks.method (h : Walks n) (ht : t.height < n + 1) (hkind : t.kind = .methodDeclaration)
    {owner : String} {name : Tree} (howner : s.owner = some owner)
    (hname : t.child? .name = some name) :
    Yields s.active (targetsIn s.known t) (Lists s.place t) f
      (t.children.foldl (visit n ⟨s.owner, some name.text, [f.declarations.length],
        locals t s.known⟩) (f.declare owner name.text t .method).2) := by
  have hmethod : t.isMethod = true := by simp [Tree.isMethod, hkind, hname]
  have hcreation : t.kind ≠ .objectCreation := by
    rw [hkind]
    decide
  have hfits : Scope.Fits ⟨s.owner, some name.text, [f.declarations.length], locals t s.known⟩
      (f.declare owner name.text t .method).2 := by
    refine ⟨?_, List.nodup_singleton _, by simp [howner]⟩
    intro i hi
    rw [List.mem_singleton.1 hi, length_declare]
    omega
  have hbelow := h.children (fun _ => Tree.height_child_lt ht) hfits
  constructor
  · intro i d hd
    have hlt := (List.getElem?_eq_some_iff.1 hd).1
    have hother : i ∉ [f.declarations.length] := by
      rw [List.mem_singleton]
      omega
    have hsilent : targetsIn s.known t = [] :=
      targetsIn_of_shuts (by simp [Tree.shuts, Tree.isOwn, hmethod]) (by simp [target?, hkind])
    rw [hbelow.old i d (getElem?_declare hd), if_neg hother, hsilent, ite_self]
  · intro M v hlists
    rcases lists_cases hcreation hlists with ⟨rfl, hplace, -⟩ | ⟨-, hinner⟩
    · -- the method itself
      rcases Place.mk.inj hplace with ⟨-, rfl⟩
      have hown : (f.declare owner name.text M .method).2.declarations[f.declarations.length]? =
          some ⟨owner, name.text, M.startRow + 1, M.endRow + 1, .method, annotationNames M, []⟩ :=
        List.getElem?_concat_length
      have hlisted := hbelow.old _ _ hown
      rw [if_pos (List.mem_singleton_self _)] at hlisted
      exact ⟨_, _, Nat.le_refl _, hlisted, owner, name, hname, rfl⟩
    · have hplace : s.place.inside t = Scope.place
          ⟨s.owner, some name.text, [f.declarations.length], locals t s.known⟩ := by
        simp [Scope.place, Place.inside, Tree.isNamedType, isTypeDeclaration, hkind, hmethod,
          howner]
      rw [hplace] at hinner
      rcases hbelow.new M v hinner with ⟨i, d, hi, hd, hlisting⟩
      rw [length_declare] at hi
      exact ⟨i, d, by omega, hd, hlisting⟩

/-- The closure at a tree counts as well from here on, and all that was active still does. -/
theorem fits_push (hfits : s.Fits f) {owner name : String} {kind : Declaration.Kind}
    {enclosing : Option String} {known : Variables} (howner : s.owner = some owner) :
    Scope.Fits ⟨s.owner, enclosing, s.active ++ [f.declarations.length], known⟩
      (f.declare owner name t kind).2 := by
  refine ⟨?_, ?_, by simp [howner]⟩
  · intro i hi
    rw [length_declare]
    rcases List.mem_append.1 hi with hi | hi
    · exact Nat.lt_succ_of_lt (hfits.lt i hi)
    · rw [List.mem_singleton.1 hi]
      exact Nat.lt_succ_self _
  · have hnew : f.declarations.length ∉ s.active := fun hmem => Nat.lt_irrefl _ (hfits.lt _ hmem)
    exact hfits.nodup.append (List.nodup_singleton _) (List.disjoint_singleton.2 hnew)

theorem mem_push {i : Nat} (hi : i < f.declarations.length) :
    i ∈ s.active ++ [f.declarations.length] ↔ i ∈ s.active ∧ True := by
  have hne : i ≠ f.declarations.length := by omega
  simp [hne]

/-- A package declaration is not gone into. -/
theorem yields_package (hkind : t.kind = .packageDeclaration) :
    Yields s.active (targetsIn s.known t) (Lists s.place t) f
      { f with package := packageName? t } := by
  have hown : t.isOwn = false := Tree.isOwn_of_kind (by rw [hkind]; decide) (by rw [hkind]; rfl)
  have hshuts : t.shuts = true := by simp [Tree.shuts, hkind]
  have hsame : Yields s.active [] (fun _ _ => False) f { f with package := packageName? t } :=
    Yields.of_same rfl
  refine hsame.congr ?_ ?_
  · intro _
    exact targetsIn_of_shuts hshuts (by simp [target?, hkind])
  · intro M v hlists
    have hopen := (lists_inside (by rw [hkind]; decide) hown hlists).1
    simp [descends, hkind] at hopen

/-- A method reference counts, and nothing in it. -/
theorem yields_reference (hfits : s.Fits f) (hkind : t.kind = .methodReference) :
    Yields s.active (targetsIn s.known t) (Lists s.place t) f
      (f.record s.active (referenceTarget? s.known t)) := by
  have hown : t.isOwn = false := Tree.isOwn_of_kind (by rw [hkind]; decide) (by rw [hkind]; rfl)
  refine (Yields.record f hfits.nodup (referenceTarget? s.known t)).congr ?_ ?_
  · intro _
    rw [targetsIn_plain (by rw [hkind]; decide)]
    simp [target?, hkind, Tree.shuts]
  · intro M v hlists
    have hopen := (lists_inside (by rw [hkind]; decide) hown hlists).1
    simp [descends, hkind] at hopen

/-- A method that has no name, or is in no named type, is passed through. -/
theorem Walks.unlisted (h : Walks n) (ht : t.height < n + 1) (hfits : s.Fits f)
    (hkind : t.kind = .methodDeclaration) (hmethod : (s.place.inType && t.isMethod) = false) :
    Yields s.active (targetsIn s.known t) (Lists s.place t) f (t.children.foldl (visit n s) f) := by
  have htype : t.isNamedType = false := by simp [Tree.isNamedType, isTypeDeclaration, hkind]
  refine h.through ht hfits (by rw [hkind]; decide) ?_ (by simp [target?, hkind]) hmethod ?_
  · intro hactive
    cases howner : s.owner with
    | none => exact absurd (hfits.typed howner) hactive
    | some owner =>
      have hnone : t.isMethod = false := by simpa [Scope.place, howner] using hmethod
      simp [Tree.shuts, Tree.isOwn, hnone, htype, hkind]
  · simp [Place.inside, htype, hmethod]

/-- What is said in a constructor counts for nothing around it. -/
theorem Walks.constructor (h : Walks n) (ht : t.height < n + 1)
    (hkind : t.kind = .constructorDeclaration ∨ t.kind = .compactConstructor) :
    Yields s.active (targetsIn s.known t) (Lists s.place t) f
      (t.children.foldl (visit n ⟨s.owner, none, [], s.known⟩) f) := by
  have hown : t.isOwn = false := by
    rcases hkind with hkind | hkind <;>
      exact Tree.isOwn_of_kind (by rw [hkind]; decide) (by rw [hkind]; rfl)
  have hshuts : t.shuts = true := by
    rcases hkind with hkind | hkind <;> simp [Tree.shuts, hkind]
  have htarget : target? s.known t = none := by
    rcases hkind with hkind | hkind <;> simp [target?, hkind]
  exact h.apart ht ⟨by simp, List.nodup_nil, fun _ => rfl⟩ rfl
    (Tree.not_creation_of_shuts hshuts) hshuts htarget (Bool.or_eq_false_iff.1 hown).1
    (Place.inside_of_not_own hown _)

/-- What is said in a closure counts for it and for all that is around. -/
theorem Walks.closure (h : Walks n) (ht : t.height < n + 1) (hfits : s.Fits f)
    (hkind : t.kind = .lambda) {owner name : String} (howner : s.owner = some owner) :
    Yields s.active (targetsIn s.known t) (Lists s.place t) f
      (t.children.foldl (visit n { s with active := s.active ++ [f.declarations.length] })
        (f.declare owner name t .closure).2) := by
  have hcreation : t.kind ≠ .objectCreation := by
    rw [hkind]
    decide
  have hown : t.isOwn = false := Tree.isOwn_of_kind (by rw [hkind]; decide) (by rw [hkind]; rfl)
  refine (h.inner ht (fits_push hfits howner) (fun _ _ => getElem?_declare)
    (fun _ => mem_push)).congr ?_ ?_
  · intro _
    rw [targetsIn_plain hcreation]
    simp [target?, hkind, Tree.shuts, hown]
  · intro M v hlists
    exact (lists_inside hcreation hown hlists).2

/-- A call counts, and then the calls in it. -/
theorem Walks.call (h : Walks n) (ht : t.height < n + 1) (hfits : s.Fits f)
    (hkind : t.kind = .methodInvocation) :
    Yields s.active (targetsIn s.known t) (Lists s.place t) f
      (t.children.foldl (visit n s) (f.record s.active (callTarget? s.known t))) := by
  have hcreation : t.kind ≠ .objectCreation := by
    rw [hkind]
    decide
  have hown : t.isOwn = false := Tree.isOwn_of_kind (by rw [hkind]; decide) (by rw [hkind]; rfl)
  have hrecord := Yields.record f hfits.nodup (callTarget? s.known t)
  have hfits' : s.Fits (f.record s.active (callTarget? s.known t)) :=
    ⟨fun i hi => Nat.lt_of_lt_of_le (hfits.lt i hi) hrecord.length_le, hfits.nodup, hfits.typed⟩
  have hparts := h.children (fun _ => Tree.height_child_lt ht) hfits'
  refine (hrecord.trans hparts hfits.lt).congr ?_ ?_
  · intro _
    rw [targetsIn_plain hcreation]
    simp [target?, hkind, Tree.shuts, hown]
  · intro M v hlists
    exact .inr (lists_inside hcreation hown hlists).2

/-- What is said in a named type counts for nothing around it. -/
theorem Walks.namedType (h : Walks n) (ht : t.height < n + 1)
    (hcreation : t.kind ≠ .objectCreation) (htarget : target? s.known t = none)
    (hmethod : t.isMethod = false) (htype : t.isNamedType = true) :
    Yields s.active (targetsIn s.known t) (Lists s.place t) f
      (t.children.foldl (visit n (enterType s f.package t)) f) := by
  rcases Bool.and_eq_true_iff.1 htype with ⟨hdeclaration, hnamed⟩
  rcases Option.isSome_iff_exists.1 hnamed with ⟨name, hname⟩
  have hshuts : t.shuts = true := Tree.shuts_of_isOwn (by simp [Tree.isOwn, htype])
  rw [enterType, if_pos hdeclaration, hname]
  exact h.apart ht ⟨by simp, List.nodup_nil, fun _ => rfl⟩ rfl hcreation hshuts htarget hmethod
    (by simp [Place.inside, htype, Scope.place])

theorem enterType_of_not_named (h : t.isNamedType = false) (package : Option String) :
    enterType s package t = s := by
  unfold enterType
  split
  · next hdeclaration =>
    cases hname : t.child? .name with
    | none => rfl
    | some name => simp [Tree.isNamedType, hdeclaration, hname] at h
  · rfl

/-- One level of the walk, at a tree that creates no object. -/
theorem walks_plain (h : Walks n) (ht : t.height < n + 1) (hfits : s.Fits f)
    (hcreation : t.kind ≠ .objectCreation) :
    Yields s.active (targetsIn s.known t) (Lists s.place t) f (visit (n + 1) s f t) := by
  have hvisit : visit (n + 1) s f t = _ := visit_entered hcreation n s ⟨f, []⟩
  rw [hvisit]
  generalize henter : enter s ⟨f, []⟩ t = entered
  unfold enter at henter
  split at henter
  · next hkind =>
    subst henter
    rw [hkind, if_neg (by decide)]
    exact yields_package hkind
  · next hkind =>
    rw [hkind, if_pos (by decide)]
    split at henter
    · next owner name howner hname =>
      subst henter
      exact h.method ht hkind howner hname
    · next hnot =>
      subst henter
      refine h.unlisted ht hfits hkind ?_
      cases howner : s.owner with
      | none => simp [Scope.place, howner]
      | some owner =>
        cases hname : t.child? .name with
        | none => simp [Tree.isMethod, hname]
        | some name => exact absurd hname (hnot owner name howner)
  · next hkind =>
    subst henter
    rw [hkind, if_pos (by decide)]
    exact h.constructor ht (.inl hkind)
  · next hkind =>
    subst henter
    rw [hkind, if_pos (by decide)]
    exact h.constructor ht (.inr hkind)
  · next hkind =>
    rw [hkind, if_pos (by decide)]
    split at henter
    · next owner howner =>
      subst henter
      exact h.closure ht hfits hkind howner
    · subst henter
      have hown : t.isOwn = false := Tree.isOwn_of_kind (by rw [hkind]; decide) (by rw [hkind]; rfl)
      have hmethod : t.isMethod = false := (Bool.or_eq_false_iff.1 hown).1
      exact h.through ht hfits hcreation (fun _ => by simp [Tree.shuts, hown, hkind])
        (by simp [target?, hkind]) (by simp [hmethod]) (Place.inside_of_not_own hown _)
  · next hkind =>
    subst henter
    rw [hkind, if_pos (by decide)]
    exact h.call ht hfits hkind
  · next hkind =>
    subst henter
    rw [hkind, if_neg (by decide)]
    exact yields_reference hfits hkind
  · -- a type, or anything that is just passed through
    next hpackage hmethodKind hconstructor hcompact _ hcall hreference =>
    subst henter
    have hdescends : descends t.kind = true := by
      simp only [descends, Bool.and_eq_true, bne_iff_ne]
      exact ⟨hpackage, hreference⟩
    have hmethod : t.isMethod = false := by
      rw [Tree.isMethod, Bool.and_eq_false_iff]
      exact .inl (by simpa using hmethodKind)
    have htarget : target? s.known t = none := by
      unfold target?
      split
      · next hkind => exact absurd hkind hcall
      · next hkind => exact absurd hkind hreference
      · rfl
    rw [if_pos hdescends]
    cases htype : t.isNamedType with
    | true => exact h.namedType ht hcreation htarget hmethod htype
    | false =>
      have hown : t.isOwn = false := by simp [Tree.isOwn, hmethod, htype]
      have hopen : t.shuts = false := by
        simp only [Tree.shuts, hown, Bool.or_eq_false_iff, beq_eq_false_iff_ne, ne_eq]
        exact ⟨⟨⟨⟨trivial, hconstructor⟩, hcompact⟩, hreference⟩, hpackage⟩
      dsimp only
      rw [enterType_of_not_named htype]
      exact h.through ht hfits hcreation (fun _ => hopen) htarget (by simp [hmethod])
        (Place.inside_of_not_own hown _)

/-- A member of an anonymous class. Its own declaration is none of a method, but what is said in it
counts for it and for all that is around. -/
theorem walks_member (h : Walks n) {m : Tree} (hm : m.height < n) (hfits : s.Fits f) (body : Nat) :
    Yields s.active (targetsInMember s.known m) (ListsIn s.place m) f
      (visitMember n s body f m) := by
  unfold visitMember
  split
  · next owner name hmember =>
    rcases anonymousMember?_eq_some hmember with ⟨hkind, howner, -⟩
    have hmethod : m.isMethod = true := by
      unfold anonymousMember? at hmember
      rw [if_pos hkind, howner] at hmember
      cases hname : m.child? .name with
      | none => simp [hname] at hmember
      | some child => simp [Tree.isMethod, hkind, hname]
    refine (h.inner (Nat.lt_succ_of_lt hm) (fits_push hfits howner) (fun _ _ => getElem?_declare)
      (fun _ => mem_push)).congr ?_ ?_
    · intro _
      rw [targetsInMember, if_pos hmethod, if_pos trivial]
    · intro M v hlists
      rw [ListsIn, if_pos (by simp [Scope.place, howner, hmethod])] at hlists
      have hplace : Scope.place ⟨s.owner, some name, s.active ++ [f.declarations.length],
          locals m s.known⟩ = ⟨true, locals m s.place.known⟩ := by
        simp [Scope.place, howner]
      rwa [hplace]
  · next hmember =>
    have hplain : (s.place.inType && m.isMethod) = false := by
      rw [← Bool.not_eq_true, Bool.and_eq_true, Tree.isMethod, Bool.and_eq_true, beq_iff_eq]
      rintro ⟨htyped, hkind, hnamed⟩
      rcases Option.isSome_iff_exists.1 htyped with ⟨owner, howner⟩
      rcases Option.isSome_iff_exists.1 hnamed with ⟨name, hname⟩
      simp [anonymousMember?, hkind, howner, hname] at hmember
    refine (h s f m hm hfits).congr ?_ ?_
    · intro hactive
      -- something is active, so there is a named type around, where a method would be a member
      have hnot : m.isMethod = false := by
        cases howner : s.owner with
        | none => exact absurd (hfits.typed howner) hactive
        | some owner => simpa [Scope.place, howner] using hplain
      rw [targetsInMember, hnot]
      rfl
    · intro M v hlists
      rwa [ListsIn, if_neg (by rw [hplain]; decide)] at hlists

/-- One level of the walk, at an expression that creates an object. -/
theorem walks_creation (h : Walks n) (h' : Walks (n - 1)) (ht : t.height < n + 1)
    (hfits : s.Fits f) (hcreation : t.kind = .objectCreation) :
    Yields s.active (targetsIn s.known t) (Lists s.place t) f (visit (n + 1) s f t) := by
  rw [visit_creation hcreation]
  have hparts : ∀ c ∈ otherParts t, c.height < n := fun c hc => by
    have hlt := Tree.height_lt_of_child (mem_otherParts hc)
    omega
  have hothers := h.children hparts hfits
  dsimp only
  generalize (otherParts t).foldl (visit n s) f = f₁ at hothers ⊢
  have hlt : ∀ i ∈ s.active, i < f₁.declarations.length := fun i hi =>
    Nat.lt_of_lt_of_le (hfits.lt i hi) hothers.length_le
  cases hbody : anonymousBody? t with
  | none =>
    refine hothers.congr ?_ ?_
    · intro _
      rw [targetsIn_creation hcreation, anonymousMembers, hbody]
      simp
    · intro M v hlists
      rcases lists_creation_cases hcreation hlists with hparts | ⟨body, hsome, -⟩
      · exact hparts
      · rw [hbody] at hsome
        cases hsome
  | some body =>
    have hopened : Yields s.active [] (fun _ _ => False) f₁
        { f₁ with bodies := f₁.bodies + 1 } := Yields.of_same rfl
    have hmember : ∀ m ∈ body.children, ∀ f, (∀ i ∈ s.active, i < f.declarations.length) →
        Yields s.active (targetsInMember s.known m) (ListsIn s.place m) f
          (visitMember (n - 1) s f₁.bodies f m) := by
      intro m hm f hf
      have hlt := Tree.height_lt_of_child hm
      have hlt' := Tree.height_lt_of_child (mem_anonymousBody hbody)
      exact walks_member h' (by omega) ⟨hf, hfits.nodup, hfits.typed⟩ _
    have hmembers := Yields.foldl (f := { f₁ with bodies := f₁.bodies + 1 }) hmember hlt
    refine ((hothers.trans hopened hfits.lt).trans hmembers hfits.lt).congr ?_ ?_
    · intro _
      rw [targetsIn_creation hcreation, anonymousMembers, hbody]
      simp
    · intro M v hlists
      rcases lists_creation_cases hcreation hlists with hparts | ⟨body', hsome, hinner⟩
      · exact .inl (.inl hparts)
      · rw [hbody] at hsome
        cases hsome
        exact .inr hinner

theorem walks_succ (h : Walks n) (h' : Walks (n - 1)) : Walks (n + 1) := by
  intro s f t ht hfits
  by_cases hcreation : t.kind = .objectCreation
  · exact walks_creation h h' ht hfits hcreation
  · exact walks_plain h ht hfits hcreation

/-- The members of an anonymous class are two levels below the expression that creates it, so one
level of the walk rests on the two before. -/
theorem walks : ∀ n, Walks n
  | 0 => by
    intro s f t ht
    omega
  | 1 => walks_succ (walks 0) (walks 0)
  | n + 2 => walks_succ (walks (n + 1)) (walks n)

/-- Every method that the walk meets is listed with the targets of all that is said in it, in their
order. -/
theorem method_listing (ht : t.height ≤ nestingLimit) (hlists : Lists .outside t M v) :
    ∃ d ∈ declarations t, IsListing d M v := by
  have hyields := walks (nestingLimit + 1) .outside ⟨none, [], 0⟩ t (Nat.lt_succ_of_le ht)
    ⟨by simp [Scope.outside], List.nodup_nil, fun _ => rfl⟩
  rcases hyields.new M v hlists with ⟨i, d, -, hd, hlisting⟩
  exact ⟨d, List.mem_of_getElem? hd, hlisting⟩

/-- Every method that the walk meets is listed with the targets of all that is said in it. -/
theorem method_listed (ht : t.height ≤ nestingLimit) (hlists : Lists .outside t M v) :
    ∃ d ∈ declarations t, Describes d M v := by
  rcases method_listing ht hlists with ⟨d, hd, hlisting⟩
  exact ⟨d, hd, hlisting.describes⟩

end ChangeImpact.Java
