import ChangeImpact.Proofs.MatchedLists
import ChangeImpact.Proofs.MethodTargets
import ChangeImpact.Proofs.VariableTypes

/-!
# Trees that differ in a type

A named type in a tree is replaced by another one of the same kind. The calls inside of a named type
count for nothing around it, so all that the walk can notice around it are the variables that the
type declares outside of the bodies of classes. If these are the same, the walk goes on as before.

* `SameTypes` — variables that are looked up alike;
* `Replaced` — a tree with another type in the place of one; `Matches` — the rest of it;
* `Exchangeable` — two types that declare the same outside of the bodies of classes;
* `Exchangeable.sameTypes_locals`, `Exchangeable.sameTypes_collectMembers` — the same types are
  known in a method or type around;
* `Exchangeable.targetsIn_eq` — the same targets are met, in the same order;
* `Exchangeable.reaches` — the walk gets to the same places around the type.
-/

namespace ChangeImpact.Java

variable {L L' t t' : Tree} {v v' w w' : Variables} {n : Nat}

/-! ## Variables that are looked up alike -/

/-- Every name has the same type. -/
def SameTypes (v v' : Variables) : Prop := ∀ x, v.typeOf? x = v'.typeOf? x

theorem SameTypes.refl (v : Variables) : SameTypes v v := fun _ => rfl

theorem SameTypes.append (hw : SameTypes w w') (hv : SameTypes v v') :
    SameTypes (w ++ v) (w' ++ v') := by
  intro x
  rw [Variables.typeOf?_append, Variables.typeOf?_append, hw x, hv x]

theorem SameTypes.cons (hv : SameTypes v v') (entry : String × String) :
    SameTypes (entry :: v) (entry :: v') :=
  (SameTypes.refl [entry]).append hv

/-- Trees that match, one after another. -/
theorem sameTypes_foldl {R : Tree → Tree → Prop} {g : Tree → Variables → Variables}
    {cs cs' : List Tree} (h : List.Forall₂ R cs cs')
    (hg : ∀ c ∈ cs, ∀ c' ∈ cs', R c c' → ∀ {v v'}, SameTypes v v' → SameTypes (g c v) (g c' v'))
    (hv : SameTypes v v') :
    SameTypes (cs.foldl (fun v c => g c v) v) (cs'.foldl (fun v c => g c v) v') := by
  induction h generalizing v v' with
  | nil => exact hv
  | @cons c c' cs cs' hc _ ih =>
    rw [List.foldl_cons, List.foldl_cons]
    refine ih ?_ ?_
    · intro c hc c' hc'
      exact hg c (List.mem_cons_of_mem _ hc) c' (List.mem_cons_of_mem _ hc')
    · exact hg c List.mem_cons_self c' List.mem_cons_self hc hv

/-! ## Replacement -/

/-- Names of variables and types, which are read as a text. -/
def isNameKind (k : Kind) : Bool :=
  k == .identifier || k == .scopedIdentifier || k == .typeIdentifier || k == .scopedTypeIdentifier

/-- The roles of children that are read as a text. -/
def isNameRole (role : Option Field) : Bool := role == some .name || role == some .member

/-- `t'` is `t`, or is `t` with `L'` in the place of `L`. The place is not inside of a name, and no
body. -/
inductive Replaced (L L' : Tree) : Tree → Tree → Prop where
  | same (t : Tree) : Replaced L L' t t
  | here : Replaced L L' L L'
  | inside {k : Kind} {before after : List Child} {role : Option Field} {c c' : Tree}
    (hkind : isNameKind k = false) (hrole : isNameRole role = false)
    (hbody : role = some .body → isTypeDeclaration c.kind = false) (h : Replaced L L' c c') :
    Replaced L L' (.node k (before ++ (role, c) :: after)) (.node k (before ++ (role, c') :: after))

/-- A child that is, or has, the place. -/
structure ReplacedChild (L L' : Tree) (c c' : Child) : Prop where
  role : c'.1 = c.1
  name : isNameRole c.1 = true → c'.2 = c.2
  body : c.1 = some .body → isTypeDeclaration c.2.kind = false ∨ c'.2 = c.2
  tree : Replaced L L' c.2 c'.2

/-- Trees that have the same kind and children that match. -/
structure Matches (L L' t t' : Tree) : Prop where
  kind : t'.kind = t.kind
  name : isNameKind t.kind = true → t' = t
  labelled : List.Forall₂ (ReplacedChild L L') t.labelled t'.labelled

theorem forall₂_refl_replaced (cs : List Child) : List.Forall₂ (ReplacedChild L L') cs cs :=
  List.forall₂_same.2 fun _ _ => ⟨rfl, fun _ => rfl, fun _ => .inr rfl, .same _⟩

theorem Matches.refl (t : Tree) : Matches L L' t t :=
  ⟨rfl, fun _ => rfl, forall₂_refl_replaced _⟩

theorem Replaced.cases (h : Replaced L L' t t') : (t = L ∧ t' = L') ∨ Matches L L' t t' := by
  cases h with
  | same => exact .inr (Matches.refl t)
  | here => exact .inl ⟨rfl, rfl⟩
  | @inside k before after role c c' hkind hrole hbody h =>
    refine .inr ⟨rfl, ?_, ?_⟩
    · intro hname
      exact absurd (hkind.symm.trans hname) Bool.false_ne_true
    · have hchild : ReplacedChild L L' (role, c) (role, c') := by
        refine ⟨rfl, ?_, fun hrole => .inl (hbody hrole), h⟩
        intro hname
        exact absurd (hrole.symm.trans hname) Bool.false_ne_true
      exact List.rel_append (forall₂_refl_replaced before)
        (.cons hchild (forall₂_refl_replaced after))

theorem Matches.children (h : Matches L L' t t') :
    List.Forall₂ (Replaced L L') t.children t'.children := by
  unfold Tree.children
  rw [List.forall₂_map_left_iff, List.forall₂_map_right_iff]
  exact h.labelled.imp fun _ _ hc => hc.tree

theorem Matches.find?_labelled (h : Matches L L' t t') (f : Field) :
    Option.Rel (ReplacedChild L L') (t.labelled.find? (·.1 == some f))
      (t'.labelled.find? (·.1 == some f)) := by
  refine rel_find? ?_ h.labelled
  intro c c' hc
  rw [hc.role]

theorem Matches.child? (h : Matches L L' t t') (f : Field) :
    Option.Rel (Replaced L L') (t.child? f) (t'.child? f) := by
  unfold Tree.child?
  rcases rel_cases (h.find?_labelled f) with ⟨hfound, hfound'⟩ | ⟨c, c', hfound, hfound', hc⟩
  · rw [hfound, hfound']
    exact .none
  · rw [hfound, hfound']
    exact .some hc.tree

/-- What is read as a text is the same. -/
theorem Matches.child?_text (h : Matches L L' t t') {f : Field} (hf : isNameRole (some f) = true) :
    t'.child? f = t.child? f := by
  unfold Tree.child?
  rcases rel_cases (h.find?_labelled f) with ⟨hfound, hfound'⟩ | ⟨c, c', hfound, hfound', hc⟩
  · rw [hfound, hfound']
  · have hrole : c.1 = some f := by simpa using List.find?_some hfound
    rw [hfound, hfound', Option.map_some, Option.map_some, hc.name (by rw [hrole]; exact hf)]

theorem Matches.name? (h : Matches L L' t t') : t'.child? .name = t.child? .name :=
  h.child?_text rfl

theorem Matches.member? (h : Matches L L' t t') : t'.child? .member = t.child? .member :=
  h.child?_text rfl

/-! ## Types that can be exchanged -/

/-- Two named types of one kind that declare the same outside of the bodies of classes. -/
structure Exchangeable (L L' : Tree) : Prop where
  type : L.isNamedType = true
  type' : L'.isNamedType = true
  kind : L'.kind = L.kind
  exposed : SameTypes (locals L []) (locals L' [])

theorem Tree.isTypeDeclaration_kind (h : t.isNamedType = true) : isTypeDeclaration t.kind = true :=
  (Bool.and_eq_true_iff.1 h).1

theorem kind_cases_of_type (h : isTypeDeclaration t.kind = true) :
    t.kind = .classDeclaration ∨ t.kind = .interfaceDeclaration ∨ t.kind = .enumDeclaration ∨
      t.kind = .recordDeclaration := by
  simpa [isTypeDeclaration, or_assoc] using h

/-- The name of a type that has arguments. -/
def typeHead? (t : Tree) : Option Tree :=
  t.namedChildren.find? fun c => c.kind == .typeIdentifier || c.kind == .scopedTypeIdentifier

namespace Exchangeable

theorem kind_eq (hL : Exchangeable L L') (h : Replaced L L' t t') : t'.kind = t.kind := by
  rcases h.cases with ⟨rfl, rfl⟩ | hm
  · exact hL.kind
  · exact hm.kind

/-- A tree of any other kind is not the type that is replaced. -/
theorem outside (hL : Exchangeable L L') (h : Replaced L L' t t')
    (hkind : isTypeDeclaration t.kind = false) : Matches L L' t t' := by
  rcases h.cases with ⟨rfl, rfl⟩ | hm
  · rw [Tree.isTypeDeclaration_kind hL.type] at hkind
    cases hkind
  · exact hm

theorem eq_of_name (hL : Exchangeable L L') (h : Replaced L L' t t')
    (hname : isNameKind t.kind = true) : t' = t := by
  refine (hL.outside h ?_).name hname
  simp only [isNameKind, Bool.or_eq_true, beq_iff_eq] at hname
  rcases hname with ((hkind | hkind) | hkind) | hkind <;> rw [hkind] <;> rfl

theorem rel_namedChildren (hL : Exchangeable L L') (h : Matches L L' t t') :
    List.Forall₂ (Replaced L L') t.namedChildren t'.namedChildren := by
  refine List.rel_filter ?_ h.children
  intro c c' hc
  show c.isNamed = true ↔ c'.isNamed = true
  rw [Tree.isNamed, Tree.isNamed, hL.kind_eq hc]

theorem rel_body (hL : Exchangeable L L') (h : Matches L L' t t') :
    Option.Rel (Matches L L') (t.child? .body) (t'.child? .body) := by
  unfold Tree.child?
  rcases rel_cases (h.find?_labelled .body) with ⟨hfound, hfound'⟩ | ⟨c, c', hfound, hfound', hc⟩
  · rw [hfound, hfound']
    exact .none
  · rw [hfound, hfound']
    refine .some ?_
    show Matches L L' c.2 c'.2
    -- a body is no named type, or is left as it is
    rcases hc.body (by simpa using List.find?_some hfound) with hkind | hsame
    · exact hL.outside hc.tree hkind
    · rw [hsame]
      exact Matches.refl _

theorem typeHead?_eq (hL : Exchangeable L L') (h : Matches L L' t t') :
    typeHead? t' = typeHead? t := by
  have hhead : Option.Rel (Replaced L L') (typeHead? t) (typeHead? t') :=
    rel_find? (fun c c' hc => by rw [hL.kind_eq hc]) (hL.rel_namedChildren h)
  rcases rel_cases hhead with ⟨hnone, hnone'⟩ | ⟨c, c', hsome, hsome', hc⟩
  · rw [hnone, hnone']
  · have hname : isNameKind c.kind = true := by
      have hfound := List.find?_some hsome
      rw [Bool.or_eq_true, beq_iff_eq, beq_iff_eq] at hfound
      rcases hfound with hkind | hkind <;> rw [hkind] <;> rfl
    rw [hsome, hsome', hL.eq_of_name hc hname]

theorem typeName?_eq (hL : Exchangeable L L') (h : Replaced L L' t t') :
    typeName? t' = typeName? t := by
  unfold typeName?
  rw [hL.kind_eq h]
  split
  · next hkind => rw [hL.eq_of_name h (by rw [hkind]; rfl)]
  · next hkind => rw [hL.eq_of_name h (by rw [hkind]; rfl)]
  · next hkind =>
    have hhead := hL.typeHead?_eq (hL.outside h (by rw [hkind]; rfl))
    unfold typeHead? at hhead
    dsimp only
    rw [hhead]
  · rfl

/-! ### What is read of a call -/

theorem receiver?_eq (hL : Exchangeable L L') (hv : SameTypes v v') (h : Replaced L L' t t') :
    receiver? v' t' = receiver? v t := by
  have hkind := hL.kind_eq h
  unfold receiver?
  dsimp only
  rw [hkind]
  split
  · next hk => rw [hL.eq_of_name h (by rw [hk]; rfl), hv t.text]
  · next hk => rw [hL.eq_of_name h (by rw [hk]; rfl)]
  · next hk =>
    have hm := hL.outside h (by rw [hk]; rfl)
    have hthis : (t'.child? .object).any (·.kind == .this) =
        (t.child? .object).any (·.kind == .this) := by
      rcases rel_cases (hm.child? .object) with ⟨hnone, hnone'⟩ | ⟨c, c', hsome, hsome', hc⟩
      · rw [hnone, hnone']
      · rw [hsome, hsome', Option.any_some, Option.any_some, hL.kind_eq hc]
    rw [hm.member?, hthis]
    congr 1
    funext field
    rw [hv field.text]
  · next hk => rw [hL.eq_of_name h (by rw [hk]; rfl)]
  · next hk => rw [hL.eq_of_name h (by rw [hk]; rfl)]
  · rfl

theorem callTarget?_eq (hL : Exchangeable L L') (hv : SameTypes v v') (h : Matches L L' t t') :
    callTarget? v' t' = callTarget? v t := by
  unfold callTarget?
  rw [h.name?, bind_eq_of_rel (h.child? .object) fun _ _ => hL.receiver?_eq hv]

theorem referenceTarget?_eq (hL : Exchangeable L L') (hv : SameTypes v v') (h : Matches L L' t t') :
    referenceTarget? v' t' = referenceTarget? v t := by
  have hchildren := h.children
  unfold referenceTarget?
  generalize t.children = cs at hchildren ⊢
  generalize t'.children = cs' at hchildren ⊢
  cases hchildren with
  | nil => rfl
  | @cons first first' rest rest' hfirst hrest =>
    have hlast := rel_getLastD (.cons hfirst hrest) hfirst
    have hempty : rest'.isEmpty = rest.isEmpty := by cases hrest <;> rfl
    dsimp only
    rw [hL.kind_eq hlast, hempty, hL.receiver?_eq hv hfirst]
    split
    · rfl
    · next hkind =>
      rw [ne_eq, not_not] at hkind
      rw [hL.eq_of_name hlast (by rw [hkind]; rfl)]

theorem target?_eq (hL : Exchangeable L L') (hv : SameTypes v v') (h : Replaced L L' t t') :
    target? v' t' = target? v t := by
  unfold target?
  rw [hL.kind_eq h]
  split
  · next hkind => exact hL.callTarget?_eq hv (hL.outside h (by rw [hkind]; rfl))
  · next hkind => exact hL.referenceTarget?_eq hv (hL.outside h (by rw [hkind]; rfl))
  · rfl

/-! ### What is read of a method or type -/

theorem isNamedType_eq (hL : Exchangeable L L') (h : Replaced L L' t t') :
    t'.isNamedType = t.isNamedType := by
  rcases h.cases with ⟨rfl, rfl⟩ | hm
  · rw [hL.type, hL.type']
  · rw [Tree.isNamedType, Tree.isNamedType, hm.kind, hm.name?]

theorem isMethod_eq (hL : Exchangeable L L') (h : Replaced L L' t t') :
    t'.isMethod = t.isMethod := by
  unfold Tree.isMethod
  rw [hL.kind_eq h]
  by_cases hkind : t.kind = .methodDeclaration
  · rw [(hL.outside h (by rw [hkind]; rfl)).name?]
  · rw [beq_false_of_ne hkind, Bool.false_and, Bool.false_and]

theorem matches_method (hL : Exchangeable L L') (h : Replaced L L' t t')
    (hmethod : t.isMethod = true) : Matches L L' t t' := by
  have hkind : t.kind = .methodDeclaration := by simpa using (Bool.and_eq_true_iff.1 hmethod).1
  exact hL.outside h (by rw [hkind]; rfl)

theorem shuts_eq (hL : Exchangeable L L') (h : Replaced L L' t t') : t'.shuts = t.shuts := by
  simp only [Tree.shuts, Tree.isOwn, hL.isMethod_eq h, hL.isNamedType_eq h, hL.kind_eq h]

/-! ### What is declared -/

theorem declaredType?_eq (hL : Exchangeable L L') (h : Matches L L' t t') :
    declaredType? t' = declaredType? t :=
  bind_eq_of_rel (h.child? .type) fun _ _ => hL.typeName?_eq

/-- The children of a kind. -/
theorem rel_ofKind (hL : Exchangeable L L') (h : Matches L L' t t') (k : Kind) :
    List.Forall₂ (Replaced L L') (t.namedChildren.filter (·.kind == k))
      (t'.namedChildren.filter (·.kind == k)) := by
  refine List.rel_filter ?_ (hL.rel_namedChildren h)
  intro c c' hc
  show (c.kind == k) = true ↔ (c'.kind == k) = true
  rw [hL.kind_eq hc]

theorem sameTypes_declareVariables (hL : Exchangeable L L') (h : Matches L L' t t')
    (hv : SameTypes v v') : SameTypes (declareVariables t v) (declareVariables t' v') := by
  have htype : (t'.child? .type).bind typeName? = (t.child? .type).bind typeName? :=
    hL.declaredType?_eq h
  unfold declareVariables
  rw [htype]
  cases (t.child? .type).bind typeName? with
  | none => exact hv
  | some T =>
    refine sameTypes_foldl (g := declareNamed T) (hL.rel_ofKind h .variableDeclarator) ?_ hv
    intro d hd d' _ hreplaced v v' hv
    have hkind : d.kind = .variableDeclarator := by simpa using (List.mem_filter.1 hd).2
    have hm := hL.outside hreplaced (by rw [hkind]; rfl)
    unfold declareNamed
    rw [hm.name?]
    cases d.child? .name with
    | none => exact hv
    | some name => exact hv.cons _

theorem sameTypes_declareOne (hL : Exchangeable L L') (h : Matches L L' t t')
    (hv : SameTypes v v') : SameTypes (declareOne t v) (declareOne t' v') := by
  have htype : (t'.child? .type).bind typeName? = (t.child? .type).bind typeName? :=
    hL.declaredType?_eq h
  unfold declareOne
  rw [htype, h.name?]
  cases (t.child? .type).bind typeName? with
  | none => exact hv
  | some T =>
    cases t.child? .name with
    | none => exact hv
    | some name => exact hv.cons _

theorem sameTypes_declareHere (hL : Exchangeable L L') (h : Matches L L' t t')
    (hv : SameTypes v v') : SameTypes (declareHere t v) (declareHere t' v') := by
  unfold declareHere
  rw [h.kind]
  split
  · exact hL.sameTypes_declareVariables h hv
  · exact hL.sameTypes_declareOne h hv
  · exact hL.sameTypes_declareOne h hv
  · exact hL.sameTypes_declareOne h hv
  · exact hv

end Exchangeable

/-- Going deeper than the tree changes nothing. -/
theorem collectLocals_deeper {n m : Nat} (hn : t.height < n) (hm : t.height < m) (v : Variables) :
    collectLocals n t v = collectLocals m t v := by
  induction n generalizing t m v with
  | zero => omega
  | succ n ih =>
    cases m with
    | zero => omega
    | succ m =>
      by_cases hbody : t.kind = .classBody
      · rw [collectLocals, collectLocals, if_pos hbody, if_pos hbody]
      · rw [collectLocals_succ hbody, collectLocals_succ hbody]
        refine List.foldl_ext _ _ _ ?_
        intro v c hc
        have hlt := Tree.height_lt_of_child (List.mem_filter.1 hc).1
        exact ih (by omega) (by omega) v

/-- Places where the same is known. -/
structure Place.Alike (p p' : Place) : Prop where
  inType : p'.inType = p.inType
  known : SameTypes p.known p'.known

namespace Exchangeable

variable {p p' q : Place} {u : Tree}

theorem sameTypes_collectLocals (hL : Exchangeable L L') (hn : n ≤ nestingLimit + 1)
    (ht : t.height < n) (ht' : t'.height < n) (h : Replaced L L' t t') (hv : SameTypes v v') :
    SameTypes (collectLocals n t v) (collectLocals n t' v') := by
  induction n generalizing t t' v v' with
  | zero => omega
  | succ n ih =>
    rcases h.cases with ⟨rfl, rfl⟩ | hm
    · -- what the types declare is put in front, and it is the same
      have hlocals : ∀ {t : Tree} (v : Variables), t.height < n + 1 →
          collectLocals (n + 1) t v = locals t [] ++ v := by
        intro t v ht
        rw [← (prepends_locals (by omega)).append]
        exact collectLocals_deeper ht (by omega) v
      rw [hlocals v ht, hlocals v' ht']
      exact hL.exposed.append hv
    · by_cases hbody : t.kind = .classBody
      · rw [collectLocals, collectLocals, hm.kind, if_pos hbody, if_pos hbody]
        exact hv
      · rw [collectLocals_succ hbody, collectLocals_succ (by rw [hm.kind]; exact hbody)]
        refine sameTypes_foldl (hL.rel_namedChildren hm) ?_ (hL.sameTypes_declareHere hm hv)
        intro c hc c' hc' hreplaced v v' hv
        have hlt := Tree.height_lt_of_child (List.mem_filter.1 hc).1
        have hlt' := Tree.height_lt_of_child (List.mem_filter.1 hc').1
        exact ih (by omega) (by omega) (by omega) hreplaced hv

/-- The same local variables are known. -/
theorem sameTypes_locals (hL : Exchangeable L L') (ht : t.height ≤ nestingLimit)
    (ht' : t'.height ≤ nestingLimit) (h : Replaced L L' t t') (hv : SameTypes v v') :
    SameTypes (locals t v) (locals t' v') :=
  hL.sameTypes_collectLocals (Nat.le_refl _) (Nat.lt_succ_of_le ht) (Nat.lt_succ_of_le ht') h hv

theorem sameTypes_collectMember (hL : Exchangeable L L') (h : Replaced L L' t t')
    (hv : SameTypes v v') : SameTypes (collectMember v t) (collectMember v' t') := by
  unfold collectMember
  rw [hL.kind_eq h]
  split
  · next hkind => exact hL.sameTypes_declareVariables (hL.outside h (by rw [hkind]; rfl)) hv
  · next hkind => exact hL.sameTypes_declareVariables (hL.outside h (by rw [hkind]; rfl)) hv
  · next hkind =>
    have hm := hL.outside h (by rw [hkind]; rfl)
    refine sameTypes_foldl (g := declareVariables) (hL.rel_ofKind hm .fieldDeclaration) ?_ hv
    intro d hd d' _ hreplaced v v' hv
    have hfield : d.kind = .fieldDeclaration := by simpa using (List.mem_filter.1 hd).2
    exact hL.sameTypes_declareVariables (hL.outside hreplaced (by rw [hfield]; rfl)) hv
  · exact hv

/-- The same fields and components are known. -/
theorem sameTypes_collectMembers (hL : Exchangeable L L') (ht : t.height ≤ nestingLimit)
    (ht' : t'.height ≤ nestingLimit) (h : Matches L L' t t') (hv : SameTypes v v') :
    SameTypes (collectMembers t v) (collectMembers t' v') := by
  have hcomponents : SameTypes (componentsOf t) (componentsOf t') := by
    unfold componentsOf
    rcases rel_cases (h.child? .parameters) with ⟨hnone, hnone'⟩ | ⟨c, c', hsome, hsome', hc⟩
    · rw [hnone, hnone']
      exact SameTypes.refl _
    · have hlt := Tree.height_lt_of_child (Tree.mem_of_child? hsome)
      have hlt' := Tree.height_lt_of_child (Tree.mem_of_child? hsome')
      rw [hsome, hsome']
      exact hL.sameTypes_locals (by omega) (by omega) hc (SameTypes.refl _)
  have hfields : SameTypes (fieldsOf t) (fieldsOf t') := by
    unfold fieldsOf
    rcases rel_cases (hL.rel_body h) with ⟨hnone, hnone'⟩ | ⟨body, body', hsome, hsome', hbody⟩
    · rw [hnone, hnone']
      exact SameTypes.refl _
    · rw [hsome, hsome']
      refine sameTypes_foldl (g := fun member v => collectMember v member)
        (hL.rel_namedChildren hbody) ?_ (SameTypes.refl _)
      intro member _ member' _ hmember v v' hv
      exact hL.sameTypes_collectMember hmember hv
  rw [collectMembers_eq ht, collectMembers_eq ht']
  exact hfields.append (hcomponents.append hv)

/-! ### Parts of a creation -/

theorem rel_anonymousBody? (hL : Exchangeable L L') (h : Matches L L' t t') :
    Option.Rel (Replaced L L') (anonymousBody? t) (anonymousBody? t') :=
  rel_find? (fun c c' hc => by rw [hL.kind_eq hc]) (hL.rel_namedChildren h)

theorem rel_otherParts (hL : Exchangeable L L') (h : Matches L L' t t') :
    List.Forall₂ (Replaced L L') (otherParts t) (otherParts t') := by
  rw [otherParts_eq_eraseP, otherParts_eq_eraseP]
  exact rel_eraseP (fun c c' hc => by rw [hL.kind_eq hc]) (hL.rel_namedChildren h)

theorem rel_anonymousMembers (hL : Exchangeable L L') (h : Matches L L' t t') :
    List.Forall₂ (Replaced L L') (anonymousMembers t) (anonymousMembers t') := by
  unfold anonymousMembers
  rcases rel_cases (hL.rel_anonymousBody? h) with ⟨hnone, hnone'⟩ |
    ⟨body, body', hsome, hsome', hbody⟩
  · rw [hnone, hnone']
    exact .nil
  · have hkind : body.kind = .classBody := kind_anonymousBody hsome
    rw [hsome, hsome']
    exact (hL.outside hbody (by rw [hkind]; rfl)).children

/-! ### The walk -/

/-- The same targets are met, in the same order. -/
theorem targetsIn_eq (hL : Exchangeable L L') {t t' : Tree} {v v' : Variables}
    (ht : t.height ≤ nestingLimit)
    (ht' : t'.height ≤ nestingLimit) (h : Replaced L L' t t') (hv : SameTypes v v') :
    targetsIn v' t' = targetsIn v t := by
  rcases h.cases with ⟨rfl, rfl⟩ | hm
  · -- nothing inside of a named type counts around it
    have hsilent : ∀ {t : Tree} {v : Variables}, t.isNamedType = true → targetsIn v t = [] := by
      intro t v htype
      refine targetsIn_of_shuts (Tree.shuts_of_isOwn (by simp [Tree.isOwn, htype])) ?_
      rcases kind_cases_of_type (Tree.isTypeDeclaration_kind htype) with hkind | hkind | hkind |
        hkind <;> simp [target?, hkind]
    rw [hsilent hL.type, hsilent hL.type']
  · by_cases hcreation : t.kind = .objectCreation
    · rw [targetsIn_creation hcreation, targetsIn_creation (by rw [hm.kind]; exact hcreation)]
      congr 1
      · refine flatMap_eq_of_rel (hL.rel_otherParts hm) ?_
        intro c hc c' hc' hreplaced
        have hlt := Tree.height_lt_of_child (mem_otherParts hc)
        have hlt' := Tree.height_lt_of_child (mem_otherParts hc')
        exact targetsIn_eq hL (by omega) (by omega) hreplaced hv
      · refine flatMap_eq_of_rel (hL.rel_anonymousMembers hm) ?_
        intro m hmember m' hmember' hreplaced
        have hlt := height_anonymousMember hmember
        have hlt' := height_anonymousMember hmember'
        unfold targetsInMember
        rw [hL.isMethod_eq hreplaced]
        split
        · next hmethod =>
          -- a method of the body knows its own locals as well, so the variables change here
          have hlocals := hL.sameTypes_locals (by omega) (by omega) hreplaced hv
          refine flatMap_eq_of_rel (hL.matches_method hreplaced hmethod).children ?_
          intro c hc c' hc' hpart
          have hdeep := Tree.height_lt_of_child hc
          have hdeep' := Tree.height_lt_of_child hc'
          exact targetsIn_eq hL (by omega) (by omega) hpart hlocals
        · exact targetsIn_eq hL (by omega) (by omega) hreplaced hv
    · rw [targetsIn_plain hcreation, targetsIn_plain (by rw [hm.kind]; exact hcreation),
        hL.target?_eq hv h, hL.shuts_eq h]
      congr 1
      split
      · rfl
      · refine flatMap_eq_of_rel hm.children ?_
        intro c hc c' hc' hreplaced
        have hlt := Tree.height_lt_of_child hc
        have hlt' := Tree.height_lt_of_child hc'
        exact targetsIn_eq hL (by omega) (by omega) hreplaced hv
termination_by t.height
decreasing_by
  all_goals omega

theorem alike_inside (hL : Exchangeable L L') (ht : t.height ≤ nestingLimit)
    (ht' : t'.height ≤ nestingLimit) (h : Replaced L L' t t') (hm : Matches L L' t t')
    (hp : p.Alike p') : (p.inside t).Alike (p'.inside t') := by
  unfold Place.inside
  rw [hL.isNamedType_eq h, hL.isMethod_eq h, hp.inType]
  split
  · exact ⟨rfl, hL.sameTypes_collectMembers ht ht' hm hp.known⟩
  · split
    · exact ⟨rfl, hL.sameTypes_locals ht ht' h hp.known⟩
    · exact hp

/-- The walk gets to a tree inside of the type that is replaced, or to the same place as before. -/
theorem reaches (hL : Exchangeable L L') (h : Reaches p t q u) (ht : t.height ≤ nestingLimit)
    (ht' : t'.height ≤ nestingLimit) (hreplaced : Replaced L L' t t') (hp : p.Alike p') :
    (∃ r, Reaches r L q u) ∨
      ∃ q' u', q.Alike q' ∧ Replaced L L' u u' ∧ Reaches p' t' q' u' := by
  induction h generalizing p' t' with
  | here p t => exact .inr ⟨p', t', hp, hreplaced, .here p' t'⟩
  | @child p q t c u hcreation hopen hc h ih =>
    -- only a plain step can start at the type: the others start at a creation
    rcases hreplaced.cases with ⟨rfl, -⟩ | hm
    · exact .inl ⟨p, .child hcreation hopen hc h⟩
    · rcases exists_of_rel hm.children hc with ⟨c', hc', hchild⟩
      have hlt := Tree.height_lt_of_child hc
      have hlt' := Tree.height_lt_of_child hc'
      rcases ih (by omega) (by omega) hchild (hL.alike_inside ht ht' hreplaced hm hp) with hin |
        ⟨q', u', hq, hu, hreaches⟩
      · exact .inl hin
      · refine .inr ⟨q', u', hq, hu, .child ?_ ?_ hc' hreaches⟩
        · rw [hm.kind]
          exact hcreation
        · rw [hm.kind]
          exact hopen
  | @part p q t c u hcreation hc h ih =>
    have hm := hL.outside hreplaced (by rw [hcreation]; rfl)
    rcases exists_of_rel (hL.rel_otherParts hm) hc with ⟨c', hc', hchild⟩
    have hlt := Tree.height_lt_of_child (mem_otherParts hc)
    have hlt' := Tree.height_lt_of_child (mem_otherParts hc')
    rcases ih (by omega) (by omega) hchild hp with hin | ⟨q', u', hq, hu, hreaches⟩
    · exact .inl hin
    · exact .inr ⟨q', u', hq, hu, .part (hm.kind.trans hcreation) hc' hreaches⟩
  | @member p q t body m u hcreation hbody hmember hplain h ih =>
    have hm := hL.outside hreplaced (by rw [hcreation]; rfl)
    have hmembers : m ∈ anonymousMembers t := mem_anonymousMembers.2 ⟨body, hbody, hmember⟩
    rcases exists_of_rel (hL.rel_anonymousMembers hm) hmembers with ⟨m', hmembers', hchild⟩
    have hlt := height_anonymousMember hmembers
    have hlt' := height_anonymousMember hmembers'
    rcases mem_anonymousMembers.1 hmembers' with ⟨body', hbody', hmember'⟩
    rcases ih (by omega) (by omega) hchild hp with hin | ⟨q', u', hq, hu, hreaches⟩
    · exact .inl hin
    · refine .inr ⟨q', u', hq, hu, .member (hm.kind.trans hcreation) hbody' hmember' ?_ hreaches⟩
      rw [hp.inType, hL.isMethod_eq hchild]
      exact hplain
  | @method p q t body m c u hcreation hbody hmember hmethod hc h ih =>
    have hm := hL.outside hreplaced (by rw [hcreation]; rfl)
    have hmembers : m ∈ anonymousMembers t := mem_anonymousMembers.2 ⟨body, hbody, hmember⟩
    rcases exists_of_rel (hL.rel_anonymousMembers hm) hmembers with ⟨m', hmembers', hchild⟩
    have hlt := height_anonymousMember hmembers
    have hlt' := height_anonymousMember hmembers'
    rcases mem_anonymousMembers.1 hmembers' with ⟨body', hbody', hmember'⟩
    rcases exists_of_rel (hL.matches_method hchild (Bool.and_eq_true_iff.1 hmethod).2).children hc
      with ⟨c', hc', hpart⟩
    have hdeep := Tree.height_lt_of_child hc
    have hdeep' := Tree.height_lt_of_child hc'
    have hlocals : Place.Alike ⟨true, locals m p.known⟩ ⟨true, locals m' p'.known⟩ :=
      ⟨rfl, hL.sameTypes_locals (by omega) (by omega) hchild hp.known⟩
    rcases ih (by omega) (by omega) hpart hlocals with hin | ⟨q', u', hq, hu, hreaches⟩
    · exact .inl hin
    · refine .inr ⟨q', u', hq, hu,
        .method (hm.kind.trans hcreation) hbody' hmember' ?_ hc' hreaches⟩
      rw [hp.inType, hL.isMethod_eq hchild]
      exact hmethod

end Exchangeable

end ChangeImpact.Java
