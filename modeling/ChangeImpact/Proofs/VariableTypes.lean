import ChangeImpact.Proofs.CallSites

/-!
# The types of variables

The variables that are known at a call are kept in one list, the latest first. What a method or a
type puts in front of the list is said here about its tree.

* `Variables.typeOf?_append` — the variables in front hide those behind;
* `Prepends` — what is put in front; `Prepends.comp`, `Prepends.foldl` — one after another;
* `DeclaresLocal`, `prepends_locals` — parameters, local and loop variables, resources;
* `DeclaresField`, `typeOf?_collectMembers` — the fields of a type;
* `componentsOf`, `collectMembers_eq` — the components of a record, and all that a type declares.
-/

namespace ChangeImpact.Java

variable {v w : Variables} {x T : String} {t c : Tree} {n : Nat}

/-! ## Types by names -/

namespace Variables

theorem typeOf?_append (w v : Variables) (x : String) :
    typeOf? (w ++ v) x = (w.typeOf? x).or (v.typeOf? x) := by
  unfold typeOf?
  rw [List.find?_append]
  cases w.find? (·.1 == x) <;> rfl

theorem mem_of_typeOf? (h : v.typeOf? x = some T) : (x, T) ∈ v := by
  rcases Option.map_eq_some_iff.1 h with ⟨entry, hfind, rfl⟩
  have hname : entry.1 = x := by simpa using List.find?_some hfind
  rw [← hname]
  exact List.mem_of_find?_eq_some hfind

theorem typeOf?_eq_none_iff : v.typeOf? x = none ↔ ∀ T, (x, T) ∉ v := by
  unfold typeOf?
  rw [Option.map_eq_none_iff, List.find?_eq_none]
  constructor
  · intro hnone T hmem
    exact hnone _ hmem (by simp)
  · rintro hnone ⟨name, T⟩ hmem hname
    simp only [beq_iff_eq] at hname
    subst hname
    exact hnone T hmem

/-- A variable that has one type only has this type. -/
theorem typeOf?_of_unique (hmem : (x, T) ∈ v) (hunique : ∀ T', (x, T') ∈ v → T' = T) :
    v.typeOf? x = some T := by
  cases htype : v.typeOf? x with
  | none => exact absurd hmem (typeOf?_eq_none_iff.1 htype T)
  | some T' => rw [hunique T' (mem_of_typeOf? htype)]

end Variables

/-! ## What is put in front -/

/-- The variables in `D`, and no others, are put in front. -/
def Prepends (g : Variables → Variables) (D : String → String → Prop) : Prop :=
  ∃ w : Variables, (∀ v, g v = w ++ v) ∧ ∀ x T, (x, T) ∈ w ↔ D x T

namespace Prepends

variable {g g' : Variables → Variables} {D D' : String → String → Prop}

theorem none : Prepends id fun _ _ => False :=
  ⟨[], fun _ => rfl, by simp⟩

theorem one (x T : String) : Prepends (fun v => (x, T) :: v) fun x' T' => x' = x ∧ T' = T :=
  ⟨[(x, T)], fun _ => rfl, by simp⟩

theorem comp (h : Prepends g D) (h' : Prepends g' D') :
    Prepends (fun v => g' (g v)) fun x T => D x T ∨ D' x T := by
  rcases h with ⟨w, hw, hmem⟩
  rcases h' with ⟨w', hw', hmem'⟩
  refine ⟨w' ++ w, ?_, ?_⟩
  · intro v
    dsimp only
    rw [hw, hw', List.append_assoc]
  · intro x T
    rw [List.mem_append, hmem, hmem', or_comm]

theorem congr (h : Prepends g D) (hD : ∀ x T, D' x T ↔ D x T) : Prepends g D' := by
  rcases h with ⟨w, hw, hmem⟩
  exact ⟨w, hw, fun x T => (hmem x T).trans (hD x T).symm⟩

theorem foldl {α : Type} {g : α → Variables → Variables} {D : α → String → String → Prop}
    {l : List α} (h : ∀ a ∈ l, Prepends (g a) (D a)) :
    Prepends (fun v => l.foldl (fun v a => g a v) v) fun x T => ∃ a ∈ l, D a x T := by
  induction l with
  | nil => exact none.congr (by simp)
  | cons a l ih =>
    have hrest := ih fun b hb => h b (List.mem_cons_of_mem _ hb)
    exact ((h a List.mem_cons_self).comp hrest).congr (by simp)

theorem append (h : Prepends g D) (v : Variables) : g v = g [] ++ v := by
  rcases h with ⟨w, hw, -⟩
  rw [hw v, hw [], List.append_nil]

theorem mem_iff (h : Prepends g D) : (x, T) ∈ g [] ↔ D x T := by
  rcases h with ⟨w, hw, hmem⟩
  rw [hw [], List.append_nil, hmem]

end Prepends

/-! ## Declarations -/

/-- The usable type that a declaration gives. -/
def declaredType? (t : Tree) : Option String := (t.child? .type).bind typeName?

/-- A declaration of variables gives `x` the type `T`. -/
def DeclaresVariable (t : Tree) (x T : String) : Prop :=
  declaredType? t = some T ∧ ∃ d ∈ t.namedChildren, d.kind = .variableDeclarator ∧
    ∃ name, d.child? .name = some name ∧ name.text = x

/-- A tree that declares a single variable gives `x` the type `T`. -/
def DeclaresOne (t : Tree) (x T : String) : Prop :=
  declaredType? t = some T ∧ ∃ name, t.child? .name = some name ∧ name.text = x

/-- Adds the variable of the type `T` that a declarator names. -/
def declareNamed (T : String) (d : Tree) (v : Variables) : Variables :=
  match d.child? .name with
  | some name => (name.text, T) :: v
  | none => v

theorem prepends_declareNamed (T : String) (d : Tree) : Prepends (declareNamed T d)
    fun x T' => T' = T ∧ ∃ name, d.child? .name = some name ∧ name.text = x := by
  unfold declareNamed
  cases d.child? .name with
  | none => exact Prepends.none.congr (by simp)
  | some name => exact (Prepends.one name.text T).congr (by simp [and_comm, eq_comm])

theorem prepends_declareVariables (t : Tree) :
    Prepends (declareVariables t) (DeclaresVariable t) := by
  unfold declareVariables DeclaresVariable declaredType?
  cases (t.child? .type).bind typeName? with
  | none => exact Prepends.none.congr (by simp)
  | some T =>
    refine (Prepends.foldl (l := t.namedChildren.filter (·.kind == .variableDeclarator))
      fun d _ => prepends_declareNamed T d).congr ?_
    intro x T'
    simp only [List.mem_filter, beq_iff_eq, Option.some.injEq]
    constructor
    · rintro ⟨rfl, d, hd, hkind, hname⟩
      exact ⟨d, ⟨hd, hkind⟩, rfl, hname⟩
    · rintro ⟨d, ⟨hd, hkind⟩, rfl, hname⟩
      exact ⟨rfl, d, hd, hkind, hname⟩

theorem prepends_declareOne (t : Tree) : Prepends (declareOne t) (DeclaresOne t) := by
  unfold declareOne DeclaresOne declaredType?
  cases (t.child? .type).bind typeName? with
  | none => exact Prepends.none.congr (by simp)
  | some T =>
    cases t.child? .name with
    | none => exact Prepends.none.congr (by simp)
    | some name => exact (Prepends.one name.text T).congr (by simp [and_comm, eq_comm])

/-- A parameter, local variable, loop variable or resource gives `x` the type `T`. -/
def DeclaresHere (t : Tree) (x T : String) : Prop :=
  t.kind = .localVariableDeclaration ∧ DeclaresVariable t x T ∨
    (t.kind = .formalParameter ∨ t.kind = .enhancedFor ∨ t.kind = .resource) ∧ DeclaresOne t x T

/-- Adds the variables that a tree itself declares. -/
def declareHere (t : Tree) (v : Variables) : Variables :=
  match t.kind with
  | .localVariableDeclaration => declareVariables t v
  | .formalParameter | .enhancedFor | .resource => declareOne t v
  | _ => v

theorem collectLocals_succ (hbody : t.kind ≠ .classBody) (v : Variables) :
    collectLocals (n + 1) t v =
      t.namedChildren.foldl (fun v c => collectLocals n c v) (declareHere t v) := by
  rw [collectLocals, if_neg hbody]
  rfl

theorem prepends_declareHere (t : Tree) : Prepends (declareHere t) (DeclaresHere t) := by
  unfold declareHere DeclaresHere
  split
  · next hkind => exact (prepends_declareVariables t).congr (by simp [hkind])
  · next hkind => exact (prepends_declareOne t).congr (by simp [hkind])
  · next hkind => exact (prepends_declareOne t).congr (by simp [hkind])
  · next hkind => exact (prepends_declareOne t).congr (by simp [hkind])
  · next hlocal hparameter hloop hresource =>
    refine Prepends.none.congr fun x T => iff_of_false ?_ id
    rintro (⟨hkind, -⟩ | ⟨hkind | hkind | hkind, -⟩)
    · exact hlocal hkind
    · exact hparameter hkind
    · exact hloop hkind
    · exact hresource hkind

/-- A tree has such a declaration, or a part of it has. Bodies of classes are left out. -/
inductive DeclaresLocal : Tree → String → String → Prop where
  | here {t : Tree} {x T : String} (h : DeclaresHere t x T) : DeclaresLocal t x T
  | part {t c : Tree} {x T : String} (hkind : t.kind ≠ .classBody) (hc : c ∈ t.namedChildren)
    (h : DeclaresLocal c x T) : DeclaresLocal t x T

theorem prepends_collectLocals (ht : t.height < n) :
    Prepends (collectLocals n t) (DeclaresLocal t) := by
  induction n generalizing t with
  | zero => omega
  | succ n ih =>
    by_cases hbody : t.kind = .classBody
    · have hnothing : collectLocals (n + 1) t = id := by
        funext v
        rw [collectLocals, if_pos hbody]
        rfl
      rw [hnothing]
      refine Prepends.none.congr ?_
      intro x T
      refine iff_of_false ?_ id
      intro h
      cases h with
      | here h => simp [DeclaresHere, hbody] at h
      | part hkind => exact hkind hbody
    · -- what stands in a tree itself comes first, and is hidden by what its parts declare
      have hparts : Prepends (fun v => t.namedChildren.foldl (fun v c => collectLocals n c v) v)
          fun x T => ∃ c ∈ t.namedChildren, DeclaresLocal c x T := by
        refine Prepends.foldl fun c hc => ih ?_
        have hlt := Tree.height_lt_of_child (List.mem_filter.1 hc).1
        omega
      have hcollect : collectLocals (n + 1) t = fun v =>
          t.namedChildren.foldl (fun v c => collectLocals n c v) (declareHere t v) :=
        funext (collectLocals_succ hbody)
      rw [hcollect]
      refine ((prepends_declareHere t).comp hparts).congr ?_
      intro x T
      constructor
      · intro h
        cases h with
        | here h => exact .inl h
        | part _ hc h => exact .inr ⟨_, hc, h⟩
      · rintro (h | ⟨c, hc, h⟩)
        · exact .here h
        · exact .part hbody hc h

/-- The parameters and local variables of a method are put in front of what is known around it. -/
theorem prepends_locals (ht : t.height ≤ nestingLimit) : Prepends (locals t) (DeclaresLocal t) :=
  prepends_collectLocals (Nat.lt_succ_of_le ht)

/-! ## Fields -/

/-- A member of a type gives the field `x` the type `T`. -/
def DeclaresMember (member : Tree) (x T : String) : Prop :=
  (member.kind = .fieldDeclaration ∨ member.kind = .constantDeclaration) ∧
      DeclaresVariable member x T ∨
    member.kind = .enumBodyDeclarations ∧ ∃ d ∈ member.namedChildren, d.kind = .fieldDeclaration ∧
      DeclaresVariable d x T

/-- The body of a type gives the field `x` the type `T`. -/
def DeclaresField (t : Tree) (x T : String) : Prop :=
  ∃ body, t.child? .body = some body ∧ ∃ member ∈ body.namedChildren, DeclaresMember member x T

theorem prepends_collectMember (member : Tree) :
    Prepends (fun v => collectMember v member) (DeclaresMember member) := by
  unfold collectMember DeclaresMember
  split
  · next hkind => exact (prepends_declareVariables member).congr (by simp [hkind])
  · next hkind => exact (prepends_declareVariables member).congr (by simp [hkind])
  · next hkind =>
    refine (Prepends.foldl (l := member.namedChildren.filter (·.kind == .fieldDeclaration))
      fun d _ => prepends_declareVariables d).congr ?_
    intro x T
    simp [hkind, and_assoc]
  · next hfield hconstant henum =>
    refine Prepends.none.congr fun x T => iff_of_false ?_ id
    rintro (⟨hkind | hkind, -⟩ | ⟨hkind, -⟩)
    · exact hfield hkind
    · exact hconstant hkind
    · exact henum hkind

/-- The fields that the body of a type declares. -/
def fieldsOf (t : Tree) : Variables :=
  match t.child? .body with
  | some body => body.namedChildren.foldl collectMember []
  | none => []

theorem mem_fieldsOf : (x, T) ∈ fieldsOf t ↔ DeclaresField t x T := by
  unfold fieldsOf DeclaresField
  cases t.child? .body with
  | none => simp
  | some body =>
    have hmembers := Prepends.foldl (l := body.namedChildren)
      fun member _ => prepends_collectMember member
    rw [hmembers.mem_iff]
    simp

/-- The fields of a type hide its record components, and those what is known around it. -/
theorem exists_collectMembers (t : Tree) (v : Variables) :
    ∃ rest, collectMembers t v = fieldsOf t ++ rest := by
  unfold collectMembers fieldsOf
  cases t.child? .body with
  | none => exact ⟨_, rfl⟩
  | some body =>
    have hmembers := Prepends.foldl (l := body.namedChildren)
      fun member _ => prepends_collectMember member
    exact ⟨_, hmembers.append _⟩

/-- The type of a field, if the body of the type gives it one only. -/
theorem typeOf?_collectMembers (h : DeclaresField t x T)
    (hunique : ∀ T', DeclaresField t x T' → T' = T) (v : Variables) :
    (collectMembers t v).typeOf? x = some T := by
  rcases exists_collectMembers t v with ⟨rest, hrest⟩
  have htype : (fieldsOf t).typeOf? x = some T :=
    Variables.typeOf?_of_unique (mem_fieldsOf.2 h) fun T' hT' => hunique T' (mem_fieldsOf.1 hT')
  rw [hrest, Variables.typeOf?_append, htype]
  rfl

/-! ## Components of records -/

/-- A component of a record has the type `T`. -/
def DeclaresComponent (t : Tree) (x T : String) : Prop :=
  ∃ parameters, t.child? .parameters = some parameters ∧ DeclaresLocal parameters x T

/-- The components of a record. -/
def componentsOf (t : Tree) : Variables :=
  match t.child? .parameters with
  | some parameters => locals parameters []
  | none => []

theorem mem_componentsOf (ht : t.height ≤ nestingLimit) :
    (x, T) ∈ componentsOf t ↔ DeclaresComponent t x T := by
  unfold componentsOf DeclaresComponent
  cases hparameters : t.child? .parameters with
  | none => simp
  | some parameters =>
    have hlt := Tree.height_lt_of_child (Tree.mem_of_child? hparameters)
    have hlocals := prepends_locals (Nat.le_trans (Nat.le_of_lt hlt) ht)
    simp [hlocals.mem_iff]

/-- Fields hide components, and both hide what is known around a type. -/
theorem collectMembers_eq (ht : t.height ≤ nestingLimit) (v : Variables) :
    collectMembers t v = fieldsOf t ++ (componentsOf t ++ v) := by
  have hfields : ∀ (body : Tree) (w : Variables), body.namedChildren.foldl collectMember w =
      body.namedChildren.foldl collectMember [] ++ w := fun body =>
    (Prepends.foldl fun member _ => prepends_collectMember member).append
  unfold collectMembers fieldsOf componentsOf
  cases hparameters : t.child? .parameters with
  | none =>
    cases t.child? .body with
    | none => rfl
    | some body => exact hfields body v
  | some parameters =>
    have hlt := Tree.height_lt_of_child (Tree.mem_of_child? hparameters)
    dsimp only
    rw [(prepends_locals (Nat.le_trans (Nat.le_of_lt hlt) ht)).append v]
    cases t.child? .body with
    | none => rfl
    | some body => exact hfields body _

end ChangeImpact.Java
