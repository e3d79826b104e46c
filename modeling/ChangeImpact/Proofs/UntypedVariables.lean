import ChangeImpact.Proofs.FieldReceivers

/-!
# Variables without a usable type

A variable whose type is inferred, primitive or an array names no class that a call on it could be
looked up in. Such a variable is not kept, so it hides nothing: a call on it is recorded as in a
method that does not declare it, with the type that its name has around the method if there is one.

* `Tree.binders` — the declarations of variables in a method; `OnlyUntyped` — those of one name;
* `CallsOnName`, `callTarget?_of_callsOnName` — calls on a variable, and what is recorded for them;
* `Gives`, `Reaches.given` — what is known around a method comes from a type or method around it;
* `untyped_receiver` — the target of a call on such a variable, and when it has the variable's name;
* `untyped_hides_nothing` — a call on a variable that is taken for one on a field.
-/

namespace ChangeImpact.Java

variable {p q : Place} {t c d A M u : Tree} {v : Variables} {x T m : String}

/-! ## Declarations of variables -/

namespace Tree

/-- Whether such a tree declares variables. -/
def declaresVariables (k : Kind) : Bool :=
  k == .formalParameter || k == .spreadParameter || k == .localVariableDeclaration ||
    k == .enhancedFor || k == .resource

mutual

/-- The declarations of parameters, local and loop variables and resources in a tree. Bodies of
classes are left out. -/
def binders : Tree → List Tree
  | leaf _ _ => []
  | missing => []
  | node k cs =>
    if k = .classBody then []
    else if declaresVariables k then node k cs :: bindersOf cs
    else bindersOf cs

/-- The declarations in a list of children. -/
def bindersOf : List Child → List Tree
  | [] => []
  | (_, t) :: cs => if t.isNamed then binders t ++ bindersOf cs else bindersOf cs

end

/-- Whether a declaration names the variable `x`. It names one itself, or has declarators. -/
def names (d : Tree) (x : String) : Bool :=
  (d.child? .name).any (·.text == x) ||
    d.namedChildren.any fun c => c.kind == .variableDeclarator && (c.child? .name).any (·.text == x)

/-- Whether the type of a declaration is inferred, primitive or an array. -/
def isUntyped (d : Tree) : Bool :=
  d.kind == .spreadParameter || (d.child? .type).any fun type =>
    type.kind == .primitiveType || type.kind == .arrayType ||
      type.kind == .typeIdentifier && type.text == "var"

theorem mem_binders_self (hkind : declaresVariables t.kind = true) (hc : c ∈ t.children) :
    t ∈ t.binders := by
  cases t with
  | leaf | missing => simp [children, labelled] at hc
  | node k cs =>
    have hbody : k ≠ .classBody := by
      rintro rfl
      cases hkind
    have hself : (node k cs).binders = node k cs :: bindersOf cs := by
      rw [binders, if_neg hbody]
      exact if_pos hkind
    rw [hself]
    exact List.mem_cons_self

theorem mem_bindersOf {cs : List Child} (hc : c ∈ cs.map (·.2)) (hnamed : c.isNamed = true)
    (hd : d ∈ c.binders) : d ∈ bindersOf cs := by
  induction cs with
  | nil => simp at hc
  | cons entry cs ih =>
    rcases entry with ⟨field, first⟩
    rw [bindersOf]
    rcases List.mem_cons.1 hc with rfl | hc
    · rw [if_pos hnamed]
      exact List.mem_append_left _ hd
    · split
      · exact List.mem_append_right _ (ih hc)
      · exact ih hc

theorem mem_binders_part (hbody : t.kind ≠ .classBody) (hc : c ∈ t.namedChildren)
    (hd : d ∈ c.binders) : d ∈ t.binders := by
  rcases List.mem_filter.1 hc with ⟨hchild, hnamed⟩
  cases t with
  | leaf | missing => simp [children, labelled] at hchild
  | node k cs =>
    have hmem : d ∈ bindersOf cs := mem_bindersOf hchild hnamed hd
    have hother : k ≠ .classBody := hbody
    rw [binders, if_neg hother]
    split
    · exact List.mem_cons_of_mem _ hmem
    · exact hmem

end Tree

theorem declaredType?_of_untyped (hd : d.isUntyped = true) (hkind : d.kind ≠ .spreadParameter) :
    declaredType? d = none := by
  unfold declaredType?
  rw [Tree.isUntyped, Bool.or_eq_true, beq_iff_eq, or_iff_right hkind, Option.any_eq_true] at hd
  rcases hd with ⟨type, htype, huntyped⟩
  simp only [Bool.or_eq_true, Bool.and_eq_true, beq_iff_eq] at huntyped
  rw [htype, Option.bind_some]
  rcases huntyped with (hprimitive | harray) | ⟨hinferred, hvar⟩
  · simp [typeName?, hprimitive]
  · simp [typeName?, harray]
  · simp [typeName?, hinferred, hvar]

/-- What is kept for a method comes from one of its declarations. -/
theorem DeclaresLocal.mem_binders (h : DeclaresLocal M x T) :
    ∃ d ∈ M.binders, d.names x = true ∧ declaredType? d = some T ∧ d.kind ≠ .spreadParameter := by
  induction h with
  | part hbody hc _ ih =>
    rcases ih with ⟨d, hd, hdeclares⟩
    exact ⟨d, Tree.mem_binders_part hbody hc hd, hdeclares⟩
  | @here t x T h =>
    have hkind : Tree.declaresVariables t.kind = true ∧ t.kind ≠ .spreadParameter := by
      rcases h with ⟨hkind, -⟩ | ⟨hkind | hkind | hkind, -⟩ <;> rw [hkind] <;> decide
    have htype : declaredType? t = some T := by
      rcases h with ⟨-, htype, -⟩ | ⟨-, htype, -⟩
      · exact htype
      · exact htype
    have hnames : t.names x = true := by
      rw [Tree.names, Bool.or_eq_true, Option.any_eq_true, List.any_eq_true]
      rcases h with ⟨-, -, d, hd, hdeclarator, name, hname, hx⟩ | ⟨-, -, name, hname, hx⟩
      · refine .inr ⟨d, hd, ?_⟩
        simp [hdeclarator, hname, hx]
      · exact .inl ⟨name, hname, by simp [hx]⟩
    rcases Option.bind_eq_some_iff.1 htype with ⟨type, hchild, -⟩
    exact ⟨t, Tree.mem_binders_self hkind.1 (Tree.mem_of_child? hchild), hnames, htype, hkind.2⟩

/-- The method declares `x`, but nowhere with a usable type. -/
structure OnlyUntyped (M : Tree) (x : String) : Prop where
  declared : ∃ d ∈ M.binders, d.names x = true
  untyped : ∀ d ∈ M.binders, d.names x = true → d.isUntyped = true

theorem OnlyUntyped.not_declaresLocal (h : OnlyUntyped M x) (T : String) :
    ¬DeclaresLocal M x T := by
  intro hlocal
  rcases hlocal.mem_binders with ⟨d, hd, hnames, htype, hkind⟩
  rw [declaredType?_of_untyped (h.untyped d hd hnames) hkind] at htype
  cases htype

/-- So what is known of `x` is what is known around the method. -/
theorem typeOf?_locals_of_untyped (hM : M.height ≤ nestingLimit) (hx : OnlyUntyped M x)
    (v : Variables) : (locals M v).typeOf? x = v.typeOf? x := by
  have hnone : (locals M []).typeOf? x = none := by
    rw [Variables.typeOf?_eq_none_iff]
    intro T hmem
    exact hx.not_declaresLocal T ((prepends_locals hM).mem_iff.1 hmem)
  rw [(prepends_locals hM).append, Variables.typeOf?_append, hnone]
  rfl

/-! ## Calls on a variable -/

/-- The call `x.m(…)`. -/
structure CallsOnName (u : Tree) (x m : String) : Prop where
  kind : u.kind = .methodInvocation
  name : (u.child? .name).map (·.text) = some m
  receiver : ∃ object, u.child? .object = some object ∧ object.kind = .identifier ∧ object.text = x

/-- What is recorded for it: the type that is known for `x`, or `x` itself. -/
theorem callTarget?_of_callsOnName (h : CallsOnName u x m) (v : Variables) :
    callTarget? v u = some ((v.typeOf? x).getD x ++ "." ++ m) := by
  rcases h with ⟨-, hname, object, hobject, hkind, rfl⟩
  rcases Option.map_eq_some_iff.1 hname with ⟨name, hnameChild, rfl⟩
  simp [callTarget?, receiver?, qualify, hnameChild, hobject, hkind]

/-! ## Around a method -/

/-- What a type or a method makes known inside of it. -/
def Gives (A : Tree) (x T : String) : Prop :=
  A.isNamedType = true ∧ (DeclaresField A x T ∨ DeclaresComponent A x T) ∨
    A.isMethod = true ∧ DeclaresLocal A x T

theorem mem_locals (hA : A.height ≤ nestingLimit) :
    (x, T) ∈ locals A v ↔ DeclaresLocal A x T ∨ (x, T) ∈ v := by
  rw [(prepends_locals hA).append, List.mem_append, (prepends_locals hA).mem_iff]

theorem mem_inside (hA : A.height ≤ nestingLimit) (h : (x, T) ∈ (p.inside A).known) :
    (x, T) ∈ p.known ∨ Gives A x T := by
  unfold Place.inside at h
  split at h
  · next htype =>
    rw [collectMembers_eq hA, List.mem_append, List.mem_append, mem_fieldsOf,
      mem_componentsOf hA] at h
    rcases h with hfield | hcomponent | hknown
    · exact .inr (.inl ⟨htype, .inl hfield⟩)
    · exact .inr (.inl ⟨htype, .inr hcomponent⟩)
    · exact .inl hknown
  · split at h
    · next hmethod =>
      rcases (mem_locals hA).1 h with hlocal | hknown
      · exact .inr (.inr ⟨(Bool.and_eq_true_iff.1 hmethod).2, hlocal⟩)
      · exact .inl hknown
    · exact .inl h

/-- What is known at a tree that the walk gets to was known before, or is given by a tree around
it. -/
theorem Reaches.given (ht : t.height ≤ nestingLimit) (h : Reaches p t q u)
    (hx : (x, T) ∈ q.known) :
    (x, T) ∈ p.known ∨ ∃ A, (A = t ∨ t.Has A) ∧ A.Has u ∧ Gives A x T := by
  -- a tree in a part of `t` is a tree in `t`
  have hlift : ∀ {t c A : Tree}, t.Has c → A = c ∨ c.Has A → A = t ∨ t.Has A := by
    rintro t c A hc (rfl | hA)
    · exact .inr hc
    · exact .inr (hc.trans hA)
  induction h with
  | here => exact .inl hx
  | @child p q t c u _ _ hc h ih =>
    have hlt := Tree.height_lt_of_child hc
    rcases ih (by omega) hx with hknown | ⟨A, hA, hgives⟩
    · rcases mem_inside ht hknown with hbefore | hgives
      · exact .inl hbefore
      · refine .inr ⟨t, .inl rfl, ?_, hgives⟩
        rcases h.has with rfl | hhas
        · exact .child hc
        · exact .deeper hc hhas
    · exact .inr ⟨A, hlift (.child hc) hA, hgives⟩
  | part _ hc _ ih =>
    have hlt := Tree.height_lt_of_child (mem_otherParts hc)
    rcases ih (by omega) hx with hknown | ⟨A, hA, hgives⟩
    · exact .inl hknown
    · exact .inr ⟨A, hlift (.child (mem_otherParts hc)) hA, hgives⟩
  | member _ hbody hm _ _ ih =>
    have hin := Tree.Has.deeper (mem_anonymousBody hbody) (.child hm)
    have hlt := hin.height_lt
    rcases ih (by omega) hx with hknown | ⟨A, hA, hgives⟩
    · exact .inl hknown
    · exact .inr ⟨A, hlift hin hA, hgives⟩
  | @method p q t body m c u _ hbody hm hmethod hc h ih =>
    have hin := Tree.Has.deeper (mem_anonymousBody hbody) (.child hm)
    have hlt := hin.height_lt
    have hlt' := Tree.height_lt_of_child hc
    rcases ih (by omega) hx with hknown | ⟨A, hA, hgives⟩
    · rcases (mem_locals (by omega)).1 hknown with hlocal | hbefore
      · refine .inr ⟨m, .inr hin, ?_, .inr ⟨(Bool.and_eq_true_iff.1 hmethod).2, hlocal⟩⟩
        rcases h.has with rfl | hhas
        · exact .child hc
        · exact .deeper hc hhas
      · exact .inl hbefore
    · exact .inr ⟨A, hlift (hin.trans (.child hc)) hA, hgives⟩

/-! ## What is recorded -/

/-- What becomes of the calls on `x` in a method that declares it without a usable type. -/
structure UntypedCalls (t M : Tree) (v : Variables) (x : String) (d : Declaration) : Prop where
  described : Describes d M v
  /-- A call directly in the method is recorded as if the method did not declare `x`. -/
  recorded : ∀ c ∈ M.children, ∀ u m, Within Tree.shuts (locals M v) c (locals M v) u →
    CallsOnName u x m → callTarget? (locals M v) u = some ((v.typeOf? x).getD x ++ "." ++ m) ∧
      (v.typeOf? x).getD x ++ "." ++ m ∈ d.targets
  /-- So the receiver stays as it is exactly if nothing around gives its name another type. -/
  kept_iff : ∀ u m, CallsOnName u x m →
    (callTarget? (locals M v) u = some (x ++ "." ++ m) ↔ ∀ T, v.typeOf? x = some T → T = x)
  /-- A field of the type around the method gives its type to the receiver. -/
  field : ∀ C w T, v = collectMembers C w → DeclaresField C x T →
    (∀ T', DeclaresField C x T' → T' = T) → ∀ u m, CallsOnName u x m →
      callTarget? (locals M v) u = some (T ++ "." ++ m)
  /-- Every type that counts is given by a type or method that the method is in. -/
  around : ∀ T, v.typeOf? x = some T → ∃ A, (A = t ∨ t.Has A) ∧ A.Has M ∧ Gives A x T

/-- A call on a variable without a usable type is recorded as if there were no such variable. -/
theorem untyped_receiver (ht : t.height ≤ nestingLimit) (hM : Lists .outside t M v)
    (hx : OnlyUntyped M x) : ∃ d ∈ declarations t, UntypedCalls t M v x d := by
  have hheight : M.height ≤ nestingLimit := Nat.le_trans hM.1.height_le ht
  have htarget : ∀ u m, CallsOnName u x m →
      callTarget? (locals M v) u = some ((v.typeOf? x).getD x ++ "." ++ m) := by
    intro u m hcall
    rw [callTarget?_of_callsOnName hcall, typeOf?_locals_of_untyped hheight hx]
  rcases method_listed ht hM with ⟨d, hd, hdescribes⟩
  refine ⟨d, hd, hdescribes, ?_, ?_, ?_, ?_⟩
  · intro c hc u m hwithin hcall
    refine ⟨htarget u m hcall, (hdescribes.targets _).2 ⟨c, hc, _, u, hwithin, ?_⟩⟩
    rw [target?, hcall.kind]
    exact htarget u m hcall
  · intro u m hcall
    rw [htarget u m hcall, Option.some.injEq]
    constructor
    · intro heq T hT
      have hsame := append_dot_inj heq
      rwa [hT] at hsame
    · intro hsame
      cases htype : v.typeOf? x with
      | none => rfl
      | some T =>
        rw [hsame T htype]
        rfl
  · intro C w T hv hfield hunique u m hcall
    rw [htarget u m hcall, hv, typeOf?_collectMembers hfield hunique]
    rfl
  · intro T hT
    rcases hM.1.given ht (Variables.mem_of_typeOf? hT) with hknown | hgiven
    · cases hknown
    · exact hgiven

/-! ## Methods with a call on such a variable -/

/-- The method `M` declares `x` without a usable type, and has the call `u` on it. -/
structure HasUntypedCall (t M u : Tree) (v : Variables) (x m : String) : Prop where
  listed : Lists .outside t M v
  untyped : OnlyUntyped M x
  direct : ∃ c ∈ M.children, Within Tree.shuts (locals M v) c (locals M v) u
  call : CallsOnName u x m

/-- Whether a method of the first class of a tree is such a method. It has the number `k` in the
body of the class, and the call is at a path in the body of the method. -/
def checkUntypedCall (t : Tree) (k : Nat) (path : List Nat) (v : Variables) (x m : String) : Bool :=
  methodAt t k v fun M =>
    M.binders.any (·.names x) && M.binders.all (fun d => !d.names x || d.isUntyped) &&
      inBodyAt M Tree.shuts path (isCallOn m fun object =>
        object.kind == .identifier && object.text == x)

theorem hasUntypedCall_of_check {k : Nat} {path : List Nat}
    (h : checkUntypedCall t k path v x m = true) : ∃ M u, HasUntypedCall t M u v x m := by
  rcases lists_of_methodAt h with ⟨M, hM, hchecked⟩
  simp only [Bool.and_eq_true, List.any_eq_true, List.all_eq_true, Bool.or_eq_true,
    Bool.not_eq_true'] at hchecked
  rcases hchecked with ⟨⟨hdeclared, huntyped⟩, hin⟩
  rcases within_of_inBodyAt hin (locals M v) with ⟨u, hu, hcall⟩
  simp only [isCallOn_iff, Bool.and_eq_true, beq_iff_eq] at hcall
  refine ⟨M, u, hM, ⟨hdeclared, ?_⟩, hu, ?_⟩
  · intro d hd hnames
    rcases huntyped d hd with hother | huntyped
    · rw [hnames] at hother
      cases hother
    · exact huntyped
  · exact ⟨hcall.1, hcall.2.1, hcall.2.2⟩

/-- A class whose field has another name than the variable that is called. -/
def inferredCopy : Tree :=
  .ofSource ("class A \x7b Repo repo; void run(int[] rows) \x7b"
    ++ " var copy = repo.all(rows); copy.size(); \x7d \x7d")

theorem untyped_receiver_inferredCopy : inferredCopy.height ≤ nestingLimit ∧
    ∃ M u, HasUntypedCall inferredCopy M u [("repo", "Repo")] "copy" "size" ∧
      ∃ d ∈ declarations inferredCopy, UntypedCalls inferredCopy M [("repo", "Repo")] "copy" d ∧
        d.targets = ["Repo.all", "copy.size"] := by
  have hchecked : inferredCopy.height ≤ nestingLimit ∧
      checkUntypedCall inferredCopy 2 [2, 0] [("repo", "Repo")] "copy" "size" = true ∧
      ∀ d ∈ declarations inferredCopy, d.targets = ["Repo.all", "copy.size"] := by
    decide +kernel
  rcases hchecked with ⟨hheight, hcheck, htargets⟩
  rcases hasUntypedCall_of_check hcheck with ⟨M, u, h⟩
  rcases untyped_receiver hheight h.listed h.untyped with ⟨d, hd, hcalls⟩
  exact ⟨hheight, M, u, h, d, hd, hcalls, htargets d hd⟩

/-- A class with a field and a variable of the same name, whose type is inferred. -/
def inferredRepo : Tree :=
  .ofSource ("class A \x7b\n  Repo repo;\n  void run() \x7b\n    var repo = make();\n"
    ++ "    repo.save();\n  \x7d\n\x7d\n")

/-- A call on the variable is recorded as one on the field. -/
theorem untyped_hides_nothing : inferredRepo.height ≤ nestingLimit ∧
    ∃ M u, HasUntypedCall inferredRepo M u [("repo", "Repo")] "repo" "save" ∧
      (∀ d ∈ declarations inferredRepo, "repo.save" ∉ d.targets) ∧
      ∃ d ∈ declarations inferredRepo, "Repo.save" ∈ d.targets := by
  have hchecked : inferredRepo.height ≤ nestingLimit ∧
      checkUntypedCall inferredRepo 2 [2, 0] [("repo", "Repo")] "repo" "save" = true ∧
      (∀ d ∈ declarations inferredRepo, "repo.save" ∉ d.targets) ∧
      ∃ d ∈ declarations inferredRepo, "Repo.save" ∈ d.targets := by
    decide +kernel
  rcases hchecked with ⟨hheight, hcheck, hlost, hrecorded⟩
  rcases hasUntypedCall_of_check hcheck with ⟨M, u, h⟩
  exact ⟨hheight, M, u, h, hlost, hrecorded⟩

end ChangeImpact.Java
