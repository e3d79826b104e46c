import ChangeImpact.Java.Repair
import ChangeImpact.Proofs.MethodTargets
import ChangeImpact.Proofs.VariableTypes

/-!
# Calls on fields

The receiver `this.f` of a call is replaced by the type of `f`, looked up among all variables that
are known there. So it means the field unless the method has a parameter or local variable of the
same name, anywhere: then the last of these counts.

* `MemberOf` — the members of a type; `reaches_member` — what is known at a member;
* `CallsOnThis`, `callTarget?_of_callsOnThis` — the calls, and what is recorded for them;
* `this_field_receiver` — the target of such a call, and when it has the type of the field;
* `parameter_hides_field` — a call on a field that is taken for one on a parameter.
-/

namespace ChangeImpact.Java

variable {p q : Place} {t C M u : Tree} {v : Variables} {f T m : String}

/-! ## Members of types -/

/-- A member stands in the body of a type. Those of an enumeration follow its constants. -/
def MemberOf (C M : Tree) : Prop :=
  ∃ body, C.child? .body = some body ∧
    (body.kind = .classBody ∨ body.kind = .interfaceBody ∨ body.kind = .enumBody) ∧
    (M ∈ body.children ∨
      ∃ e ∈ body.children, e.kind = .enumBodyDeclarations ∧ M ∈ e.children)

/-- A body is passed through. -/
theorem reaches_inBody
    (h : t.kind = .classBody ∨ t.kind = .interfaceBody ∨ t.kind = .enumBody ∨
      t.kind = .enumBodyDeclarations) (hM : M ∈ t.children) : Reaches p t p M := by
  have hkind : t.kind ≠ .objectCreation ∧ descends t.kind = true := by
    rcases h with h | h | h | h <;> rw [h] <;> decide
  have hown : t.isOwn = false := by
    rcases h with h | h | h | h <;> exact Tree.isOwn_of_kind (by rw [h]; decide) (by rw [h]; rfl)
  refine .child hkind.1 hkind.2 hM ?_
  rw [Place.inside_of_not_own hown]
  exact .here p M

/-- At a member of a type its fields are known. -/
theorem reaches_member (htype : C.isNamedType = true) (hM : MemberOf C M) :
    Reaches p C ⟨true, collectMembers C p.known⟩ M := by
  rcases hM with ⟨body, hbody, hkind, hmember⟩
  have hC : C.kind ≠ .objectCreation ∧ descends C.kind = true := by
    have hdeclaration := (Bool.and_eq_true_iff.1 htype).1
    simp only [isTypeDeclaration, Bool.or_eq_true, beq_iff_eq] at hdeclaration
    rcases hdeclaration with ((h | h) | h) | h <;> rw [h] <;> decide
  refine .child hC.1 hC.2 (Tree.mem_of_child? hbody) ?_
  have hinside : p.inside C = ⟨true, collectMembers C p.known⟩ := by simp [Place.inside, htype]
  rw [hinside]
  rcases hmember with hmember | ⟨e, he, hconstants, hmember⟩
  · exact reaches_inBody (by tauto) hmember
  · exact (reaches_inBody (by tauto) he).trans (reaches_inBody (by tauto) hmember)

/-! ## Calls on `this.f` -/

/-- The call `this.f.m(…)`. -/
structure CallsOnThis (u : Tree) (f m : String) : Prop where
  kind : u.kind = .methodInvocation
  name : (u.child? .name).map (·.text) = some m
  receiver : ∃ object, u.child? .object = some object ∧ object.kind = .fieldAccess ∧
    (object.child? .object).map (·.kind) = some .this ∧
    (object.child? .member).map (·.text) = some f

/-- What is recorded for it: the type that is known for `f`, or `f` itself. -/
theorem callTarget?_of_callsOnThis (h : CallsOnThis u f m) (v : Variables) :
    callTarget? v u = some ((v.typeOf? f).getD f ++ "." ++ m) := by
  rcases h with ⟨-, hname, object, hobject, hkind, hthis, hmember⟩
  rcases Option.map_eq_some_iff.1 hname with ⟨name, hnameChild, rfl⟩
  rcases Option.map_eq_some_iff.1 hthis with ⟨this, hthisChild, hthisKind⟩
  rcases Option.map_eq_some_iff.1 hmember with ⟨member, hmemberChild, rfl⟩
  simp [callTarget?, receiver?, qualify, hnameChild, hobject, hkind, hthisChild, hthisKind,
    hmemberChild]

/-- The type of the parameter or local variable that hides a field of the same name. -/
def hiding? (M : Tree) (f : String) : Option String := (locals M []).typeOf? f

/-- The variables that are known in a method of a type. -/
def knownIn (C M : Tree) (v : Variables) : Variables := locals M (collectMembers C v)

theorem typeOf?_knownIn (hM : M.height ≤ nestingLimit) (hfield : DeclaresField C f T)
    (hunique : ∀ T', DeclaresField C f T' → T' = T) (v : Variables) :
    (knownIn C M v).typeOf? f = some ((hiding? M f).getD T) := by
  rw [knownIn, (prepends_locals hM).append, Variables.typeOf?_append,
    typeOf?_collectMembers hfield hunique, ← hiding?]
  cases hiding? M f <;> rfl

theorem append_dot_inj {a b : String} (h : a ++ "." ++ m = b ++ "." ++ m) : a = b := by
  have hlist := congrArg String.toList h
  simp only [String.toList_append, List.append_assoc] at hlist
  exact String.toList_inj.1 (List.append_cancel_right hlist)

/-- What becomes of the calls on the field `f`, of type `T`, in the method `M` of `C`. -/
structure FieldCalls (C M : Tree) (v : Variables) (f T : String) (d : Declaration) : Prop where
  described : Describes d M (collectMembers C v)
  /-- A parameter or local variable hides the field if it has a usable type. -/
  hidden : (∀ T', hiding? M f = some T' → DeclaresLocal M f T') ∧
    (hiding? M f = none → ∀ T', ¬DeclaresLocal M f T')
  /-- A call directly in the method is recorded with the type of what hides the field, or that of
  the field. -/
  recorded : ∀ c ∈ M.children, ∀ u m, Within Tree.shuts (knownIn C M v) c (knownIn C M v) u →
    CallsOnThis u f m → callTarget? (knownIn C M v) u = some ((hiding? M f).getD T ++ "." ++ m) ∧
      (hiding? M f).getD T ++ "." ++ m ∈ d.targets
  /-- So it is recorded with the type of the field exactly if nothing of another type hides it. -/
  field_iff : ∀ u m, CallsOnThis u f m →
    (callTarget? (knownIn C M v) u = some (T ++ "." ++ m) ↔ ∀ T', hiding? M f = some T' → T' = T)

/-- A call on `this.f` means the field, unless something else of this name hides it. -/
theorem this_field_receiver (ht : t.height ≤ nestingLimit) (hC : Reaches .outside t p C)
    (htype : C.isNamedType = true) (hfield : DeclaresField C f T)
    (hunique : ∀ T', DeclaresField C f T' → T' = T) (hM : MemberOf C M)
    (hmethod : M.isMethod = true) : ∃ d ∈ declarations t, FieldCalls C M p.known f T d := by
  have hreaches : Reaches .outside t ⟨true, collectMembers C p.known⟩ M :=
    hC.trans (reaches_member htype hM)
  have hheight : M.height ≤ nestingLimit := Nat.le_trans hreaches.height_le ht
  -- the target does not depend on where in the method the call stands
  have htarget : ∀ u m, CallsOnThis u f m →
      callTarget? (knownIn C M p.known) u = some ((hiding? M f).getD T ++ "." ++ m) := by
    intro u m hcall
    rw [callTarget?_of_callsOnThis hcall, typeOf?_knownIn hheight hfield hunique]
    rfl
  rcases method_listed ht ⟨hreaches, hmethod⟩ with ⟨d, hd, hdescribes⟩
  refine ⟨d, hd, hdescribes, ⟨?_, ?_⟩, ?_, ?_⟩
  · intro T' hT'
    exact (prepends_locals hheight).mem_iff.1 (Variables.mem_of_typeOf? hT')
  · intro hnone T' hT'
    exact Variables.typeOf?_eq_none_iff.1 hnone T' ((prepends_locals hheight).mem_iff.2 hT')
  · intro c hc u m hwithin hcall
    refine ⟨htarget u m hcall, (hdescribes.targets _).2 ⟨c, hc, _, u, hwithin, ?_⟩⟩
    rw [target?, hcall.kind]
    exact htarget u m hcall
  · intro u m hcall
    rw [htarget u m hcall, Option.some.injEq]
    constructor
    · intro heq T' hT'
      have hsame := append_dot_inj heq
      rwa [hT'] at hsame
    · intro hsame
      cases hhiding : hiding? M f with
      | none => rfl
      | some T' =>
        rw [hsame T' hhiding]
        rfl

/-! ## Classes with a call on a field -/

/-- The class `C` gives its field `f` the type `T`, and its method `M` has the call `u` on it. -/
structure HasFieldCall (t C M u : Tree) (f T m : String) : Prop where
  reached : Reaches .outside t .outside C
  type : C.isNamedType = true
  field : DeclaresField C f T
  unique : ∀ T', DeclaresField C f T' → T' = T
  member : MemberOf C M
  method : M.isMethod = true
  direct : ∃ c ∈ M.children, Within Tree.shuts (knownIn C M []) c (knownIn C M []) u
  call : CallsOnThis u f m

/-- Whether the first class of a tree is such a class. The method has the number `k` in its body,
and the call is at a path in the body of the method. -/
def checkFieldCall (t : Tree) (k : Nat) (path : List Nat) (f T m : String) : Bool :=
  (placeAt? .outside [0] t).any fun q => decide (q.1 = .outside) && q.2.isNamedType &&
    decide (fieldsOf q.2 = [(f, T)]) && (q.2.child? .body).any fun body =>
      body.kind == .classBody && (body.children[k]?).any fun M => M.isMethod &&
        inBodyAt M Tree.shuts path (isCallOn m fun object => object.kind == .fieldAccess &&
          (object.child? .object).map (·.kind) == some .this &&
            (object.child? .member).map (·.text) == some f)

theorem hasFieldCall_of_check {k : Nat} {path : List Nat}
    (h : checkFieldCall t k path f T m = true) : ∃ C M u, HasFieldCall t C M u f T m := by
  simp only [checkFieldCall, Option.any_eq_true, Bool.and_eq_true, decide_eq_true_eq,
    beq_iff_eq] at h
  rcases h with ⟨⟨p, C⟩, hC, ⟨⟨hp, htype⟩, hfields⟩, body, hbody, hkind, M, hM, hmethod, hin⟩
  dsimp only at hp htype hfields hbody
  subst hp
  rcases within_of_inBodyAt hin (knownIn C M []) with ⟨u, hu, hcall⟩
  simp only [isCallOn_iff, Bool.and_eq_true, beq_iff_eq] at hcall
  rcases hcall with ⟨hcall, hname, object, hobject, ⟨haccess, hthis⟩, hmember⟩
  refine ⟨C, M, u, reaches_of_placeAt? hC, htype, ?_, ?_, ?_, hmethod, hu, ?_⟩
  · rw [← mem_fieldsOf, hfields]
    exact List.mem_singleton_self _
  · intro T' hT'
    rw [← mem_fieldsOf, hfields] at hT'
    exact (Prod.mk.inj (List.mem_singleton.1 hT')).2
  · exact ⟨body, hbody, .inl hkind, .inl (List.mem_of_getElem? hM)⟩
  · exact ⟨hcall, hname, object, hobject, haccess, hthis, hmember⟩

/-- A class with a field of a generic type, and a method with variables of other names. -/
def itemList : Tree :=
  .ofSource ("class A \x7b List<Item> items; void add(Item item) \x7b"
    ++ " Log log = item.log(); this.items.push(item); \x7d \x7d")

theorem this_field_receiver_itemList : itemList.height ≤ nestingLimit ∧
    ∃ C M u, HasFieldCall itemList C M u "items" "List" "push" ∧
      ∃ d ∈ declarations itemList, FieldCalls C M [] "items" "List" d := by
  have hchecked : itemList.height ≤ nestingLimit ∧
      checkFieldCall itemList 2 [2, 0] "items" "List" "push" = true := by
    decide +kernel
  rcases hchecked with ⟨hheight, hcheck⟩
  rcases hasFieldCall_of_check hcheck with ⟨C, M, u, h⟩
  exact ⟨hheight, C, M, u, h, this_field_receiver hheight h.reached h.type h.field h.unique h.member
    h.method⟩

/-- A class with a parameter that has the name of a field. -/
def hidingParameter : Tree :=
  .ofSource ("class A \x7b\n  Repo repo;\n  void set(Cache repo) \x7b\n    this.repo.flush();\n"
    ++ "  \x7d\n\x7d\n")

/-- A call on the field is recorded as one on the parameter. -/
theorem parameter_hides_field : hidingParameter.height ≤ nestingLimit ∧
    ∃ C M u, HasFieldCall hidingParameter C M u "repo" "Repo" "flush" ∧
      (∀ d ∈ declarations hidingParameter, "Repo.flush" ∉ d.targets) ∧
      ∃ d ∈ declarations hidingParameter, "Cache.flush" ∈ d.targets := by
  have hchecked : hidingParameter.height ≤ nestingLimit ∧
      checkFieldCall hidingParameter 2 [1, 0] "repo" "Repo" "flush" = true ∧
      (∀ d ∈ declarations hidingParameter, "Repo.flush" ∉ d.targets) ∧
      ∃ d ∈ declarations hidingParameter, "Cache.flush" ∈ d.targets := by
    decide +kernel
  rcases hchecked with ⟨hheight, hcheck, hlost, hrecorded⟩
  rcases hasFieldCall_of_check hcheck with ⟨C, M, u, h⟩
  exact ⟨hheight, C, M, u, h, hlost, hrecorded⟩

end ChangeImpact.Java
