import ChangeImpact.Proofs.LooseMethods
import ChangeImpact.Proofs.Readers

/-!
# Where the grammar puts methods

A method is a member of a type, or it stands at the outside of a file. So in every text that fits
the grammar, what a method or a closure is made of has methods only inside of types of its own.

* `Tidy`, `Member`, `MemberBody`, `Creation` — what the constructs of the grammar look like;
* `Goal.Result`, `ReadsGoals` — what is read for each construct;
* one instance for each production;
* `methodsInTypes_ofSource` — the trees of texts that fit the grammar.
-/

namespace ChangeImpact.Java

open Grammar

/-! ## Trees -/

/-- A tree that may stand anywhere: no method of it is outside of its types. -/
structure Tidy (t : Tree) : Prop where
  inTypes : MethodsInTypes t
  tight : ¬HasLoose t
  notBody : t.kind ≠ .classBody

/-- A tree that may stand in the body of a type: it can be a method. -/
structure Member (t : Tree) : Prop where
  inTypes : MethodsInTypes t
  tight : t.isMethod = false → ¬HasLoose t

/-- The body of a class. -/
structure MemberBody (t : Tree) : Prop where
  inTypes : MethodsInTypes t
  kind : t.kind = .classBody
  members : ∀ m ∈ t.children, Member m

/-- The children of an expression that creates an object: at most one is a body, and it is the
last. -/
inductive Creation : List Child → Prop where
  | nil : Creation []
  | body {c : Child} (h : MemberBody c.2) : Creation [c]
  | cons {c : Child} {cs : List Child} (hc : Tidy c.2) (h : Creation cs) : Creation (c :: cs)

variable {t c : Tree} {cs cs' : List Child} {k : Kind}

theorem methodsInTypes_of_children (h : ∀ c ∈ t.children, MethodsInTypes c)
    (hown : t.isMethod = true ∨ t.kind = .lambda → ∀ c ∈ t.children, ¬HasLoose c) :
    MethodsInTypes t := by
  rintro u (rfl | hhas)
  · exact hown
  · cases hhas with
    | child hc => exact h _ hc _ (.inl rfl)
    | deeper hc hdeeper => exact h _ hc _ (.inr hdeeper)

theorem Each.methodsInTypes (h : Each MethodsInTypes cs) (hmethod : k ≠ .methodDeclaration)
    (hlambda : k ≠ .lambda) : MethodsInTypes (.node k cs) := by
  refine methodsInTypes_of_children (fun c => h.children) fun hown => ?_
  rcases hown with hown | hown
  · exact absurd (eq_of_beq (Bool.and_eq_true_iff.1 hown).1) hmethod
  · exact absurd hown hlambda

theorem Each.methodsInTypes_of_tidy (h : Each Tidy cs) : MethodsInTypes (.node k cs) :=
  methodsInTypes_of_children (fun _ hc => (h.children hc).inTypes)
    fun _ _ hc => (h.children hc).tight

theorem not_hasLoose_of_children (hmethod : t.isMethod = false)
    (hcreation : t.kind ≠ .objectCreation) (h : ∀ c ∈ t.children, ¬HasLoose c) : ¬HasLoose t := by
  intro hloose
  cases hloose with
  | method hown => rw [hmethod] at hown; cases hown
  | child _ _ hc hchild => exact h _ hc hchild
  | part hkind | member hkind => exact hcreation hkind

theorem not_hasLoose_of_type (h : t.isNamedType = true) : ¬HasLoose t := by
  have hkind : isTypeDeclaration t.kind = true := (Bool.and_eq_true_iff.1 h).1
  intro hloose
  cases hloose with
  | method hown =>
    rw [eq_of_beq (Bool.and_eq_true_iff.1 hown).1] at hkind
    cases hkind
  | child htype => rw [h] at htype; cases htype
  | part hcreation | member hcreation => rw [hcreation] at hkind; cases hkind

theorem Tidy.member (h : Tidy t) : Member t := ⟨h.inTypes, fun _ => h.tight⟩

/-! ### Creations -/

theorem Creation.append (h : Each Tidy cs) (h' : Creation cs') : Creation (cs ++ cs') := by
  induction cs with
  | nil => exact h'
  | cons c cs ih =>
    obtain ⟨hc, hcs⟩ := List.forall_mem_cons.1 h
    exact .cons hc (ih hcs)

theorem Creation.methodsInTypes (h : Creation cs) : Each MethodsInTypes cs := by
  induction h with
  | nil => exact Each.nil
  | body h => exact Each.nil.cons h.inTypes
  | cons hc _ ih => exact ih.cons hc.inTypes

/-- The first body is the only one. -/
theorem Creation.split (h : Creation cs) :
    (∀ c ∈ otherParts (.node k cs), Tidy c) ∧
    ∀ b, anonymousBody? (.node k cs) = some b → MemberBody b := by
  rw [otherParts_eq_eraseP]
  unfold anonymousBody? Tree.namedChildren Tree.children Tree.labelled
  induction h with
  | nil => simp
  | body h => simpa [h.kind, Tree.isNamed] using h
  | @cons c cs hc _ ih =>
    have hfirst : (c.2.kind == .classBody) = false := beq_eq_false_iff_ne.2 hc.notBody
    rw [List.map_cons]
    cases hnamed : c.2.isNamed with
    | false =>
      rw [List.filter_cons_of_neg (by simp [hnamed])]
      exact ih
    | true =>
      rw [List.filter_cons_of_pos hnamed, List.eraseP_cons_of_neg (by simp [hfirst]),
        List.find?_cons_of_neg (by simp [hfirst]), List.forall_mem_cons]
      exact ⟨⟨hc, ih.1⟩, ih.2⟩

/-! ### What trees of a kind are -/

/-- Kinds of trees that are no methods and have no members. Instances compute it. -/
@[reducible]
def Kind.isOrdinary : Kind → Bool
  | .methodDeclaration | .classBody | .objectCreation => false
  | _ => true

theorem isMethod_eq_false (h : t.kind ≠ .methodDeclaration) : t.isMethod = false := by
  simp [Tree.isMethod, h]

theorem ne_of_isOrdinary (h : k.isOrdinary = true) :
    k ≠ .methodDeclaration ∧ k ≠ .classBody ∧ k ≠ .objectCreation := by
  refine ⟨?_, ?_, ?_⟩ <;> rintro rfl <;> cases h

theorem Each.tidy (h : Each Tidy cs) (hk : k.isOrdinary = true) : Tidy (.node k cs) := by
  obtain ⟨hmethod, hbody, hcreation⟩ := ne_of_isOrdinary hk
  exact ⟨h.methodsInTypes_of_tidy, not_hasLoose_of_children (isMethod_eq_false hmethod) hcreation
    fun _ hc => (h.children hc).tight, hbody⟩

/-- A leaf has no children, as a tree of no children. -/
theorem tidy_of_children_nil (h : t.children = []) (hk : t.kind.isOrdinary = true) : Tidy t := by
  obtain ⟨hmethod, hbody, hcreation⟩ := ne_of_isOrdinary hk
  refine ⟨methodsInTypes_of_children ?_ ?_,
    not_hasLoose_of_children (isMethod_eq_false hmethod) hcreation ?_, hbody⟩ <;> simp [h]

theorem tidy_missing : Tidy .missing := tidy_of_children_nil rfl rfl

theorem tidy_leaf (token : Token) (hk : k.isOrdinary = true) : Tidy (.leaf k token) :=
  tidy_of_children_nil rfl hk

theorem Each.method (h : Each Tidy cs) : Member (.node .methodDeclaration cs) where
  inTypes := h.methodsInTypes_of_tidy
  tight hmethod := not_hasLoose_of_children hmethod nofun fun _ hc => (h.children hc).tight

theorem Each.namedType (h : Each MethodsInTypes cs) (hname : Named cs)
    (hk : isTypeDeclaration k = true) : Tidy (.node k cs) := by
  have htype : (Tree.node k cs).isNamedType = true := Bool.and_eq_true_iff.2 ⟨hk, hname.child? k⟩
  refine ⟨h.methodsInTypes ?_ ?_, not_hasLoose_of_type htype, ?_⟩ <;> rintro rfl <;> cases hk

theorem Creation.tidy (h : Creation cs) : Tidy (.node .objectCreation cs) := by
  refine ⟨h.methodsInTypes.methodsInTypes nofun nofun, fun hloose => ?_, nofun⟩
  cases hloose with
  | method hown => cases hown
  | child _ hcreation => exact hcreation rfl
  | part _ hc hpart => exact (h.split.1 _ hc).tight hpart
  | member _ hm hmethod hmember =>
    obtain ⟨b, hb, hm⟩ := mem_anonymousMembers.1 hm
    exact ((h.split.2 b hb).members _ hm).tight hmethod hmember

/-! ## Readers -/

instance factTrue : Fact (true = true) := ⟨rfl⟩

/-- A tree that others are put around. -/
theorem Each.around [ht : Fact (Tidy t)] (h : Each Tidy cs) (hk : k.isOrdinary = true) :
    Fact (Tidy (.node k ((none, t) :: cs))) :=
  ⟨(h.cons (c := (none, t)) ht.out).tidy hk⟩

section Readers

variable {β : Type} {Q : β → Prop} {p : Piece} {ps : List Piece} {q : Parser Tree}
  {role : Option Field} {test : Token → Bool}

-- These come last, so that a reader is taken apart before less is asked of it.
instance (priority := low) [Reads Tidy q] : Reads Member q :=
  Reads.mono fun _ => Tidy.member

instance (priority := low) [Reads Member q] : Reads MethodsInTypes q :=
  Reads.mono (P := Member) fun _ h => h.inTypes

instance (priority := low) [Reads MemberBody q] : Reads MethodsInTypes q :=
  Reads.mono (P := MemberBody) fun _ h => h.inTypes

instance (priority := low) [Reads (Each Tidy) p] : Reads (Each Member) p :=
  Reads.mono (P := Each Tidy) fun _ h c hc => (h c hc).member

instance (priority := low) [Reads (Each Member) p] : Reads (Each MethodsInTypes) p :=
  Reads.mono (P := Each Member) fun _ h c hc => (h c hc).inTypes

-- What is read next depends on a value with its property. The search drops a hypothesis that the
-- goal does not name, so the value is taken from a subtype.
instance {cs : {cs // Each Tidy cs}} : Fact (Each Tidy cs.1) := ⟨cs.2⟩

instance {t : {t // Tidy t}} : Fact (Tidy t.1) := ⟨t.2⟩

instance [Reads (Each Tidy) p] {f : List Child → Parser β}
    [h : ∀ cs : {cs // Each Tidy cs}, Reads Q (f cs.1)] : Reads Q (andThen p f) :=
  Reads.andThen (P := Each Tidy) fun cs hcs => h ⟨cs, hcs⟩

instance [Reads Tidy q] {f : Tree → Parser β} [h : ∀ t : {t // Tidy t}, Reads Q (f t.1)] :
    Reads Q (andThen q f) :=
  Reads.andThen (P := Tidy) fun t ht => h ⟨t, ht⟩

instance [hk : Fact (k.isOrdinary = true)] : Reads Tidy (leafIf k test) where
  holds {ts _ _} hread := by
    cases ts with
    | nil => cases hread
    | cons token ts =>
      rw [leafIf] at hread
      split at hread
      · cases hread
        exact tidy_leaf token hk.out
      · cases hread

instance [hk : Fact (k.isOrdinary = true)] [Reads (Each Tidy) p] : Reads Tidy (node k p) :=
  Reads.mapped (P := Each Tidy) fun _ h => h.tidy hk.out

instance [ht : Fact (Tidy t)] [hk : Fact (k.isOrdinary = true)] [Reads (Each Tidy) p] :
    Reads Tidy (mapped (fun cs => .node k ((role, t) :: cs)) p) :=
  Reads.mapped (P := Each Tidy) fun _ h => (h.cons (c := (role, t)) ht.out).tidy hk.out

instance [ht : Fact (Tidy t)] [hk : Fact (k.isOrdinary = true)] [Reads Tidy q] :
    Reads Tidy (mapped (fun d => .node k [(role, t), (role, d)]) q) :=
  Reads.mapped (P := Tidy) fun d hd =>
    ((Each.nil.cons (c := (role, d)) hd).cons (c := (role, t)) ht.out).tidy hk.out

instance [Reads Creation p] : Reads Tidy (node .objectCreation p) :=
  Reads.mapped (P := Creation) fun _ h => h.tidy

instance [ht : Fact (Tidy t)] [Reads Creation p] :
    Reads Tidy (mapped (fun cs => .node .objectCreation ((role, t) :: cs)) p) :=
  Reads.mapped (P := Creation) fun _ h => (Creation.cons (c := (role, t)) ht.out h).tidy

instance [h : Reads MemberBody q] : Reads Creation (opt (kid q)) where
  holds {ts _ _} hread := by
    unfold opt kid mapped at hread
    cases hq : q ts with
    | none =>
      simp only [hq, Option.getD_none, Option.some.injEq, Prod.mk.injEq] at hread
      exact hread.1 ▸ .nil
    | some r =>
      simp only [hq, Option.getD_some, Option.some.injEq, Prod.mk.injEq] at hread
      exact hread.1 ▸ .body (h.holds hq)

instance [Reads Creation p] : Reads Creation (seq [p]) := by
  have : Reads (· = []) (seq []) := ⟨fun hread => by cases hread; rfl⟩
  refine Reads.seq (S := Creation) (T := (· = [])) fun cs cs' h hnil => ?_
  rw [hnil, List.append_nil]
  exact h

instance [Reads (Each Tidy) p] [Reads Creation (seq ps)] : Reads Creation (seq (p :: ps)) :=
  Reads.seq fun _ _ => Creation.append

/-- The body of a type that is no class, and its parts with members: nothing is said of loose
methods, because there is a type around. -/
theorem reads_container (hmethod : k ≠ .methodDeclaration) (hlambda : k ≠ .lambda)
    [Reads (Each MethodsInTypes) p] : Reads MethodsInTypes (node k p) :=
  Reads.mapped (P := Each MethodsInTypes) fun _ h => h.methodsInTypes hmethod hlambda

/-- A type may stand anywhere, whatever its members are. -/
theorem reads_namedType (hk : isTypeDeclaration k = true) [h : Reads (Each MethodsInTypes) p]
    [hname : Reads Named p] : Reads Tidy (node k p) :=
  have : Reads (fun cs => Each MethodsInTypes cs ∧ Named cs) p :=
    ⟨fun hread => ⟨h.holds hread, hname.holds hread⟩⟩
  Reads.mapped (P := fun cs => Each MethodsInTypes cs ∧ Named cs) fun _ h => h.1.namedType h.2 hk

end Readers

/-! ## Productions -/

/-- What a construct looks like. -/
def Goal.Result : Goal → Tree → Prop
  | .classItem | .interfaceItem | .topItem => Member
  | .classBody => MemberBody
  | _ => Tidy

/-- The constructs that may stand anywhere. Instances compute it. -/
@[reducible]
def Goal.isTidy : Goal → Bool
  | .classItem | .interfaceItem | .topItem | .classBody => false
  | _ => true

/-- The constructs are read as they should look. -/
class ReadsGoals (go : Goal → Parser Tree) : Prop where
  reads : ∀ g, Reads g.Result (go g)

variable {go : Goal → Parser Tree} [ReadsGoals go] {mods : List Child} [Fact (Each Tidy mods)]

instance {g : Goal} [hg : Fact (g.isTidy = true)] : Reads Tidy (go g) := by
  have hreads : Reads g.Result (go g) := ReadsGoals.reads g
  have htidy := hg.out
  cases g <;> first | exact hreads | cases htidy

instance : Reads Member (go .classItem) := ReadsGoals.reads Goal.classItem

instance : Reads Member (go .interfaceItem) := ReadsGoals.reads Goal.interfaceItem

instance : Reads MemberBody (go .classBody) := ReadsGoals.reads Goal.classBody

/-! ### Tokens and names -/

instance {s : String} : Reads (Each Tidy) (mark s) := by unfold mark; infer_instance
instance {s : String} : Reads (Each Tidy) (word s) := by unfold word; infer_instance
instance {l : List String} : Reads (Each Tidy) (oneWord l) := by unfold oneWord; infer_instance
instance {s : String} [Fact (k.isOrdinary = true)] : Reads Tidy (wordLeaf k s) := by
  unfold wordLeaf; infer_instance
instance : Reads Tidy identifier := by unfold identifier; infer_instance
instance : Reads Tidy typeIdentifier := by unfold typeIdentifier; infer_instance

instance {n : Nat} [ht : Fact (Tidy t)] : Reads Tidy (extendName n t) := by
  induction n generalizing t with
  | zero => exact inferInstanceAs (Reads Tidy (succeed t))
  | succ n ih =>
    refine ⟨fun {ts _ _} hread => ?_⟩
    rw [extendName] at hread
    split at hread
    · cases hread
      exact ht.out
    · next more rest hmore =>
      have hmore : Each Tidy more := Reads.holds hmore
      have := hmore.around (t := t) (k := .scopedIdentifier) rfl
      exact ih.holds hread

instance : Reads Tidy qualifiedName where
  holds {ts _ _} hread := Reads.holds (p := andThen identifier (extendName ts.length)) hread

/-! ### Annotations, modifiers and types -/

instance : Reads (Each Tidy) (annotations go) := by unfold annotations; infer_instance
instance {value : Parser Tree} [Reads Tidy value] : Reads Tidy (elementValueArray value) := by
  unfold elementValueArray; infer_instance

instance {n : Nat} : Reads Tidy (elementValue go n) := by
  induction n with
  | zero => exact ⟨nofun⟩
  | succ n ih =>
    refine ⟨fun hread => ?_⟩
    rw [elementValue] at hread
    exact Reads.holds hread

instance : Reads Tidy (anyElementValue go) where
  holds {ts _ _} hread := Reads.holds (p := elementValue go (ts.length + 1)) hread

instance : Reads Tidy (elementValuePair go) := by unfold elementValuePair; infer_instance
instance : Reads Tidy (annotationArguments go) := by unfold annotationArguments; infer_instance
instance : Reads Tidy (annotationUse go) := by unfold annotationUse; infer_instance
instance : Reads (Each Tidy) sealedModifier := by unfold sealedModifier; infer_instance
instance : Reads (Each Tidy) nonSealedModifier := by unfold nonSealedModifier; infer_instance
instance : Reads Tidy (modifiers go) := by unfold modifiers; infer_instance
instance : Reads (Each Tidy) (optModifiers go) := by unfold optModifiers; infer_instance
instance : Reads Tidy primitiveType := by unfold primitiveType; infer_instance
instance : Reads Tidy (wildcard go) := by unfold wildcard; infer_instance
instance : Reads Tidy (typeArguments go) := by unfold typeArguments; infer_instance

instance {n : Nat} [ht : Fact (Tidy t)] : Reads Tidy (extendType go n t) := by
  induction n generalizing t with
  | zero => exact inferInstanceAs (Reads Tidy (succeed t))
  | succ n ih =>
    refine ⟨fun {ts _ _} hread => ?_⟩
    rw [extendType] at hread
    split at hread
    · next args rest hargs =>
      split at hargs
      · cases hargs
      · have hargs : Each Tidy args := Reads.holds hargs
        have := hargs.around (t := t) (k := .genericType) rfl
        exact ih.holds hread
    · split at hread
      · next more rest hmore =>
        have hmore : Each Tidy more := Reads.holds hmore
        have := hmore.around (t := t) (k := .scopedTypeIdentifier) rfl
        exact ih.holds hread
      · cases hread
        exact ht.out

instance : Reads Tidy (simpleType go) where
  holds {ts _ _} hread :=
    Reads.holds (p := firstOf [primitiveType, andThen typeIdentifier (extendType go ts.length)])
      hread

instance : Reads Tidy (dimensions go) := by unfold dimensions; infer_instance
instance : Reads Tidy (unannotatedType go) := by unfold unannotatedType; infer_instance
instance : Reads Tidy (type go) := by unfold type; infer_instance
instance : Reads Tidy (typeList go) := by unfold typeList; infer_instance
instance : Reads Tidy (typeParameter go) := by unfold typeParameter; infer_instance
instance : Reads Tidy (typeParameters go) := by unfold typeParameters; infer_instance
instance : Reads (Each Tidy) (variableName go) := by unfold variableName; infer_instance
instance : Reads Tidy (formalParameter go) := by unfold formalParameter; infer_instance
instance : Reads Tidy (spreadParameter go) := by unfold spreadParameter; infer_instance
instance : Reads Tidy (receiverParameter go) := by unfold receiverParameter; infer_instance
instance : Reads Tidy (formalParameters go) := by unfold formalParameters; infer_instance

/-! ### Expressions -/

instance : Reads Tidy (argumentList go) := by unfold argumentList; infer_instance
instance : Reads Tidy (parenthesized go) := by unfold parenthesized; infer_instance
instance : Reads (Each Tidy) quote := by unfold quote; infer_instance
instance : Reads Tidy (stringLiteral go) := by unfold stringLiteral; infer_instance
instance : Reads Tidy (literal go) := by unfold literal; infer_instance
instance {value : Parser Tree} [Reads Tidy value] : Reads Tidy (arrayInitializerOf value) := by
  unfold arrayInitializerOf; infer_instance

instance {n : Nat} : Reads Tidy (initializerWith go n) := by
  induction n with
  | zero => exact ⟨nofun⟩
  | succ n ih =>
    refine ⟨fun hread => ?_⟩
    rw [initializerWith] at hread
    exact Reads.holds hread

instance : Reads Tidy (initializer go) where
  holds {ts _ _} hread := Reads.holds (p := initializerWith go (ts.length + 1)) hread

instance : Reads Tidy (arrayInitializer go) := by unfold arrayInitializer; infer_instance
instance : Reads Tidy (dimensionExpression go) := by unfold dimensionExpression; infer_instance
instance : Reads Tidy (arrayCreation go) := by unfold arrayCreation; infer_instance
instance : Reads (Each Tidy) (creationHead go) := by unfold creationHead; infer_instance
instance : Reads Creation (creation go) := by unfold creation; infer_instance
instance : Reads (Each Tidy) (methodReferenceTail go) := by
  unfold methodReferenceTail; infer_instance
instance : Reads Tidy (typePrimary go) := by unfold typePrimary; infer_instance
instance : Reads Tidy (primaryBase go) := by unfold primaryBase; infer_instance
instance [Fact (Tidy t)] : Reads Tidy (primaryTail go t) := by unfold primaryTail; infer_instance

instance {n : Nat} [ht : Fact (Tidy t)] : Reads Tidy (extendPrimary go n t) := by
  induction n generalizing t with
  | zero => exact inferInstanceAs (Reads Tidy (succeed t))
  | succ n ih =>
    refine ⟨fun {ts _ _} hread => ?_⟩
    rw [extendPrimary] at hread
    split at hread
    · next u rest htail =>
      have : Fact (Tidy u) := ⟨Reads.holds htail⟩
      exact ih.holds hread
    · cases hread
      exact ht.out

instance : Reads Tidy (primary go) where
  holds {ts _ _} hread :=
    Reads.holds (p := andThen (primaryBase go) (extendPrimary go ts.length)) hread

instance {test : String → Bool} : Reads (Each Tidy) (operatorIf test) where
  holds {ts _ _} hread := by
    unfold operatorIf at hread
    split at hread
    · split at hread
      · cases hread
        exact Each.nil.cons (tidy_leaf _ rfl)
      · cases hread
    · cases hread

instance : Reads Tidy (operand go) := by unfold operand; infer_instance
instance {q : Parser Tree} [Reads Tidy q] : Reads Tidy (switchExpression go q) := by
  unfold switchExpression; infer_instance
instance {q : Parser Tree} [Reads Tidy q] : Reads Tidy (Grammar.cast go q) := by
  unfold Grammar.cast; infer_instance
instance {p q : Parser Tree} [Reads Tidy p] [Reads Tidy q] : Reads Tidy (signed go p q) := by
  unfold signed; infer_instance

instance {n : Nat} [ht : Fact (Tidy t)] : Reads Tidy (extendSteps n t) := by
  induction n generalizing t with
  | zero => exact inferInstanceAs (Reads Tidy (succeed t))
  | succ n ih =>
    refine ⟨fun {ts _ _} hread => ?_⟩
    rw [extendSteps] at hread
    split at hread
    · next op rest hop =>
      have hop : Each Tidy op := Reads.holds hop
      have := hop.around (t := t) (k := .update) rfl
      exact ih.holds hread
    · cases hread
      exact ht.out

instance : Reads Tidy (unary go) where
  holds {ts _ _} hread := Reads.holds (p := andThen (go .signed) (extendSteps ts.length)) hread

instance : Reads (Each Tidy) (instanceOfTail go) := by unfold instanceOfTail; infer_instance

instance {level n : Nat} [ht : Fact (Tidy t)] : Reads Tidy (extendOperators go level n t) := by
  induction n generalizing t with
  | zero => exact inferInstanceAs (Reads Tidy (succeed t))
  | succ n ih =>
    refine ⟨fun {ts _ _} hread => ?_⟩
    rw [extendOperators] at hread
    split at hread
    · next cs rest htail =>
      split at htail
      · have htail : Each Tidy cs := Reads.holds htail
        have := htail.around (t := t) (k := .instanceOf) rfl
        exact ih.holds hread
      · cases htail
    · split at hread
      · cases hread
        exact ht.out
      · next op _ _ =>
        split at hread
        · cases hread
          exact ht.out
        · split at hread
          · cases hread
            exact ht.out
          · split at hread
            · cases hread
              exact ht.out
            · next u rest hright =>
              have hright : Tidy u := Reads.holds hright
              have hparts : Each Tidy [(none, .leaf .token op), (none, u)] :=
                (Each.nil.cons hright).cons (tidy_leaf op rfl)
              have := hparts.around (t := t) (k := .binary) rfl
              exact ih.holds hread

instance {level : Nat} : Reads Tidy (operators go level) where
  holds {ts _ _} hread :=
    Reads.holds (p := andThen (go .unary) (extendOperators go level ts.length)) hread

instance : Reads Tidy (condition go) := by unfold condition; infer_instance
instance : Reads Tidy inferredParameters := by unfold inferredParameters; infer_instance
instance : Reads Tidy (Grammar.closure go) := by unfold Grammar.closure; infer_instance
instance : Reads Tidy (expression go) := by unfold expression; infer_instance
instance : Reads Tidy (typePattern go) := by unfold typePattern; infer_instance
instance : Reads Tidy (recordPatternComponent go) := by
  unfold recordPatternComponent; infer_instance

instance {n : Nat} : Reads Tidy (recordPatternWith go n) := by
  induction n with
  | zero => exact ⟨nofun⟩
  | succ n ih =>
    refine ⟨fun hread => ?_⟩
    rw [recordPatternWith] at hread
    exact Reads.holds hread

instance : Reads Tidy (recordPattern go) where
  holds {ts _ _} hread := Reads.holds (p := recordPatternWith go (ts.length + 1)) hread

/-! ### Statements -/

instance : Reads Tidy (variableDeclarator go) := by unfold variableDeclarator; infer_instance
instance : Reads (Each Tidy) (declarators go) := by unfold declarators; infer_instance
instance : Reads Tidy (localVariableDeclaration go) := by
  unfold localVariableDeclaration; infer_instance
instance : Reads Tidy (block go) := by unfold block; infer_instance
instance : Reads (Each Tidy) (caseValue go) := by unfold caseValue; infer_instance
instance : Reads Tidy (caseGuard go) := by unfold caseGuard; infer_instance
instance : Reads Tidy (casePattern go) := by unfold casePattern; infer_instance
instance : Reads Tidy (switchLabel go) := by unfold switchLabel; infer_instance
instance : Reads Tidy (expressionStatement go) := by unfold expressionStatement; infer_instance
instance : Reads Tidy (throwStatement go) := by unfold throwStatement; infer_instance
instance : Reads Tidy (switchRule go) := by unfold switchRule; infer_instance
instance : Reads Tidy (switchGroup go) := by unfold switchGroup; infer_instance
instance : Reads Tidy (switchBlock go) := by unfold switchBlock; infer_instance
instance : Reads Tidy (ifStatement go) := by unfold ifStatement; infer_instance
instance : Reads Tidy (whileStatement go) := by unfold whileStatement; infer_instance
instance : Reads Tidy (doStatement go) := by unfold doStatement; infer_instance
instance : Reads (Each Tidy) (expressions go) := by unfold expressions; infer_instance
instance : Reads Tidy (forStatement go) := by unfold forStatement; infer_instance
instance : Reads Tidy (enhancedFor go) := by unfold enhancedFor; infer_instance
instance : Reads Tidy (labeledStatement go) := by unfold labeledStatement; infer_instance
instance : Reads Tidy (assertStatement go) := by unfold assertStatement; infer_instance
instance [Fact (k.isOrdinary = true)] {keyword : String} : Reads Tidy (jump go k keyword) := by
  unfold jump; infer_instance
instance : Reads Tidy (returnStatement go) := by unfold returnStatement; infer_instance
instance : Reads Tidy (yieldStatement go) := by unfold yieldStatement; infer_instance
instance : Reads Tidy (synchronizedStatement go) := by unfold synchronizedStatement; infer_instance
instance : Reads Tidy (resource go) := by unfold resource; infer_instance
instance : Reads Tidy (resourceSpecification go) := by unfold resourceSpecification; infer_instance
instance : Reads Tidy (catchParameter go) := by unfold catchParameter; infer_instance
instance : Reads Tidy (catchClause go) := by unfold catchClause; infer_instance
instance : Reads Tidy (finallyClause go) := by unfold finallyClause; infer_instance
instance : Reads (Each Tidy) (handlers go) := by unfold handlers; infer_instance
instance : Reads Tidy (tryStatement go) := by unfold tryStatement; infer_instance

instance {keyword : String} : Reads Tidy (keywordStatement go keyword) := by
  unfold keywordStatement
  split <;> infer_instance

instance {declaration : Parser Tree} [Reads Tidy declaration] :
    Reads Tidy (statement go declaration) where
  holds {ts _ _} hread := by
    cases ts with
    | nil => cases hread
    | cons t ts =>
      rw [statement] at hread
      exact Reads.holds hread

/-! ### Declarations -/

instance : Reads Tidy (superclass go) := by unfold superclass; infer_instance
instance : Reads Tidy (superInterfaces go) := by unfold superInterfaces; infer_instance
instance : Reads Tidy (extendsInterfaces go) := by unfold extendsInterfaces; infer_instance
instance : Reads Tidy (permits go) := by unfold permits; infer_instance
instance : Reads Tidy (throwsClause go) := by unfold throwsClause; infer_instance

instance [Fact (k.isOrdinary = true)] {item : Piece} [Reads (Each Tidy) item] :
    Reads Tidy (body go k item) := by unfold body; infer_instance

instance : Reads MemberBody (classBody go) :=
  Reads.mapped (P := Each Member) fun _ h =>
    ⟨Each.methodsInTypes (fun c hc => (h c hc).inTypes) nofun nofun, rfl, fun _ => h.children⟩

instance : Reads MethodsInTypes (interfaceBody go) := reads_container nofun nofun

instance : Reads MethodsInTypes (enumConstant go) := reads_container nofun nofun

instance : Reads MethodsInTypes (enumBody go) :=
  have : Reads MethodsInTypes
      (node .enumBodyDeclarations (seq [mark ";", many (kid (go .classItem))])) :=
    reads_container nofun nofun
  reads_container nofun nofun

instance : Reads Tidy (classDeclaration go mods) := reads_namedType rfl

instance : Reads Tidy (interfaceDeclaration go mods) := reads_namedType rfl

instance : Reads Tidy (enumDeclaration go mods) := reads_namedType rfl

instance : Reads Tidy (recordDeclaration go mods) := reads_namedType rfl

instance : Reads Tidy (annotationTypeElement go mods) := by
  unfold annotationTypeElement; infer_instance
instance : Reads Tidy (constantDeclaration go mods) := by
  unfold constantDeclaration; infer_instance

instance {nested : List Child → Parser Tree}
    [∀ cs : {cs // Each Tidy cs}, Reads Tidy (nested cs.1)] :
    Reads Tidy (annotationTypeDeclaration go nested mods) := by
  unfold annotationTypeDeclaration; infer_instance

instance {n : Nat} : Reads Tidy (typeDeclarationWith go n mods) := by
  induction n generalizing mods with
  | zero => exact ⟨nofun⟩
  | succ n ih =>
    refine ⟨fun hread => ?_⟩
    rw [typeDeclarationWith] at hread
    exact Reads.holds hread

instance : Reads Tidy (typeDeclaration go mods) where
  holds {ts _ _} hread := Reads.holds (p := typeDeclarationWith go (ts.length + 1) mods) hread

instance : Reads Tidy (fieldDeclaration go mods) := by unfold fieldDeclaration; infer_instance
instance : Reads Member (methodDeclaration go mods) :=
  Reads.mapped (P := Each Tidy) fun _ h => h.method
instance : Reads Tidy (explicitConstructorCall go) := by
  unfold explicitConstructorCall; infer_instance
instance : Reads Tidy (constructorBody go) := by unfold constructorBody; infer_instance
instance : Reads Tidy (constructorDeclaration go mods) := by
  unfold constructorDeclaration; infer_instance
instance : Reads Tidy (compactConstructor go mods) := by unfold compactConstructor; infer_instance
instance : Reads Tidy (staticInitializer go) := by unfold staticInitializer; infer_instance
instance : Reads Tidy loneSemicolon := by unfold loneSemicolon; infer_instance
instance : Reads Member (classMember go) := by unfold classMember; infer_instance
instance : Reads Member (interfaceMember go) := by unfold interfaceMember; infer_instance
instance : Reads Tidy (packageDeclaration go) := by unfold packageDeclaration; infer_instance
instance : Reads Tidy (importDeclaration go) := by unfold importDeclaration; infer_instance
instance : Reads (Each Tidy) names := by unfold names; infer_instance
instance : Reads Tidy (moduleDirective go) := by unfold moduleDirective; infer_instance
instance : Reads Tidy (moduleDeclaration go) := by unfold moduleDeclaration; infer_instance
instance : Reads Tidy (declaration go) := by unfold declaration; infer_instance
instance : Reads Member (looseMethod go) := by unfold looseMethod; infer_instance

/-! ### Repair -/

theorem each_skipTokens (item : Parser Tree) (takesBraces : Bool) (n : Nat) (ts : List Token) :
    Each Tidy (skipTokens item takesBraces n ts).1 := by
  induction n generalizing ts with
  | zero => exact Each.nil
  | succ n ih =>
    cases ts with
    | nil => exact Each.nil
    | cons t ts =>
      unfold skipTokens
      dsimp only
      refine Each.cons (tidy_leaf t rfl) ?_
      split
      · exact Each.nil
      · split
        · exact Each.nil
        · exact ih ts

variable {repair : Repair} {takesBraces : Bool} {R : Tree → Prop}

theorem reads_itemOr {item : Parser Tree} [h : Reads R item] (htidy : ∀ t, Tidy t → R t) :
    Reads R (itemOr repair takesBraces item) where
  holds {ts _ _} hread := by
    unfold itemOr at hread
    split at hread
    · next hitem =>
      cases hread
      exact h.holds hitem
    · cases hread
    · split at hread
      · cases hread
      · cases hread
        exact htidy _ ((each_skipTokens item takesBraces _ ts).tidy rfl)

instance {s : String} {mayLack : List Token → Bool} :
    Reads Tidy (markOrMissing repair s mayLack) where
  holds {ts _ _} hread := by
    unfold markOrMissing at hread
    split at hread
    · next hmark =>
      cases hread
      exact Reads.holds hmark
    · cases hread
    · split at hread
      · cases hread
        exact tidy_missing
      · cases hread

theorem reads_goalStep (g : Goal) : Reads g.Result (goalStep repair go g) := by
  cases g with
  | blockItem => exact reads_itemOr (R := Tidy) fun _ h => h
  | classItem | interfaceItem | topItem => exact reads_itemOr (R := Member) fun _ => Tidy.member
  | _ =>
    unfold Goal.Result goalStep
    infer_instance

instance {n : Nat} : ReadsGoals (parseGoal repair n) := by
  induction n with
  | zero => exact ⟨fun _ => ⟨nofun⟩⟩
  | succ n ih => exact ⟨fun g => ⟨fun hread => (reads_goalStep g).holds hread⟩⟩

/-! ## Texts -/

theorem each_parseItems (repair : Repair) (ts : List Token) :
    Each MethodsInTypes (parseItems repair ts).1 := by
  unfold parseItems
  cases hread : many (kid (parseGoal repair (nestingBound ts) .topItem)) ts with
  | none => exact Each.nil
  | some r =>
    have : Reads Member (parseGoal repair (nestingBound ts) .topItem) :=
      ReadsGoals.reads Goal.topItem
    exact Reads.holds hread

/-- In a text that fits the grammar, methods stand in types. -/
theorem methodsInTypes_ofSource {text : String} (h : Fits text) :
    MethodsInTypes (.ofSource text) := by
  have hitems := each_parseItems .none (tokens text)
  have hstrict : parseItems .none (tokens text) = ((parseItems .none (tokens text)).1, []) :=
    Prod.ext rfl h
  rw [Tree.ofSource, Tree.ofTokens, hstrict]
  exact hitems.methodsInTypes nofun nofun

end ChangeImpact.Java
