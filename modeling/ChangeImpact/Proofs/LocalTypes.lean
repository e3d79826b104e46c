import ChangeImpact.Java.Repair
import ChangeImpact.Proofs.ReplacedTypes

/-!
# Types inside of methods

A type that is declared inside of a method has members of its own, and its calls count for nothing
around it. But the variables of a method are collected from all of it except the bodies of classes.
So the members of a local class are left out. The components of a local record and the parameters in
a local interface or enumeration are not: they are taken for variables of the method.

* `ChangesLocalType` — a tree in which a type inside of a method is replaced by another one;
* `InScope`, `InScope.declaresLocal` — what the type declares is taken for a variable of the method;
* `SameHeader`, `SameHeader.sameTypes` — the members of classes are not;
* `local_type_members` — the targets of the method depend on nothing else of the type;
* `component_taken_for_variable` — a component of a record that changes the target of a call.
-/

namespace ChangeImpact.Java

variable {t t' c L L' M : Tree} {v v' w w' : Variables} {x T : String} {n : Nat}

/-! ## What is taken for a variable -/

/-- `L` is a part of `t`, and no class body is around it in there. -/
inductive InScope : Tree → Tree → Prop where
  | child {t L : Tree} (hkind : t.kind ≠ .classBody) (hL : L ∈ t.namedChildren) : InScope t L
  | deeper {t c L : Tree} (hkind : t.kind ≠ .classBody) (hc : c ∈ t.namedChildren)
    (h : InScope c L) : InScope t L

theorem InScope.declaresLocal (h : InScope M L) (hx : DeclaresLocal L x T) :
    DeclaresLocal M x T := by
  induction h with
  | child hkind hL => exact .part hkind hL hx
  | deeper hkind hc _ ih => exact .part hkind hc (ih hx)

/-- Two types that differ in the bodies of classes only. -/
structure SameHeader (L L' : Tree) : Prop where
  kind : L'.kind = L.kind
  parts : List.Forall₂ (fun c c' => c' = c ∨ c.kind = .classBody ∧ c'.kind = .classBody)
    L.children L'.children

theorem collectLocals_classBody (h : t.kind = .classBody) (n : Nat) (v : Variables) :
    collectLocals n t v = v := by
  cases n with
  | zero => rfl
  | succ n => rw [collectLocals, if_pos h]

theorem SameHeader.sameTypes (h : SameHeader L L') (htype : isTypeDeclaration L.kind = true)
    (hheight : L.height ≤ nestingLimit) (hv : SameTypes v v') :
    SameTypes (locals L v) (locals L' v') := by
  have hplain : L.kind ≠ .classBody ∧ declareHere L v = v ∧ declareHere L' v' = v' := by
    unfold declareHere
    rw [h.kind]
    rcases kind_cases_of_type htype with hkind | hkind | hkind | hkind <;>
      rw [hkind] <;> exact ⟨by decide, rfl, rfl⟩
  have hnamed : List.Forall₂ (fun c c' => c' = c ∨ c.kind = .classBody ∧ c'.kind = .classBody)
      L.namedChildren L'.namedChildren := by
    refine List.rel_filter ?_ h.parts
    intro c c' hc
    show c.isNamed = true ↔ c'.isNamed = true
    rcases hc with rfl | ⟨hbody, hbody'⟩
    · exact Iff.rfl
    · rw [Tree.isNamed, Tree.isNamed, hbody, hbody']
  rw [locals, locals, collectLocals_succ hplain.1,
    collectLocals_succ (by rw [h.kind]; exact hplain.1), hplain.2.1, hplain.2.2]
  refine sameTypes_foldl hnamed ?_ hv
  rintro c hc c' - (rfl | ⟨hbody, hbody'⟩) v v' hv
  · have hlt := Tree.height_lt_of_child (List.mem_filter.1 hc).1
    have hlocals := prepends_collectLocals (Nat.lt_of_lt_of_le hlt hheight)
    rw [hlocals.append v, hlocals.append v']
    exact (SameTypes.refl _).append hv
  · rw [collectLocals_classBody hbody, collectLocals_classBody hbody']
    exact hv

/-! ## The targets of the method -/

/-- `t'` is `t` with the type `L'` in the place of the type `L` of the same kind. The method `M` has
`L` in it, and the variables `v` are known around the method. -/
structure ChangesLocalType (t t' L L' M : Tree) (v : Variables) : Prop where
  height : t.height ≤ nestingLimit
  height' : t'.height ≤ nestingLimit
  type : L.isNamedType = true
  type' : L'.isNamedType = true
  kind : L'.kind = L.kind
  replaced : Replaced L L' t t'
  listed : Lists .outside t M v
  inside : M.Has L

/-- What becomes of the targets of the method. -/
structure LocalTypeMembers (t t' L L' M : Tree) (v : Variables) : Prop where
  /-- What the type declares outside of the bodies of classes, such as the components of a record,
  is taken for a variable of the method. -/
  taken : ∀ x T, (x, T) ∈ locals L [] →
    DeclaresLocal L x T ∧ (InScope M L → DeclaresLocal M x T)
  /-- What it declares in the bodies of classes is not. -/
  bodies : SameHeader L L' → SameTypes (locals L []) (locals L' [])
  /-- If the former has the same types, then the method has the same targets in the same order. -/
  unchanged : SameTypes (locals L []) (locals L' []) →
    ∃ M' v', Replaced L L' M M' ∧ Lists .outside t' M' v' ∧ SameTypes v v' ∧
      ∃ d ∈ declarations t, ∃ d' ∈ declarations t', IsListing d M v ∧ IsListing d' M' v' ∧
        d'.targets = d.targets

/-- The targets of a method depend on a type inside of it only through what the type declares
outside of the bodies of classes. -/
theorem local_type_members (h : ChangesLocalType t t' L L' M v) :
    LocalTypeMembers t t' L L' M v := by
  have hheight : M.height ≤ nestingLimit := Nat.le_trans h.listed.1.height_le h.height
  have hlt := h.inside.height_lt
  constructor
  · intro x T hmem
    have hdeclares := (prepends_locals (by omega)).mem_iff.1 hmem
    exact ⟨hdeclares, fun hscope => hscope.declaresLocal hdeclares⟩
  · intro hheader
    exact hheader.sameTypes (Tree.isTypeDeclaration_kind h.type) (by omega) (SameTypes.refl _)
  · intro hexposed
    have hL : Exchangeable L L' := ⟨h.type, h.type', h.kind, hexposed⟩
    rcases hL.reaches h.listed.1 h.height h.height' h.replaced ⟨rfl, SameTypes.refl _⟩ with
      ⟨r, hinside⟩ | ⟨q', M', hq, hM', hreaches⟩
    · -- the type is in the method, and so the method is not in the type
      have hle := hinside.height_le
      omega
    · rcases q' with ⟨inType, v'⟩
      rcases hq with ⟨htyped, hknown⟩
      dsimp only at htyped hknown
      subst htyped
      have hlisted' : Lists .outside t' M' v' :=
        ⟨hreaches, by rw [hL.isMethod_eq hM']; exact h.listed.2⟩
      have hheight' : M'.height ≤ nestingLimit := Nat.le_trans hreaches.height_le h.height'
      have hlocals := hL.sameTypes_locals hheight hheight' hM' hknown
      rcases method_listing h.height h.listed with ⟨d, hd, hlisting⟩
      rcases method_listing h.height' hlisted' with ⟨d', hd', hlisting'⟩
      refine ⟨M', v', hM', hlisted', hknown, d, hd, d', hd', hlisting, hlisting', ?_⟩
      rw [hlisting.targets, hlisting'.targets]
      refine flatMap_eq_of_rel (hL.matches_method hM' h.listed.2).children ?_
      intro c hc c' hc' hreplaced
      have hdeep := Tree.height_lt_of_child hc
      have hdeep' := Tree.height_lt_of_child hc'
      exact hL.targetsIn_eq (by omega) (by omega) hreplaced hlocals

/-! ## Trees that differ at a path -/

namespace Tree

mutual

/-- Whether two trees are the same. -/
def same : Tree → Tree → Bool
  | leaf k token, leaf k' token' => k == k' && token == token'
  | missing, missing => true
  | node k cs, node k' cs' => k == k' && sameParts cs cs'
  | _, _ => false

/-- The same for lists of children. -/
def sameParts : List Child → List Child → Bool
  | [], [] => true
  | (role, t) :: cs, (role', t') :: cs' => role == role' && same t t' && sameParts cs cs'
  | _, _ => false

end

theorem eq_of_sameParts {cs cs' : List Child}
    (hparts : ∀ c ∈ cs.map (·.2), ∀ c', same c c' = true → c = c')
    (h : sameParts cs cs' = true) : cs = cs' := by
  induction cs generalizing cs' with
  | nil =>
    cases cs' with
    | nil => rfl
    | cons => cases h
  | cons first cs ih =>
    cases cs' with
    | nil => cases h
    | cons first' cs' =>
      rcases first with ⟨role, t⟩
      rcases first' with ⟨role', t'⟩
      rw [sameParts, Bool.and_eq_true, Bool.and_eq_true, beq_iff_eq] at h
      rw [h.1.1, hparts t List.mem_cons_self t' h.1.2,
        ih (fun c hc => hparts c (List.mem_cons_of_mem _ hc)) h.2]

theorem eq_of_same {t t' : Tree} (h : same t t' = true) : t = t' := by
  cases t with
  | leaf k token =>
    cases t' with
    | leaf k' token' => simpa [same] using h
    | missing | node => cases h
  | missing =>
    cases t' with
    | missing => rfl
    | leaf | node => cases h
  | node k cs =>
    cases t' with
    | leaf | missing => cases h
    | node k' cs' =>
      rw [same, Bool.and_eq_true, beq_iff_eq] at h
      have hcs : cs = cs' := by
        refine eq_of_sameParts ?_ h.2
        intro c hc c' hsame
        have hlt : c.height < (node k cs).height := height_lt_of_mem hc
        exact eq_of_same hsame
      rw [h.1, hcs]
termination_by t.height

end Tree

/-- The part at the end of a path, and the tree with `new` in its place. -/
def exchangeAt? (new : Tree) : List Nat → Tree → Option (Tree × Tree)
  | [], t => some (t, new)
  | _ :: _, .leaf _ _ => none
  | _ :: _, .missing => none
  | i :: path, .node k cs =>
    (cs[i]?).bind fun child =>
      if isNameKind k || isNameRole child.1 ||
        child.1 == some .body && isTypeDeclaration child.2.kind then none
      else (exchangeAt? new path child.2).map fun r => (r.1, .node k (cs.set i (child.1, r.2)))

theorem replaced_of_exchangeAt? {path : List Nat} (h : exchangeAt? L' path t = some (L, t')) :
    Replaced L L' t t' ∧ (path ≠ [] → t.Has L) := by
  induction path generalizing t t' with
  | nil =>
    cases h
    exact ⟨.here, fun hne => absurd rfl hne⟩
  | cons i path ih =>
    cases t with
    | leaf | missing => cases h
    | node k cs =>
      rw [exchangeAt?, Option.bind_eq_some_iff] at h
      rcases h with ⟨⟨role, c⟩, hchild, h⟩
      split at h
      · cases h
      · next hfree =>
        rcases Option.map_eq_some_iff.1 h with ⟨⟨L₁, c'⟩, hc', heq⟩
        rcases Prod.mk.inj heq with ⟨rfl, rfl⟩
        rcases ih hc' with ⟨hreplaced, hhas⟩
        simp only [Bool.or_eq_true, Bool.and_eq_true, beq_iff_eq, not_or, not_and,
          Bool.not_eq_true] at hfree
        rcases hfree with ⟨⟨hkind, hrole⟩, hbody⟩
        rcases List.getElem?_eq_some_iff.1 hchild with ⟨hi, hget⟩
        have hsplit : cs = cs.take i ++ (role, c) :: cs.drop (i + 1) := by
          rw [← hget, ← List.drop_eq_getElem_cons hi, List.take_append_drop]
        constructor
        · rw [List.set_eq_take_append_cons_drop, if_pos hi]
          nth_rewrite 1 [hsplit]
          exact .inside hkind hrole hbody hreplaced
        · intro _
          have hc : c ∈ (Tree.node k cs).children :=
            List.mem_map.2 ⟨(role, c), List.mem_of_getElem? hchild, rfl⟩
          cases path with
          | nil =>
            cases hc'
            exact .child hc
          | cons j path => exact .deeper hc (hhas (by simp))

/-- Whether two trees differ in a type inside of a method of the first class. The method has the
number `k` in the body of the class, and the type is at a path in the method. Outside of the bodies
of classes, the types declare `w` and `w'`. -/
def checkLocalType (t t' : Tree) (k : Nat) (path : List Nat) (v w w' : Variables) : Bool :=
  !path.isEmpty && methodAt t k v fun M =>
    (partAt? (fun _ => false) ([0, 2, k] ++ path) t').any fun L' =>
      (exchangeAt? L' path M).any fun r => (exchangeAt? L' ([0, 2, k] ++ path) t).any fun r' =>
        r.1.same r'.1 && r'.2.same t' && r.1.isNamedType && L'.isNamedType &&
          L'.kind == r.1.kind && decide (locals r.1 [] = w) && decide (locals L' [] = w')

theorem changesLocalType_of_check {k : Nat} {path : List Nat} (ht : t.height ≤ nestingLimit)
    (ht' : t'.height ≤ nestingLimit) (h : checkLocalType t t' k path v w w' = true) :
    ∃ L L' M, ChangesLocalType t t' L L' M v ∧ locals L [] = w ∧ locals L' [] = w' := by
  rw [checkLocalType, Bool.and_eq_true, Bool.not_eq_true'] at h
  rcases h with ⟨hpath, hmethod⟩
  rcases lists_of_methodAt hmethod with ⟨M, hM, hchecked⟩
  simp only [Option.any_eq_true, Bool.and_eq_true, decide_eq_true_eq, beq_iff_eq] at hchecked
  rcases hchecked with ⟨L', -, ⟨L, M'⟩, hinside, ⟨L₁, t₁⟩, hexchange,
    ⟨⟨⟨⟨⟨hsame, hsame'⟩, htype⟩, htype'⟩, hkind⟩, hw⟩, hw'⟩
  have hL : L = L₁ := Tree.eq_of_same hsame
  have ht₁ : t₁ = t' := Tree.eq_of_same hsame'
  subst hL ht₁
  have hhas : M.Has L := by
    refine (replaced_of_exchangeAt? hinside).2 ?_
    rintro rfl
    cases hpath
  exact ⟨L, L', M, ⟨ht, ht', htype, htype', hkind, (replaced_of_exchangeAt? hexchange).1, hM, hhas⟩,
    hw, hw'⟩

/-- A method with a class in it, and a call outside of the class. -/
def localClass (members : String) : Tree :=
  .ofSource ("class A \x7b Cache repo; void run() \x7b class Pair \x7b " ++ members
    ++ " \x7d repo.save(); \x7d \x7d")

theorem local_type_members_localClass :
    ∃ L L' M, ChangesLocalType (localClass "Repo repo; void set(Repo repo) \x7b\x7d")
        (localClass "Item item;") L L' M [("repo", "Cache")] ∧
      SameTypes (locals L []) (locals L' []) ∧
      LocalTypeMembers (localClass "Repo repo; void set(Repo repo) \x7b\x7d")
        (localClass "Item item;") L L' M [("repo", "Cache")] := by
  have hchecked : (localClass "Repo repo; void set(Repo repo) \x7b\x7d").height ≤ nestingLimit ∧
      (localClass "Item item;").height ≤ nestingLimit ∧
      checkLocalType (localClass "Repo repo; void set(Repo repo) \x7b\x7d")
        (localClass "Item item;") 2 [3, 1] [("repo", "Cache")] [] [] = true := by
    decide +kernel
  rcases hchecked with ⟨hheight, hheight', hcheck⟩
  rcases changesLocalType_of_check hheight hheight' hcheck with ⟨L, L', M, h, hlocals, hlocals'⟩
  refine ⟨L, L', M, h, ?_, local_type_members h⟩
  rw [hlocals, hlocals']
  exact SameTypes.refl _

/-- A method with a record in it, and a call outside of the record. -/
def localRecord (component : String) : Tree :=
  .ofSource ("class A \x7b\n  Cache repo;\n  void run() \x7b\n    record Pair(Repo " ++ component
    ++ ") \x7b\x7d\n    repo.save();\n  \x7d\n\x7d\n")

/-- The call is recorded with the type of the component if this has the name of the field, and with
the type of the field otherwise. -/
theorem component_taken_for_variable :
    (∃ L L' M, ChangesLocalType (localRecord "repo") (localRecord "item") L L' M
        [("repo", "Cache")] ∧
      locals L [] = [("repo", "Repo")] ∧ locals L' [] = [("item", "Repo")]) ∧
    (declarations (localRecord "repo")).map (·.targets) = [["Repo.save"]] ∧
    (declarations (localRecord "item")).map (·.targets) = [["Cache.save"]] := by
  have hchecked : ((localRecord "repo").height ≤ nestingLimit ∧
      (localRecord "item").height ≤ nestingLimit ∧
      checkLocalType (localRecord "repo") (localRecord "item") 2 [3, 1] [("repo", "Cache")]
        [("repo", "Repo")] [("item", "Repo")] = true) ∧
      (declarations (localRecord "repo")).map (·.targets) = [["Repo.save"]] ∧
      (declarations (localRecord "item")).map (·.targets) = [["Cache.save"]] := by
    decide +kernel
  rcases hchecked with ⟨⟨hheight, hheight', hcheck⟩, htargets⟩
  exact ⟨changesLocalType_of_check hheight hheight' hcheck, htargets⟩

end ChangeImpact.Java
