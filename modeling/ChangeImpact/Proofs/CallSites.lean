import ChangeImpact.Proofs.WalkInvariant

/-!
# Which calls count for a method

The walk over a syntax tree lists a method when it meets it, and counts for it every call that it
meets as long as the method is active. Both are said here about the tree alone: which methods the
walk meets, with the variables that are known there, and which calls lie in them.

* `Within` — a tree lies in another one, and in nothing that stops;
* `Said` — a call or method reference in a tree has this target;
* `targetsIn` — all these targets in the order of the walk; `mem_targetsIn` — they are the same;
* `Reaches` — where the walk gets to; `Lists` — the methods that it lists;
* `partAt?`, `placeAt?` — both along a path, which can be computed; `methodAt`, `inBodyAt` — tests
  of a method of the first class, and of a part of its body.
-/

namespace ChangeImpact.Java

/-! ## Trees -/

namespace Tree

mutual

/-- How many levels there are below a tree. -/
def height : Tree → Nat
  | leaf _ _ => 0
  | missing => 0
  | node _ cs => heightOf cs

/-- The levels of a list of children. -/
def heightOf : List Child → Nat
  | [] => 0
  | (_, t) :: cs => max (height t + 1) (heightOf cs)

end

variable {t c : Tree}

theorem height_lt_of_mem {cs : List Child} (hc : c ∈ cs.map (·.2)) : c.height < heightOf cs := by
  induction cs with
  | nil => simp at hc
  | cons p cs ih =>
    rcases p with ⟨field, first⟩
    rw [heightOf]
    rcases List.mem_cons.1 hc with rfl | hc
    · exact Nat.lt_of_lt_of_le (Nat.lt_succ_self _) (Nat.le_max_left _ _)
    · exact Nat.lt_of_lt_of_le (ih hc) (Nat.le_max_right _ _)

theorem height_lt_of_child (hc : c ∈ t.children) : c.height < t.height := by
  cases t with
  | leaf | missing => simp [children, labelled] at hc
  | node k cs => exact height_lt_of_mem hc

theorem height_child_lt {n : Nat} (ht : t.height < n + 1) (hc : c ∈ t.children) : c.height < n := by
  have hlt := height_lt_of_child hc
  omega

theorem mem_of_child? {field : Field} (h : t.child? field = some c) : c ∈ t.children := by
  rcases Option.map_eq_some_iff.1 h with ⟨entry, hfind, rfl⟩
  exact List.mem_map.2 ⟨entry, List.mem_of_find?_eq_some hfind, rfl⟩

/-- A part of a tree, at any depth. -/
inductive Has : Tree → Tree → Prop where
  | child {t c : Tree} (hc : c ∈ t.children) : Has t c
  | deeper {t c u : Tree} (hc : c ∈ t.children) (h : Has c u) : Has t u

theorem Has.trans {t c u : Tree} (h : Has t c) (h' : Has c u) : Has t u := by
  induction h with
  | child hc => exact .deeper hc h'
  | deeper hc _ ih => exact .deeper hc (ih h')

theorem Has.height_lt {t u : Tree} (h : Has t u) : u.height < t.height := by
  induction h with
  | child hc => exact height_lt_of_child hc
  | deeper hc _ ih => exact Nat.lt_trans ih (height_lt_of_child hc)

/-- A method with a name. -/
def isMethod (t : Tree) : Bool := t.kind == .methodDeclaration && (t.child? .name).isSome

/-- A type with a name. -/
def isNamedType (t : Tree) : Bool := isTypeDeclaration t.kind && (t.child? .name).isSome

/-- A method or type of its own. -/
def isOwn (t : Tree) : Bool := t.isMethod || t.isNamedType

/-- Calls inside of such a tree do not count for what is around it. -/
def shuts (t : Tree) : Bool :=
  t.isOwn || t.kind == .constructorDeclaration || t.kind == .compactConstructor ||
    t.kind == .methodReference || t.kind == .packageDeclaration

theorem isOwn_of_kind (hmethod : t.kind ≠ .methodDeclaration)
    (htype : isTypeDeclaration t.kind = false) : t.isOwn = false := by
  simp [isOwn, isMethod, isNamedType, hmethod, htype]

theorem shuts_of_isOwn (h : t.isOwn = true) : t.shuts = true := by
  simp [shuts, h]

theorem shuts_of_creation (h : t.kind = .objectCreation) : t.shuts = false := by
  have hown : t.isOwn = false := isOwn_of_kind (by rw [h]; decide) (by rw [h]; rfl)
  simp [shuts, hown, h]

theorem not_creation_of_shuts (h : t.shuts = true) : t.kind ≠ .objectCreation := by
  intro hkind
  rw [shuts_of_creation hkind] at h
  cases h

end Tree

variable {v v' : Variables} {t c m body : Tree} {x : String}

/-- The parts of a creation are its anonymous body and the others. -/
theorem mem_namedChildren : c ∈ t.namedChildren ↔ c ∈ otherParts t ∨ anonymousBody? t = some c := by
  unfold otherParts anonymousBody?
  cases hfind : t.namedChildren.findIdx? (·.kind == .classBody) with
  | none =>
    have hnone : t.namedChildren.find? (·.kind == .classBody) = none := by
      rw [List.find?_eq_none]
      intro part hpart
      rw [List.findIdx?_eq_none_iff.1 hfind part hpart]
      simp
    rw [hnone]
    simp
  | some i =>
    -- the first body is taken out, and only this one
    rcases List.findIdx?_eq_some_iff_getElem.1 hfind with ⟨hi, hbody, hfirst⟩
    have hsome : t.namedChildren.find? (·.kind == .classBody) = some t.namedChildren[i] := by
      rw [List.find?_eq_some_iff_getElem]
      exact ⟨hbody, i, hi, rfl, fun j hj => by simpa using hfirst j hj⟩
    rw [hsome]
    dsimp only
    rw [List.eraseIdx_eq_take_drop_succ, Option.some.injEq]
    have hsplit : c ∈ t.namedChildren ↔
        c ∈ t.namedChildren.take i ++ t.namedChildren[i] :: t.namedChildren.drop (i + 1) := by
      rw [← List.drop_eq_getElem_cons hi, List.take_append_drop]
    rw [hsplit]
    simp only [List.mem_append, List.mem_cons]
    tauto

/-! ## Calls in a tree -/

/-- `u` lies in `t`, but not inside of a tree that stops. The methods of anonymous classes are
passed through in any case; their parameters and local variables are then known too. At `t` the
variables `v` are known, and `v'` at `u`. -/
inductive Within (stops : Tree → Bool) : Variables → Tree → Variables → Tree → Prop where
  | here (v : Variables) (t : Tree) : Within stops v t v t
  | child {v v' : Variables} {t c u : Tree} (hopen : stops t = false) (hc : c ∈ t.children)
    (hpart : t.kind = .objectCreation → c.isNamed = true) (h : Within stops v c v' u) :
    Within stops v t v' u
  | method {v v' : Variables} {t body m c u : Tree} (hcreation : t.kind = .objectCreation)
    (hbody : anonymousBody? t = some body) (hm : m ∈ body.children) (hmethod : m.isMethod = true)
    (hc : c ∈ m.children) (h : Within stops (locals m v) c v' u) : Within stops v t v' u

/-- The target of a call or of a method reference. -/
def target? (v : Variables) (t : Tree) : Option String :=
  match t.kind with
  | .methodInvocation => callTarget? v t
  | .methodReference => referenceTarget? v t
  | _ => none

/-- A call or method reference that counts in a tree has this target. -/
def Said (v : Variables) (t : Tree) (x : String) : Prop :=
  ∃ v' u, Within Tree.shuts v t v' u ∧ target? v' u = some x

/-- The same for a member of an anonymous class. -/
def SaidIn (v : Variables) (m : Tree) (x : String) : Prop :=
  if m.isMethod then ∃ c ∈ m.children, Said (locals m v) c x else Said v m x

theorem said_iff (hcreation : t.kind ≠ .objectCreation) :
    Said v t x ↔ target? v t = some x ∨ t.shuts = false ∧ ∃ c ∈ t.children, Said v c x := by
  constructor
  · rintro ⟨v', u, hwithin, htarget⟩
    cases hwithin with
    | here => exact .inl htarget
    | child hopen hc _ h => exact .inr ⟨hopen, _, hc, v', u, h, htarget⟩
    | method hkind => exact absurd hkind hcreation
  · rintro (htarget | ⟨hopen, c, hc, v', u, h, htarget⟩)
    · exact ⟨v, t, .here v t, htarget⟩
    · exact ⟨v', u, .child hopen hc (fun hkind => absurd hkind hcreation) h, htarget⟩

theorem not_said_of_shuts (hshuts : t.shuts = true) (htarget : target? v t = none) :
    ¬Said v t x := by
  rw [said_iff (Tree.not_creation_of_shuts hshuts), htarget, hshuts]
  simp

/-- What is said in the body of an anonymous class is said in a member that is no method. -/
theorem said_body_iff (hkind : t.kind = .classBody) :
    Said v t x ↔ ∃ m ∈ t.children, m.isMethod = false ∧ Said v m x := by
  have hown : t.isOwn = false := Tree.isOwn_of_kind (by rw [hkind]; decide) (by rw [hkind]; rfl)
  have hopen : t.shuts = false := by simp [Tree.shuts, hown, hkind]
  have htarget : target? v t = none := by simp [target?, hkind]
  rw [said_iff (by rw [hkind]; decide), htarget, hopen]
  constructor
  · rintro (hnone | ⟨-, m, hm, hsaid⟩)
    · cases hnone
    · refine ⟨m, hm, ?_, hsaid⟩
      by_contra hmethod
      rw [Bool.not_eq_false] at hmethod
      refine not_said_of_shuts (Tree.shuts_of_isOwn (by simp [Tree.isOwn, hmethod])) ?_ hsaid
      rw [Tree.isMethod, Bool.and_eq_true, beq_iff_eq] at hmethod
      simp [target?, hmethod.1]
  · rintro ⟨m, hm, -, hsaid⟩
    exact .inr ⟨rfl, m, hm, hsaid⟩

theorem kind_anonymousBody (h : anonymousBody? t = some body) : body.kind = .classBody := by
  simpa using List.find?_some h

theorem said_creation_iff (hcreation : t.kind = .objectCreation) :
    Said v t x ↔ (∃ c ∈ otherParts t, Said v c x) ∨
      ∃ body, anonymousBody? t = some body ∧ ∃ m ∈ body.children, SaidIn v m x := by
  have hopen : t.shuts = false := Tree.shuts_of_creation hcreation
  constructor
  · rintro ⟨v', u, hwithin, htarget⟩
    cases hwithin with
    | here => simp [target?, hcreation] at htarget
    | @child _ _ _ c _ _ hc hpart h =>
      have hnamed : c ∈ t.namedChildren := List.mem_filter.2 ⟨hc, hpart hcreation⟩
      rcases mem_namedChildren.1 hnamed with hother | hbody
      · exact .inl ⟨c, hother, v', u, h, htarget⟩
      · rcases (said_body_iff (kind_anonymousBody hbody)).1 ⟨v', u, h, htarget⟩ with
          ⟨m, hm, hmethod, hsaid⟩
        refine .inr ⟨c, hbody, m, hm, ?_⟩
        rwa [SaidIn, hmethod, if_neg Bool.false_ne_true]
    | method _ hbody hm hmethod hc h =>
      refine .inr ⟨_, hbody, _, hm, ?_⟩
      rw [SaidIn, if_pos hmethod]
      exact ⟨_, hc, v', u, h, htarget⟩
  · rintro (⟨c, hc, v', u, h, htarget⟩ | ⟨body, hbody, m, hm, hsaid⟩)
    · have hnamed := List.mem_filter.1 (mem_namedChildren.2 (.inl hc))
      exact ⟨v', u, .child hopen hnamed.1 (fun _ => hnamed.2) h, htarget⟩
    · unfold SaidIn at hsaid
      split at hsaid
      · next hmethod =>
        rcases hsaid with ⟨c, hc, v', u, h, htarget⟩
        exact ⟨v', u, .method hcreation hbody hm hmethod hc h, htarget⟩
      · next hmethod =>
        rw [Bool.not_eq_true] at hmethod
        rcases (said_body_iff (kind_anonymousBody hbody)).2 ⟨m, hm, hmethod, hsaid⟩ with
          ⟨v', u, h, htarget⟩
        have hnamed := List.mem_filter.1 (mem_namedChildren.2 (.inr hbody))
        exact ⟨v', u, .child hopen hnamed.1 (fun _ => hnamed.2) h, htarget⟩

/-! ## Targets in their order -/

/-- The members of the anonymous class that an expression creates. -/
def anonymousMembers (t : Tree) : List Tree :=
  match anonymousBody? t with
  | none => []
  | some body => body.children

theorem mem_anonymousMembers :
    m ∈ anonymousMembers t ↔ ∃ body, anonymousBody? t = some body ∧ m ∈ body.children := by
  unfold anonymousMembers
  cases anonymousBody? t with
  | none => simp
  | some body => simp

theorem height_anonymousMember (hm : m ∈ anonymousMembers t) : m.height + 1 < t.height := by
  rcases mem_anonymousMembers.1 hm with ⟨body, hbody, hmember⟩
  have hlt := Tree.height_lt_of_child (mem_anonymousBody hbody)
  have hlt' := Tree.height_lt_of_child hmember
  omega

/-- The targets of the calls and method references that count in a tree, in the order in which the
walk meets them. -/
def targetsIn (v : Variables) (t : Tree) : List String :=
  if t.kind = .objectCreation then
    (otherParts t).attach.flatMap (fun c => targetsIn v c.1) ++
      (anonymousMembers t).attach.flatMap fun m =>
        if m.1.isMethod then m.1.children.attach.flatMap fun c => targetsIn (locals m.1 v) c.1
        else targetsIn v m.1
  else
    (target? v t).toList ++
      if t.shuts then [] else t.children.attach.flatMap fun c => targetsIn v c.1
termination_by t.height
decreasing_by
  · exact Tree.height_lt_of_child (mem_otherParts c.2)
  · have hlt := height_anonymousMember m.2
    have hlt' := Tree.height_lt_of_child c.2
    omega
  · have hlt := height_anonymousMember m.2
    omega
  · exact Tree.height_lt_of_child c.2

/-- The same for a member of an anonymous class. -/
def targetsInMember (v : Variables) (m : Tree) : List String :=
  if m.isMethod then m.children.flatMap (targetsIn (locals m v)) else targetsIn v m

theorem targetsIn_creation (h : t.kind = .objectCreation) :
    targetsIn v t = (otherParts t).flatMap (targetsIn v) ++
      (anonymousMembers t).flatMap (targetsInMember v) := by
  rw [targetsIn, if_pos h]
  simp only [List.flatMap_subtype, List.unattach_attach]
  rfl

theorem targetsIn_plain (h : t.kind ≠ .objectCreation) :
    targetsIn v t =
      (target? v t).toList ++ if t.shuts then [] else t.children.flatMap (targetsIn v) := by
  rw [targetsIn, if_neg h]
  simp only [List.flatMap_subtype, List.unattach_attach]

theorem targetsIn_of_shuts (hshuts : t.shuts = true) (htarget : target? v t = none) :
    targetsIn v t = [] := by
  rw [targetsIn_plain (Tree.not_creation_of_shuts hshuts), htarget, hshuts]
  rfl

theorem mem_flatMap_congr {cs : List Tree} {g : Tree → List String} {S : Tree → Prop}
    (h : ∀ c ∈ cs, (x ∈ g c ↔ S c)) : x ∈ cs.flatMap g ↔ ∃ c ∈ cs, S c := by
  rw [List.mem_flatMap]
  exact exists_congr fun c => and_congr_right (h c)

/-- They are the targets of all that is said in the tree. -/
theorem mem_targetsIn (v : Variables) (t : Tree) : x ∈ targetsIn v t ↔ Said v t x := by
  by_cases hcreation : t.kind = .objectCreation
  · have hparts : ∀ c ∈ otherParts t, (x ∈ targetsIn v c ↔ Said v c x) := by
      intro c hc
      have hlt := Tree.height_lt_of_child (mem_otherParts hc)
      exact mem_targetsIn v c
    have hmembers : ∀ m ∈ anonymousMembers t, (x ∈ targetsInMember v m ↔ SaidIn v m x) := by
      intro m hm
      have hlt := height_anonymousMember hm
      unfold targetsInMember SaidIn
      split
      · refine mem_flatMap_congr ?_
        intro c hc
        have hlt' := Tree.height_lt_of_child hc
        exact mem_targetsIn (locals m v) c
      · exact mem_targetsIn v m
    rw [targetsIn_creation hcreation, said_creation_iff hcreation, List.mem_append,
      mem_flatMap_congr hparts, mem_flatMap_congr hmembers]
    simp only [mem_anonymousMembers]
    refine or_congr Iff.rfl ?_
    constructor
    · rintro ⟨m, ⟨body, hbody, hm⟩, hsaid⟩
      exact ⟨body, hbody, m, hm, hsaid⟩
    · rintro ⟨body, hbody, m, hm, hsaid⟩
      exact ⟨m, ⟨body, hbody, hm⟩, hsaid⟩
  · have hparts : ∀ c ∈ t.children, (x ∈ targetsIn v c ↔ Said v c x) := by
      intro c hc
      have hlt := Tree.height_lt_of_child hc
      exact mem_targetsIn v c
    rw [targetsIn_plain hcreation, said_iff hcreation, List.mem_append, Option.mem_toList]
    refine or_congr Iff.rfl ?_
    cases t.shuts with
    | true => simp
    | false => simpa using mem_flatMap_congr hparts
termination_by t.height
decreasing_by
  all_goals omega

/-! ## Methods in a tree -/

/-- What is known where the walk is. -/
structure Place where
  /-- Whether there is a named type around. -/
  inType : Bool
  known : Variables
deriving DecidableEq

/-- Outside of everything. -/
def Place.outside : Place := ⟨false, []⟩

/-- The place of the children of a tree. -/
def Place.inside (p : Place) (t : Tree) : Place :=
  if t.isNamedType then ⟨true, collectMembers t p.known⟩
  else if p.inType && t.isMethod then ⟨true, locals t p.known⟩
  else p

theorem Place.inside_of_not_own {t : Tree} (h : t.isOwn = false) (p : Place) : p.inside t = p := by
  rw [Tree.isOwn, Bool.or_eq_false_iff] at h
  simp [Place.inside, h.1, h.2]

/-- Where the walk gets to. Methods of anonymous classes are not met as such, but what is inside of
them is. -/
inductive Reaches : Place → Tree → Place → Tree → Prop where
  | here (p : Place) (t : Tree) : Reaches p t p t
  | child {p q : Place} {t c u : Tree} (hcreation : t.kind ≠ .objectCreation)
    (hopen : descends t.kind = true) (hc : c ∈ t.children) (h : Reaches (p.inside t) c q u) :
    Reaches p t q u
  | part {p q : Place} {t c u : Tree} (hcreation : t.kind = .objectCreation)
    (hc : c ∈ otherParts t) (h : Reaches p c q u) : Reaches p t q u
  | member {p q : Place} {t body m u : Tree} (hcreation : t.kind = .objectCreation)
    (hbody : anonymousBody? t = some body) (hm : m ∈ body.children)
    (hplain : (p.inType && m.isMethod) = false) (h : Reaches p m q u) : Reaches p t q u
  | method {p q : Place} {t body m c u : Tree} (hcreation : t.kind = .objectCreation)
    (hbody : anonymousBody? t = some body) (hm : m ∈ body.children)
    (hmethod : (p.inType && m.isMethod) = true) (hc : c ∈ m.children)
    (h : Reaches ⟨true, locals m p.known⟩ c q u) : Reaches p t q u

variable {p q r : Place} {u M : Tree}

theorem Reaches.trans (h : Reaches p t q u) (h' : Reaches q u r M) : Reaches p t r M := by
  induction h with
  | here => exact h'
  | child hcreation hopen hc _ ih => exact .child hcreation hopen hc (ih h')
  | part hcreation hc _ ih => exact .part hcreation hc (ih h')
  | member hcreation hbody hm hplain _ ih => exact .member hcreation hbody hm hplain (ih h')
  | method hcreation hbody hm hmethod hc _ ih => exact .method hcreation hbody hm hmethod hc (ih h')

theorem Reaches.has (h : Reaches p t q u) : u = t ∨ t.Has u := by
  induction h with
  | here => exact .inl rfl
  | child _ _ hc _ ih =>
    rcases ih with rfl | hhas
    · exact .inr (.child hc)
    · exact .inr (.deeper hc hhas)
  | part _ hc _ ih =>
    rcases ih with rfl | hhas
    · exact .inr (.child (mem_otherParts hc))
    · exact .inr (.deeper (mem_otherParts hc) hhas)
  | member _ hbody hm _ _ ih =>
    rcases ih with rfl | hhas
    · exact .inr (.deeper (mem_anonymousBody hbody) (.child hm))
    · exact .inr (.deeper (mem_anonymousBody hbody) (.deeper hm hhas))
  | method _ hbody hm _ hc _ ih =>
    rcases ih with rfl | hhas
    · exact .inr (.deeper (mem_anonymousBody hbody) (.deeper hm (.child hc)))
    · exact .inr (.deeper (mem_anonymousBody hbody) (.deeper hm (.deeper hc hhas)))

theorem Reaches.height_le (h : Reaches p t q u) : u.height ≤ t.height := by
  rcases h.has with rfl | hhas
  · exact Nat.le_refl _
  · exact Nat.le_of_lt hhas.height_lt

/-- A method of a named type, met where the variables `v` are known. -/
def Lists (p : Place) (t M : Tree) (v : Variables) : Prop :=
  Reaches p t ⟨true, v⟩ M ∧ M.isMethod = true

/-- The same for a member of an anonymous class. -/
def ListsIn (p : Place) (m M : Tree) (v : Variables) : Prop :=
  if p.inType && m.isMethod then ∃ c ∈ m.children, Lists ⟨true, locals m p.known⟩ c M v
  else Lists p m M v

theorem lists_cases (hcreation : t.kind ≠ .objectCreation) (h : Lists p t M v) :
    (M = t ∧ p = ⟨true, v⟩ ∧ t.isMethod = true) ∨
      descends t.kind = true ∧ ∃ c ∈ t.children, Lists (p.inside t) c M v := by
  rcases h with ⟨hreaches, hmethod⟩
  -- `cases` needs a variable for the place of the method
  generalize hq : (⟨true, v⟩ : Place) = q at hreaches
  cases hreaches with
  | here => exact .inl ⟨rfl, rfl, hmethod⟩
  | child _ hopen hc h =>
    subst hq
    exact .inr ⟨hopen, _, hc, h, hmethod⟩
  | part hkind | member hkind | method hkind => exact absurd hkind hcreation

theorem lists_below (hcreation : t.kind ≠ .objectCreation)
    (hmethod : (p.inType && t.isMethod) = false) (h : Lists p t M v) :
    descends t.kind = true ∧ ∃ c ∈ t.children, Lists (p.inside t) c M v := by
  rcases lists_cases hcreation h with ⟨-, rfl, hself⟩ | hbelow
  · rw [hself] at hmethod
    cases hmethod
  · exact hbelow

/-- The place stays in a tree that is no method and no type. -/
theorem lists_inside (hcreation : t.kind ≠ .objectCreation) (hown : t.isOwn = false)
    (h : Lists p t M v) : descends t.kind = true ∧ ∃ c ∈ t.children, Lists p c M v := by
  have hmethod : t.isMethod = false := (Bool.or_eq_false_iff.1 hown).1
  have hbelow := lists_below hcreation (by simp [hmethod]) h
  rwa [Place.inside_of_not_own hown] at hbelow

theorem lists_creation_cases (hcreation : t.kind = .objectCreation) (h : Lists p t M v) :
    (∃ c ∈ otherParts t, Lists p c M v) ∨
      ∃ body, anonymousBody? t = some body ∧ ∃ m ∈ body.children, ListsIn p m M v := by
  rcases h with ⟨hreaches, hmethod⟩
  generalize hq : (⟨true, v⟩ : Place) = q at hreaches
  cases hreaches with
  | here => simp [Tree.isMethod, hcreation] at hmethod
  | child hkind => exact absurd hcreation hkind
  | part _ hc h =>
    subst hq
    exact .inl ⟨_, hc, h, hmethod⟩
  | member _ hbody hm hplain h =>
    subst hq
    refine .inr ⟨_, hbody, _, hm, ?_⟩
    rw [ListsIn, if_neg (by rw [hplain]; decide)]
    exact ⟨h, hmethod⟩
  | method _ hbody hm hinner hc h =>
    subst hq
    refine .inr ⟨_, hbody, _, hm, ?_⟩
    rw [ListsIn, if_pos hinner]
    exact ⟨_, hc, h, hmethod⟩

/-! ## Paths

Numbers of children that lead from a tree to one of its parts. -/

/-- The part at the end of a path, if nothing stops on the way. -/
def partAt? (stops : Tree → Bool) : List Nat → Tree → Option Tree
  | [], t => some t
  | i :: path, t =>
    if stops t || t.kind == .objectCreation then none
    else (t.children[i]?).bind (partAt? stops path)

theorem within_of_partAt? {stops : Tree → Bool} {path : List Nat}
    (h : partAt? stops path t = some u) : Within stops v t v u := by
  induction path generalizing t with
  | nil =>
    cases h
    exact .here _ _
  | cons i path ih =>
    rw [partAt?] at h
    split at h
    · cases h
    · next hfree =>
      rw [Bool.not_eq_true, Bool.or_eq_false_iff, beq_eq_false_iff_ne] at hfree
      rcases Option.bind_eq_some_iff.1 h with ⟨c, hc, hpath⟩
      exact .child hfree.1 (List.mem_of_getElem? hc) (fun hkind => absurd hkind hfree.2) (ih hpath)

/-- Where the walk gets to along a path. -/
def placeAt? : Place → List Nat → Tree → Option (Place × Tree)
  | p, [], t => some (p, t)
  | p, i :: path, t =>
    if descends t.kind && t.kind != .objectCreation then
      (t.children[i]?).bind (placeAt? (p.inside t) path)
    else none

theorem reaches_of_placeAt? {path : List Nat} (h : placeAt? p path t = some (q, u)) :
    Reaches p t q u := by
  induction path generalizing p t with
  | nil =>
    cases h
    exact .here _ _
  | cons i path ih =>
    rw [placeAt?] at h
    split at h
    · next hopen =>
      rw [Bool.and_eq_true, bne_iff_ne] at hopen
      rcases Option.bind_eq_some_iff.1 h with ⟨c, hc, hpath⟩
      exact .child hopen.2 hopen.1 (List.mem_of_getElem? hc) (ih hpath)
    · cases h

/-- Whether a method of the first class passes a test. It has the number `k` in the body of the
class, and `v` is known there. -/
def methodAt (t : Tree) (k : Nat) (v : Variables) (test : Tree → Bool) : Bool :=
  (placeAt? .outside [0, 2, k] t).any fun q => decide (q.1 = ⟨true, v⟩) && q.2.isMethod && test q.2

theorem lists_of_methodAt {k : Nat} {test : Tree → Bool} (h : methodAt t k v test = true) :
    ∃ M, Lists .outside t M v ∧ test M = true := by
  simp only [methodAt, Option.any_eq_true, Bool.and_eq_true, decide_eq_true_eq] at h
  rcases h with ⟨⟨p, M⟩, hpath, ⟨rfl, hmethod⟩, htest⟩
  exact ⟨M, ⟨reaches_of_placeAt? hpath, hmethod⟩, htest⟩

/-- Whether the part at a path in the body of a method passes a test. -/
def inBodyAt (M : Tree) (stops : Tree → Bool) (path : List Nat) (test : Tree → Bool) : Bool :=
  (M.children[3]?).any fun body => (partAt? stops path body).any test

theorem within_of_inBodyAt {M : Tree} {stops test : Tree → Bool} {path : List Nat}
    (h : inBodyAt M stops path test = true) (v : Variables) :
    ∃ u, (∃ c ∈ M.children, Within stops v c v u) ∧ test u = true := by
  simp only [inBodyAt, Option.any_eq_true] at h
  rcases h with ⟨body, hbody, u, hu, htest⟩
  exact ⟨u, ⟨body, List.mem_of_getElem? hbody, within_of_partAt? hu⟩, htest⟩

/-- Whether a tree is a call of the name `m`, and what it is called on passes a test. -/
def isCallOn (m : String) (test : Tree → Bool) (u : Tree) : Bool :=
  u.kind == .methodInvocation && (u.child? .name).map (·.text) == some m &&
    (u.child? .object).any test

theorem isCallOn_iff {m : String} {test : Tree → Bool} :
    isCallOn m test u = true ↔ u.kind = .methodInvocation ∧
      (u.child? .name).map (·.text) = some m ∧
        ∃ object, u.child? .object = some object ∧ test object = true := by
  simp only [isCallOn, Bool.and_eq_true, beq_iff_eq, Option.any_eq_true, and_assoc]

end ChangeImpact.Java
