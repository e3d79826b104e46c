import ChangeImpact.Java.Extraction
import Mathlib.Data.List.Basic

/-!
# The walk with its stacks

The walk over a syntax tree keeps a stack of active declarations and forgets it when it is done.
Here it is followed with one more list at hand: for every declaration, the stack at the moment when
the declaration was made. The declarations themselves are the same (`found_trace`).

* `Tree.nested` — parts lie in the rows of what they are part of;
* `Trace`, `trace` — the walk with the stacks written down; `activeAt` — the stack of a declaration;
* `found_trace` — following the walk changes nothing of what it finds.
-/

namespace ChangeImpact.Java

/-! ## Rows -/

namespace Tree

/-- Whether the tree is a token that the text lacks. It stands in no row. -/
def isMissing : Tree → Bool
  | missing => true
  | _ => false

/-- Whether the rows of a part lie in those of the whole. -/
def inRowsOf (part whole : Tree) : Bool :=
  whole.startRow ≤ part.startRow && part.endRow ≤ whole.endRow

mutual

/-- Whether every part lies in the rows of what it is part of. -/
def nested : Tree → Bool
  | leaf _ _ => true
  | missing => true
  | node k cs => nestedIn (node k cs) cs

/-- The same for the parts of a tree. -/
def nestedIn (whole : Tree) : List Child → Bool
  | [] => true
  | (_, c) :: cs => (c.isMissing || c.inRowsOf whole) && c.nested && nestedIn whole cs

end

variable {t c : Tree}

theorem nestedIn_mem {whole : Tree} {cs : List Child} (h : nestedIn whole cs = true)
    (hc : c ∈ cs.map (·.2)) : (c.isMissing || c.inRowsOf whole) = true ∧ c.nested = true := by
  induction cs with
  | nil => simp at hc
  | cons p cs ih =>
    obtain ⟨field, first⟩ := p
    rw [nestedIn, Bool.and_eq_true, Bool.and_eq_true] at h
    rcases List.mem_cons.1 hc with rfl | hc
    · exact h.1
    · exact ih h.2 hc

theorem nested_child (h : t.nested = true) (hc : c ∈ t.children) :
    (c.isMissing || c.inRowsOf t) = true ∧ c.nested = true := by
  cases t with
  | leaf | missing => simp [children, labelled] at hc
  | node k cs => exact nestedIn_mem h hc

theorem not_isMissing_of_child (hc : c ∈ t.children) : t.isMissing = false := by
  cases t with
  | missing => simp [children, labelled] at hc
  | leaf | node => rfl

theorem not_isMissing_of_kind (h : t.kind ≠ .token) : t.isMissing = false := by
  cases t with
  | missing => exact absurd rfl h
  | leaf | node => rfl

end Tree

/-- The lines of a declaration contain the rows of a tree. -/
def Encloses (d : Declaration) (t : Tree) : Prop :=
  t.isMissing = false → d.startLine ≤ t.startRow + 1 ∧ t.endRow + 1 ≤ d.endLine

theorem Encloses.child {d : Declaration} {t c : Tree} (h : Encloses d t) (ht : t.nested = true)
    (hc : c ∈ t.children) : Encloses d c := by
  intro hthere
  obtain ⟨hstart, hend⟩ := h (Tree.not_isMissing_of_child hc)
  have hrows := (Tree.nested_child ht hc).1
  simp only [hthere, Bool.false_or, Tree.inRowsOf, Bool.and_eq_true, decide_eq_true_eq] at hrows
  omega

/-! ## Stacks written down -/

/-- What the walk has found, and for every declaration the stack at the time. -/
structure Trace where
  found : Found
  around : List (List Nat)

namespace Trace

/-- Before the walk. -/
def start : Trace := ⟨⟨none, [], 0⟩, []⟩

/-- The declarations so far. -/
abbrev declarations (w : Trace) : List Declaration := w.found.declarations

/-- Adds a declaration; its index is the number of those before. -/
def declare (w : Trace) (active : List Nat) (owner name : String) (t : Tree)
    (kind : Declaration.Kind) : Trace :=
  ⟨(w.found.declare owner name t kind).2, w.around ++ [active]⟩

/-- Counts a call for the active declarations. -/
def record (w : Trace) (active : List Nat) (target : Option String) : Trace :=
  ⟨w.found.record active target, w.around⟩

/-- Takes a number for an anonymous body. -/
def openBody (w : Trace) : Trace :=
  ⟨{ w.found with bodies := w.found.bodies + 1 }, w.around⟩

end Trace

/-- Where the children of a type declaration stand; other trees leave the scope as it is. -/
def enterType (s : Scope) (package : Option String) (t : Tree) : Scope :=
  if isTypeDeclaration t.kind then
    match t.child? .name with
    | some name =>
      { owner := some (qualifiedOwner s.owner package name.text)
        enclosing := none
        active := []
        known := collectMembers t s.known }
    | none => s
  else s

/-- What is done at a tree before its children, and where they stand. -/
def enter (s : Scope) (w : Trace) (t : Tree) : Scope × Trace :=
  match t.kind with
  | .packageDeclaration => (s, ⟨{ w.found with package := packageName? t }, w.around⟩)
  | .methodDeclaration =>
    match s.owner, t.child? .name with
    | some owner, some name =>
      (⟨s.owner, some name.text, [w.declarations.length], locals t s.known⟩,
        w.declare s.active owner name.text t .method)
    | _, _ => (s, w)
  | .constructorDeclaration | .compactConstructor => (⟨s.owner, none, [], s.known⟩, w)
  | .lambda =>
    match s.owner with
    | some owner =>
      ({ s with active := s.active ++ [w.declarations.length] },
        w.declare s.active owner (s.enclosing.getD unknownMethod) t .closure)
    | none => (s, w)
  | .methodInvocation => (s, w.record s.active (callTarget? s.known t))
  | .methodReference => (s, w.record s.active (referenceTarget? s.known t))
  | _ => (enterType s w.found.package t, w)

/-- Whether the walk goes on below a tree. -/
def descends (k : Kind) : Bool := k != .packageDeclaration && k != .methodReference

/-- The parts of an expression that creates an object, without its anonymous body. -/
def otherParts (t : Tree) : List Tree :=
  match t.namedChildren.findIdx? (·.kind == .classBody) with
  | some i => t.namedChildren.eraseIdx i
  | none => t.namedChildren

theorem otherParts_eq_eraseP (t : Tree) :
    otherParts t = t.namedChildren.eraseP (·.kind == .classBody) := by
  rw [List.eraseP_eq_eraseIdx]
  unfold otherParts
  cases t.namedChildren.findIdx? (·.kind == .classBody) <;> rfl

/-- The anonymous body of an expression that creates an object. -/
def anonymousBody? (t : Tree) : Option Tree := t.namedChildren.find? (·.kind == .classBody)

/-- A member of an anonymous body, given the walk below. -/
def traceMember (below : Scope → Trace → Tree → Trace) (s : Scope) (body : Nat) (w : Trace)
    (member : Tree) : Trace :=
  match anonymousMember? s member with
  | some (owner, name) =>
    let inner : Scope :=
      { s with
        enclosing := some name
        active := s.active ++ [w.declarations.length]
        known := locals member s.known }
    member.children.foldl (below inner)
      (w.declare s.active owner name member (.anonymousMethod body))
  | none => below s w member

/-- One level of the walk, given the walk one and two levels below. -/
def traceLevel (below belowBody : Scope → Trace → Tree → Trace) (s : Scope) (w : Trace) (t : Tree) :
    Trace :=
  if t.kind = .objectCreation then
    let w := (otherParts t).foldl (below s) w
    match anonymousBody? t with
    | none => w
    | some body => body.children.foldl (traceMember belowBody s w.found.bodies) w.openBody
  else
    let entered := enter s w t
    if descends t.kind then t.children.foldl (below entered.1) entered.2 else entered.2

/-- Walks a tree, at most so many levels deep. -/
def trace : Nat → Scope → Trace → Tree → Trace
  | 0 => fun _ w _ => w
  | 1 => traceLevel (fun _ w _ => w) (fun _ w _ => w)
  | n + 2 => traceLevel (trace (n + 1)) (trace n)

/-- The stack at the time when the `i`-th declaration of a tree is made. -/
def activeAt (t : Tree) (i : Nat) : Option (List Nat) :=
  (trace (nestingLimit + 1) .outside .start t).around[i]?

/-! ## The same declarations -/

/-- What the walk does at a member of an anonymous body. -/
def visitMember (n : Nat) (s : Scope) (body : Nat) (f : Found) (member : Tree) : Found :=
  match anonymousMember? s member with
  | some (owner, name) =>
    member.children.foldl
      (visit n { s with
        enclosing := some name
        active := s.active ++ [f.declarations.length]
        known := locals member s.known })
      (f.declare owner name member (.anonymousMethod body)).2
  | none => visit n s f member

theorem visit_creation {t : Tree} (h : t.kind = .objectCreation) (n : Nat) (s : Scope) (f : Found) :
    visit (n + 1) s f t =
      let others := (otherParts t).foldl (visit n s) f
      match anonymousBody? t with
      | none => others
      | some body =>
        body.children.foldl (visitMember (n - 1) s others.bodies)
          { others with bodies := others.bodies + 1 } := by
  rw [visit]
  simp only [h]
  cases n with
  | zero => rfl
  | succ m => rfl

theorem visit_entered {t : Tree} (h : t.kind ≠ .objectCreation) (n : Nat) (s : Scope) (w : Trace) :
    visit (n + 1) s w.found t =
      if descends t.kind then t.children.foldl (visit n (enter s w t).1) (enter s w t).2.found
      else (enter s w t).2.found := by
  obtain ⟨owner, enclosing, active, known⟩ := s
  rw [visit]
  dsimp only
  split
  · next hk => simp [enter, hk, descends]
  · next hk =>
    rw [enter, hk, if_pos (by decide)]
    cases owner <;> cases t.child? .name <;> rfl
  · next hk => rw [enter, hk, if_pos (by decide)]
  · next hk => rw [enter, hk, if_pos (by decide)]
  · next hk =>
    rw [enter, hk, if_pos (by decide)]
    cases owner <;> rfl
  · next hk => exact absurd hk h
  · next hk =>
    rw [enter, hk, if_pos (by decide)]
    rfl
  · next hk =>
    rw [enter, hk, if_neg (by decide)]
    rfl
  · -- every other kind is entered as a type declaration or not at all
    next hpackage _ _ _ _ _ _ hreference =>
    have hdescends : descends t.kind = true := by
      simp only [descends, Bool.and_eq_true, bne_iff_ne]
      exact ⟨hpackage, hreference⟩
    have henter : enter ⟨owner, enclosing, active, known⟩ w t =
        (enterType ⟨owner, enclosing, active, known⟩ w.found.package t, w) := by
      unfold enter
      split <;> first | contradiction | rfl
    rw [if_pos hdescends, henter, enterType]
    split
    · cases t.child? .name <;> rfl
    · rfl

/-- A walk with stacks finds what the walk finds. -/
def Follows (v : Scope → Trace → Tree → Trace) (n : Nat) : Prop :=
  ∀ s w t, (v s w t).found = visit n s w.found t

theorem Follows.foldl {v : Scope → Trace → Tree → Trace} {n : Nat} (h : Follows v n) (s : Scope)
    (w : Trace) (cs : List Tree) :
    (cs.foldl (v s) w).found = cs.foldl (visit n s) w.found := by
  induction cs generalizing w with
  | nil => rfl
  | cons c cs ih => rw [List.foldl_cons, List.foldl_cons, ih, h]

theorem Follows.foldl_member {v : Scope → Trace → Tree → Trace} {n : Nat} (h : Follows v n)
    (s : Scope) (body : Nat) (w : Trace) (members : List Tree) :
    (members.foldl (traceMember v s body) w).found =
      members.foldl (visitMember n s body) w.found := by
  induction members generalizing w with
  | nil => rfl
  | cons member members ih =>
    rw [List.foldl_cons, List.foldl_cons, ih]
    congr 1
    unfold traceMember visitMember
    cases anonymousMember? s member with
    | none => exact h s w member
    | some p => exact h.foldl _ _ _

theorem follows_level {below belowBody : Scope → Trace → Tree → Trace} {n : Nat}
    (hbelow : Follows below n) (hbody : Follows belowBody (n - 1)) :
    Follows (traceLevel below belowBody) (n + 1) := by
  intro s w t
  unfold traceLevel
  by_cases hcreation : t.kind = .objectCreation
  · rw [if_pos hcreation, visit_creation hcreation]
    dsimp only
    rw [← hbelow.foldl]
    cases anonymousBody? t with
    | none => rfl
    | some body => exact hbody.foldl_member _ _ _ _
  · rw [if_neg hcreation, visit_entered hcreation]
    dsimp only
    split
    · exact hbelow.foldl _ _ _
    · rfl

/-- The walk that is followed is the walk. -/
theorem found_trace : ∀ n, Follows (trace n) n
  | 0 => fun _ _ _ => rfl
  | 1 => follows_level (fun _ _ _ => rfl) (fun _ _ _ => rfl)
  | n + 2 => follows_level (found_trace (n + 1)) (found_trace n)

end ChangeImpact.Java
