import ChangeImpact.Proofs.JavaWalk

/-!
# The walk with a journal

The walk over a syntax tree with all of its steps written down: for every declaration the place of
the tree that it was made from, for every call the stack at the time and how many declarations there
were, and the places of the anonymous bodies in the order in which they were entered. A place is the
path of child numbers that leads to it from the root, so that equal trees in two places are told
apart.

* `Tree.at?`, `Spot` — paths, and trees with the paths that lead to them;
* `Deed`, `deedAt` — what the walk does at a tree before its children; `enter_eq` — it is that;
* `Journal`, `journal` — the walk with all that written down;
* `trace_journal` — the journal changes nothing of what the walk does.
-/

namespace ChangeImpact.Java

/-! ## Places -/

/-- The part of a tree that a path of child numbers leads to. -/
def Tree.at? (t : Tree) : List Nat → Option Tree
  | [] => some t
  | i :: path => (t.children[i]?).bind fun c => c.at? path

theorem Tree.at?_concat (t : Tree) (path : List Nat) (i : Nat) :
    t.at? (path ++ [i]) = (t.at? path).bind fun u => u.children[i]? := by
  induction path generalizing t with
  | nil =>
    rw [List.nil_append, Tree.at?, Tree.at?, Option.bind_some]
    cases t.children[i]? <;> rfl
  | cons j path ih =>
    rw [List.cons_append, Tree.at?, Tree.at?]
    cases t.children[j]? with
    | none => rfl
    | some c => exact ih c

/-- A tree and the path that leads to it. -/
structure Spot where
  path : List Nat
  tree : Tree

namespace Spot

/-- The children, each with its own path. -/
def kids (p : Spot) : List Spot := p.tree.children.mapIdx fun i c => ⟨p.path ++ [i], c⟩

/-- The children that are more than marks of structure. -/
def parts (p : Spot) : List Spot := p.kids.filter (·.tree.isNamed)

/-- The parts of an expression that creates an object, without its anonymous body. -/
def otherParts (p : Spot) : List Spot := p.parts.eraseP (·.tree.kind == .classBody)

/-- The anonymous body of an expression that creates an object. -/
def body? (p : Spot) : Option Spot := p.parts.find? (·.tree.kind == .classBody)

theorem map_kids (p : Spot) : p.kids.map (·.tree) = p.tree.children := by
  refine List.ext_getElem? fun i => ?_
  rw [kids, List.getElem?_map, List.getElem?_mapIdx, Option.map_map]
  exact Option.map_id_apply

theorem map_parts (p : Spot) : p.parts.map (·.tree) = p.tree.namedChildren := by
  unfold parts Tree.namedChildren
  rw [← map_kids, List.filter_map]
  rfl

theorem map_otherParts (p : Spot) : p.otherParts.map (·.tree) = Java.otherParts p.tree := by
  unfold otherParts
  rw [otherParts_eq_eraseP, ← map_parts, List.eraseP_map]
  rfl

theorem map_body? (p : Spot) : p.body?.map (·.tree) = anonymousBody? p.tree := by
  unfold body? anonymousBody?
  rw [← map_parts, List.find?_map]
  rfl

end Spot

/-! ## What is done at a tree -/

/-- What the walk does at a tree before its children. -/
inductive Deed where
  | pass
  | package (name : Option String)
  | declare (owner name : String) (kind : Declaration.Kind)
  | call (target : Option String)

/-- What the walk does at a tree that creates no object. -/
def deedAt (s : Scope) (t : Tree) : Deed :=
  match t.kind with
  | .packageDeclaration => .package (packageName? t)
  | .methodDeclaration =>
    match s.owner, t.child? .name with
    | some owner, some name => .declare owner name.text .method
    | _, _ => .pass
  | .lambda =>
    match s.owner with
    | some owner => .declare owner (s.enclosing.getD unknownMethod) .closure
    | none => .pass
  | .methodInvocation => .call (callTarget? s.known t)
  | .methodReference => .call (referenceTarget? s.known t)
  | _ => .pass

/-- Does it. -/
def Trace.perform (w : Trace) (active : List Nat) (t : Tree) : Deed → Trace
  | .pass => w
  | .package name => ⟨{ w.found with package := name }, w.around⟩
  | .declare owner name kind => w.declare active owner name t kind
  | .call target => w.record active target

/-- At trees of most kinds nothing is done. -/
theorem deedAt_eq_pass {s : Scope} {t : Tree} (hpackage : t.kind ≠ .packageDeclaration)
    (hmethod : t.kind ≠ .methodDeclaration) (hlambda : t.kind ≠ .lambda)
    (hcall : t.kind ≠ .methodInvocation) (hreference : t.kind ≠ .methodReference) :
    deedAt s t = .pass := by
  unfold deedAt
  split <;> first | contradiction | rfl

theorem enter_eq (s : Scope) (w : Trace) (t : Tree) :
    (enter s w t).2 = w.perform s.active t (deedAt s t) := by
  obtain ⟨owner, enclosing, active, known⟩ := s
  unfold enter
  split
  · next hkind => simp only [deedAt, hkind, Trace.perform]
  · next hkind =>
    simp only [deedAt, hkind]
    cases owner <;> cases t.child? .name <;> rfl
  · next hkind =>
    rw [deedAt_eq_pass] <;> simp [hkind, Trace.perform]
  · next hkind =>
    rw [deedAt_eq_pass] <;> simp [hkind, Trace.perform]
  · next hkind =>
    simp only [deedAt, hkind]
    cases owner <;> rfl
  · next hkind => simp only [deedAt, hkind, Trace.perform]
  · next hkind => simp only [deedAt, hkind, Trace.perform]
  · next hpackage hmethod _ _ hlambda hcall hreference =>
    rw [deedAt_eq_pass hpackage hmethod hlambda hcall hreference]
    rfl

theorem active_enterType (s : Scope) (package : Option String) (t : Tree) :
    enterType s package t = s ∨ (enterType s package t).active = [] := by
  unfold enterType
  split
  · cases t.child? .name with
    | none => exact .inl rfl
    | some name => exact .inr rfl
  · exact .inl rfl

/-- Where the children of a tree stand, by what is done at the tree: a method takes over from all
that is active, a closure is active too, and at other trees all stays active, or nothing does. -/
inductive Inside (s : Scope) (count : Nat) (t : Tree) : Deed → Scope → Prop where
  | method {owner name : String} {inner : Scope} (hkind : t.kind = .methodDeclaration)
    (howner : s.owner = some owner) (hname : (t.child? .name).map (·.text) = some name)
    (hinner : inner.owner = s.owner) (hactive : inner.active = [count]) :
    Inside s count t (.declare owner name .method) inner
  | closure {owner name : String} {inner : Scope} (hkind : t.kind = .lambda)
    (howner : s.owner = some owner) (hinner : inner.owner = s.owner)
    (hactive : inner.active = s.active ++ [count]) :
    Inside s count t (.declare owner name .closure) inner
  | same {deed : Deed} (hdeed : ∀ owner name kind, deed ≠ .declare owner name kind) :
    Inside s count t deed s
  | cleared {deed : Deed} {inner : Scope} (hdeed : deed = .pass) (hactive : inner.active = []) :
    Inside s count t deed inner

theorem inside_enter (s : Scope) (w : Trace) (t : Tree) :
    Inside s w.declarations.length t (deedAt s t) (enter s w t).1 := by
  obtain ⟨owner, enclosing, active, known⟩ := s
  unfold enter
  split
  · next hkind =>
    simp only [deedAt, hkind]
    exact .same (by simp)
  · next hkind =>
    simp only [deedAt, hkind]
    cases owner with
    | none => exact .same (by simp)
    | some owner =>
      cases hname : t.child? .name with
      | none => exact .same (by simp)
      | some name => exact .method hkind rfl (by rw [hname]; rfl) rfl rfl
  · next hkind =>
    rw [deedAt_eq_pass] <;> first | exact .cleared rfl rfl | simp [hkind]
  · next hkind =>
    rw [deedAt_eq_pass] <;> first | exact .cleared rfl rfl | simp [hkind]
  · next hkind =>
    simp only [deedAt, hkind]
    cases owner with
    | none => exact .same (by simp)
    | some owner => exact .closure hkind rfl rfl rfl
  · next hkind =>
    simp only [deedAt, hkind]
    exact .same (by simp)
  · next hkind =>
    simp only [deedAt, hkind]
    exact .same (by simp)
  · next hpackage hmethod _ _ hlambda hcall hreference =>
    rw [deedAt_eq_pass hpackage hmethod hlambda hcall hreference]
    rcases active_enterType ⟨owner, enclosing, active, known⟩ w.found.package t with hsame | hempty
    · dsimp only
      rw [hsame]
      exact .same (by simp)
    · exact .cleared rfl hempty

/-! ## The journal -/

/-- A call that was counted. -/
structure Call where
  /-- The declarations for which it counts. -/
  active : List Nat
  /-- How many declarations there were. -/
  declared : Nat
  target : String
deriving DecidableEq, Repr

/-- The walk so far, with its stacks, and what was written down on the way. -/
structure Journal where
  trace : Trace
  /-- For every declaration, where the tree stands that it was made from. -/
  places : List (List Nat)
  calls : List Call
  /-- Where the anonymous bodies stand, in the order in which they were entered. -/
  bodies : List (List Nat)

namespace Journal

/-- Before the walk. -/
def start : Journal := ⟨.start, [], [], []⟩

/-- What the walk has found so far. -/
abbrev found (w : Journal) : Found := w.trace.found

/-- The declarations so far. -/
abbrev declarations (w : Journal) : List Declaration := w.trace.declarations

/-- Adds a declaration, made from the tree at a spot. -/
def declare (w : Journal) (active : List Nat) (owner name : String) (p : Spot)
    (kind : Declaration.Kind) : Journal :=
  { w with
    trace := w.trace.declare active owner name p.tree kind
    places := w.places ++ [p.path] }

/-- Counts a call for the active declarations. -/
def record (w : Journal) (active : List Nat) : Option String → Journal
  | none => w
  | some target =>
    { w with
      trace := w.trace.record active (some target)
      calls := w.calls ++ [⟨active, w.declarations.length, target⟩] }

/-- Takes a number for an anonymous body. -/
def openBody (w : Journal) (body : Spot) : Journal :=
  { w with
    trace := w.trace.openBody
    bodies := w.bodies ++ [body.path] }

/-- Does what is done at a tree. -/
def perform (w : Journal) (active : List Nat) (p : Spot) : Deed → Journal
  | .pass => w
  | .package name => { w with trace := ⟨{ w.found with package := name }, w.trace.around⟩ }
  | .declare owner name kind => w.declare active owner name p kind
  | .call target => w.record active target

theorem trace_perform (w : Journal) (active : List Nat) (p : Spot) (deed : Deed) :
    (w.perform active p deed).trace = w.trace.perform active p.tree deed := by
  cases deed with
  | pass | package | declare => rfl
  | call target => cases target <;> rfl

end Journal

/-- A member of an anonymous body, given the walk below. -/
def journalMember (below : Scope → Journal → Spot → Journal) (s : Scope) (body : Nat) (w : Journal)
    (member : Spot) : Journal :=
  match anonymousMember? s member.tree with
  | some (owner, name) =>
    let inner : Scope :=
      { s with
        enclosing := some name
        active := s.active ++ [w.declarations.length]
        known := locals member.tree s.known }
    member.kids.foldl (below inner) (w.declare s.active owner name member (.anonymousMethod body))
  | none => below s w member

/-- One level of the walk, given the walk one and two levels below. -/
def journalLevel (below belowBody : Scope → Journal → Spot → Journal) (s : Scope) (w : Journal)
    (p : Spot) : Journal :=
  if p.tree.kind = .objectCreation then
    let w := p.otherParts.foldl (below s) w
    match p.body? with
    | none => w
    | some body => body.kids.foldl (journalMember belowBody s w.found.bodies) (w.openBody body)
  else
    let inside := (enter s w.trace p.tree).1
    let w := w.perform s.active p (deedAt s p.tree)
    if descends p.tree.kind then p.kids.foldl (below inside) w else w

/-- Walks a tree, at most so many levels deep. -/
def journal : Nat → Scope → Journal → Spot → Journal
  | 0 => fun _ w _ => w
  | 1 => journalLevel (fun _ w _ => w) (fun _ w _ => w)
  | n + 2 => journalLevel (journal (n + 1)) (journal n)

/-- What holds of walking nowhere, and of a level if it holds of the walks below, holds of the
walk. -/
theorem journal_induction {P : (Scope → Journal → Spot → Journal) → Prop}
    (nowhere : P fun _ w _ => w)
    (level : ∀ below belowBody, P below → P belowBody → P (journalLevel below belowBody)) :
    ∀ n, P (journal n)
  | 0 => nowhere
  | 1 => level _ _ nowhere nowhere
  | n + 2 => level _ _ (journal_induction nowhere level (n + 1)) (journal_induction nowhere level n)

/-- The journal of the walk over a whole tree. -/
def journalOf (t : Tree) : Journal := journal (nestingLimit + 1) .outside .start ⟨[], t⟩

/-! ## The same walk -/

/-- A walk with a journal does what a walk with stacks does. -/
def Copies (v : Scope → Journal → Spot → Journal) (u : Scope → Trace → Tree → Trace) : Prop :=
  ∀ s w p, (v s w p).trace = u s w.trace p.tree

theorem Copies.foldl {v : Scope → Journal → Spot → Journal} {u : Scope → Trace → Tree → Trace}
    (h : Copies v u) (s : Scope) (w : Journal) (ps : List Spot) :
    (ps.foldl (v s) w).trace = (ps.map (·.tree)).foldl (u s) w.trace := by
  induction ps generalizing w with
  | nil => rfl
  | cons p ps ih => rw [List.foldl_cons, ih, h, List.map_cons, List.foldl_cons]

theorem Copies.foldl_member {v : Scope → Journal → Spot → Journal}
    {u : Scope → Trace → Tree → Trace} (h : Copies v u) (s : Scope) (body : Nat) (w : Journal)
    (members : List Spot) :
    (members.foldl (journalMember v s body) w).trace =
      (members.map (·.tree)).foldl (traceMember u s body) w.trace := by
  induction members generalizing w with
  | nil => rfl
  | cons member members ih =>
    rw [List.foldl_cons, ih, List.map_cons, List.foldl_cons]
    congr 1
    unfold journalMember traceMember
    cases anonymousMember? s member.tree with
    | none => exact h s w member
    | some entry =>
      rw [← Spot.map_kids]
      exact h.foldl _ _ _

theorem copies_level {below belowBody : Scope → Journal → Spot → Journal}
    {below' belowBody' : Scope → Trace → Tree → Trace} (hbelow : Copies below below')
    (hbody : Copies belowBody belowBody') :
    Copies (journalLevel below belowBody) (traceLevel below' belowBody') := by
  intro s w p
  unfold journalLevel traceLevel
  by_cases hcreation : p.tree.kind = .objectCreation
  · rw [if_pos hcreation, if_pos hcreation, ← Spot.map_body?, ← Spot.map_otherParts]
    dsimp only
    rw [← hbelow.foldl]
    cases p.body? with
    | none => rfl
    | some body =>
      rw [Option.map_some]
      dsimp only
      rw [← Spot.map_kids]
      exact hbody.foldl_member _ _ _ _
  · rw [if_neg hcreation, if_neg hcreation]
    dsimp only
    rw [enter_eq, ← Journal.trace_perform]
    split
    · rw [← Spot.map_kids]
      exact hbelow.foldl _ _ _
    · rfl

/-- The journal is kept of the same walk. -/
theorem trace_journal : ∀ n, Copies (journal n) (trace n)
  | 0 => fun _ _ _ => rfl
  | 1 => copies_level (fun _ _ _ => rfl) (fun _ _ _ => rfl)
  | n + 2 => copies_level (trace_journal (n + 1)) (trace_journal n)

theorem trace_journalOf (t : Tree) :
    (journalOf t).trace = trace (nestingLimit + 1) .outside .start t :=
  trace_journal _ _ _ _

/-- The declarations of a tree are those in its journal. -/
theorem declarations_journalOf (t : Tree) : (journalOf t).declarations = declarations t := by
  rw [Journal.declarations, trace_journalOf, Trace.declarations, found_trace]
  rfl

end ChangeImpact.Java
