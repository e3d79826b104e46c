import ChangeImpact.Declaration
import ChangeImpact.Java.Tree

/-!
# Declarations in a syntax tree

A walk over the tree lists the methods, closures and methods of anonymous classes, with the calls
made in each. A call counts for every declaration around it, out to the next named type.

The receiver of a call is replaced by the type of the variable it names, if that is known: fields of
the types around the method, record components, parameters and local variables. The variables of a
method are collected before its body is walked; a later declaration of a name wins.

* `Variables` — types by variable names; `collectLocals`, `collectMembers` fill it;
* `callTarget?`, `referenceTarget?` — the text of a call;
* `visit` — the walk; it goes at most `nestingLimit` levels deep;
* `declarations` — what the walk finds.
-/

namespace ChangeImpact.Java

/-- How many levels of a tree are walked. -/
def nestingLimit : Nat := 512

/-! ## Variables -/

/-- Types by variable names; the first entry of a name counts. -/
abbrev Variables := List (String × String)

/-- The type of a variable. -/
def Variables.typeOf? (v : Variables) (name : String) : Option String :=
  (v.find? (·.1 == name)).map (·.2)

/-- The simple name of a class type without its arguments. Primitive types, arrays and inferred
types have none. -/
def typeName? (t : Tree) : Option String :=
  match t.kind with
  | .typeIdentifier => if t.text = "var" then none else some t.text
  | .scopedTypeIdentifier => some (Text.afterLast "." t.text)
  | .genericType =>
    let head := t.namedChildren.find? fun c =>
      c.kind == .typeIdentifier || c.kind == .scopedTypeIdentifier
    match head with
    | some c =>
      if c.kind = .scopedTypeIdentifier then some (Text.afterLast "." c.text)
      else if c.text = "var" then none
      else some c.text
    | none => none
  | _ => none

/-- Adds the variables of a field or local declaration. -/
def declareVariables (t : Tree) (v : Variables) : Variables :=
  match (t.child? .type).bind typeName? with
  | none => v
  | some type =>
    (t.namedChildren.filter (·.kind == .variableDeclarator)).foldl
      (fun v d =>
        match d.child? .name with
        | some name => (name.text, type) :: v
        | none => v) v

/-- Adds the variable that a tree declares on its own. -/
def declareOne (t : Tree) (v : Variables) : Variables :=
  match (t.child? .type).bind typeName?, t.child? .name with
  | some type, some name => (name.text, type) :: v
  | _, _ => v

/-- Adds parameters, local variables, loop variables and resources anywhere below a tree, at most so
many levels deep. Bodies of classes are left out. -/
def collectLocals : Nat → Tree → Variables → Variables
  | 0, _, v => v
  | n + 1, t, v =>
    if t.kind = .classBody then v
    else
      let v := match t.kind with
        | .localVariableDeclaration => declareVariables t v
        | .formalParameter | .enhancedFor | .resource => declareOne t v
        | _ => v
      t.namedChildren.foldl (fun v c => collectLocals n c v) v

/-- All local variables below a tree. -/
def locals (t : Tree) (v : Variables) : Variables := collectLocals (nestingLimit + 1) t v

/-- Adds the fields that a member of a type declares. -/
def collectMember (v : Variables) (member : Tree) : Variables :=
  match member.kind with
  | .fieldDeclaration | .constantDeclaration => declareVariables member v
  | .enumBodyDeclarations =>
    (member.namedChildren.filter (·.kind == .fieldDeclaration)).foldl
      (fun v d => declareVariables d v) v
  | _ => v

/-- Adds the record components and fields of a type. -/
def collectMembers (t : Tree) (v : Variables) : Variables :=
  let v := match t.child? .parameters with
    | some parameters => locals parameters v
    | none => v
  match t.child? .body with
  | some body => body.namedChildren.foldl collectMember v
  | none => v

/-! ## Calls -/

/-- The receiver of a call, if it has a name. -/
def receiver? (v : Variables) (object : Tree) : Option String :=
  let typed (name : String) : String := (v.typeOf? name).getD name
  match object.kind with
  | .identifier => some (typed object.text)
  | .typeIdentifier => some object.text
  | .fieldAccess =>
    (object.child? .member).map fun field =>
      if (object.child? .object).any (·.kind == .this) then typed field.text else field.text
  | .scopedIdentifier | .scopedTypeIdentifier => some (Text.afterLast "." object.text)
  | _ => none

/-- `receiver.name`, or the name alone. -/
def qualify (receiver : Option String) (name : String) : String :=
  match receiver with
  | some r => r ++ "." ++ name
  | none => name

/-- What a call calls. -/
def callTarget? (v : Variables) (t : Tree) : Option String :=
  (t.child? .name).map fun name =>
    qualify ((t.child? .object).bind (receiver? v)) name.text

/-- What a method reference refers to; references to constructors are left out. -/
def referenceTarget? (v : Variables) (t : Tree) : Option String :=
  match t.children with
  | [] => none
  | first :: rest =>
    let last := (first :: rest).getLastD first
    if last.kind ≠ .identifier then none
    else
      let receiver := if rest.isEmpty then none else receiver? v first
      some (qualify receiver last.text)

/-! ## The walk -/

/-- Where the walk is. -/
structure Scope where
  /-- The qualified name of the innermost named type. -/
  owner : Option String
  /-- The name of the innermost method. -/
  enclosing : Option String
  /-- The declarations for which calls count here. -/
  active : List Nat
  known : Variables

/-- Outside of everything. -/
def Scope.outside : Scope := ⟨none, none, [], []⟩

/-- What the walk has found. -/
structure Found where
  package : Option String
  declarations : List Declaration
  /-- How many anonymous bodies were entered. -/
  bodies : Nat

/-- Names of annotations before a declaration. -/
def annotationNames (t : Tree) : List String :=
  (t.children.filter (·.kind == .modifiers)).flatMap fun m =>
    (m.children.filter fun a => a.kind == .annotationMarker || a.kind == .annotationUse).filterMap
      fun a => (a.child? .name).map (·.text)

/-- Adds a declaration and gives its index. -/
def Found.declare (f : Found) (owner name : String) (t : Tree) (kind : Declaration.Kind) :
    Nat × Found :=
  let d : Declaration :=
    { owner := owner
      name := name
      startLine := t.startRow + 1
      endLine := t.endRow + 1
      kind := kind
      annotations := if kind = .closure then [] else annotationNames t
      targets := [] }
  (f.declarations.length, { f with declarations := f.declarations ++ [d] })

/-- Adds a call to a declaration. -/
def addTarget (target : String) (d : Declaration) : Declaration :=
  { d with targets := d.targets ++ [target] }

/-- Counts a call for the active declarations. -/
def Found.record (f : Found) (active : List Nat) (target : Option String) : Found :=
  match target with
  | none => f
  | some target =>
    { f with
      declarations := active.foldl (fun ds i => ds.modify i (addTarget target)) f.declarations }

/-- The name of a type inside of another or of a package. -/
def qualifiedOwner (outer package : Option String) (name : String) : String :=
  match outer, package with
  | some outer, _ => outer ++ "$" ++ name
  | none, some package => package ++ "." ++ name
  | none, none => name

/-- The name of closures outside of methods. -/
def unknownMethod : String := "unknown"

/-- The package that a tree declares. -/
def packageName? (t : Tree) : Option String :=
  (t.namedChildren.find? fun c => c.kind == .scopedIdentifier || c.kind == .identifier).map
    (·.text)

/-- A type declaration. -/
def isTypeDeclaration (k : Kind) : Bool :=
  k == .classDeclaration || k == .interfaceDeclaration || k == .enumDeclaration ||
    k == .recordDeclaration

/-- A member of an anonymous body that becomes a declaration, with its owner and name. -/
def anonymousMember? (s : Scope) (member : Tree) : Option (String × String) :=
  if member.kind = .methodDeclaration then
    match s.owner, member.child? .name with
    | some owner, some name => some (owner, name.text)
    | _, _ => none
  else none

/-- Walks a tree, at most so many levels deep. -/
def visit : Nat → Scope → Found → Tree → Found
  | 0, _, f, _ => f
  | n + 1, s, f, t =>
    let below (s : Scope) (f : Found) : Found := t.children.foldl (visit n s) f
    -- Members of an anonymous body stand two levels below the expression.
    let inBody : Scope → Found → Tree → Found := match n with
      | 0 => fun _ f _ => f
      | m + 1 => visit m
    match t.kind with
    | .packageDeclaration => { f with package := packageName? t }
    | .methodDeclaration =>
      match s.owner, t.child? .name with
      | some owner, some name =>
        let (i, f) := f.declare owner name.text t .method
        below ⟨s.owner, some name.text, [i], locals t s.known⟩ f
      | _, _ => below s f
    | .constructorDeclaration | .compactConstructor =>
      -- Constructors are no vertices, and their calls count for nothing.
      below ⟨s.owner, none, [], s.known⟩ f
    | .lambda =>
      match s.owner with
      | some owner =>
        let (i, f) := f.declare owner (s.enclosing.getD unknownMethod) t .closure
        below { s with active := s.active ++ [i] } f
      | none => below s f
    | .objectCreation =>
      let parts := t.namedChildren
      let others := match parts.findIdx? (·.kind == .classBody) with
        | some i => parts.eraseIdx i
        | none => parts
      let f := others.foldl (visit n s) f
      match parts.find? (·.kind == .classBody) with
      | none => f
      | some body =>
        let ordinal := f.bodies
        body.children.foldl
          (fun f member =>
            match anonymousMember? s member with
            | some (owner, name) =>
              let (i, f) := f.declare owner name member (.anonymousMethod ordinal)
              let inner : Scope :=
                { s with
                  enclosing := some name
                  active := s.active ++ [i]
                  known := locals member s.known }
              member.children.foldl (inBody inner) f
            | none => inBody s f member)
          { f with bodies := f.bodies + 1 }
    | .methodInvocation => below s (f.record s.active (callTarget? s.known t))
    | .methodReference => f.record s.active (referenceTarget? s.known t)
    | k =>
      if isTypeDeclaration k then
        match t.child? .name with
        | some name =>
          below
            { owner := some (qualifiedOwner s.owner f.package name.text)
              enclosing := none
              active := []
              known := collectMembers t s.known } f
        | none => below s f
      else below s f

/-- The declarations of a tree, in the order in which the walk meets them. -/
def declarations (t : Tree) : List Declaration :=
  (visit (nestingLimit + 1) .outside ⟨none, [], 0⟩ t).declarations

end ChangeImpact.Java
