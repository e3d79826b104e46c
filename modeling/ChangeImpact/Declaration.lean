import ChangeImpact.Method.Synthetic

/-!
# Declarations

What a source file declares: ordinary methods, closures and members of anonymous classes, each with
its lines, annotations and the calls in its body.

A call is kept as a text, `name` or `receiver.name`, to be resolved once the whole unit is known.
-/

namespace ChangeImpact

/-- What kind of callable a declaration is. -/
inductive Declaration.Kind where
  /-- A named method of a named type. -/
  | method
  /-- A closure; it carries the name of the method around it. -/
  | closure
  /-- A method of the `body`-th anonymous class of its file, counted from 0. -/
  | anonymousMethod (body : Nat)
deriving DecidableEq, Repr

/-- A callable declared in a source file. -/
structure Declaration where
  owner : String
  name : String
  /-- First line, counted from 1. -/
  startLine : Nat
  /-- Last line, inclusive. -/
  endLine : Nat
  kind : Declaration.Kind
  /-- Annotation names as written, without arguments. -/
  annotations : List String
  /-- Calls in the body, `name` or `receiver.name`, in the order they are met. -/
  targets : List String
deriving DecidableEq, Repr

/-- The method that the declaration's own owner and name spell. -/
def Declaration.ownMethod (d : Declaration) : Method :=
  ⟨d.owner, d.name⟩

/-- The declarations of one source file. -/
structure SourceFacts where
  path : String
  declarations : List Declaration
  /-- How many places of the text the grammar did not fit. -/
  faults : Nat
deriving DecidableEq, Repr

end ChangeImpact
