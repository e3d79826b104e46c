/-!
# Cancellation tokens

A token is a handle to a flag that can be raised once. Copies of a token share its flag.
-/

namespace ChangeImpact

/-- Tokens by number, and the flags they stand for. -/
structure Tokens where
  flags : List Bool
  /-- The flag of each token. -/
  handles : List Nat
deriving DecidableEq, Repr

namespace Tokens

/-- One token, not cancelled. -/
def single : Tokens := ⟨[false], [0]⟩

/-- A further token with a flag of its own. -/
def create (t : Tokens) : Tokens :=
  ⟨t.flags ++ [false], t.handles ++ [t.flags.length]⟩

/-- A further token with the flag of the `i`-th. -/
def copy (t : Tokens) (i : Nat) : Option Tokens :=
  t.handles[i]?.map fun flag => { t with handles := t.handles ++ [flag] }

/-- Raises the flag of the `i`-th token. -/
def cancel (t : Tokens) (i : Nat) : Option Tokens :=
  t.handles[i]?.map fun flag => { t with flags := t.flags.set flag true }

/-- Whether the flag of the `i`-th token is raised. -/
def isCancelled (t : Tokens) (i : Nat) : Bool :=
  (t.handles[i]?.bind (t.flags[·]?)).getD false

/-- The state of every token. -/
def states (t : Tokens) : List Bool :=
  (List.range t.handles.length).map t.isCancelled

end Tokens

end ChangeImpact
