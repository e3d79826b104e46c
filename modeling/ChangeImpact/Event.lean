/-!
# Events of an inspection

An inspection tells its observers what happens. A dispatcher holds observers in the order in which
they were registered and offers every event to each of them; an observer that fails keeps the event
from no other.

* `Event` — what can happen;
* `Dispatcher` — observers in order; `Dispatcher.emit` — offers an event to all of them;
* `Switchboard` — several dispatchers; `Switchboard.run` — makes, copies and uses them;
* `Observer` — an observer that notes what it hears, may fail on some kinds of events and may ask
  for cancellation after a number of commits.
-/

namespace ChangeImpact

/-- Something that happens during an inspection. -/
inductive Event where
  | inspectionStarted (branch : String) (selected : Nat)
  | cacheHit (commit : String)
  | commitAnalyzed (commit : String) (changed impacted risk : Nat)
  | commitFailed (commit error : String)
  | inspectionComplete (analyzed cacheHits failed : Nat) (cancelled : Bool)
deriving DecidableEq, Repr

/-- The kinds of events. -/
inductive Event.Kind where
  | inspectionStarted
  | cacheHit
  | commitAnalyzed
  | commitFailed
  | inspectionComplete
deriving DecidableEq, Repr

/-- The kind of an event. -/
def Event.kind : Event → Event.Kind
  | inspectionStarted .. => .inspectionStarted
  | cacheHit .. => .cacheHit
  | commitAnalyzed .. => .commitAnalyzed
  | commitFailed .. => .commitFailed
  | inspectionComplete .. => .inspectionComplete

/-- The name of a kind of events. -/
def Event.Kind.name : Event.Kind → String
  | inspectionStarted => "inspection_started"
  | cacheHit => "cache_hit"
  | commitAnalyzed => "commit_analyzed"
  | commitFailed => "commit_failed"
  | inspectionComplete => "inspection_complete"

/-- Whether the event reports a commit as done. -/
def Event.isCommitDone : Event → Bool
  | cacheHit .. => true
  | commitAnalyzed .. => true
  | _ => false

/-! ## Dispatch -/

/-- How an observer takes an event that it is offered. What it did before it failed stays done. -/
inductive Reaction (σ : Type) where
  | heard (s : σ)
  | failed (s : σ)
deriving DecidableEq, Repr

/-- What the observers share after a reaction. -/
def Reaction.state {σ : Type} : Reaction σ → σ
  | heard s => s
  | failed s => s

/-- Observers, in the order in which they were registered. -/
structure Dispatcher (η : Type) where
  observers : List η
deriving DecidableEq, Repr

namespace Dispatcher

variable {η σ : Type}

/-- A dispatcher without observers. -/
def empty : Dispatcher η := ⟨[]⟩

/-- Adds an observer at the end. -/
def register (d : Dispatcher η) (o : η) : Dispatcher η := ⟨d.observers ++ [o]⟩

/-- How many observers there are. -/
def count (d : Dispatcher η) : Nat := d.observers.length

/-- Offers an event to every observer in order. One that fails does not keep the event from the next
one. -/
def emit (d : Dispatcher η) (offer : η → Event → σ → Reaction σ) (e : Event) (s : σ) : σ :=
  d.observers.foldl (fun s o => (offer o e s).state) s

/-- The short description of a dispatcher. -/
def describe (d : Dispatcher η) : String :=
  "EventDispatcher \x7b handlers: " ++ toString d.count ++ " \x7d"

end Dispatcher

/-! ## Several dispatchers -/

/-- Dispatchers by their numbers, and what their observers share. -/
structure Switchboard (η σ : Type) where
  dispatchers : List (Dispatcher η)
  shared : σ

namespace Switchboard

variable {η σ : Type}

/-- What can be done with dispatchers. -/
inductive Action (η : Type) where
  /-- A further dispatcher, without observers. -/
  | create
  /-- A further dispatcher, with the observers that another one has now. -/
  | copy (source : Nat)
  | register (on : Nat) (o : η)
  | emit (on : Nat) (e : Event)
deriving DecidableEq, Repr

/-- One action; none if the dispatcher that it names is not there. -/
def step (offer : η → Event → σ → Reaction σ) (b : Switchboard η σ) :
    Action η → Option (Switchboard η σ)
  | .create => some { b with dispatchers := b.dispatchers ++ [.empty] }
  | .copy source =>
    b.dispatchers[source]?.map fun d => { b with dispatchers := b.dispatchers ++ [d] }
  | .register on o =>
    b.dispatchers[on]?.map fun d => { b with dispatchers := b.dispatchers.set on (d.register o) }
  | .emit on e => b.dispatchers[on]?.map fun d => { b with shared := d.emit offer e b.shared }

/-- The actions of a history, one after the other. -/
def run (offer : η → Event → σ → Reaction σ) (b : Switchboard η σ) (history : List (Action η)) :
    Option (Switchboard η σ) :=
  history.foldlM (step offer) b

end Switchboard

/-! ## Observers -/

/-- How an observer behaves. -/
inductive Observer where
  /-- Notes nothing. -/
  | silent
  /-- Notes every event but fails on some kinds; asks for cancellation once it has noted so many
  finished commits. -/
  | noting (failsOn : List Event.Kind) (cancelAfter : Option Nat)
deriving DecidableEq, Repr

/-- An event noted by the observer of a number. -/
structure Note where
  observer : Nat
  event : Event
deriving DecidableEq, Repr

/-- All observers, what they have noted so far, and whether cancellation was asked for. -/
structure Audience where
  observers : List Observer
  notes : List Note
  cancelled : Bool
deriving DecidableEq, Repr

/-- Nobody, and nothing noted. -/
def Audience.empty : Audience := ⟨[], [], false⟩

/-- How many finished commits an observer has noted. -/
def Audience.commitsDone (a : Audience) (i : Nat) : Nat :=
  a.notes.countP fun n => n.observer == i && n.event.isCommitDone

/-- Offers an event to the `i`-th observer. One that fails has noted nothing. -/
def Audience.offer (i : Nat) (e : Event) (a : Audience) : Reaction Audience :=
  match a.observers[i]? with
  | none => .heard a
  | some .silent => .heard a
  | some (.noting failsOn cancelAfter) =>
    if failsOn.contains e.kind then .failed a
    else
      let a := { a with notes := a.notes ++ [(⟨i, e⟩ : Note)] }
      let enough := e.isCommitDone && cancelAfter.any (· ≤ a.commitsDone i)
      .heard { a with cancelled := a.cancelled || enough }

end ChangeImpact
