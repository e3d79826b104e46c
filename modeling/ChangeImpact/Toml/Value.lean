/-!
# TOML values

* `Toml` — a value; a table remembers how it came to be, since that decides who may add to it;
* `Members.assign` — a key and its value enter a table;
* `Draft` — a document that is being read, with the table under the last header apart;
* `Statement` — a line of a document, and what it does to a draft.
-/

namespace ChangeImpact

/-- How a table came to be. -/
inductive Toml.Form where
  /-- A header named it, or it is the document. -/
  | defined
  /-- A header named a table inside it. -/
  | implied
  /-- A dotted key went through it. -/
  | dotted
  /-- It stands in braces. -/
  | closed
deriving DecidableEq, Repr

/-- A TOML value. Of floats and moments only the text is kept. -/
inductive Toml where
  | str (text : String)
  | int (value : Int)
  | float (text : String)
  | bool (value : Bool)
  | moment (text : String)
  | array (items : List Toml)
  | table (form : Toml.Form) (members : List (String × Toml))
  /-- Tables under headers in double brackets; the last one is apart. -/
  | tables (before : List (List (String × Toml))) (last : List (String × Toml))

namespace Toml

/-- Keys with their values, each key once. -/
abbrev Members := List (String × Toml)

namespace Members

/-- The value of a key. -/
def get? (key : String) (ms : Members) : Option Toml :=
  List.lookup key ms

/-- Sets the value of a key, in its place when the key is there. -/
def put (key : String) (value : Toml) : Members → Members
  | [] => [(key, value)]
  | (k, v) :: ms => if k = key then (k, value) :: ms else (k, v) :: put key value ms

/-- A key and its value enter a table, below the tables that a path of keys names. These are made
where they are missing. A table that was not made by dotted keys takes no member from them, though
a path may lead on through one that only headers imply. -/
def assign (key : String) (value : Toml) : List String → Members → Option Members
  | [], ms =>
    match ms.get? key with
    | none => some (ms ++ [(key, value)])
    | some _ => none
  | step :: steps, ms =>
    match ms.get? step with
    | none => (assign key value steps []).map fun sub => ms ++ [(step, .table .dotted sub)]
    | some (.table .dotted sub) =>
      (assign key value steps sub).map fun sub => ms.put step (.table .dotted sub)
    | some (.table .implied sub) =>
      if steps = [] then none
      else (assign key value steps sub).map fun sub => ms.put step (.table .implied sub)
    | some (.tables before last) =>
      if steps = [] then none
      else (assign key value steps last).map fun last => ms.put step (.tables before last)
    | some _ => none

/-- Changes the table at a path of header keys. Missing tables are implied; of tables in double
brackets the last one is meant. -/
def within (change : Members → Option Members) : List String → Members → Option Members
  | [], ms => change ms
  | step :: steps, ms =>
    match ms.get? step with
    | none => (within change steps []).map fun sub => ms ++ [(step, .table .implied sub)]
    | some (.table .closed _) => none
    | some (.table form sub) =>
      (within change steps sub).map fun sub => ms.put step (.table form sub)
    | some (.tables before last) =>
      (within change steps last).map fun last => ms.put step (.tables before last)
    | some _ => none

/-- The value at a path of header keys, none inside where nothing is there yet; none outside where
the path does not lead through tables. -/
def find (key : String) : List String → Members → Option (Option Toml)
  | [], ms => some (ms.get? key)
  | step :: steps, ms =>
    match ms.get? step with
    | none => some none
    | some (.table .closed _) => none
    | some (.table _ sub) => find key steps sub
    | some (.tables _ last) => find key steps last
    | some _ => none

end Members

/-- The header that the coming members stand under. -/
inductive Header where
  | document
  | table (path : List String) (key : String)
  | tables (path : List String) (key : String)
deriving DecidableEq, Repr

/-- A document that is being read. -/
structure Draft where
  /-- What stands under earlier headers. -/
  done : Members
  header : Header
  /-- What stands under the last header. -/
  current : Members

/-- The draft of an empty document. -/
def Draft.empty : Draft := ⟨[], .document, []⟩

/-- The document with the table under the last header in its place. -/
def Draft.close (d : Draft) : Option Members :=
  match d.header with
  | .document => some d.current
  | .table path key => d.done.within (fun ms => some (ms.put key (.table .defined d.current))) path
  | .tables path key =>
    d.done.within (fun ms =>
      match ms.get? key with
      | none => some (ms ++ [(key, .tables [] d.current)])
      | some (.tables before last) => some (ms.put key (.tables (before ++ [last]) d.current))
      | some _ => none) path

/-- One statement of a document. -/
inductive Statement where
  | assign (path : List String) (key : String) (value : Toml)
  | header (header : Header)

/-- What a statement does to a draft. A header may take over a table that earlier headers only
implied, and may repeat in double brackets; every other repetition is refused. -/
def Statement.run (d : Draft) : Statement → Option Draft
  | .assign path key value =>
    (d.current.assign key value path).map fun current => { d with current }
  | .header .document => none
  | .header (.table path key) => do
    let done ← d.close
    match ← done.find key path with
    | none => some ⟨done, .table path key, []⟩
    | some (.table .implied sub) => some ⟨done, .table path key, sub⟩
    | some _ => none
  | .header (.tables path key) => do
    let done ← d.close
    match ← done.find key path with
    | none | some (.tables _ _) => some ⟨done, .tables path key, []⟩
    | some _ => none

/-- The document that statements make. -/
def ofStatements (statements : List Statement) : Option Members := do
  let d ← statements.foldlM Statement.run .empty
  d.close

end Toml

end ChangeImpact
