import ChangeImpact.Proofs.MintedNames
import Mathlib.Data.List.Nodup
import Mathlib.Data.Set.Insert
import Mathlib.Tactic.Tauto

/-!
# Resolution by its rules

An index answers from three tables that grow with every declared method. What it answers hangs on
the set of these methods only, and can be said without tables.

* `Text.IsLastSegment` — the part of a text behind its last dot;
* `Around` — a type, and the types around it by their names;
* `Meaning` — the four rules, over a set of methods;
* `Index.Tracks` — the tables are in step with a set of methods: `Index.Tracks.insert` for one
  method, `tracks_ofList` for all of them;
* `resolve_iff_meaning` — tables in step resolve by the rules;
* `resolution_follows_rules` — so does the index of every list of methods.
-/

namespace ChangeImpact

/-! ## The last segment -/

namespace Text

theorem not_mem_of_splitLast_eq_none {c : Char} {cs : List Char} (h : splitLast [c] cs = none) :
    c ∉ cs := by
  induction cs with
  | nil => exact List.not_mem_nil
  | cons d cs ih =>
    rw [splitLast] at h
    split at h
    · cases h
    · next hrest =>
      split at h
      · cases h
      · next hhere =>
        have hne : c ≠ d := by
          intro hcd
          exact hhere (by simp [hcd])
        exact List.not_mem_cons_of_ne_of_not_mem hne (ih hrest)

theorem not_mem_of_splitLast {c : Char} {cs before after : List Char}
    (h : splitLast [c] cs = some (before, after)) : c ∉ after := by
  induction cs generalizing before with
  | nil => cases h
  | cons d cs ih =>
    rw [splitLast] at h
    split at h
    · next hrest =>
      cases h
      exact ih hrest
    · next hrest =>
      split at h
      · cases h
        exact not_mem_of_splitLast_eq_none hrest
      · cases h

/-- The part of a text behind its last dot, or all of it if it has none. -/
def IsLastSegment (s tail : String) : Prop :=
  '.' ∉ tail.toList ∧ (s = tail ∨ ∃ front, s = front ++ "." ++ tail)

theorem cutLast_dot {front tail : String} (h : '.' ∉ tail.toList) :
    cutLast "." (front ++ "." ++ tail) = some (front, tail) := by
  have hsplit : splitLast ['.'] (front.toList ++ ['.'] ++ tail.toList) =
      some (front.toList, tail.toList) :=
    splitLast_numbered (splitLast_of_not_mem h) front.toList
  have htext : (front ++ "." ++ tail).toList = front.toList ++ ['.'] ++ tail.toList := by simp
  have hdot : (".").toList = ['.'] := rfl
  rw [cutLast, htext, hdot, hsplit]
  simp

theorem cutLast_of_not_mem {s : String} (h : '.' ∉ s.toList) : cutLast "." s = none := by
  have hdot : (".").toList = ['.'] := rfl
  rw [cutLast, hdot, splitLast_of_not_mem h]
  rfl

/-- A text has no dot, or a last one. -/
theorem last_dot_cases (s : String) :
    '.' ∉ s.toList ∨ ∃ front tail, '.' ∉ tail.toList ∧ s = front ++ "." ++ tail := by
  cases hsplit : splitLast ['.'] s.toList with
  | none => exact .inl (not_mem_of_splitLast_eq_none hsplit)
  | some sides =>
    rcases sides with ⟨before, after⟩
    refine .inr ⟨.ofList before, .ofList after, ?_, ?_⟩
    · rw [String.toList_ofList]
      exact not_mem_of_splitLast hsplit
    · rw [← String.toList_inj, ← splitLast_append hsplit]
      simp

theorem isLastSegment_iff {s tail : String} : IsLastSegment s tail ↔ afterLast "." s = tail := by
  have hfront {front tail : String} (h : '.' ∉ tail.toList) :
      afterLast "." (front ++ "." ++ tail) = tail := by
    rw [afterLast, cutLast_dot h]
  have hwhole {s : String} (h : '.' ∉ s.toList) : afterLast "." s = s := by
    rw [afterLast, cutLast_of_not_mem h]
  constructor
  · rintro ⟨hdot, rfl | ⟨front, rfl⟩⟩
    · exact hwhole hdot
    · exact hfront hdot
  · rintro rfl
    rcases last_dot_cases s with hdot | ⟨front, tail, hdot, rfl⟩
    · rw [hwhole hdot]
      exact ⟨hdot, .inl rfl⟩
    · rw [hfront hdot]
      exact ⟨hdot, .inr ⟨front, rfl⟩⟩

end Text

namespace Resolution

/-! ## The rules over a set of methods -/

/-- A type itself, or one whose name is followed by a dollar sign in the name of the type. -/
def Around (owner caller : String) : Prop :=
  owner = caller ∨ ∃ rest, caller = owner ++ "$" ++ rest

/-- What a call means among the methods of `D`, and by which rule; the call is written in a method
of `caller`. Each rule has the failure of those before it among its conditions. -/
inductive Meaning (D : Set Method) (caller : String) : String → Method → Strategy → Prop where
  | qualified {receiver name : String} (hname : name ≠ "") (hdot : '.' ∉ name.toList)
    (h : ⟨receiver, name⟩ ∈ D) :
    Meaning D caller (receiver ++ "." ++ name) ⟨receiver, name⟩ .qualified
  | receiverType {receiver name simple owner : String} (hname : name ≠ "")
    (hdot : '.' ∉ name.toList) (hother : ⟨receiver, name⟩ ∉ D)
    (hsimple : Text.IsLastSegment receiver simple)
    (hone : ∀ o, (⟨o, name⟩ ∈ D ∧
      Text.lowercase (Method.simpleOwner ⟨o, name⟩) = Text.lowercase simple) ↔ o = owner) :
    Meaning D caller (receiver ++ "." ++ name) ⟨owner, name⟩ .receiverType
  | sameOwner {name owner : String} (hname : name ≠ "") (hdot : '.' ∉ name.toList)
    (haround : Around owner caller) (h : ⟨owner, name⟩ ∈ D)
    (hlongest : ∀ o, Around o caller → ⟨o, name⟩ ∈ D → o.length ≤ owner.length) :
    Meaning D caller name ⟨owner, name⟩ .sameOwner
  | uniqueName {name owner : String} (hname : name ≠ "") (hdot : '.' ∉ name.toList)
    (hother : ∀ o, Around o caller → ⟨o, name⟩ ∉ D) (hone : ∀ o, ⟨o, name⟩ ∈ D ↔ o = owner) :
    Meaning D caller name ⟨owner, name⟩ .uniqueName

variable {D : Set Method} {d : Index} {m : Method} {caller target receiver name : String}

/-- A call means a declared method. -/
theorem Meaning.mem {s : Strategy} (h : Meaning D caller target m s) : m ∈ D := by
  cases h with
  | qualified _ _ h => exact h
  | receiverType _ _ _ _ hone => exact ((hone _).2 rfl).1
  | sameOwner _ _ _ h => exact h
  | uniqueName _ _ _ hone => exact (hone _).2 rfl

/-- The rules look at no other name than the one behind the last dot. -/
theorem Meaning.of_same_owners {D' : Set Method} {s : Strategy} {n : String}
    (htarget : Text.IsLastSegment target n) (hsame : ∀ o, (⟨o, n⟩ : Method) ∈ D ↔ ⟨o, n⟩ ∈ D')
    (h : Meaning D caller target m s) : Meaning D' caller target m s := by
  have hlast := Text.isLastSegment_iff.1 htarget
  cases h with
  | @qualified receiver name hname hdot h =>
    obtain rfl : name = n :=
      (Text.isLastSegment_iff.1 ⟨hdot, .inr ⟨receiver, rfl⟩⟩).symm.trans hlast
    exact .qualified hname hdot ((hsame _).1 h)
  | @receiverType receiver name simple owner hname hdot hother hsimple hone =>
    obtain rfl : name = n :=
      (Text.isLastSegment_iff.1 ⟨hdot, .inr ⟨receiver, rfl⟩⟩).symm.trans hlast
    simp only [hsame] at hother hone
    exact .receiverType hname hdot hother hsimple hone
  | sameOwner hname hdot haround h hlongest =>
    obtain rfl : target = n := (Text.isLastSegment_iff.1 ⟨hdot, .inl rfl⟩).symm.trans hlast
    simp only [hsame] at h hlongest
    exact .sameOwner hname hdot haround h hlongest
  | uniqueName hname hdot hother hone =>
    obtain rfl : target = n := (Text.isLastSegment_iff.1 ⟨hdot, .inl rfl⟩).symm.trans hlast
    simp only [hsame] at hother hone
    exact .uniqueName hname hdot hother hone

/-! ## Types around a type -/

theorem mem_beforeDollars {front cs : List Char} :
    front ∈ beforeDollars cs ↔ ∃ rest, cs = front ++ '$' :: rest := by
  induction cs generalizing front with
  | nil => simp [beforeDollars]
  | cons c cs ih =>
    rw [beforeDollars, List.mem_append, List.mem_map]
    cases front with
    | nil => by_cases hc : c = '$' <;> simp [hc]
    | cons d front =>
      constructor
      · rintro (hhere | ⟨inner, hinner, heq⟩)
        · split at hhere <;> simp at hhere
        · obtain ⟨rfl, rfl⟩ := List.cons.inj heq
          obtain ⟨rest, rfl⟩ := ih.1 hinner
          exact ⟨rest, rfl⟩
      · rintro ⟨rest, heq⟩
        obtain ⟨rfl, rfl⟩ := List.cons.inj heq
        exact .inr ⟨front, ih.2 ⟨rest, rfl⟩, rfl⟩

/-- Later dollar signs have more before them. -/
theorem pairwise_beforeDollars (cs : List Char) :
    (beforeDollars cs).Pairwise fun a b => a.length < b.length := by
  induction cs with
  | nil => exact List.Pairwise.nil
  | cons c cs ih =>
    rw [beforeDollars, List.pairwise_append]
    refine ⟨?_, ?_, ?_⟩
    · split <;> simp
    · apply List.Pairwise.map (fun front => c :: front) _ ih
      intro a b hab
      simpa using hab
    · intro a ha b hb
      rw [List.mem_map] at hb
      rcases hb with ⟨inner, -, rfl⟩
      split at ha
      · rw [List.mem_singleton.1 ha]
        simp
      · cases ha

theorem mem_enclosingOwners {owner : String} :
    owner ∈ enclosingOwners caller ↔ Around owner caller := by
  rw [enclosingOwners, List.mem_cons, List.mem_map, Around]
  refine or_congr_right ?_
  constructor
  · rintro ⟨front, hfront, rfl⟩
    rw [List.mem_reverse, mem_beforeDollars] at hfront
    rcases hfront with ⟨rest, hrest⟩
    refine ⟨.ofList rest, ?_⟩
    rw [← String.toList_inj, hrest]
    simp
  · rintro ⟨rest, rfl⟩
    refine ⟨owner.toList, ?_, String.ofList_toList⟩
    rw [List.mem_reverse, mem_beforeDollars]
    exact ⟨rest.toList, by simp⟩

/-- Owners are tried from the longest name to the shortest. -/
theorem pairwise_enclosingOwners (caller : String) :
    (enclosingOwners caller).Pairwise fun a b => b.length < a.length := by
  rw [enclosingOwners, List.pairwise_cons]
  constructor
  · intro owner howner
    rw [List.mem_map] at howner
    rcases howner with ⟨front, hfront, rfl⟩
    rw [List.mem_reverse, mem_beforeDollars] at hfront
    rcases hfront with ⟨rest, hrest⟩
    rw [← String.length_toList, ← String.length_toList, hrest]
    simp
  · apply List.Pairwise.map String.ofList (R := fun a b => b.length < a.length)
    · intro a b hab
      simpa using hab
    · rw [List.pairwise_reverse]
      exact pairwise_beforeDollars caller.toList

theorem bySameOwner_eq_some_iff :
    d.bySameOwner caller name = some m ↔
      m.name = name ∧ Around m.owner caller ∧ d.declares m.owner name = true ∧
        ∀ o, Around o caller → d.declares o name = true → o.length ≤ m.owner.length := by
  have hpairwise := pairwise_enclosingOwners caller
  rw [Index.bySameOwner, Option.map_eq_some_iff]
  constructor
  · rintro ⟨owner, hfind, rfl⟩
    obtain ⟨hdeclares, before, after, hsplit, hbefore⟩ := List.find?_eq_some_iff_append.1 hfind
    refine ⟨rfl, ?_, hdeclares, ?_⟩
    · rw [← mem_enclosingOwners, hsplit]
      simp
    · intro o ho hdeclared
      rw [← mem_enclosingOwners, hsplit, List.mem_append, List.mem_cons] at ho
      rcases ho with hfirst | rfl | hlater
      · -- longer names were tried before and are not declared
        have hnot := hbefore o hfirst
        simp [hdeclared] at hnot
      · exact Nat.le_refl _
      · rw [hsplit, List.pairwise_append, List.pairwise_cons] at hpairwise
        exact Nat.le_of_lt (hpairwise.2.1.1 o hlater)
  · rintro ⟨rfl, haround, hdeclares, hlongest⟩
    refine ⟨m.owner, ?_, rfl⟩
    rw [← mem_enclosingOwners] at haround
    obtain ⟨before, after, hsplit⟩ := List.append_of_mem haround
    refine List.find?_eq_some_iff_append.2 ⟨hdeclares, before, after, hsplit, ?_⟩
    intro o ho
    rw [hsplit, List.pairwise_append] at hpairwise
    have hlonger : m.owner.length < o.length := hpairwise.2.2 o ho m.owner List.mem_cons_self
    have hmem : Around o caller := by
      rw [← mem_enclosingOwners, hsplit]
      exact List.mem_append_left _ ho
    by_contra hdeclared
    have hle := hlongest o hmem (by simpa using hdeclared)
    omega

theorem bySameOwner_eq_none_iff :
    d.bySameOwner caller name = none ↔ ∀ o, Around o caller → d.declares o name = false := by
  rw [Index.bySameOwner, Option.map_eq_none_iff, List.find?_eq_none]
  simp only [mem_enclosingOwners, Bool.not_eq_true]

/-! ## Tables in step -/

/-- The three tables list the methods of `D`: each owner under its simple name once, and each method
under its name once. -/
structure Index.Tracks (d : Index) (D : Set Method) : Prop where
  declares : ∀ o n, d.declares o n = true ↔ ⟨o, n⟩ ∈ D
  owners : ∀ key o, o ∈ d.bySimpleOwner.row key ↔
    ∃ n, ⟨o, n⟩ ∈ D ∧ Text.lowercase (Method.simpleOwner ⟨o, n⟩) = key
  owners_nodup : ∀ key, (d.bySimpleOwner.row key).Nodup
  named : ∀ n m, m ∈ d.byName.row n ↔ m ∈ D ∧ m.name = n
  named_nodup : ∀ n, (d.byName.row n).Nodup

theorem tracks_empty : Index.empty.Tracks ∅ := by
  constructor <;> simp [Index.empty, Index.declares, Table.empty, Table.row]

theorem Index.Tracks.row_isEmpty_iff (h : d.Tracks D) (o : String) :
    (d.byOwner.row o).isEmpty = true ↔ ∀ n, ⟨o, n⟩ ∉ D := by
  rw [List.isEmpty_iff, List.eq_nil_iff_forall_not_mem]
  refine forall_congr' fun n => not_congr ?_
  rw [← h.declares, Index.declares, List.contains_iff_mem]

/-- The owner of a further method is put under its simple name, unless it stands there with an
earlier method. -/
theorem Index.Tracks.owners_insert (h : d.Tracks D) (m : Method) (key o : String) :
    o ∈ Table.row (if (d.byOwner.row m.owner).isEmpty then
        d.bySimpleOwner.push (Text.lowercase m.simpleOwner) m.owner else d.bySimpleOwner) key ↔
      ∃ n, ⟨o, n⟩ ∈ Insert.insert m D ∧ Text.lowercase (Method.simpleOwner ⟨o, n⟩) = key := by
  have hold : o ∈ d.bySimpleOwner.row key →
      ∃ n, ⟨o, n⟩ ∈ Insert.insert m D ∧ Text.lowercase (Method.simpleOwner ⟨o, n⟩) = key := by
    intro ho
    rcases (h.owners key o).1 ho with ⟨n, hn, hsimple⟩
    exact ⟨n, Set.mem_insert_of_mem m hn, hsimple⟩
  split
  · rw [Table.mem_row_push]
    constructor
    · rintro (ho | ⟨rfl, rfl⟩)
      · exact hold ho
      · exact ⟨m.name, Set.mem_insert m D, rfl⟩
    · rintro ⟨n, rfl | hn, hsimple⟩
      · exact .inr ⟨hsimple.symm, rfl⟩
      · exact .inl ((h.owners key o).2 ⟨n, hn, hsimple⟩)
  · next hfirst =>
    refine ⟨hold, ?_⟩
    rintro ⟨n, rfl | hn, hsimple⟩
    · -- the owner has an earlier method
      rw [h.row_isEmpty_iff] at hfirst
      push Not at hfirst
      rcases hfirst with ⟨n', hn'⟩
      exact (h.owners key o).2 ⟨n', hn', hsimple⟩
    · exact (h.owners key o).2 ⟨n, hn, hsimple⟩

/-- A further method keeps the tables in step. -/
theorem Index.Tracks.insert (h : d.Tracks D) (m : Method) :
    (d.insert m).Tracks (Insert.insert m D) := by
  rw [Index.insert]
  split
  · -- an overload
    next hold =>
    rw [Set.insert_eq_of_mem ((h.declares m.owner m.name).1 hold)]
    exact h
  next hnew =>
  have hfresh : m ∉ D := fun hmem => hnew ((h.declares m.owner m.name).2 hmem)
  constructor
  · intro o n
    rw [Set.mem_insert_iff, ← h.declares, Index.declares, Index.declares, List.contains_iff_mem,
      List.contains_iff_mem, Table.mem_row_push, or_comm]
    refine or_congr_left ?_
    rcases m with ⟨owner, name⟩
    exact Method.mk.injEq o n owner name ▸ Iff.rfl
  · exact h.owners_insert m
  · intro key
    dsimp only
    split
    · next hfirst =>
      apply Table.nodup_row_push (h.owners_nodup key)
      intro _ hlisted
      rcases (h.owners key m.owner).1 hlisted with ⟨n, hn, -⟩
      exact (h.row_isEmpty_iff m.owner).1 hfirst n hn
    · exact h.owners_nodup key
  · intro n x
    rw [Table.mem_row_push, h.named, Set.mem_insert_iff]
    constructor
    · rintro (⟨hx, hname⟩ | ⟨rfl, rfl⟩)
      · exact ⟨.inr hx, hname⟩
      · exact ⟨.inl rfl, rfl⟩
    · rintro ⟨rfl | hx, hname⟩
      · exact .inr ⟨hname.symm, rfl⟩
      · exact .inl ⟨hx, hname⟩
  · intro n
    apply Table.nodup_row_push (h.named_nodup n)
    intro _ hlisted
    exact hfresh ((h.named n m).1 hlisted).1

/-- The index of a list is in step with the methods of the list. -/
theorem tracks_ofList (ms : List Method) : (Index.ofList ms).Tracks {m | m ∈ ms} := by
  have hfold : ∀ (d : Index) (D : Set Method), d.Tracks D →
      (ms.foldl Index.insert d).Tracks (D ∪ {m | m ∈ ms}) := by
    induction ms with
    | nil =>
      intro d D h
      simpa using h
    | cons m ms ih =>
      intro d D h
      have hrest := ih (d.insert m) _ (h.insert m)
      have hset : Insert.insert m D ∪ {x | x ∈ ms} = D ∪ {x | x ∈ m :: ms} := by
        ext x
        simp only [Set.mem_union, Set.mem_insert_iff, Set.mem_ofPred_eq, List.mem_cons]
        tauto
      rw [hset] at hrest
      exact hrest
  have hall := hfold Index.empty ∅ tracks_empty
  rw [Set.empty_union] at hall
  exact hall

/-! ## Single rules -/

theorem only_eq_some_iff {α : Type} {l : List α} {a : α} (h : l.Nodup) :
    only l = some a ↔ ∀ x, x ∈ l ↔ x = a := by
  match l, h with
  | [], _ =>
    constructor
    · intro hnone
      cases hnone
    · intro hall
      exact absurd ((hall a).2 rfl) List.not_mem_nil
  | [b], _ =>
    simp only [only, Option.some.injEq, List.mem_singleton]
    constructor
    · rintro rfl x
      exact Iff.rfl
    · intro hall
      exact (hall b).1 rfl
  | b :: c :: l, h =>
    constructor
    · intro hnone
      cases hnone
    · intro hall
      -- two members would both be the one
      have hb : b = a := (hall b).1 (by simp)
      have hc : c = a := (hall c).1 (by simp)
      exact absurd (hb.trans hc.symm) (fun hbc => by simp [hbc] at h)

theorem byReceiver_eq_some_iff (h : d.Tracks D) :
    d.byReceiver receiver name = some m ↔
      m.name = name ∧ ∀ o, (⟨o, name⟩ ∈ D ∧ Text.lowercase (Method.simpleOwner ⟨o, name⟩) =
        Text.lowercase (Text.afterLast "." receiver)) ↔ o = m.owner := by
  have hmem : ∀ o, o ∈ (d.bySimpleOwner.row (Text.lowercase (Text.afterLast "." receiver))).filter
      (d.declares · name) ↔ ⟨o, name⟩ ∈ D ∧ Text.lowercase (Method.simpleOwner ⟨o, name⟩) =
        Text.lowercase (Text.afterLast "." receiver) := by
    intro o
    rw [List.mem_filter, h.owners, h.declares]
    constructor
    · rintro ⟨⟨n, -, hsimple⟩, hdeclared⟩
      exact ⟨hdeclared, hsimple⟩
    · rintro ⟨hdeclared, hsimple⟩
      exact ⟨⟨name, hdeclared, hsimple⟩, hdeclared⟩
  have hnodup := (h.owners_nodup (Text.lowercase (Text.afterLast "." receiver))).filter
    (d.declares · name)
  rw [Index.byReceiver, Option.map_eq_some_iff]
  simp only [only_eq_some_iff hnodup, hmem]
  constructor
  · rintro ⟨owner, hone, rfl⟩
    exact ⟨rfl, hone⟩
  · rintro ⟨rfl, hone⟩
    exact ⟨m.owner, hone, rfl⟩

theorem byUniqueName_eq_some_iff (h : d.Tracks D) :
    d.byUniqueName name = some m ↔ m.name = name ∧ ∀ o, ⟨o, name⟩ ∈ D ↔ o = m.owner := by
  rw [Index.byUniqueName, only_eq_some_iff (h.named_nodup name)]
  simp only [h.named]
  constructor
  · intro hone
    have hm := (hone m).2 rfl
    refine ⟨hm.2, fun o => ?_⟩
    constructor
    · intro ho
      exact congrArg Method.owner ((hone ⟨o, name⟩).1 ⟨ho, rfl⟩)
    · rintro rfl
      have hsame : (⟨m.owner, name⟩ : Method) = m := by rw [← hm.2]
      rw [hsame]
      exact hm.1
  · rintro ⟨rfl, hone⟩ x
    constructor
    · rintro ⟨hx, hname⟩
      rcases x with ⟨owner, n⟩
      dsimp only at hname
      subst hname
      have howner := (hone owner).1 hx
      rw [howner]
    · rintro rfl
      exact ⟨(hone x.owner).2 rfl, rfl⟩

/-! ## All rules -/

/-- A call with a receiver, by the first two rules. -/
theorem resolve_receiver_iff (h : d.Tracks D) (hdot : '.' ∉ name.toList) {s : Strategy} :
    d.resolve (receiver ++ "." ++ name) caller = some (m, s) ↔
      name ≠ "" ∧ m.name = name ∧
        ((s = .qualified ∧ ⟨receiver, name⟩ ∈ D ∧ m.owner = receiver) ∨
          (s = .receiverType ∧ ⟨receiver, name⟩ ∉ D ∧ ∀ o, (⟨o, name⟩ ∈ D ∧
            Text.lowercase (Method.simpleOwner ⟨o, name⟩) =
              Text.lowercase (Text.afterLast "." receiver)) ↔ o = m.owner)) := by
  have hsplit : splitTarget (receiver ++ "." ++ name) = (some receiver, name) := by
    rw [splitTarget, Text.cutLast_dot hdot]
  rw [Index.resolve, hsplit]
  dsimp only
  by_cases hname : name = ""
  · simp [hname]
  rw [if_neg hname]
  by_cases hdeclared : d.declares receiver name = true
  · have hmem := (h.declares receiver name).1 hdeclared
    rw [if_pos hdeclared, Option.some.injEq, Prod.mk.injEq]
    constructor
    · rintro ⟨rfl, rfl⟩
      exact ⟨hname, rfl, .inl ⟨rfl, hmem, rfl⟩⟩
    · rintro ⟨-, rfl, ⟨rfl, -, rfl⟩ | ⟨-, hother, -⟩⟩
      · exact ⟨rfl, rfl⟩
      · exact absurd hmem hother
  · have hother : ⟨receiver, name⟩ ∉ D := fun hmem => hdeclared ((h.declares receiver name).2 hmem)
    rw [if_neg hdeclared, Option.map_eq_some_iff]
    constructor
    · rintro ⟨m', hby, heq⟩
      obtain ⟨rfl, rfl⟩ := Prod.mk.inj heq
      obtain ⟨hm, hone⟩ := (byReceiver_eq_some_iff h).1 hby
      exact ⟨hname, hm, .inr ⟨rfl, hother, hone⟩⟩
    · rintro ⟨-, hm, ⟨-, hmem, -⟩ | ⟨rfl, -, hone⟩⟩
      · exact absurd hmem hother
      · exact ⟨m, (byReceiver_eq_some_iff h).2 ⟨hm, hone⟩, rfl⟩

/-- A call without receiver, by the last two rules. -/
theorem resolve_bare_iff (h : d.Tracks D) (hdot : '.' ∉ name.toList) {s : Strategy} :
    d.resolve name caller = some (m, s) ↔
      name ≠ "" ∧ m.name = name ∧
        ((s = .sameOwner ∧ Around m.owner caller ∧ ⟨m.owner, name⟩ ∈ D ∧
            ∀ o, Around o caller → ⟨o, name⟩ ∈ D → o.length ≤ m.owner.length) ∨
          (s = .uniqueName ∧ (∀ o, Around o caller → ⟨o, name⟩ ∉ D) ∧
            ∀ o, ⟨o, name⟩ ∈ D ↔ o = m.owner)) := by
  have hsplit : splitTarget name = (none, name) := by
    rw [splitTarget, Text.cutLast_of_not_mem hdot]
  rw [Index.resolve, hsplit]
  dsimp only
  by_cases hname : name = ""
  · simp [hname]
  rw [if_neg hname]
  cases hsame : d.bySameOwner caller name with
  | some found =>
    obtain ⟨hfound, haround, hdeclares, hlongest⟩ := bySameOwner_eq_some_iff.1 hsame
    simp only [h.declares] at hdeclares hlongest
    dsimp only
    rw [Option.some.injEq, Prod.mk.injEq]
    constructor
    · rintro ⟨rfl, rfl⟩
      exact ⟨hname, hfound, .inl ⟨rfl, haround, hdeclares, hlongest⟩⟩
    · rintro ⟨-, hm, ⟨rfl, hround, hmem, hmost⟩ | ⟨-, hother, -⟩⟩
      · -- both are the longest
        have hsome : d.bySameOwner caller name = some m := by
          rw [bySameOwner_eq_some_iff]
          simp only [h.declares]
          exact ⟨hm, hround, hmem, hmost⟩
        rw [hsame] at hsome
        exact ⟨Option.some.inj hsome, rfl⟩
      · exact absurd hdeclares (hother _ haround)
  | none =>
    have hother : ∀ o, Around o caller → ⟨o, name⟩ ∉ D := by
      intro o ho hmem
      have hnot := bySameOwner_eq_none_iff.1 hsame o ho
      rw [(h.declares o name).2 hmem] at hnot
      cases hnot
    dsimp only
    rw [Option.map_eq_some_iff]
    constructor
    · rintro ⟨m', hby, heq⟩
      obtain ⟨rfl, rfl⟩ := Prod.mk.inj heq
      obtain ⟨hm, hone⟩ := (byUniqueName_eq_some_iff h).1 hby
      exact ⟨hname, hm, .inr ⟨rfl, hother, hone⟩⟩
    · rintro ⟨-, hm, ⟨-, haround, hmem, -⟩ | ⟨rfl, -, hone⟩⟩
      · exact absurd hmem (hother _ haround)
      · exact ⟨m, (byUniqueName_eq_some_iff h).2 ⟨hm, hone⟩, rfl⟩

/-- Tables in step resolve by the rules. -/
theorem resolve_iff_meaning (h : d.Tracks D) {s : Strategy} :
    d.resolve target caller = some (m, s) ↔ Meaning D caller target m s := by
  constructor
  · intro hresolve
    rcases Text.last_dot_cases target with hdot | ⟨receiver, name, hdot, rfl⟩
    · obtain ⟨hname, hm, hrule⟩ := (resolve_bare_iff h hdot).1 hresolve
      rcases m with ⟨owner, name⟩
      dsimp only at hm
      subst hm
      rcases hrule with ⟨rfl, haround, hmem, hlongest⟩ | ⟨rfl, hother, hone⟩
      · exact .sameOwner hname hdot haround hmem hlongest
      · exact .uniqueName hname hdot hother hone
    · obtain ⟨hname, hm, hrule⟩ := (resolve_receiver_iff h hdot).1 hresolve
      rcases m with ⟨owner, name'⟩
      dsimp only at hm
      subst hm
      rcases hrule with ⟨rfl, hmem, rfl⟩ | ⟨rfl, hother, hone⟩
      · exact .qualified hname hdot hmem
      · exact .receiverType hname hdot hother (Text.isLastSegment_iff.2 rfl) hone
  · intro hmeaning
    cases hmeaning with
    | qualified hname hdot hmem =>
      exact (resolve_receiver_iff h hdot).2 ⟨hname, rfl, .inl ⟨rfl, hmem, rfl⟩⟩
    | receiverType hname hdot hother hsimple hone =>
      rw [← Text.isLastSegment_iff.1 hsimple] at hone
      exact (resolve_receiver_iff h hdot).2 ⟨hname, rfl, .inr ⟨rfl, hother, hone⟩⟩
    | sameOwner hname hdot haround hmem hlongest =>
      exact (resolve_bare_iff h hdot).2 ⟨hname, rfl, .inl ⟨rfl, haround, hmem, hlongest⟩⟩
    | uniqueName hname hdot hother hone =>
      exact (resolve_bare_iff h hdot).2 ⟨hname, rfl, .inr ⟨rfl, hother, hone⟩⟩

/-- Indexes that know the same owners of a name resolve its calls alike. -/
theorem resolve_eq_of_same_owners {d' : Index} {D' : Set Method} {n : String} (h : d.Tracks D)
    (h' : d'.Tracks D') (htarget : Text.IsLastSegment target n)
    (hsame : ∀ o, (⟨o, n⟩ : Method) ∈ D ↔ ⟨o, n⟩ ∈ D') :
    d.resolve target caller = d'.resolve target caller := by
  apply Option.ext
  rintro ⟨m, s⟩
  rw [resolve_iff_meaning h, resolve_iff_meaning h']
  constructor
  · exact fun hmeaning => hmeaning.of_same_owners htarget hsame
  · exact fun hmeaning => hmeaning.of_same_owners htarget fun o => (hsame o).symm

/-- However the declared methods are inserted, calls are resolved by the rules over their set, and
only the owners of the called name play a part. -/
theorem resolution_follows_rules (inserted : List Method) (target caller : String) :
    (∀ m s, (Index.ofList inserted).resolve target caller = some (m, s) ↔
      Meaning {m | m ∈ inserted} caller target m s) ∧
    ∀ name, Text.IsLastSegment target name → ∀ others : List Method,
      (∀ owner, (⟨owner, name⟩ : Method) ∈ others ↔ ⟨owner, name⟩ ∈ inserted) →
      (Index.ofList others).resolve target caller =
        (Index.ofList inserted).resolve target caller := by
  constructor
  · intro m s
    exact resolve_iff_meaning (tracks_ofList inserted)
  · intro name htarget others hsame
    exact resolve_eq_of_same_owners (tracks_ofList others) (tracks_ofList inserted) htarget hsame

/-- Another insertion order with overloads, and a method of another name, change nothing about a
call through a variable that is named after its type. -/
theorem resolution_follows_rules_overloads :
    Meaning {m | m ∈ [⟨"shop.Orders", "save"⟩, ⟨"shop.Items", "save"⟩]} "shop.Web" "orders.save"
      ⟨"shop.Orders", "save"⟩ .receiverType ∧
    (Index.ofList [⟨"shop.Items", "load"⟩, ⟨"shop.Items", "save"⟩, ⟨"shop.Orders", "save"⟩,
      ⟨"shop.Items", "save"⟩, ⟨"shop.Orders", "save"⟩]).resolve "orders.save" "shop.Web" =
        some (⟨"shop.Orders", "save"⟩, .receiverType) := by
  obtain ⟨hrules, howners⟩ := resolution_follows_rules
    [⟨"shop.Orders", "save"⟩, ⟨"shop.Items", "save"⟩] "orders.save" "shop.Web"
  have hresolve : (Index.ofList [⟨"shop.Orders", "save"⟩, ⟨"shop.Items", "save"⟩]).resolve
      "orders.save" "shop.Web" = some (⟨"shop.Orders", "save"⟩, .receiverType) := by decide +kernel
  refine ⟨(hrules _ _).1 hresolve, ?_⟩
  rw [← hresolve]
  apply howners "save"
  · exact ⟨by decide, .inr ⟨"orders", by decide⟩⟩
  · intro owner
    simp
    tauto

end Resolution

end ChangeImpact
