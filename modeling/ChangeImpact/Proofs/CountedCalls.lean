import ChangeImpact.Java.Repair
import ChangeImpact.Proofs.MethodTargets

/-!
# Every call counts

A call counts for the method around it wherever it stands in there: among arguments, as a receiver,
in closures and in anonymous classes. The exception is what the walk does not go into. A call whose
result a method reference is bound to is lost, and so are calls in constructors of anonymous
classes.

* `Calls`, `References` — the calls and method references in a method;
* `Lost` — the calls that the walk does not get to; `calls_iff` — there are no others;
* `every_call_counts` — the targets of a method, and when they are those of all calls in it;
* `receiver_of_reference_lost` — a call that does not count.
-/

namespace ChangeImpact.Java

variable {v v' w : Variables} {t c r u M : Tree} {x : String} {stops : Tree → Bool}

/-! ## Calls in a method -/

theorem Within.trans (h : Within stops v t w r) (h' : Within stops w r v' u) :
    Within stops v t v' u := by
  induction h with
  | here => exact h'
  | child hopen hc hpart _ ih => exact .child hopen hc hpart (ih h')
  | method hcreation hbody hm hmethod hc _ ih => exact .method hcreation hbody hm hmethod hc (ih h')

/-- A call in the method `M` has the target `x`. It is inside of nothing that stops; around the
method the variables `v` are known. -/
def Calls (stops : Tree → Bool) (M : Tree) (v : Variables) (x : String) : Prop :=
  ∃ c ∈ M.children, ∃ v' u, Within stops (locals M v) c v' u ∧ u.kind = .methodInvocation ∧
    callTarget? v' u = some x

/-- A method reference in the method `M` has the target `x`. -/
def References (M : Tree) (v : Variables) (x : String) : Prop :=
  ∃ c ∈ M.children, ∃ v' u, Within Tree.shuts (locals M v) c v' u ∧ u.kind = .methodReference ∧
    referenceTarget? v' u = some x

/-- A call with the target `x` is inside of a method reference, constructor or package declaration
in the method `M`, but in no method or type of its own. -/
def Lost (M : Tree) (v : Variables) (x : String) : Prop :=
  ∃ c ∈ M.children, ∃ w r, Within Tree.isOwn (locals M v) c w r ∧ r.isOwn = false ∧
    r.shuts = true ∧ ∃ e ∈ r.children, ∃ v' u, Within Tree.isOwn w e v' u ∧
      u.kind = .methodInvocation ∧ callTarget? v' u = some x

theorem Tree.isOwn_of_shuts (h : t.shuts = false) : t.isOwn = false := by
  simp only [Tree.shuts, Bool.or_eq_false_iff] at h
  exact h.1.1.1.1

theorem Within.of_shuts (h : Within Tree.shuts v t v' u) : Within Tree.isOwn v t v' u := by
  induction h with
  | here v t => exact .here v t
  | child hopen hc hpart _ ih => exact .child (Tree.isOwn_of_shuts hopen) hc hpart ih
  | method hcreation hbody hm hmethod hc _ ih => exact .method hcreation hbody hm hmethod hc ih

/-- What lies in no method or type of its own is met, or it lies in a tree that is met and shut. -/
theorem Within.met_or_shut (h : Within Tree.isOwn v t v' u) :
    Within Tree.shuts v t v' u ∨ ∃ w r, Within Tree.isOwn v t w r ∧ r.isOwn = false ∧
      r.shuts = true ∧ ∃ e ∈ r.children, Within Tree.isOwn w e v' u := by
  induction h with
  | here v t => exact .inl (.here v t)
  | @child v v' t c u hopen hc hpart h ih =>
    -- the first tree on the way that is shut is the one that loses the call
    cases hshuts : t.shuts with
    | true => exact .inr ⟨v, t, .here v t, hopen, hshuts, c, hc, h⟩
    | false =>
      rcases ih with hmet | ⟨w, r, hr, hinside⟩
      · exact .inl (.child hshuts hc hpart hmet)
      · exact .inr ⟨w, r, .child hopen hc hpart hr, hinside⟩
  | method hcreation hbody hm hmethod hc _ ih =>
    rcases ih with hmet | ⟨w, r, hr, hinside⟩
    · exact .inl (.method hcreation hbody hm hmethod hc hmet)
    · exact .inr ⟨w, r, .method hcreation hbody hm hmethod hc hr, hinside⟩

/-- A call is met by the walk, or lost. -/
theorem calls_iff : Calls Tree.isOwn M v x ↔ Calls Tree.shuts M v x ∨ Lost M v x := by
  constructor
  · rintro ⟨c, hc, v', u, h, hkind, htarget⟩
    rcases h.met_or_shut with hmet | ⟨w, r, hr, hown, hshuts, e, he, hu⟩
    · exact .inl ⟨c, hc, v', u, hmet, hkind, htarget⟩
    · exact .inr ⟨c, hc, w, r, hr, hown, hshuts, e, he, v', u, hu, hkind, htarget⟩
  · rintro (⟨c, hc, v', u, h, hkind, htarget⟩ | ⟨c, hc, w, r, hr, hown, hshuts, e, he, v', u, hu,
      hkind, htarget⟩)
    · exact ⟨c, hc, v', u, h.of_shuts, hkind, htarget⟩
    · have hinside : Within Tree.isOwn w r v' u :=
        .child hown he (fun hcreation => absurd hcreation (Tree.not_creation_of_shuts hshuts)) hu
      exact ⟨c, hc, v', u, hr.trans hinside, hkind, htarget⟩

theorem said_iff_calls : (∃ c ∈ M.children, Said (locals M v) c x) ↔
    Calls Tree.shuts M v x ∨ References M v x := by
  constructor
  · rintro ⟨c, hc, v', u, h, htarget⟩
    unfold target? at htarget
    split at htarget
    · next hkind => exact .inl ⟨c, hc, v', u, h, hkind, htarget⟩
    · next hkind => exact .inr ⟨c, hc, v', u, h, hkind, htarget⟩
    · cases htarget
  · rintro (⟨c, hc, v', u, h, hkind, htarget⟩ | ⟨c, hc, v', u, h, hkind, htarget⟩)
    · exact ⟨c, hc, v', u, h, by rw [target?, hkind]; exact htarget⟩
    · exact ⟨c, hc, v', u, h, by rw [target?, hkind]; exact htarget⟩

/-! ## What counts -/

/-- The targets that the declaration `d` of the method `M` has. -/
structure CountsCalls (M : Tree) (v : Variables) (d : Declaration) : Prop where
  described : Describes d M v
  /-- Every call that is met counts, every method reference does, and nothing else. -/
  targets : ∀ x, x ∈ d.targets ↔ Calls Tree.shuts M v x ∨ References M v x
  /-- All calls count that are in no method or type of its own, but for those that are lost. -/
  calls : ∀ x, Calls Tree.isOwn M v x → x ∈ d.targets ∨ Lost M v x
  /-- So all of them count exactly if each target that is lost is met elsewhere. -/
  all_iff : (∀ x, Calls Tree.isOwn M v x → x ∈ d.targets) ↔
    ∀ x, Lost M v x → Calls Tree.shuts M v x ∨ References M v x

/-- Every call in a method counts for it, unless the walk does not go into what it is in. -/
theorem every_call_counts {t M : Tree} {v : Variables} (ht : t.height ≤ nestingLimit)
    (hM : Lists .outside t M v) : ∃ d ∈ declarations t, CountsCalls M v d := by
  rcases method_listed ht hM with ⟨d, hd, hdescribes⟩
  have htargets : ∀ x, x ∈ d.targets ↔ Calls Tree.shuts M v x ∨ References M v x :=
    fun x => (hdescribes.targets x).trans said_iff_calls
  refine ⟨d, hd, hdescribes, htargets, ?_, ?_⟩
  · intro x hx
    rcases calls_iff.1 hx with hmet | hlost
    · exact .inl ((htargets x).2 (.inl hmet))
    · exact .inr hlost
  · constructor
    · intro hall x hlost
      exact (htargets x).1 (hall x (calls_iff.2 (.inr hlost)))
    · intro hlost x hx
      rcases calls_iff.1 hx with hmet | hx
      · exact (htargets x).2 (.inl hmet)
      · exact (htargets x).2 (hlost x hx)

/-- Calls among arguments, as a receiver, in a closure and in the members of an anonymous class. -/
def callsEverywhere : Tree :=
  .ofSource ("class A \x7b void run() \x7b f(g()).h(() -> i(), new B(j()) \x7b"
    ++ " int n = k(); void go() \x7b l(); \x7d \x7d); \x7d \x7d")

theorem every_call_counts_everywhere : callsEverywhere.height ≤ nestingLimit ∧
    (declarations callsEverywhere).map (·.targets) =
      [["h", "f", "g", "i", "j", "k", "l"], ["i"], ["l"]] ∧
    ∃ M, Lists .outside callsEverywhere M [] ∧
      ∃ d ∈ declarations callsEverywhere, CountsCalls M [] d := by
  have hfound : callsEverywhere.height ≤ nestingLimit ∧
      (declarations callsEverywhere).map (·.targets) =
        [["h", "f", "g", "i", "j", "k", "l"], ["i"], ["l"]] ∧
      methodAt callsEverywhere 1 [] (fun _ => true) = true := by
    decide +kernel
  rcases hfound with ⟨hheight, htargets, hplace⟩
  rcases lists_of_methodAt hplace with ⟨M, hM, -⟩
  exact ⟨hheight, htargets, M, hM, every_call_counts hheight hM⟩

/-- A method reference that is bound to the result of a call. -/
def boundReference : Tree :=
  .ofSource "class A \x7b\n  void run() \x7b\n    use(make()::go);\n  \x7d\n\x7d\n"

/-- The call before the reference is in the method and in no type of its own, but it counts for
nothing. -/
theorem receiver_of_reference_lost : boundReference.height ≤ nestingLimit ∧
    ∃ M, Lists .outside boundReference M [] ∧ Calls Tree.isOwn M [] "make" ∧
      ∀ d ∈ declarations boundReference, "make" ∉ d.targets := by
  have hfound : boundReference.height ≤ nestingLimit ∧
      (∀ d ∈ declarations boundReference, "make" ∉ d.targets) ∧
      methodAt boundReference 1 [] (fun M => inBodyAt M Tree.isOwn [1, 0, 1, 1, 0] fun u =>
        u.kind == .methodInvocation && callTarget? (locals M []) u == some "make") = true := by
    decide +kernel
  rcases hfound with ⟨hheight, hsilent, hplace⟩
  rcases lists_of_methodAt hplace with ⟨M, hM, hin⟩
  rcases within_of_inBodyAt hin (locals M []) with ⟨u, ⟨body, hbody, hu⟩, hcall⟩
  rw [Bool.and_eq_true, beq_iff_eq, beq_iff_eq] at hcall
  exact ⟨hheight, M, hM, ⟨body, hbody, locals M [], u, hu, hcall⟩, hsilent⟩

end ChangeImpact.Java
