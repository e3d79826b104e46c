import ChangeImpact.Java.Repair
import Mathlib.Logic.Basic

/-!
# What readers return

A property of all that a reader can return, as a class. Every combinator has an instance that asks
for the property of its parts, so that a production has a property by the instances of what it is
made of, and a change of a production changes one instance.

* `Reads` — all that a reader returns has a property;
* `Each`, `Named` — properties of lists of children;
* the instances of the combinators, for any property of trees.
-/

namespace ChangeImpact.Java

/-- All that the reader returns has the property. -/
class Reads {α : Type} (P : α → Prop) (p : Parser α) : Prop where
  holds : ∀ {ts rest : List Token} {a : α}, p ts = some (a, rest) → P a

/-- All children have the property. -/
def Each (P : Tree → Prop) (cs : List Child) : Prop := ∀ c ∈ cs, P c.2

/-- One of the children is a name. -/
def Named (cs : List Child) : Prop := ∃ c ∈ cs, c.1 = some .name

variable {α β : Type} {P Q : α → Prop} {R : Tree → Prop}

namespace Each

variable {cs cs' : List Child} {c : Child}

theorem nil : Each R [] := by simp [Each]

theorem cons (hc : R c.2) (h : Each R cs) : Each R (c :: cs) := List.forall_mem_cons.2 ⟨hc, h⟩

theorem append (h : Each R cs) (h' : Each R cs') : Each R (cs ++ cs') :=
  List.forall_mem_append.2 ⟨h, h'⟩

theorem children {k : Kind} {t : Tree} (h : Each R cs) (ht : t ∈ (Tree.node k cs).children) :
    R t := by
  obtain ⟨c, hc, rfl⟩ := List.mem_map.1 ht
  exact h c hc

end Each

theorem Named.child? {cs : List Child} (h : Named cs) (k : Kind) :
    ((Tree.node k cs).child? .name).isSome = true := by
  obtain ⟨c, hc, hrole⟩ := h
  rw [Tree.child?, Option.isSome_map, List.find?_isSome]
  exact ⟨c, hc, by rw [hrole]; rfl⟩

theorem Named.subset {cs cs' : List Child} (h : Named cs) (hsub : cs ⊆ cs') : Named cs' := by
  obtain ⟨c, hc, hrole⟩ := h
  exact ⟨c, hsub hc, hrole⟩

/-! ## Readers of anything -/

section Any

variable {p : Parser α} {ps : List (Parser α)} {test : List Token → Bool}

theorem Reads.mono [h : Reads P p] (hPQ : ∀ a, P a → Q a) : Reads Q p :=
  ⟨fun hread => hPQ _ (h.holds hread)⟩

theorem Reads.andThen {S : β → Prop} {f : α → Parser β} [h : Reads P p]
    (hf : ∀ a, P a → Reads S (f a)) : Reads S (Grammar.andThen p f) where
  holds {ts _ _} hread := by
    unfold Grammar.andThen at hread
    cases hp : p ts with
    | none => simp [hp] at hread
    | some r =>
      rw [hp] at hread
      exact (hf r.1 (h.holds hp)).holds hread

theorem Reads.mapped {S : β → Prop} {f : α → β} [h : Reads P p] (hf : ∀ a, P a → S (f a)) :
    Reads S (Grammar.mapped f p) where
  holds {ts _ _} hread := by
    unfold Grammar.mapped at hread
    cases hp : p ts with
    | none => simp [hp] at hread
    | some r =>
      simp only [hp, Option.some.injEq, Prod.mk.injEq] at hread
      exact hread.1 ▸ hf r.1 (h.holds hp)

instance : Reads P (Grammar.fail : Parser α) := ⟨nofun⟩

instance {a : α} [h : Fact (P a)] : Reads P (Grammar.succeed a) where
  holds hread := by
    cases hread
    exact h.out

instance : Reads P (Grammar.firstOf ([] : List (Parser α))) := ⟨nofun⟩

instance [h : Reads P p] [hs : Reads P (Grammar.firstOf ps)] :
    Reads P (Grammar.firstOf (p :: ps)) where
  holds {ts _ _} hread := by
    rw [Grammar.firstOf] at hread
    cases hp : p ts with
    | none => exact hs.holds (by simpa [hp] using hread)
    | some r =>
      rw [hp] at hread
      exact h.holds (hp.trans hread)

instance [h : Reads P p] : Reads P (Grammar.guarded test p) where
  holds {ts _ _} hread := by
    unfold Grammar.guarded at hread
    split at hread
    · exact h.holds hread
    · cases hread

end Any

/-! ## Readers of children -/

section Children

variable {p separator : Piece} {ps : List Piece} {q : Parser Tree} {field : Field}
  {test : List Token → Bool} {cs : List Child}

instance [Fact (Each R cs)] : Reads (Each R) (Grammar.given cs) :=
  inferInstanceAs (Reads (Each R) (Grammar.succeed cs))

instance [Reads R q] : Reads (Each R) (Grammar.kid q) :=
  Reads.mapped fun _ h => Each.nil.cons h

instance [Reads R q] : Reads (Each R) (Grammar.role field q) :=
  Reads.mapped fun _ h => Each.nil.cons h

instance : Reads (Each R) (Grammar.ahead test) where
  holds {ts _ _} hread := by
    unfold Grammar.ahead at hread
    split at hread
    · cases hread
      exact Each.nil
    · cases hread

/-- What a sequence returns, by what its first piece and the others return. -/
theorem Reads.seq {S T U : List Child → Prop} [h : Reads S p] [hs : Reads T (Grammar.seq ps)]
    (happend : ∀ cs cs', S cs → T cs' → U (cs ++ cs')) : Reads U (Grammar.seq (p :: ps)) where
  holds {ts _ _} hread := by
    rw [Grammar.seq] at hread
    cases hp : p ts with
    | none => simp [hp] at hread
    | some r =>
      cases hrest : Grammar.seq ps r.2 with
      | none => simp [hp, hrest] at hread
      | some r' =>
        simp only [hp, hrest, Option.some.injEq, Prod.mk.injEq] at hread
        exact hread.1 ▸ happend _ _ (h.holds hp) (hs.holds hrest)

instance : Reads (Each R) (Grammar.seq []) where
  holds hread := by
    cases hread
    exact Each.nil

instance [Reads (Each R) p] [Reads (Each R) (Grammar.seq ps)] :
    Reads (Each R) (Grammar.seq (p :: ps)) :=
  Reads.seq fun _ _ => Each.append

instance [h : Reads (Each R) p] : Reads (Each R) (Grammar.opt p) where
  holds {ts _ _} hread := by
    unfold Grammar.opt at hread
    cases hp : p ts with
    | none =>
      simp only [hp, Option.getD_none, Option.some.injEq, Prod.mk.injEq] at hread
      exact hread.1 ▸ Each.nil
    | some r =>
      rw [hp] at hread
      exact h.holds (hp.trans hread)

instance [h : Reads (Each R) p] (n : Nat) : Reads (Each R) (Grammar.repeated n p) := by
  induction n with
  | zero =>
    refine ⟨fun hread => ?_⟩
    cases hread
    exact Each.nil
  | succ n ih =>
    refine ⟨fun {ts _ _} hread => ?_⟩
    rw [Grammar.repeated] at hread
    cases hp : p ts with
    | none =>
      simp only [hp, Option.some.injEq, Prod.mk.injEq] at hread
      exact hread.1 ▸ Each.nil
    | some r =>
      cases hrest : Grammar.repeated n p r.2 with
      | none => simp [hp, hrest] at hread
      | some r' =>
        simp only [hp, hrest, Option.some.injEq, Prod.mk.injEq] at hread
        exact hread.1 ▸ (h.holds hp).append (ih.holds hrest)

instance [Reads (Each R) p] : Reads (Each R) (Grammar.many p) where
  holds {ts _ _} hread := Reads.holds (p := Grammar.repeated ts.length p) hread

instance [Reads (Each R) p] : Reads (Each R) (Grammar.many1 p) :=
  inferInstanceAs (Reads (Each R) (Grammar.seq _))

instance [Reads (Each R) p] [Reads (Each R) separator] :
    Reads (Each R) (Grammar.sepBy1 p separator) :=
  inferInstanceAs (Reads (Each R) (Grammar.seq _))

instance [Reads (Each R) p] [Reads (Each R) separator] :
    Reads (Each R) (Grammar.sepBy p separator) :=
  inferInstanceAs (Reads (Each R) (Grammar.opt _))

/-! ## Names -/

instance : Reads Named (Grammar.role .name q) where
  holds {ts _ _} hread := by
    unfold Grammar.role Grammar.mapped at hread
    cases hq : q ts with
    | none => simp [hq] at hread
    | some r =>
      simp only [hq, Option.some.injEq, Prod.mk.injEq] at hread
      exact hread.1 ▸ ⟨_, List.mem_singleton_self _, rfl⟩

instance (priority := low) [Reads Named (Grammar.seq ps)] : Reads Named (Grammar.seq (p :: ps)) :=
  have : Reads (fun _ => True) p := ⟨fun _ => trivial⟩
  Reads.seq (S := fun _ => True) (T := Named) fun cs _ _ h =>
    h.subset (List.subset_append_right cs _)

instance [Reads Named p] : Reads Named (Grammar.seq (p :: ps)) :=
  have : Reads (fun _ => True) (Grammar.seq ps) := ⟨fun _ => trivial⟩
  Reads.seq (S := Named) (T := fun _ => True) fun _ cs' h _ =>
    h.subset (List.subset_append_left _ cs')

end Children

end ChangeImpact.Java
