import Mathlib.Data.List.Infix
import ChangeImpact.Coverage.Risk

/-!
# The range of the risk score

The score of a method has two parts: one for the number of its callers, and one for what its owner
and its name suggest. The first is 1, 2 or 3 and does not drop as callers are added; the second is
the same for every number of callers. All marks of an owner can be found together, but a name that
begins with a verb of change begins with no verb of handling, so not all points can be had at once.

* `not_startsWithAny_of_apart` — a text does not begin with words of two lists none of which
  continues one of the other;
* `suggestedPoints`, `riskScore_eq` — the two parts; `suggestedPoints_le` — the greatest second
  part;
* `risk_bounded_monotone` — the range of the score, and how it grows with the callers.
-/

namespace ChangeImpact.Coverage

variable {m : Method} {xs ys : List String} {s : String} {a b n : Nat}

/-! ## Beginnings -/

theorem startsWithAny_iff : startsWithAny xs s = true ↔ ∃ x ∈ xs, x.toList <+: s.toList := by
  simp only [startsWithAny, Text.hasPrefix, List.any_eq_true, List.isPrefixOf_iff_prefix]

theorem containsAny_iff : containsAny xs s = true ↔ ∃ x ∈ xs, x.toList <:+: s.toList := by
  simp only [containsAny, Text.hasInfix, List.any_eq_true, Text.infixOf_iff]

/-- Neither word is a beginning of the other. -/
def Apart (x y : String) : Prop :=
  ¬x.toList <+: y.toList ∧ ¬y.toList <+: x.toList

instance (x y : String) : Decidable (Apart x y) :=
  inferInstanceAs (Decidable (_ ∧ _))

/-- Of two beginnings of a text one is a beginning of the other, so a text that begins with a word
begins with none that is apart from it. -/
theorem not_startsWithAny_of_apart (hapart : ∀ x ∈ xs, ∀ y ∈ ys, Apart x y)
    (h : startsWithAny xs s = true) : startsWithAny ys s = false := by
  obtain ⟨x, hx, hxs⟩ := startsWithAny_iff.1 h
  by_contra hnot
  obtain ⟨y, hy, hys⟩ := startsWithAny_iff.1 (eq_true_of_ne_false hnot)
  rcases List.prefix_or_prefix_of_prefix hxs hys with hxy | hyx
  · exact (hapart x hx y hy).1 hxy
  · exact (hapart x hx y hy).2 hyx

/-! ## Points -/

theorem pointsIf_le (holds : Bool) (points : Nat) : pointsIf holds points ≤ points := by
  cases holds
  · exact Nat.zero_le points
  · exact Nat.le_refl points

/-- Of two conditions that exclude each other only one gives points. -/
theorem pointsIf_add_le_max {p q : Bool} (h : p = true → q = false) (j k : Nat) :
    pointsIf p j + pointsIf q k ≤ max j k := by
  cases p with
  | false =>
    have hle := pointsIf_le q k
    simp only [pointsIf, Bool.false_eq_true, if_false] at hle ⊢
    omega
  | true =>
    rw [h rfl]
    exact Nat.le_max_left j k

theorem callerPoints_mono (h : a ≤ b) : callerPoints a ≤ callerPoints b := by
  unfold callerPoints
  split_ifs <;> omega

theorem callerPoints_range (n : Nat) : 1 ≤ callerPoints n ∧ callerPoints n ≤ 3 := by
  unfold callerPoints
  split_ifs <;> omega

/-- Points for what the owner and the name of a method suggest. -/
def suggestedPoints (m : Method) : Nat :=
  pointsIf (isPublicApi m) 2
    + pointsIf (isBusinessLogic m) 2
    + pointsIf (isCoreService m) 3
    + pointsIf (inBusinessPackage m) 2
    + pointsIf (inCorePackage m) 2
    + pointsIf (containsAny [".controller.", ".api."] m.owner) 1
    + (pointsIf (startsWithAny ["save", "update", "delete", "create"] m.name) 2
      + pointsIf (startsWithAny ["process", "execute", "handle"] m.name) 1)

theorem riskScore_eq (m : Method) (n : Nat) :
    riskScore m n = callerPoints n + suggestedPoints m := by
  unfold riskScore suggestedPoints
  omega

/-- No name begins with a verb of change and a verb of handling. -/
theorem verbs_exclusive (h : startsWithAny ["save", "update", "delete", "create"] s = true) :
    startsWithAny ["process", "execute", "handle"] s = false :=
  not_startsWithAny_of_apart (by decide) h

theorem suggestedPoints_le (m : Method) : suggestedPoints m ≤ 14 := by
  have hverbs := pointsIf_add_le_max (verbs_exclusive (s := m.name)) 2 1
  have hapi := pointsIf_le (isPublicApi m) 2
  have hlogic := pointsIf_le (isBusinessLogic m) 2
  have hservice := pointsIf_le (isCoreService m) 3
  have hbusiness := pointsIf_le (inBusinessPackage m) 2
  have hcore := pointsIf_le (inCorePackage m) 2
  have hentry := pointsIf_le (containsAny [".controller.", ".api."] m.owner) 1
  unfold suggestedPoints
  omega

/-- An owner in a business package counts twice: for its package, and as business rules. -/
theorem four_le_suggestedPoints (h : inBusinessPackage m = true) : 4 ≤ suggestedPoints m := by
  have hlogic : isBusinessLogic m = true := by
    unfold isBusinessLogic
    rw [h, Bool.true_or]
  unfold suggestedPoints
  rw [h, hlogic]
  simp only [pointsIf, if_true]
  omega

/-! ## Levels -/

theorem RiskLevel.rank_ofScore (score : Nat) :
    (RiskLevel.ofScore score).rank = if 7 ≤ score then 2 else if 4 ≤ score then 1 else 0 := by
  unfold RiskLevel.ofScore
  split_ifs <;> rfl

theorem RiskLevel.rank_ofScore_mono (h : a ≤ b) :
    (RiskLevel.ofScore a).rank ≤ (RiskLevel.ofScore b).rank := by
  rw [rank_ofScore, rank_ofScore]
  split_ifs <;> omega

/-- Whatever its owner and its name: the score of a method is between 1 and 17, it does not drop as
callers are added, nor does its level, and it grows by 2 at most; and a method in a business package
is at the highest level from five callers on. -/
theorem risk_bounded_monotone (m : Method) (h : a ≤ b) :
    1 ≤ riskScore m a ∧ riskScore m a ≤ riskScore m b ∧ riskScore m b ≤ 17 ∧
      (RiskLevel.ofScore (riskScore m a)).rank ≤ (RiskLevel.ofScore (riskScore m b)).rank ∧
      riskScore m b - riskScore m a ≤ 2 ∧
      (".service.".toList <:+: m.owner.toList ∨ ".business.".toList <:+: m.owner.toList →
        ∀ callers, 5 ≤ callers → RiskLevel.ofScore (riskScore m callers) = .high) := by
  have hsuggested := suggestedPoints_le m
  have hcallers := callerPoints_mono h
  obtain ⟨hleast, -⟩ := callerPoints_range a
  obtain ⟨-, hgreatest⟩ := callerPoints_range b
  have hmono : riskScore m a ≤ riskScore m b := by
    rw [riskScore_eq, riskScore_eq]
    omega
  refine ⟨?_, hmono, ?_, RiskLevel.rank_ofScore_mono hmono, ?_, ?_⟩
  · rw [riskScore_eq]
    omega
  · rw [riskScore_eq]
    omega
  · rw [riskScore_eq, riskScore_eq]
    omega
  · intro howner callers hfive
    have hbusiness : inBusinessPackage m = true := containsAny_iff.2 (by simpa using howner)
    have hfour := four_le_suggestedPoints hbusiness
    have hthree : callerPoints callers = 3 := if_pos hfive
    have hseven : 7 ≤ riskScore m callers := by
      rw [riskScore_eq]
      omega
    exact if_pos hseven

/-- A method with all marks of an owner at once, and a verb of change. -/
def mostMarked : Method := ⟨"acme.service.core.api.OrderService", "saveOrder"⟩

/-- Its scores are the greatest that there are, and so is the step between them. -/
theorem risk_bounded_monotone_mostMarked :
    riskScore mostMarked 1 = 15 ∧ riskScore mostMarked 5 = 17 ∧
      riskScore mostMarked 5 - riskScore mostMarked 1 ≤ 2 ∧
      ∀ callers, 5 ≤ callers → RiskLevel.ofScore (riskScore mostMarked callers) = .high := by
  obtain ⟨-, -, -, -, hstep, hhigh⟩ := risk_bounded_monotone mostMarked (by decide : 1 ≤ 5)
  exact ⟨by decide +kernel, by decide +kernel, hstep, hhigh (.inl (by decide +kernel))⟩

end ChangeImpact.Coverage
