import ChangeImpact.Method.Synthetic
import ChangeImpact.Resolution

/-!
# Minted names

A minted name ends in a marker and a number, so it is recognised as minted, and the name it was made
from and the number can be read off it: the digits have no dollar sign, hence the last marker is the
one before them.

* `Method.splitLast_closureMarker`, `Method.splitLast_anonymousMarker` — the last marker of a minted
  text;
* `Method.closure_inj`, `Method.anonymous_inj` — different numbers give different methods;
* `Method.LooksMinted`, `Method.isSynthetic_iff` — the minted form, and that it is recognised;
* `Method.isSynthetic_closure`, `Method.isSynthetic_anonymous` — minted methods are recognised;
* `Resolution.enclosingOwners_anonymous` — the types around an anonymous class.
-/

namespace ChangeImpact

/-! ## The last marker -/

namespace Text

/-- No separator starts among characters that are not its first one. -/
theorem splitLast_skip {c : Char} {sep front cs : List Char} (hfront : c ∉ front)
    (h : splitLast (c :: sep) cs = none) : splitLast (c :: sep) (front ++ cs) = none := by
  induction front with
  | nil => exact h
  | cons d front ih =>
    have hd : c ≠ d := fun hd => hfront (by simp [hd])
    have hrest : c ∉ front := fun hmem => hfront (List.mem_cons_of_mem _ hmem)
    rw [List.cons_append, splitLast, ih hrest]
    simp [List.isPrefixOf, hd]

theorem splitLast_of_not_mem {c : Char} {sep cs : List Char} (h : c ∉ cs) :
    splitLast (c :: sep) cs = none := by
  rw [← List.append_nil cs]
  exact splitLast_skip h rfl

/-- Characters in front move no separator. -/
theorem splitLast_front {sep cs before after : List Char} (front : List Char)
    (h : splitLast sep cs = some (before, after)) :
    splitLast sep (front ++ cs) = some (front ++ before, after) := by
  induction front with
  | nil => exact h
  | cons c front ih => rw [List.cons_append, splitLast, ih, List.cons_append]

/-- The last marker is the one in front of the digits. `hlater` says that none starts inside of it.
-/
theorem splitLast_numbered {c : Char} {marker digits : List Char}
    (hlater : splitLast (c :: marker) (marker ++ digits) = none) (name : List Char) :
    splitLast (c :: marker) (name ++ (c :: marker) ++ digits) = some (name, digits) := by
  have hhere : splitLast (c :: marker) (c :: marker ++ digits) = some ([], digits) := by
    have hfront : (c :: marker).isPrefixOf (c :: (marker ++ digits)) = true :=
      List.isPrefixOf_iff_prefix.2 ⟨digits, rfl⟩
    rw [List.cons_append, splitLast, hlater]
    simp [hfront]
  have hfront := splitLast_front name hhere
  rw [List.append_nil] at hfront
  rw [List.append_assoc]
  exact hfront

end Text

namespace Method

/-- The digits of a number. -/
theorem toList_toString (n : Nat) : (toString n).toList = Nat.toDigits 10 n := by
  simp

theorem isDigit_of_mem_toString {n : Nat} {c : Char} (h : c ∈ (toString n).toList) :
    c.isDigit = true := by
  rw [toList_toString] at h
  exact Nat.isDigit_of_mem_toDigits (by decide) (by decide) h

/-- What is no digit is not among digits. -/
theorem not_mem_of_isDigit {digits : List Char} (hdigits : ∀ c ∈ digits, c.isDigit = true)
    {c : Char} (hc : c.isDigit = false) : c ∉ digits := by
  intro hmem
  rw [hdigits c hmem] at hc
  cases hc

theorem dollar_not_mem_toString (n : Nat) : '$' ∉ (toString n).toList :=
  not_mem_of_isDigit (fun _ => isDigit_of_mem_toString) (by decide)

theorem toString_inj {m n : Nat} (h : (toString m).toList = (toString n).toList) : m = n := by
  rw [toList_toString, toList_toString] at h
  have hread := congrArg (fun digits => Nat.ofDigitChars 10 digits 0) h
  simpa using hread

/-- The last marker of a closure's name stands in front of the digits. -/
theorem splitLast_closureMarker {digits : List Char} (hdigits : ∀ c ∈ digits, c.isDigit = true)
    (name : List Char) :
    Text.splitLast closureMarker.toList (name ++ closureMarker.toList ++ digits) =
      some (name, digits) := by
  have hmarker : closureMarker.toList = '$' :: ("lambda".toList ++ ['$']) := rfl
  have hnone : Text.splitLast closureMarker.toList digits = none :=
    Text.splitLast_of_not_mem (not_mem_of_isDigit hdigits (by decide))
  -- no marker starts at the second dollar sign, since a digit or nothing follows it
  have hdollar : Text.splitLast closureMarker.toList ('$' :: digits) = none := by
    have hno : closureMarker.toList.isPrefixOf ('$' :: digits) = false := by
      rw [Bool.eq_false_iff]
      intro hmark
      obtain ⟨rest, hrest⟩ := List.isPrefixOf_iff_prefix.1 hmark
      rw [hmarker, List.cons_append] at hrest
      have hletter : 'l' ∈ digits := by
        rw [← (List.cons.inj hrest).2]
        exact List.mem_append_left _ (List.mem_append_left _ (by decide))
      exact not_mem_of_isDigit hdigits (by decide) hletter
    rw [Text.splitLast, hnone]
    dsimp only
    rw [hno]
    rfl
  rw [hmarker]
  refine Text.splitLast_numbered ?_ name
  rw [List.append_assoc]
  exact Text.splitLast_skip (by decide) hdollar

/-- The last marker of an anonymous class stands in front of the digits. -/
theorem splitLast_anonymousMarker {digits : List Char} (hdigits : ∀ c ∈ digits, c.isDigit = true)
    (owner : List Char) :
    Text.splitLast anonymousMarker.toList (owner ++ anonymousMarker.toList ++ digits) =
      some (owner, digits) := by
  have hmarker : anonymousMarker.toList = '$' :: "Anonymous".toList := rfl
  rw [hmarker]
  refine Text.splitLast_numbered (Text.splitLast_of_not_mem ?_) owner
  rw [List.mem_append]
  rintro (hword | hdigit)
  · exact absurd hword (by decide)
  · exact not_mem_of_isDigit hdigits (by decide) hdigit

theorem cutLast_closure (name : String) (n : Nat) :
    Text.splitLast closureMarker.toList (name ++ closureMarker ++ toString n).toList =
      some (name.toList, (toString n).toList) := by
  rw [String.toList_append, String.toList_append]
  exact splitLast_closureMarker (fun _ => isDigit_of_mem_toString) name.toList

theorem cutLast_anonymous (owner : String) (n : Nat) :
    Text.splitLast anonymousMarker.toList (owner ++ anonymousMarker ++ toString n).toList =
      some (owner.toList, (toString n).toList) := by
  rw [String.toList_append, String.toList_append]
  exact splitLast_anonymousMarker (fun _ => isDigit_of_mem_toString) owner.toList

/-! ## Recognising minted methods -/

/-- The text is a name, which may be empty, then the marker and at least one digit. -/
def Numbered (marker s : String) : Prop :=
  ∃ name digits : List Char, digits ≠ [] ∧ (∀ c ∈ digits, c.isDigit = true) ∧
    s.toList = name ++ marker.toList ++ digits

/-- The method's own name or that of its owner has the minted form. -/
def LooksMinted (m : Method) : Prop :=
  Numbered closureMarker m.name ∨ Numbered anonymousMarker m.owner

theorem numbered_toString (marker name : String) (n : Nat) :
    Numbered marker (name ++ marker ++ toString n) := by
  refine ⟨name.toList, (toString n).toList, ?_, fun _ => isDigit_of_mem_toString, ?_⟩
  · rw [toList_toString]
    exact Nat.toDigits_ne_nil
  · rw [String.toList_append, String.toList_append]

/-- A marker that is found in front of the digits recognises its texts. -/
theorem numberedBy_iff {marker s : String}
    (hlast : ∀ name digits : List Char, (∀ c ∈ digits, c.isDigit = true) →
      Text.splitLast marker.toList (name ++ marker.toList ++ digits) = some (name, digits)) :
    numberedBy marker s = true ↔ Numbered marker s := by
  unfold numberedBy Text.cutLast
  constructor
  · intro h
    cases hsplit : Text.splitLast marker.toList s.toList with
    | none => simp [hsplit] at h
    | some parts =>
      obtain ⟨name, digits⟩ := parts
      simp only [hsplit, Option.map_some, String.toList_ofList, Bool.and_eq_true,
        Bool.not_eq_true', List.isEmpty_eq_false_iff, List.all_eq_true] at h
      exact ⟨name, digits, h.1, h.2, (Text.splitLast_append hsplit).symm⟩
  · rintro ⟨name, digits, hne, hdigits, htext⟩
    rw [htext, hlast name digits hdigits, Option.map_some]
    dsimp only
    rw [String.toList_ofList, List.all_eq_true.2 hdigits, List.isEmpty_eq_false_iff.2 hne]
    rfl

theorem isSynthetic_iff {m : Method} : m.isSynthetic = true ↔ m.LooksMinted := by
  unfold isSynthetic LooksMinted
  rw [Bool.or_eq_true, numberedBy_iff fun name _ hdigits => splitLast_closureMarker hdigits name,
    numberedBy_iff fun owner _ hdigits => splitLast_anonymousMarker hdigits owner]

theorem isSynthetic_closure (owner name : String) (n : Nat) :
    (closure owner name n).isSynthetic = true :=
  isSynthetic_iff.2 (.inl (numbered_toString closureMarker name n))

theorem isSynthetic_anonymous (owner name : String) (n : Nat) :
    (anonymous owner name n).isSynthetic = true :=
  isSynthetic_iff.2 (.inr (numbered_toString anonymousMarker owner n))

/-- A closure's method tells the owner, the name and the number it was made from. -/
theorem closure_inj {owner owner' name name' : String} {n n' : Nat}
    (h : closure owner name n = closure owner' name' n') :
    owner = owner' ∧ name = name' ∧ n = n' := by
  obtain ⟨howner, htext⟩ := Method.mk.inj h
  have hcut := cutLast_closure name n
  rw [htext, cutLast_closure, Option.some.injEq, Prod.mk.injEq] at hcut
  exact ⟨howner, (String.toList_inj.1 hcut.1).symm, (toString_inj hcut.2).symm⟩

theorem anonymous_inj {owner owner' name name' : String} {n n' : Nat}
    (h : anonymous owner name n = anonymous owner' name' n') :
    owner = owner' ∧ name = name' ∧ n = n' := by
  obtain ⟨htext, hname⟩ := Method.mk.inj h
  have hcut := cutLast_anonymous owner n
  rw [htext, cutLast_anonymous, Option.some.injEq, Prod.mk.injEq] at hcut
  exact ⟨(String.toList_inj.1 hcut.1).symm, hname, (toString_inj hcut.2).symm⟩

/-- A closure is no member of an anonymous class, unless its own owner has the minted form. -/
theorem closure_ne_anonymous {owner owner' name name' : String} {n n' : Nat}
    (h : (⟨owner, name⟩ : Method).isSynthetic = false) :
    closure owner name n ≠ anonymous owner' name' n' := by
  intro heq
  obtain ⟨howner, -⟩ := Method.mk.inj heq
  have hminted : (⟨owner, name⟩ : Method).isSynthetic = true := by
    rw [howner]
    exact isSynthetic_anonymous owner' name n'
  rw [h] at hminted
  cases hminted

end Method

namespace Resolution

/-! ## Types around an anonymous class -/

theorem beforeDollars_of_not_mem {cs : List Char} (h : '$' ∉ cs) : beforeDollars cs = [] := by
  induction cs with
  | nil => rfl
  | cons c cs ih =>
    have hc : c ≠ '$' := fun hc => h (by simp [hc])
    rw [beforeDollars, if_neg hc, ih fun hmem => h (List.mem_cons_of_mem _ hmem)]
    rfl

theorem beforeDollars_append {rest : List Char} (h : '$' ∉ rest) (front : List Char) :
    beforeDollars (front ++ '$' :: rest) = beforeDollars front ++ [front] := by
  induction front with
  | nil => simp [beforeDollars, beforeDollars_of_not_mem h]
  | cons c front ih =>
    rw [List.cons_append, beforeDollars, ih, beforeDollars]
    simp

/-- Around an anonymous class are its owner and the types around that. -/
theorem enclosingOwners_anonymous (owner name : String) (n : Nat) :
    enclosingOwners (Method.anonymous owner name n).owner =
      (Method.anonymous owner name n).owner :: enclosingOwners owner := by
  have htext : (Method.anonymous owner name n).owner.toList =
      owner.toList ++ '$' :: ("Anonymous".toList ++ (toString n).toList) := by
    rw [Method.anonymous, String.toList_append, String.toList_append, List.append_assoc]
    rfl
  have hrest : '$' ∉ "Anonymous".toList ++ (toString n).toList := by
    rw [List.mem_append]
    rintro (hword | hdigit)
    · exact absurd hword (by decide)
    · exact Method.dollar_not_mem_toString n hdigit
  unfold enclosingOwners
  rw [htext, beforeDollars_append hrest]
  simp

end Resolution

end ChangeImpact
