import ChangeImpact.Proofs.JavaWalk

/-!
# What the walk keeps up

While a closure or a member of an anonymous class is walked, all that was active when it was made
stays active. So it lies in the lines of each of them, has their owner, and its calls are calls of
theirs.

* `LiesIn` — a declaration lies in the lines of another one of the same owner;
* `Trace.Good` — every closure and member lies in all that was active when it was made, and its
  calls are calls of theirs;
* `Trace.Extends` — what a part of the walk may change; `Trace.Placed` — where it may start;
* `Keeps` — a walk that keeps `Good` up; `keeps_enter`, `keeps_members`, `keeps_level` — its steps;
* `keeps_trace`, `good_end` — the whole walk over a nested tree.
-/

namespace ChangeImpact.Java

/-! ## Covered declarations -/

/-- A declaration lies in another one of the same owner. -/
structure LiesIn (d e : Declaration) : Prop where
  owner : e.owner = d.owner
  start : e.startLine ≤ d.startLine
  stop : d.endLine ≤ e.endLine

/-- A declaration without its calls. -/
def bare (d : Declaration) : Declaration := { d with targets := [] }

theorem LiesIn.of_bare {d d' e e' : Declaration} (h : LiesIn d e) (hd : bare d' = bare d)
    (he : bare e' = bare e) : LiesIn d' e' := by
  obtain ⟨howner, hstart, hstop⟩ := h
  simp only [bare, Declaration.mk.injEq] at hd he
  exact ⟨by rw [hd.1, he.1, howner], by omega, by omega⟩

theorem kind_eq_of_bare {d d' : Declaration} (h : bare d' = bare d) : d'.kind = d.kind := by
  simp only [bare, Declaration.mk.injEq] at h
  exact h.2.2.2.2.1

theorem owner_eq_of_bare {d d' : Declaration} (h : bare d' = bare d) : d'.owner = d.owner := by
  simp only [bare, Declaration.mk.injEq] at h
  exact h.1

theorem Encloses.of_bare {d d' : Declaration} {t : Tree} (h : Encloses d t)
    (hd : bare d' = bare d) : Encloses d' t := by
  simp only [bare, Declaration.mk.injEq] at hd
  intro hne
  obtain ⟨hstart, hstop⟩ := h hne
  exact ⟨by omega, by omega⟩

namespace Trace

variable {w w₀ w₁ w₂ : Trace} {active : List Nat} {owner : Option String} {t : Tree}

/-- What is known at every moment of the walk. -/
structure Good (w : Trace) : Prop where
  length : w.around.length = w.declarations.length
  /-- Active declarations are there, lie around, and have all the calls. -/
  covered : ∀ (i : Nat) d active, w.declarations[i]? = some d → d.kind ≠ .method →
    w.around[i]? = some active → ∀ j ∈ active,
      ∃ e, w.declarations[j]? = some e ∧ LiesIn d e ∧ d.targets ⊆ e.targets
  /-- Bodies are numbered below the counter. -/
  numbered : ∀ (i : Nat) d body, w.declarations[i]? = some d → d.kind = .anonymousMethod body →
    body < w.found.bodies
  /-- The members of a body are made under one stack. -/
  together : ∀ (i i' : Nat) d d' body, w.declarations[i]? = some d → w.declarations[i']? = some d' →
    d.kind = .anonymousMethod body → d'.kind = .anonymousMethod body →
      w.around[i]? = w.around[i']?

/-- A later moment of the walk: declarations get calls at most, and new members belong to new
bodies. -/
structure Extends (w w' : Trace) : Prop where
  kept : ∀ (i : Nat) d, w.declarations[i]? = some d →
    ∃ d', w'.declarations[i]? = some d' ∧ bare d' = bare d
  around : w.around <+: w'.around
  bodies : w.found.bodies ≤ w'.found.bodies
  fresh : ∀ (i : Nat) d body, w'.declarations[i]? = some d → d.kind = .anonymousMethod body →
    body < w.found.bodies → i < w.declarations.length

theorem Extends.refl (w : Trace) : Extends w w where
  kept := fun _ d hd => ⟨d, hd, rfl⟩
  around := List.prefix_refl _
  bodies := Nat.le_refl _
  fresh := fun _ _ _ hd _ _ => (List.getElem?_eq_some_iff.1 hd).1

theorem Extends.trans (h : Extends w₀ w₁) (h' : Extends w₁ w₂) : Extends w₀ w₂ where
  kept := by
    intro i d hd
    obtain ⟨d₁, hd₁, hbare₁⟩ := h.kept i d hd
    obtain ⟨d₂, hd₂, hbare₂⟩ := h'.kept i d₁ hd₁
    exact ⟨d₂, hd₂, hbare₂.trans hbare₁⟩
  around := h.around.trans h'.around
  bodies := Nat.le_trans h.bodies h'.bodies
  fresh := by
    intro i d body hd hkind hbody
    -- the member was there in the middle already
    have hi := h'.fresh i d body hd hkind (Nat.lt_of_lt_of_le hbody h.bodies)
    have hmiddle : w₁.declarations[i]? = some w₁.declarations[i] := List.getElem?_eq_getElem hi
    obtain ⟨d', hd', hbare⟩ := h'.kept i _ hmiddle
    obtain rfl : d = d' := Option.some.inj (hd.symm.trans hd')
    exact h.fresh i _ body hmiddle ((kind_eq_of_bare hbare).symm.trans hkind) hbody

theorem Extends.around_eq (h : Extends w₀ w₁) {i : Nat} (hi : w₀.around[i]? = some active) :
    w₁.around[i]? = some active := by
  obtain ⟨more, hmore⟩ := h.around
  have hlt : i < w₀.around.length := (List.getElem?_eq_some_iff.1 hi).1
  rw [← hmore, List.getElem?_append_left hlt, hi]

/-- The active declarations at a tree: they are there, lie around it, and with a closure or member
all that is around it is active as well. -/
def Placed (active : List Nat) (owner : Option String) (w : Trace) (t : Tree) : Prop :=
  ∀ j ∈ active, ∃ e, w.declarations[j]? = some e ∧ owner = some e.owner ∧ Encloses e t ∧
    (e.kind ≠ .method → ∃ outer, w.around[j]? = some outer ∧ outer ⊆ active)

theorem Placed.nil : Placed [] owner w t := by
  intro j hj
  cases hj

theorem Placed.extends (h : Placed active owner w₀ t) (hw : Extends w₀ w₁) :
    Placed active owner w₁ t := by
  intro j hj
  obtain ⟨e, he, howner, hrows, houter⟩ := h j hj
  obtain ⟨e', he', hbare⟩ := hw.kept j e he
  refine ⟨e', he', ?_, hrows.of_bare hbare, ?_⟩
  · rw [owner_eq_of_bare hbare, howner]
  · intro hkind
    rw [kind_eq_of_bare hbare] at hkind
    obtain ⟨outer, hat, hsub⟩ := houter hkind
    exact ⟨outer, hw.around_eq hat, hsub⟩

theorem Placed.child {c : Tree} (h : Placed active owner w t) (ht : t.nested = true)
    (hc : c ∈ t.children) : Placed active owner w c := by
  intro j hj
  obtain ⟨e, he, howner, hrows, houter⟩ := h j hj
  exact ⟨e, he, howner, hrows.child ht hc, houter⟩

/-! ## A new declaration -/

/-- The declaration that is made from a tree. -/
def made (owner name : String) (t : Tree) (kind : Declaration.Kind) : Declaration :=
  { owner := owner
    name := name
    startLine := t.startRow + 1
    endLine := t.endRow + 1
    kind := kind
    annotations := if kind = .closure then [] else annotationNames t
    targets := [] }

theorem declarations_declare (w : Trace) (active : List Nat) (owner name : String) (t : Tree)
    (kind : Declaration.Kind) :
    (w.declare active owner name t kind).declarations =
      w.declarations ++ [made owner name t kind] :=
  rfl

/-- The members of a body so far, all made under one stack. -/
def InBody (body : Nat) (active : List Nat) (w : Trace) : Prop :=
  body < w.found.bodies ∧ ∀ (i : Nat) d, w.declarations[i]? = some d →
    d.kind = .anonymousMethod body → w.around[i]? = some active

variable {name ownerName : String} {kind : Declaration.Kind} {body : Nat}

theorem InBody.extends (h : InBody body active w₀) (hw : Extends w₀ w₁) :
    InBody body active w₁ := by
  refine ⟨Nat.lt_of_lt_of_le h.1 hw.bodies, ?_⟩
  intro i d hd hkind
  have hi := hw.fresh i d body hd hkind h.1
  have hbefore : w₀.declarations[i]? = some w₀.declarations[i] := List.getElem?_eq_getElem hi
  obtain ⟨d', hd', hbare⟩ := hw.kept i _ hbefore
  obtain rfl : d = d' := Option.some.inj (hd.symm.trans hd')
  exact hw.around_eq (h.2 i _ hbefore ((kind_eq_of_bare hbare).symm.trans hkind))

theorem InBody.declare (h : InBody body active w) (hw : Good w) :
    InBody body active (w.declare active ownerName name t (.anonymousMethod body)) := by
  refine ⟨h.1, ?_⟩
  intro i d hd hkind
  show (w.around ++ [active])[i]? = some active
  rw [getElem?_concat_iff, hw.length]
  rcases getElem?_concat_iff.1 hd with hold | ⟨hi, -⟩
  · exact .inl (h.2 i d hold hkind)
  · exact .inr ⟨hi, rfl⟩

/-- A declaration made where all that is active lies around. -/
theorem Good.declare (hw : Good w) (hplaced : Placed active (some ownerName) w t)
    (hthere : t.isMissing = false)
    (hbody : ∀ body, kind = .anonymousMethod body → InBody body active w) :
    Good (w.declare active ownerName name t kind) := by
  have haround : ∀ {i : Nat} {outer : List Nat},
      (w.declare active ownerName name t kind).around[i]? = some outer ↔
        w.around[i]? = some outer ∨ i = w.declarations.length ∧ outer = active := by
    intro i outer
    rw [← hw.length]
    exact getElem?_concat_iff
  refine ⟨?_, ?_, ?_, ?_⟩
  · rw [declarations_declare, List.length_append, ← hw.length]
    exact List.length_append
  · intro i d outer hd hkind houter j hj
    rcases getElem?_concat_iff.1 hd with hold | ⟨rfl, rfl⟩
    · -- an earlier declaration
      have hi : i < w.declarations.length := (List.getElem?_eq_some_iff.1 hold).1
      have houter' := (haround.1 houter).resolve_right fun h => Nat.ne_of_lt hi h.1
      obtain ⟨e, he, hlies, htargets⟩ := hw.covered i d outer hold hkind houter' j hj
      exact ⟨e, getElem?_concat_iff.2 (.inl he), hlies, htargets⟩
    · -- the new one
      have hnone : w.around[w.declarations.length]? = none :=
        List.getElem?_eq_none (Nat.le_of_eq hw.length)
      rcases haround.1 houter with hold | ⟨-, rfl⟩
      · rw [hnone] at hold
        cases hold
      · obtain ⟨e, he, howner, hrows, -⟩ := hplaced j hj
        obtain ⟨hstart, hstop⟩ := hrows hthere
        refine ⟨e, getElem?_concat_iff.2 (.inl he), ⟨?_, hstart, hstop⟩, List.nil_subset _⟩
        exact (Option.some.inj howner).symm
  · intro i d body hd hkind
    rcases getElem?_concat_iff.1 hd with hold | ⟨-, rfl⟩
    · exact hw.numbered i d body hold hkind
    · exact (hbody body hkind).1
  · intro i i' d d' body hd hd' hkind hkind'
    rcases getElem?_concat_iff.1 hd with hold | ⟨rfl, rfl⟩ <;>
      rcases getElem?_concat_iff.1 hd' with hold' | ⟨rfl, rfl⟩
    · have hsame := hw.together i i' d d' body hold hold' hkind hkind'
      have hi : i < w.around.length := hw.length ▸ (List.getElem?_eq_some_iff.1 hold).1
      have hi' : i' < w.around.length := hw.length ▸ (List.getElem?_eq_some_iff.1 hold').1
      show (w.around ++ [active])[i]? = (w.around ++ [active])[i']?
      rw [List.getElem?_append_left hi, List.getElem?_append_left hi', hsame]
    · rw [haround.2 (.inl ((hbody body hkind').2 i d hold hkind)), haround.2 (.inr ⟨rfl, rfl⟩)]
    · rw [haround.2 (.inl ((hbody body hkind).2 i' d' hold' hkind')), haround.2 (.inr ⟨rfl, rfl⟩)]
    · rfl

theorem Extends.declare (h : Extends w₀ w)
    (hbody : ∀ body, kind = .anonymousMethod body → w₀.found.bodies ≤ body) :
    Extends w₀ (w.declare active ownerName name t kind) where
  kept := by
    intro i d hd
    obtain ⟨d', hd', hbare⟩ := h.kept i d hd
    exact ⟨d', getElem?_concat_iff.2 (.inl hd'), hbare⟩
  around := h.around.trans (List.prefix_append _ _)
  bodies := h.bodies
  fresh := by
    intro i d body hd hkind hlt
    rcases getElem?_concat_iff.1 hd with hold | ⟨-, rfl⟩
    · exact h.fresh i d body hold hkind hlt
    · exact absurd hlt (Nat.not_lt.2 (hbody body hkind))

/-- Below a new declaration, it is active too. -/
theorem Placed.push (h : Placed active (some ownerName) w t) (hw : Good w) :
    Placed (active ++ [w.declarations.length]) (some ownerName)
      (w.declare active ownerName name t kind) t := by
  intro j hj
  rcases List.mem_append.1 hj with hj | hj
  · obtain ⟨e, he, howner, hrows, houter⟩ := h j hj
    refine ⟨e, getElem?_concat_iff.2 (.inl he), howner, hrows, ?_⟩
    intro hkind
    obtain ⟨outer, hat, hsub⟩ := houter hkind
    exact ⟨outer, getElem?_concat_iff.2 (.inl hat), List.subset_append_of_subset_left _ hsub⟩
  · obtain rfl := List.mem_singleton.1 hj
    refine ⟨made ownerName name t kind, getElem?_concat_iff.2 (.inr ⟨rfl, rfl⟩), rfl, ?_, ?_⟩
    · exact fun _ => ⟨Nat.le_refl _, Nat.le_refl _⟩
    · exact fun _ => ⟨active, getElem?_concat_iff.2 (.inr ⟨hw.length.symm, rfl⟩),
        List.subset_append_left _ _⟩

/-- Below a method, it alone is active. -/
theorem placed_method (active : List Nat) :
    Placed [w.declarations.length] (some ownerName)
      (w.declare active ownerName name t .method) t := by
  intro j hj
  obtain rfl := List.mem_singleton.1 hj
  refine ⟨made ownerName name t .method, getElem?_concat_iff.2 (.inr ⟨rfl, rfl⟩), rfl, ?_, ?_⟩
  · exact fun _ => ⟨Nat.le_refl _, Nat.le_refl _⟩
  · exact fun hkind => absurd rfl hkind

/-! ## A recorded call -/

/-- A declaration that was credited with a call so many times. -/
def credited (target : String) (times : Nat) (d : Declaration) : Declaration :=
  { d with targets := d.targets ++ List.replicate times target }

theorem getElem?_credited (target : String) (ds : List Declaration) (i : Nat) :
    (active.foldl (fun ds i => ds.modify i (addTarget target)) ds)[i]? =
      ds[i]?.map (credited target (active.count i)) := by
  induction active generalizing ds with
  | nil =>
    have hnone : credited target 0 = id := by
      funext d
      simp [credited]
    rw [List.foldl_nil, List.count_nil, hnone, Option.map_id, id]
  | cons j active ih =>
    rw [List.foldl_cons, ih, List.getElem?_modify, List.count_cons]
    cases ds[i]? with
    | none => rfl
    | some d =>
      by_cases hij : j = i
      · simp [hij, credited, addTarget, List.replicate_succ]
      · simp [hij, credited]

theorem getElem?_record (target : String) (i : Nat) :
    (w.record active (some target)).declarations[i]? =
      w.declarations[i]?.map (credited target (active.count i)) :=
  getElem?_credited target _ i

theorem Extends.record (w : Trace) (active : List Nat) (target : Option String) :
    Extends w (w.record active target) := by
  cases target with
  | none => exact Extends.refl w
  | some target =>
    refine ⟨?_, List.prefix_refl _, Nat.le_refl _, ?_⟩
    · intro i d hd
      exact ⟨credited target (active.count i) d, by rw [getElem?_record, hd]; rfl, rfl⟩
    · intro i d body hd _ _
      rw [getElem?_record] at hd
      obtain ⟨d', hd', -⟩ := Option.map_eq_some_iff.1 hd
      exact (List.getElem?_eq_some_iff.1 hd').1

/-- A call that counts for a closure or member counts for all that is around it. -/
theorem Good.record (hw : Good w) (hplaced : Placed active owner w t) (target : Option String) :
    Good (w.record active target) := by
  cases target with
  | none => exact hw
  | some target =>
    refine ⟨?_, ?_, ?_, ?_⟩
    · have hlength : ∀ ds : List Declaration,
          (active.foldl (fun ds i => ds.modify i (addTarget target)) ds).length = ds.length := by
        clear hplaced
        induction active with
        | nil => exact fun _ => rfl
        | cons j active ih => exact fun ds => by rw [List.foldl_cons, ih, List.length_modify]
      exact hw.length.trans (hlength _).symm
    · intro i d outer hd hkind houter j hj
      rw [getElem?_record] at hd
      obtain ⟨d₀, hd₀, rfl⟩ := Option.map_eq_some_iff.1 hd
      obtain ⟨e₀, he₀, hlies, htargets⟩ := hw.covered i d₀ outer hd₀ hkind houter j hj
      refine ⟨credited target (active.count j) e₀, ?_, hlies.of_bare rfl rfl, ?_⟩
      · rw [getElem?_record, he₀]
        rfl
      · intro x hx
        rcases List.mem_append.1 hx with hx | hx
        · exact List.mem_append_left _ (htargets hx)
        · -- credited, hence active, and so is what is around it
          obtain ⟨hcount, rfl⟩ := List.mem_replicate.1 hx
          have hi : i ∈ active := List.count_pos_iff.1 (Nat.pos_of_ne_zero hcount)
          obtain ⟨e, he, -, -, hclosed⟩ := hplaced i hi
          obtain rfl : d₀ = e := Option.some.inj (hd₀.symm.trans he)
          obtain ⟨outer', hat, hsub⟩ := hclosed hkind
          obtain rfl : outer = outer' := Option.some.inj (houter.symm.trans hat)
          have hj' : active.count j ≠ 0 := Nat.ne_of_gt (List.count_pos_iff.2 (hsub hj))
          exact List.mem_append_right _ (List.mem_replicate.2 ⟨hj', rfl⟩)
    · intro i d body hd hkind
      rw [getElem?_record] at hd
      obtain ⟨d₀, hd₀, rfl⟩ := Option.map_eq_some_iff.1 hd
      exact hw.numbered i d₀ body hd₀ hkind
    · intro i i' d d' body hd hd' hkind hkind'
      rw [getElem?_record] at hd hd'
      obtain ⟨d₀, hd₀, rfl⟩ := Option.map_eq_some_iff.1 hd
      obtain ⟨d₁, hd₁, rfl⟩ := Option.map_eq_some_iff.1 hd'
      exact hw.together i i' d₀ d₁ body hd₀ hd₁ hkind hkind'

/-! ## A new body -/

theorem Good.openBody (hw : Good w) : Good w.openBody :=
  ⟨hw.length, hw.covered,
    fun i d body hd hkind => Nat.lt_succ_of_lt (hw.numbered i d body hd hkind), hw.together⟩

theorem Extends.openBody (w : Trace) : Extends w w.openBody :=
  ⟨fun _ d hd => ⟨d, hd, rfl⟩, List.prefix_refl _, Nat.le_succ _,
    fun _ _ _ hd _ _ => (List.getElem?_eq_some_iff.1 hd).1⟩

theorem inBody_openBody (hw : Good w) : InBody w.found.bodies active w.openBody := by
  refine ⟨Nat.lt_succ_self _, ?_⟩
  intro i d hd hkind
  exact absurd (hw.numbered i d _ hd hkind) (Nat.lt_irrefl _)

end Trace

/-! ## The walk -/

open Trace

/-- A walk that keeps up what is known at every moment. -/
def Keeps (v : Scope → Trace → Tree → Trace) : Prop :=
  ∀ s w t, t.nested = true → Good w → Placed s.active s.owner w t →
    Good (v s w t) ∧ Extends w (v s w t)

theorem Keeps.foldl {v : Scope → Trace → Tree → Trace} (h : Keeps v) {s : Scope} {w : Trace}
    {cs : List Tree} (hgood : Good w)
    (hcs : ∀ c ∈ cs, c.nested = true ∧ Placed s.active s.owner w c) :
    Good (cs.foldl (v s) w) ∧ Extends w (cs.foldl (v s) w) := by
  induction cs generalizing w with
  | nil => exact ⟨hgood, Extends.refl w⟩
  | cons c cs ih =>
    obtain ⟨hnested, hplaced⟩ := hcs c List.mem_cons_self
    obtain ⟨hgood', hext⟩ := h s w c hnested hgood hplaced
    obtain ⟨hgood'', hext'⟩ := ih hgood' fun c' hc' =>
      ⟨(hcs c' (List.mem_cons_of_mem _ hc')).1,
        (hcs c' (List.mem_cons_of_mem _ hc')).2.extends hext⟩
    exact ⟨hgood'', hext.trans hext'⟩

/-- The children of a tree, one after the other. -/
theorem Keeps.children {v : Scope → Trace → Tree → Trace} (h : Keeps v) {s : Scope} {w : Trace}
    {t : Tree} (ht : t.nested = true) (hgood : Good w) (hplaced : Placed s.active s.owner w t) :
    Good (t.children.foldl (v s) w) ∧ Extends w (t.children.foldl (v s) w) :=
  h.foldl hgood fun _ hc => ⟨(Tree.nested_child ht hc).2, hplaced.child ht hc⟩

variable {s : Scope} {w : Trace} {t : Tree}

theorem placed_enterType (h : Placed s.active s.owner w t) (package : Option String) :
    Placed (enterType s package t).active (enterType s package t).owner w t := by
  unfold enterType
  split
  · cases t.child? .name with
    | some name => exact Placed.nil
    | none => exact h
  · exact h

/-- What is done at a tree before its children. -/
theorem keeps_enter (hgood : Good w) (hplaced : Placed s.active s.owner w t) :
    Good (enter s w t).2 ∧ Extends w (enter s w t).2 ∧
      Placed (enter s w t).1.active (enter s w t).1.owner (enter s w t).2 t := by
  obtain ⟨owner, enclosing, active, known⟩ := s
  have hrecord : ∀ target, Good (w.record active target) ∧ Extends w (w.record active target) ∧
      Placed active owner (w.record active target) t := fun target =>
    ⟨hgood.record hplaced target, .record w active target,
      hplaced.extends (.record w active target)⟩
  unfold enter
  split
  · exact ⟨⟨hgood.length, hgood.covered, hgood.numbered, hgood.together⟩,
      ⟨fun _ d hd => ⟨d, hd, rfl⟩, List.prefix_refl _, Nat.le_refl _, (Extends.refl w).fresh⟩,
      hplaced⟩
  · next hk =>
    cases owner with
    | none => exact ⟨hgood, .refl w, hplaced⟩
    | some owner =>
      cases t.child? .name with
      | none => exact ⟨hgood, .refl w, hplaced⟩
      | some name =>
        have hthere := Tree.not_isMissing_of_kind (by rw [hk]; decide)
        refine ⟨hgood.declare hplaced hthere ?_, (Extends.refl w).declare ?_, placed_method active⟩
        · exact fun body hbody => nomatch hbody
        · exact fun body hbody => nomatch hbody
  · exact ⟨hgood, .refl w, Placed.nil⟩
  · exact ⟨hgood, .refl w, Placed.nil⟩
  · next hk =>
    cases owner with
    | none => exact ⟨hgood, .refl w, hplaced⟩
    | some owner =>
      have hthere := Tree.not_isMissing_of_kind (by rw [hk]; decide)
      refine ⟨hgood.declare hplaced hthere ?_, (Extends.refl w).declare ?_, hplaced.push hgood⟩
      · exact fun body hbody => nomatch hbody
      · exact fun body hbody => nomatch hbody
  · exact hrecord _
  · exact hrecord _
  · exact ⟨hgood, .refl w, placed_enterType hplaced _⟩

theorem anonymousMember?_eq_some {member : Tree} {owner name : String}
    (h : anonymousMember? s member = some (owner, name)) :
    member.kind = .methodDeclaration ∧ s.owner = some owner ∧
      (member.child? .name).map (·.text) = some name := by
  unfold anonymousMember? at h
  split at h
  · next hkind =>
    cases howner : s.owner with
    | none => simp [howner] at h
    | some outer =>
      cases hname : member.child? .name with
      | none => simp [howner, hname] at h
      | some child =>
        simp only [howner, hname, Option.some.injEq, Prod.mk.injEq] at h
        exact ⟨hkind, by rw [h.1], by rw [Option.map_some, h.2]⟩
  · cases h

/-- What is known among the members of a body, seen from the moment before the body. -/
structure AmongMembers (s : Scope) (body : Nat) (w₀ w : Trace) : Prop where
  good : Good w
  later : Extends w₀ w
  inBody : InBody body s.active w

theorem keeps_member {below : Scope → Trace → Tree → Trace} (hbelow : Keeps below) {w₀ : Trace}
    {body : Nat} {member : Tree} (hnested : member.nested = true)
    (hplaced : Placed s.active s.owner w₀ member) (hbody : w₀.found.bodies ≤ body)
    (h : AmongMembers s body w₀ w) :
    AmongMembers s body w₀ (traceMember below s body w member) := by
  obtain ⟨hgood, hlater, hin⟩ := h
  have hplaced' := hplaced.extends hlater
  unfold traceMember
  cases hmember : anonymousMember? s member with
  | none =>
    obtain ⟨hgood', hext⟩ := hbelow s w member hnested hgood hplaced'
    exact ⟨hgood', hlater.trans hext, hin.extends hext⟩
  | some p =>
    obtain ⟨owner, name⟩ := p
    obtain ⟨hkind, howner, -⟩ := anonymousMember?_eq_some hmember
    have hthere := Tree.not_isMissing_of_kind (by rw [hkind]; decide)
    rw [howner] at hplaced'
    dsimp only
    have hdeclared : AmongMembers s body w₀
        (w.declare s.active owner name member (.anonymousMethod body)) := by
      refine ⟨hgood.declare hplaced' hthere ?_, hlater.declare ?_, hin.declare hgood⟩
      · rintro _ ⟨⟩
        exact hin
      · rintro _ ⟨⟩
        exact hbody
    let inner : Scope :=
      ⟨s.owner, some name, s.active ++ [w.declarations.length], locals member s.known⟩
    have hinner : Placed inner.active inner.owner
        (w.declare s.active owner name member (.anonymousMethod body)) member := by
      show Placed _ s.owner _ _
      rw [howner]
      exact hplaced'.push hgood
    obtain ⟨hgood', hext⟩ := hbelow.children hnested hdeclared.good hinner
    exact ⟨hgood', hdeclared.later.trans hext, hdeclared.inBody.extends hext⟩

theorem keeps_members {below : Scope → Trace → Tree → Trace} (hbelow : Keeps below) {w₀ : Trace}
    {body : Nat} {members : List Tree} (hbody : w₀.found.bodies ≤ body)
    (hmembers : ∀ m ∈ members, m.nested = true ∧ Placed s.active s.owner w₀ m)
    (h : AmongMembers s body w₀ w) :
    AmongMembers s body w₀ (members.foldl (traceMember below s body) w) := by
  induction members generalizing w with
  | nil => exact h
  | cons m ms ih =>
    obtain ⟨hnested, hplaced⟩ := hmembers m List.mem_cons_self
    exact ih (fun m' hm' => hmembers m' (List.mem_cons_of_mem _ hm'))
      (keeps_member hbelow hnested hplaced hbody h)

theorem mem_otherParts {c : Tree} (h : c ∈ otherParts t) : c ∈ t.children := by
  unfold otherParts at h
  split at h
  · exact (List.mem_filter.1 (List.mem_of_mem_eraseIdx h)).1
  · exact (List.mem_filter.1 h).1

theorem mem_anonymousBody {body : Tree} (h : anonymousBody? t = some body) : body ∈ t.children :=
  (List.mem_filter.1 (List.mem_of_find?_eq_some h)).1

/-- One level of the walk. -/
theorem keeps_level {below belowBody : Scope → Trace → Tree → Trace} (hbelow : Keeps below)
    (hbody : Keeps belowBody) : Keeps (traceLevel below belowBody) := by
  intro s w t ht hgood hplaced
  unfold traceLevel
  split
  · -- the arguments first, then the anonymous body
    obtain ⟨hgood', hext⟩ := hbelow.foldl hgood fun c hc =>
      ⟨(Tree.nested_child ht (mem_otherParts hc)).2, hplaced.child ht (mem_otherParts hc)⟩
    dsimp only
    generalize (otherParts t).foldl (below s) w = w' at hgood' hext
    cases hfind : anonymousBody? t with
    | none => exact ⟨hgood', hext⟩
    | some body =>
      have hmem := mem_anonymousBody hfind
      have hnested := (Tree.nested_child ht hmem).2
      have hinside := (hplaced.extends hext).child ht hmem
      have hstart : AmongMembers s w'.found.bodies w' w'.openBody :=
        ⟨hgood'.openBody, .openBody w', inBody_openBody hgood'⟩
      have hend := keeps_members hbody (Nat.le_refl _)
        (fun m hm => ⟨(Tree.nested_child hnested hm).2, hinside.child hnested hm⟩) hstart
      exact ⟨hend.good, hext.trans hend.later⟩
  · obtain ⟨hgood', hext, hplaced'⟩ := keeps_enter hgood hplaced
    dsimp only
    split
    · obtain ⟨hgood'', hext'⟩ := hbelow.children ht hgood' hplaced'
      exact ⟨hgood'', hext.trans hext'⟩
    · exact ⟨hgood', hext⟩

theorem keeps_nothing : Keeps fun _ w _ => w :=
  fun _ w _ _ hgood _ => ⟨hgood, Extends.refl w⟩

/-- The walk, however deep. -/
theorem keeps_trace : ∀ n, Keeps (trace n)
  | 0 => keeps_nothing
  | 1 => keeps_level keeps_nothing keeps_nothing
  | n + 2 => keeps_level (keeps_trace (n + 1)) (keeps_trace n)

theorem good_start : Good Trace.start := by
  have hnone : ∀ {i : Nat} {d : Declaration}, Trace.start.declarations[i]? ≠ some d :=
    fun h => nomatch h
  exact ⟨rfl, fun _ _ _ h => absurd h hnone, fun _ _ _ h => absurd h hnone,
    fun _ _ _ _ _ h => absurd h hnone⟩

/-- What the walk over a nested tree leaves behind. -/
theorem good_end (ht : t.nested = true) : Good (trace (nestingLimit + 1) .outside .start t) :=
  (keeps_trace _ .outside .start t ht good_start Placed.nil).1

end ChangeImpact.Java
