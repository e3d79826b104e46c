import ChangeImpact.Proofs.MethodPlaces
import ChangeImpact.Proofs.MethodTargets

/-!
# The books of the walk

What the journal of a walk over a syntax tree says of its declarations, for every tree. Calls count
for declarations that are there. While a closure or a member of an anonymous class is walked, what
counts for it counts for all that was active before, so that its calls stand in a row among theirs.
While a method is walked, nothing counts for what was active before; in a text that fits the grammar
that is nothing. And the number of an anonymous body is its place in the order in which bodies are
entered.

* `Apart` — two places that have nothing below them in common;
* `MadeFrom`, `Sound` — what is known at every moment of the walk;
* `Progress` — what a part of the walk does; `Progress.trans`, `Progress.foldl` put parts together,
  `Progress.cleared`, `Progress.method`, `Progress.pushed` take a part into another stack;
* `Books`, `progress_level` — the walk, level by level;
* `Bookkeeping`, `CallsInRow`, `extraction_bookkeeping` — the statement about whole trees.
-/

namespace ChangeImpact.Java

variable {root t u : Tree} {w w₁ w₂ : Journal} {active active' : List Nat} {s inner : Scope}
  {p q body : Spot} {P Q : List Nat → Prop} {kind : Declaration.Kind} {owner name : String}
  {d : Declaration}

/-! ## Places -/

theorem mem_kids :
    q ∈ p.kids ↔ ∃ (i : Nat), p.tree.children[i]? = some q.tree ∧ q.path = p.path ++ [i] := by
  unfold Spot.kids
  rw [List.mem_iff_getElem?]
  simp only [List.getElem?_mapIdx, Option.map_eq_some_iff]
  constructor
  · rintro ⟨i, c, hc, rfl⟩
    exact ⟨i, hc, rfl⟩
  · rintro ⟨i, hc, hpath⟩
    exact ⟨i, q.tree, hc, by rw [← hpath]⟩

theorem at?_of_kid (hp : root.at? p.path = some p.tree) (hq : q ∈ p.kids) :
    root.at? q.path = some q.tree := by
  obtain ⟨i, hc, hpath⟩ := mem_kids.1 hq
  rw [hpath, Tree.at?_concat, hp]
  exact hc

theorem mem_children_of_kid (hq : q ∈ p.kids) : q.tree ∈ p.tree.children := by
  obtain ⟨i, hc, -⟩ := mem_kids.1 hq
  exact List.mem_of_getElem? hc

theorem prefix_of_kid (hq : q ∈ p.kids) : p.path <+: q.path := by
  obtain ⟨i, -, hpath⟩ := mem_kids.1 hq
  exact hpath ▸ List.prefix_append _ _

/-- Nothing is below both places. -/
def Apart (p q : Spot) : Prop := ∀ b, p.path <+: b → ¬q.path <+: b

theorem apart_kids (p : Spot) : p.kids.Pairwise Apart := by
  refine List.pairwise_iff_getElem.2 fun i j hi hj hij b hb hb' => ?_
  simp only [Spot.kids, List.getElem_mapIdx] at hb hb'
  -- two beginnings of one length are the same
  have hsame : p.path ++ [i] = p.path ++ [j] :=
    (List.prefix_of_prefix_length_le hb hb' (by simp)).eq_of_length (by simp)
  have hone := List.append_cancel_left hsame
  simp only [List.cons.injEq, and_true] at hone
  omega

theorem mem_kids_of_part (hq : q ∈ p.otherParts) : q ∈ p.kids :=
  (List.mem_filter.1 (List.mem_of_mem_eraseP hq)).1

theorem mem_kids_of_body (hbody : p.body? = some body) : body ∈ p.kids :=
  (List.mem_filter.1 (List.mem_of_find?_eq_some hbody)).1

theorem apart_parts (p : Spot) : p.otherParts.Pairwise Apart :=
  ((apart_kids p).filter _).sublist List.eraseP_sublist

/-- The anonymous body stands apart from the other parts. -/
theorem apart_body (hbody : p.body? = some body) (hq : q ∈ p.otherParts) : Apart q body := by
  obtain ⟨hkind, before, after, hparts, hbefore⟩ := List.find?_eq_some_iff_append.1 hbody
  have hothers : p.otherParts = before ++ after := by
    unfold Spot.otherParts
    rw [hparts, List.eraseP_append_right _ fun x hx => by simpa using hbefore x hx,
      List.eraseP_cons, hkind, cond_true]
  have hapart : (before ++ body :: after).Pairwise Apart := hparts ▸ (apart_kids p).filter _
  obtain ⟨-, hafter, hcross⟩ := List.pairwise_append.1 hapart
  rw [hothers] at hq
  rcases List.mem_append.1 hq with hq | hq
  · exact hcross q hq body List.mem_cons_self
  · exact fun b hb hb' => (List.pairwise_cons.1 hafter).1 q hq b hb' hb

/-! ## What is known at every moment -/

/-- A declaration made from a tree. -/
structure MadeFrom (d : Declaration) (u : Tree) : Prop where
  kind : u.kind = if d.kind = .closure then .lambda else .methodDeclaration
  startLine : d.startLine = u.startRow + 1
  endLine : d.endLine = u.endRow + 1
  name : d.kind ≠ .closure → (u.child? .name).map (·.text) = some d.name

theorem MadeFrom.of_bare {d d' : Declaration} (h : MadeFrom d u) (hbare : bare d' = bare d) :
    MadeFrom d' u := by
  simp only [bare, Declaration.mk.injEq] at hbare
  obtain ⟨-, hname, hstart, hend, hkind, -⟩ := hbare
  exact ⟨by rw [hkind, h.kind], hstart ▸ h.startLine, hend ▸ h.endLine,
    by rw [hkind, hname]; exact h.name⟩

/-- The path leads to the anonymous body of an expression that creates an object. -/
def IsAnonymousBody (root : Tree) (path : List Nat) : Prop :=
  ∃ (outer : List Nat) (i : Nat) (creation body : Tree), path = outer ++ [i] ∧
    root.at? outer = some creation ∧ creation.kind = .objectCreation ∧
    anonymousBody? creation = some body ∧ root.at? path = some body

/-- What is known at every moment of the walk over a tree. -/
structure Sound (root : Tree) (w : Journal) : Prop where
  around_length : w.trace.around.length = w.declarations.length
  places_length : w.places.length = w.declarations.length
  bodies_length : w.bodies.length = w.found.bodies
  /-- Calls count for declarations that were there at the time. -/
  valid : ∀ c ∈ w.calls, (∀ i ∈ c.active, i < c.declared) ∧ c.declared ≤ w.declarations.length
  /-- The targets of a declaration are those of the calls that count for it. -/
  targets : ∀ (i : Nat) d, w.declarations[i]? = some d →
    d.targets = (w.calls.filter (i ∈ ·.active)).map (·.target)
  origin : ∀ (i : Nat) d path, w.declarations[i]? = some d → w.places[i]? = some path →
    ∃ u, root.at? path = some u ∧ MadeFrom d u
  /-- A member of an anonymous class has the number of the body it stands in. -/
  numbered : ∀ (i : Nat) d path k, w.declarations[i]? = some d → w.places[i]? = some path →
    d.kind = .anonymousMethod k → ∃ body j, path = body ++ [j] ∧ w.bodies[k]? = some body
  bodies : ∀ path ∈ w.bodies, IsAnonymousBody root path
  /-- Methods are made where nothing is active. -/
  alone : MethodsInTypes root → ∀ (i : Nat) d, w.declarations[i]? = some d → d.kind = .method →
    w.trace.around[i]? = some []

theorem sound_start (root : Tree) : Sound root .start where
  around_length := rfl
  places_length := rfl
  bodies_length := rfl
  valid := nofun
  targets := nofun
  origin := nofun
  numbered := nofun
  bodies := nofun
  alone := fun _ => nofun

/-- A declaration and its place are those from before, or the new ones. -/
theorem Sound.declare_cases (h : Sound root w) {i : Nat} {path : List Nat}
    (hd : (w.declare active owner name p kind).declarations[i]? = some d)
    (hpath : (w.declare active owner name p kind).places[i]? = some path) :
    (w.declarations[i]? = some d ∧ w.places[i]? = some path) ∨
      d = Trace.made owner name p.tree kind ∧ path = p.path := by
  rcases getElem?_concat_iff.1 hd with hold | ⟨rfl, rfl⟩
  · have hi := (List.getElem?_eq_some_iff.1 hold).1
    rcases getElem?_concat_iff.1 hpath with hpath | ⟨hlen, -⟩
    · exact .inl ⟨hold, hpath⟩
    · exact absurd (hlen.trans h.places_length) (Nat.ne_of_lt hi)
  · rcases getElem?_concat_iff.1 hpath with hpath | ⟨-, rfl⟩
    · have hlt := (List.getElem?_eq_some_iff.1 hpath).1
      exact absurd h.places_length (Nat.ne_of_gt hlt)
    · exact .inr ⟨rfl, rfl⟩

/-- A new declaration. -/
theorem Sound.declare (h : Sound root w) (hp : root.at? p.path = some p.tree)
    (hmade : MadeFrom (Trace.made owner name p.tree kind) p.tree)
    (hbody : ∀ k, kind = .anonymousMethod k →
      ∃ body j, p.path = body ++ [j] ∧ w.bodies[k]? = some body)
    (halone : MethodsInTypes root → kind = .method → active = []) :
    Sound root (w.declare active owner name p kind) where
  around_length := by
    show (w.trace.around ++ [active]).length = (w.declarations ++ [_]).length
    rw [List.length_append, List.length_append, h.around_length]
    rfl
  places_length := by
    show (w.places ++ [p.path]).length = (w.declarations ++ [_]).length
    rw [List.length_append, List.length_append, h.places_length]
    rfl
  bodies_length := h.bodies_length
  valid := by
    intro c hc
    obtain ⟨hvalid, hle⟩ := h.valid c hc
    refine ⟨hvalid, Nat.le_trans hle ?_⟩
    exact (List.prefix_append w.declarations [Trace.made owner name p.tree kind]).length_le
  targets := by
    intro i d hd
    rcases getElem?_concat_iff.1 hd with hold | ⟨rfl, rfl⟩
    · exact h.targets i d hold
    · -- no call so far can count for the new declaration
      have hnone : w.calls.filter (w.declarations.length ∈ ·.active) = [] := by
        refine List.filter_eq_nil_iff.2 fun c hc hmem => ?_
        obtain ⟨hvalid, hle⟩ := h.valid c hc
        have hlt := hvalid _ (of_decide_eq_true hmem)
        omega
      show [] = (w.calls.filter (w.declarations.length ∈ ·.active)).map (·.target)
      rw [hnone]
      rfl
  origin := by
    intro i d path hd hpath
    rcases h.declare_cases hd hpath with ⟨hold, hpath⟩ | ⟨rfl, rfl⟩
    · exact h.origin i d path hold hpath
    · exact ⟨p.tree, hp, hmade⟩
  numbered := by
    intro i d path k hd hpath hkind
    rcases h.declare_cases hd hpath with ⟨hold, hpath⟩ | ⟨rfl, rfl⟩
    · exact h.numbered i d path k hold hpath hkind
    · exact hbody k hkind
  bodies := h.bodies
  alone := by
    intro hroot i d hd hkind
    show (w.trace.around ++ [active])[i]? = some []
    rw [getElem?_concat_iff, h.around_length]
    rcases getElem?_concat_iff.1 hd with hold | ⟨hi, rfl⟩
    · exact .inl (h.alone hroot i d hold hkind)
    · exact .inr ⟨hi, (halone hroot hkind).symm⟩

/-- A call that counts once for each of some declarations. -/
theorem Sound.record (h : Sound root w) (hactive : ∀ i ∈ active, i < w.declarations.length)
    (hnodup : active.Nodup) (target : String) : Sound root (w.record active (some target)) := by
  have hcredited : ∀ (i : Nat), (w.record active (some target)).declarations[i]? =
      w.declarations[i]?.map (Trace.credited target (active.count i)) := fun i =>
    Trace.getElem?_record target i
  -- only the targets change
  have hold : ∀ (i : Nat) d, (w.record active (some target)).declarations[i]? = some d →
      ∃ d₀, w.declarations[i]? = some d₀ ∧ d = Trace.credited target (active.count i) d₀ := by
    intro i d hd
    rw [hcredited] at hd
    obtain ⟨d₀, hd₀, rfl⟩ := Option.map_eq_some_iff.1 hd
    exact ⟨d₀, hd₀, rfl⟩
  have hlength : (w.record active (some target)).declarations.length = w.declarations.length := by
    refine Nat.le_antisymm ?_ ?_ <;> rw [← List.getElem?_eq_none_iff]
    · rw [hcredited, List.getElem?_eq_none (Nat.le_refl _), Option.map_none]
    · have hnone := hcredited (w.record active (some target)).declarations.length
      rw [List.getElem?_eq_none (Nat.le_refl _)] at hnone
      exact Option.map_eq_none_iff.1 hnone.symm
  exact {
    around_length := h.around_length.trans hlength.symm
    places_length := h.places_length.trans hlength.symm
    bodies_length := h.bodies_length
    valid := by
      intro c hc
      rw [hlength]
      rcases List.mem_append.1 hc with hc | hc
      · exact h.valid c hc
      · rw [List.mem_singleton.1 hc]
        exact ⟨hactive, Nat.le_refl _⟩
    targets := by
      intro i d hd
      obtain ⟨d₀, hd₀, rfl⟩ := hold i d hd
      have hcalls : (w.record active (some target)).calls =
          w.calls ++ [⟨active, w.declarations.length, target⟩] := rfl
      have htargets : (Trace.credited target (active.count i) d₀).targets =
          d₀.targets ++ List.replicate (active.count i) target := rfl
      rw [hcalls, htargets, List.filter_append, List.map_append, h.targets i d₀ hd₀]
      by_cases hi : i ∈ active
      · simp [hi, List.count_eq_one_of_mem hnodup hi]
      · simp [hi, List.count_eq_zero.2 hi]
    origin := by
      intro i d path hd hpath
      obtain ⟨d₀, hd₀, rfl⟩ := hold i d hd
      obtain ⟨u, hu, hmade⟩ := h.origin i d₀ path hd₀ hpath
      exact ⟨u, hu, hmade.of_bare rfl⟩
    numbered := by
      intro i d path k hd hpath hkind
      obtain ⟨d₀, hd₀, rfl⟩ := hold i d hd
      exact h.numbered i d₀ path k hd₀ hpath hkind
    bodies := h.bodies
    alone := by
      intro hroot i d hd hkind
      obtain ⟨d₀, hd₀, rfl⟩ := hold i d hd
      exact h.alone hroot i d₀ hd₀ hkind }

theorem Sound.openBody (h : Sound root w) (hbody : IsAnonymousBody root body.path) :
    Sound root (w.openBody body) where
  around_length := h.around_length
  places_length := h.places_length
  bodies_length := by
    show (w.bodies ++ [body.path]).length = w.found.bodies + 1
    rw [List.length_append, h.bodies_length]
    rfl
  valid := h.valid
  targets := h.targets
  origin := h.origin
  numbered := by
    intro i d path k hd hpath hkind
    obtain ⟨outer, j, hsplit, hat⟩ := h.numbered i d path k hd hpath hkind
    exact ⟨outer, j, hsplit, getElem?_concat_iff.2 (.inl hat)⟩
  bodies := by
    intro path hpath
    rcases List.mem_append.1 hpath with hpath | hpath
    · exact h.bodies path hpath
    · exact List.mem_singleton.1 hpath ▸ hbody
  alone := h.alone

/-! ## Parts of the walk -/

/-- What a part of the walk does. All that is active gets the same targets. `P` says where it may
enter anonymous bodies. -/
structure Progress (root : Tree) (active : List Nat) (P : List Nat → Prop) (w w' : Journal) :
    Prop where
  sound : Sound root w'
  yields : ∃ S, Yields active S (fun _ _ => False) w.found w'.found
  around : w.trace.around <+: w'.trace.around
  /-- The targets of a new closure or member stand in a row among those of what was active. -/
  blocks : ∀ (j : Nat) d outer i, w.declarations.length ≤ j → w'.declarations[j]? = some d →
    d.kind ≠ .method → w'.trace.around[j]? = some outer → i ∈ outer →
      ∃ e, w'.declarations[i]? = some e ∧ d.targets <:+: e.targets
  /-- New calls count for what is active and for what is new. -/
  calls : ∃ new, w'.calls = w.calls ++ new ∧
    ∀ c ∈ new, ∀ i ∈ c.active, i ∈ active ∨ w.declarations.length ≤ i
  /-- What counts for a new method does not count for what was active around it. -/
  apart : ∀ (j : Nat) d outer i, w.declarations.length ≤ j → w'.declarations[j]? = some d →
    d.kind = .method → w'.trace.around[j]? = some outer → i ∈ outer →
      ∀ c ∈ w'.calls, j ∈ c.active → i ∉ c.active
  /-- No body is entered twice. -/
  bodies : ∃ new, w'.bodies = w.bodies ++ new ∧ new.Nodup ∧ ∀ b ∈ new, P b

namespace Progress

theorem length_le (h : Progress root active P w w₁) :
    w.declarations.length ≤ w₁.declarations.length := by
  obtain ⟨S, hS⟩ := h.yields
  exact hS.length_le

/-- Nothing but the package or the bodies changes. -/
theorem of_same (hsound : Sound root w₁) (htrace : w₁.declarations = w.declarations)
    (haround : w₁.trace.around = w.trace.around) (hcalls : w₁.calls = w.calls)
    (hbodies : ∃ new, w₁.bodies = w.bodies ++ new ∧ new.Nodup ∧ ∀ b ∈ new, P b) :
    Progress root active P w w₁ where
  sound := hsound
  yields := ⟨[], .of_same htrace⟩
  around := haround ▸ List.prefix_refl _
  blocks := by
    intro j d outer i hj hd
    rw [htrace] at hd
    exact absurd (List.getElem?_eq_some_iff.1 hd).1 (Nat.not_lt.2 hj)
  calls := ⟨[], by rw [hcalls, List.append_nil], nofun⟩
  apart := by
    intro j d outer i hj hd
    rw [htrace] at hd
    exact absurd (List.getElem?_eq_some_iff.1 hd).1 (Nat.not_lt.2 hj)
  bodies := hbodies

theorem refl (hsound : Sound root w) : Progress root active P w w :=
  of_same hsound rfl rfl rfl ⟨[], (List.append_nil _).symm, List.nodup_nil, nofun⟩

theorem mono (h : Progress root active P w w₁) (hPQ : ∀ b, P b → Q b) :
    Progress root active Q w w₁ where
  sound := h.sound
  yields := h.yields
  around := h.around
  blocks := h.blocks
  calls := h.calls
  apart := h.apart
  bodies := by
    obtain ⟨new, heq, hnodup, hnew⟩ := h.bodies
    exact ⟨new, heq, hnodup, fun b hb => hPQ b (hnew b hb)⟩

/-- What was made in a part stays in another one, where it is not active. -/
theorem kept (h : Progress root active P w₁ w₂) {j : Nat} (hnot : j ∉ active)
    (hlt : j < w₁.declarations.length) (hlength : w₁.trace.around.length = w₁.declarations.length)
    {outer : List Nat} (hd : w₂.declarations[j]? = some d)
    (houter : w₂.trace.around[j]? = some outer) :
    w₁.declarations[j]? = some d ∧ w₁.trace.around[j]? = some outer := by
  obtain ⟨S, hS⟩ := h.yields
  have hd₁ : w₁.declarations[j]? = some w₁.declarations[j] := List.getElem?_eq_getElem hlt
  have hkept := hS.old j _ hd₁
  rw [if_neg hnot, addTargets_nil] at hkept
  obtain rfl : d = w₁.declarations[j] := Option.some.inj (hd.symm.trans hkept)
  obtain ⟨more, hmore⟩ := h.around
  rw [← hmore, List.getElem?_append_left (hlength ▸ hlt)] at houter
  exact ⟨hd₁, houter⟩

/-- One part after the other, in places that are apart. -/
theorem trans (h : Progress root active P w w₁) (h' : Progress root active Q w₁ w₂)
    (hactive : ∀ i ∈ active, i < w.declarations.length) (hPQ : ∀ b, P b → ¬Q b) :
    Progress root active (fun b => P b ∨ Q b) w w₂ where
  sound := h'.sound
  yields := by
    obtain ⟨S, hS⟩ := h.yields
    obtain ⟨S', hS'⟩ := h'.yields
    exact ⟨S ++ S', (hS.trans hS' hactive).congr (fun _ => rfl) (fun _ _ hfalse => .inl hfalse)⟩
  around := h.around.trans h'.around
  blocks := by
    intro j d outer i hj hd hkind houter hi
    rcases Nat.lt_or_ge j w₁.declarations.length with hlt | hge
    · -- made in the first part: not active in the second, where what is around it only grows
      have hnot : j ∉ active := fun hmem => Nat.not_lt.2 hj (hactive j hmem)
      obtain ⟨hd₁, houter₁⟩ := h'.kept hnot hlt h.sound.around_length hd houter
      obtain ⟨S, hS⟩ := h'.yields
      obtain ⟨e, he, hinfix⟩ := h.blocks j _ outer i hj hd₁ hkind houter₁ hi
      exact ⟨_, hS.old i e he, hinfix.trans (List.prefix_append _ _).isInfix⟩
    · exact h'.blocks j d outer i hge hd hkind houter hi
  calls := by
    obtain ⟨new, heq, hnew⟩ := h.calls
    obtain ⟨new', heq', hnew'⟩ := h'.calls
    refine ⟨new ++ new', by rw [heq', heq, List.append_assoc], fun c hc i hi => ?_⟩
    rcases List.mem_append.1 hc with hc | hc
    · exact hnew c hc i hi
    · exact (hnew' c hc i hi).imp_right (Nat.le_trans h.length_le)
  apart := by
    intro j d outer i hj hd hkind houter hi c hc hjc
    rcases Nat.lt_or_ge j w₁.declarations.length with hlt | hge
    · have hnot : j ∉ active := fun hmem => Nat.not_lt.2 hj (hactive j hmem)
      obtain ⟨hd₁, houter₁⟩ := h'.kept hnot hlt h.sound.around_length hd houter
      obtain ⟨new, heq, hnew⟩ := h'.calls
      rw [heq] at hc
      rcases List.mem_append.1 hc with hc | hc
      · exact h.apart j d outer i hj hd₁ hkind houter₁ hi c hc hjc
      · -- no call of the second part counts for it
        exact absurd hlt (Nat.not_lt.2 ((hnew c hc j hjc).resolve_left hnot))
    · exact h'.apart j d outer i hge hd hkind houter hi c hc hjc
  bodies := by
    obtain ⟨new, heq, hnodup, hnew⟩ := h.bodies
    obtain ⟨new', heq', hnodup', hnew'⟩ := h'.bodies
    refine ⟨new ++ new', by rw [heq', heq, List.append_assoc], ?_, ?_⟩
    · exact hnodup.append hnodup' fun b hb hb' => hPQ b (hnew b hb) (hnew' b hb')
    · intro b hb
      exact (List.mem_append.1 hb).imp (hnew b) (hnew' b)

/-- A call. -/
theorem record (hsound : Sound root w) (hactive : ∀ i ∈ active, i < w.declarations.length)
    (hnodup : active.Nodup) (target : Option String) :
    Progress root active P w (w.record active target) := by
  cases target with
  | none => exact refl hsound
  | some target =>
    have hyields := Yields.record w.found hnodup (some target)
    have hsound' := hsound.record hactive hnodup target
    have hlength : (w.record active (some target)).declarations.length = w.declarations.length :=
      hsound'.around_length.symm.trans hsound.around_length
    have hold {j : Nat} {d : Declaration} (hj : w.declarations.length ≤ j)
        (hd : (w.record active (some target)).declarations[j]? = some d) : False := by
      have hlt := (List.getElem?_eq_some_iff.1 hd).1
      omega
    exact {
      sound := hsound'
      yields := ⟨_, hyields⟩
      around := List.prefix_refl _
      blocks := fun j d outer i hj hd => (hold hj hd).elim
      calls := ⟨_, rfl, fun c hc i hi => by
        obtain rfl := List.mem_singleton.1 hc
        exact .inl hi⟩
      apart := fun j d outer i hj hd => (hold hj hd).elim
      bodies := ⟨[], (List.append_nil _).symm, List.nodup_nil, nofun⟩ }

/-- What is active after a declaration is that or newer. -/
theorem le_of_declared {i : Nat} (h : i ∈ [w.declarations.length] ∨
    (w.declare active owner name p kind).declarations.length ≤ i) : w.declarations.length ≤ i := by
  rcases h with hself | hnew
  · exact Nat.le_of_eq (List.mem_singleton.1 hself).symm
  · exact Nat.le_trans (Nat.le_succ _) (Nat.le_trans (Nat.le_of_eq length_declare.symm) hnew)

theorem declared_le {j : Nat} (h : w.declarations.length < j) :
    (w.declare active owner name p kind).declarations.length ≤ j :=
  Nat.le_trans (Nat.le_of_eq length_declare) h

/-- Nothing is active in this part. -/
theorem cleared (h : Progress root [] P w w₁) : Progress root active P w w₁ where
  sound := h.sound
  yields := by
    obtain ⟨S, hS⟩ := h.yields
    have hwiden : Yields active (if False then S else []) (fun _ _ => False) w.found w₁.found :=
      hS.widen (fun _ _ hd => hd) (by simp)
    exact ⟨_, hwiden⟩
  around := h.around
  blocks := h.blocks
  calls := by
    obtain ⟨new, heq, hnew⟩ := h.calls
    exact ⟨new, heq, fun c hc i hi => .inr ((hnew c hc i hi).resolve_left List.not_mem_nil)⟩
  apart := h.apart
  bodies := h.bodies

/-- What is around a declaration that was just made. -/
theorem around_made (hsound : Sound root w)
    (h : Progress root active' P (w.declare active owner name p kind) w₁) {outer : List Nat}
    (houter : w₁.trace.around[w.declarations.length]? = some outer) : outer = active := by
  have hmade : (w.trace.around ++ [active])[w.declarations.length]? = some active :=
    getElem?_concat_iff.2 (.inr ⟨hsound.around_length.symm, rfl⟩)
  obtain ⟨more, hmore⟩ := h.around
  rw [← hmore] at houter
  have hlt := (List.getElem?_eq_some_iff.1 hmade).1
  have hsame := (List.getElem?_append_left hlt).symm.trans houter
  exact (Option.some.inj (hmade.symm.trans hsame)).symm

/-- What was just made keeps its kind. -/
theorem kind_made (h : Progress root active' P (w.declare active owner name p kind) w₁)
    (hd : w₁.declarations[w.declarations.length]? = some d) : d.kind = kind := by
  obtain ⟨S, hS⟩ := h.yields
  have hmade := hS.old w.declarations.length (Trace.made owner name p.tree kind)
    (getElem?_concat_iff.2 (.inr ⟨rfl, rfl⟩))
  obtain rfl := Option.some.inj (hd.symm.trans hmade)
  split <;> rfl

/-- Only a method that was just made is active in this part. -/
theorem method (hsound : Sound root w) (hactive : ∀ i ∈ active, i < w.declarations.length)
    (h : Progress root [w.declarations.length] P (w.declare active owner name p .method) w₁) :
    Progress root active P w w₁ where
  sound := h.sound
  yields := by
    obtain ⟨S, hS⟩ := h.yields
    have hwiden : Yields active (if False then S else []) (fun _ _ => False) w.found w₁.found :=
      hS.widen (fun _ _ => getElem?_declare) fun i hi => by
        rw [List.mem_singleton, and_false, iff_false]
        exact Nat.ne_of_lt hi
    exact ⟨_, hwiden⟩
  around := (List.prefix_append _ _).trans h.around
  blocks := by
    intro j d outer i hj hd hkind houter hi
    rcases Nat.eq_or_lt_of_le hj with rfl | hlt
    · -- the method itself
      exact absurd (h.kind_made hd) hkind
    · exact h.blocks j d outer i (declared_le hlt) hd hkind houter hi
  calls := by
    obtain ⟨new, heq, hnew⟩ := h.calls
    exact ⟨new, heq, fun c hc i hi => .inr (le_of_declared (hnew c hc i hi))⟩
  apart := by
    intro j d outer i hj hd hkind houter hi c hc hjc
    rcases Nat.eq_or_lt_of_le hj with rfl | hlt
    · -- calls from before do not count for it, and those of this part for nothing older
      obtain ⟨new, heq, hnew⟩ := h.calls
      rw [around_made hsound h houter] at hi
      rw [heq] at hc
      rcases List.mem_append.1 hc with hc | hc
      · obtain ⟨hvalid, hle⟩ := hsound.valid c hc
        exact absurd (hvalid _ hjc) (Nat.not_lt.2 hle)
      · intro hic
        exact absurd (hactive i hi) (Nat.not_lt.2 (le_of_declared (hnew c hc i hic)))
    · exact h.apart j d outer i (declared_le hlt) hd hkind houter hi c hc hjc
  bodies := h.bodies

/-- A closure or member that was just made is active in this part, with all that was active
before. -/
theorem pushed (hsound : Sound root w) (hactive : ∀ i ∈ active, i < w.declarations.length)
    (hkind : kind ≠ .method)
    (h : Progress root (active ++ [w.declarations.length]) P
      (w.declare active owner name p kind) w₁) : Progress root active P w w₁ where
  sound := h.sound
  yields := by
    obtain ⟨S, hS⟩ := h.yields
    have hwiden : Yields active (if True then S else []) (fun _ _ => False) w.found w₁.found :=
      hS.widen (fun _ _ => getElem?_declare) fun i hi => by
        simp [Nat.ne_of_lt hi]
    exact ⟨_, hwiden⟩
  around := (List.prefix_append _ _).trans h.around
  blocks := by
    intro j d outer i hj hd hother houter hi
    rcases Nat.eq_or_lt_of_le hj with rfl | hlt
    · -- what was just made has the targets of this part, and all that was active ends with them
      obtain ⟨S, hS⟩ := h.yields
      have hmade := hS.old w.declarations.length (Trace.made owner name p.tree kind)
        (getElem?_concat_iff.2 (.inr ⟨rfl, rfl⟩))
      rw [if_pos (by simp)] at hmade
      obtain rfl := Option.some.inj (hd.symm.trans hmade)
      obtain rfl := around_made hsound h houter
      have he := hS.old i _ (getElem?_declare (List.getElem?_eq_getElem (hactive i hi)))
      rw [if_pos (List.mem_append_left _ hi)] at he
      refine ⟨_, he, ?_⟩
      show [] ++ S <:+: _ ++ S
      exact (List.suffix_append _ _).isInfix
    · exact h.blocks j d outer i (declared_le hlt) hd hother houter hi
  calls := by
    obtain ⟨new, heq, hnew⟩ := h.calls
    refine ⟨new, heq, fun c hc i hi => ?_⟩
    rcases hnew c hc i hi with hin | hle
    · exact (List.mem_append.1 hin).imp_right fun hlast =>
        Nat.le_of_eq (List.mem_singleton.1 hlast).symm
    · exact .inr (Nat.le_of_succ_le (Nat.le_trans (Nat.le_of_eq length_declare.symm) hle))
  apart := by
    intro j d outer i hj hd hmethod houter hi c hc hjc
    rcases Nat.eq_or_lt_of_le hj with rfl | hlt
    · exact absurd ((h.kind_made hd).symm.trans hmethod) hkind
    · exact h.apart j d outer i (declared_le hlt) hd hmethod houter hi c hc hjc
  bodies := h.bodies

/-- Parts for places that are apart, one after the other. `I` is what each of them needs. -/
theorem foldl {g : Journal → Spot → Journal} {I : Journal → Prop} {ps : List Spot}
    (h : ∀ p ∈ ps, ∀ w, I w → Sound root w → Progress root active (p.path <+: ·) w (g w p))
    (hkeep : ∀ w w' Q, I w → Progress root active Q w w' → I w')
    (hlt : ∀ w, I w → ∀ i ∈ active, i < w.declarations.length) (hapart : ps.Pairwise Apart)
    (hI : I w) (hsound : Sound root w) :
    Progress root active (fun b => ∃ p ∈ ps, p.path <+: b) w (ps.foldl g w) := by
  induction ps generalizing w with
  | nil => exact refl hsound
  | cons p ps ih =>
    obtain ⟨hfirst, hrest⟩ := List.pairwise_cons.1 hapart
    have hhead := h p List.mem_cons_self w hI hsound
    have htail := ih (fun q hq => h q (List.mem_cons_of_mem _ hq)) hrest (hkeep w _ _ hI hhead)
      hhead.sound
    refine (hhead.trans htail (hlt w hI) ?_).mono ?_
    · rintro b hb ⟨q, hq, hb'⟩
      exact hfirst q hq b hb hb'
    · rintro b (hb | ⟨q, hq, hb⟩)
      · exact ⟨p, List.mem_cons_self, hb⟩
      · exact ⟨q, List.mem_cons_of_mem _ hq, hb⟩

end Progress

/-! ## The walk -/

theorem Progress.fits (h : Progress root active P w w₁) (hfits : s.Fits w.found) :
    s.Fits w₁.found :=
  ⟨fun i hi => Nat.lt_of_lt_of_le (hfits.lt i hi) h.length_le, hfits.nodup, hfits.typed⟩

/-- A walk that keeps the books, wherever it starts. -/
def Books (root : Tree) (v : Scope → Journal → Spot → Journal) : Prop :=
  ∀ s w p, root.at? p.path = some p.tree → s.Fits w.found →
    (MethodsInTypes root → HasLoose p.tree → s.active = []) → Sound root w →
      Progress root s.active (p.path <+: ·) w (v s w p)

variable {v : Scope → Journal → Spot → Journal}

/-- Some children of a tree, one after the other. -/
theorem Books.kids (h : Books root v) (hp : root.at? p.path = some p.tree) {ps : List Spot}
    (hps : ∀ q ∈ ps, q ∈ p.kids) (hapart : ps.Pairwise Apart) (hfits : s.Fits w.found)
    (hclear : MethodsInTypes root → ∀ q ∈ ps, HasLoose q.tree → s.active = [])
    (hsound : Sound root w) :
    Progress root s.active (fun b => ∃ q ∈ ps, q.path <+: b) w (ps.foldl (v s) w) := by
  refine Progress.foldl (I := fun w => s.Fits w.found) ?_ (fun w w' Q hI hw => hw.fits hI)
    (fun w hI => hI.lt) hapart hfits hsound
  intro q hq w hI hsound
  exact h s w q (at?_of_kid hp (hps q hq)) hI (fun hroot => hclear hroot q hq) hsound

/-- All children of a tree, or none. -/
theorem Books.below (h : Books root v) (hp : root.at? p.path = some p.tree) (descend : Bool)
    (hfits : s.Fits w.found)
    (hclear : MethodsInTypes root → ∀ q ∈ p.kids, HasLoose q.tree → s.active = [])
    (hsound : Sound root w) :
    Progress root s.active (p.path <+: ·) w (if descend then p.kids.foldl (v s) w else w) := by
  cases descend with
  | false => exact .refl hsound
  | true =>
    refine (h.kids hp (fun _ hq => hq) (apart_kids p) hfits hclear hsound).mono ?_
    rintro b ⟨q, hq, hb⟩
    exact (prefix_of_kid hq).trans hb

/-- What is done at a tree that makes no declaration. -/
theorem progress_perform (hsound : Sound root w) (hfits : s.Fits w.found) {deed : Deed}
    (hdeed : ∀ owner name kind, deed ≠ .declare owner name kind) :
    Progress root s.active (fun _ => False) w (w.perform s.active p deed) := by
  cases deed with
  | pass => exact .refl hsound
  | package package =>
    refine .of_same ?_ rfl rfl rfl ⟨[], (List.append_nil _).symm, List.nodup_nil, nofun⟩
    exact ⟨hsound.around_length, hsound.places_length, hsound.bodies_length, hsound.valid,
      hsound.targets, hsound.origin, hsound.numbered, hsound.bodies, hsound.alone⟩
  | declare owner name kind => exact absurd rfl (hdeed owner name kind)
  | call target => exact .record hsound hfits.lt hfits.nodup target

/-- One level of the walk, at a tree that creates no object. -/
theorem progress_plain (h : Books root v) (hp : root.at? p.path = some p.tree)
    (hcreation : p.tree.kind ≠ .objectCreation) (hfits : s.Fits w.found)
    (hclear : MethodsInTypes root → HasLoose p.tree → s.active = []) (hsound : Sound root w) :
    Progress root s.active (p.path <+: ·) w
      (if descends p.tree.kind then
        p.kids.foldl (v (enter s w.trace p.tree).1) (w.perform s.active p (deedAt s p.tree))
      else w.perform s.active p (deedAt s p.tree)) := by
  have hkids : MethodsInTypes root → ∀ q ∈ p.kids, HasLoose q.tree →
      (enter s w.trace p.tree).1.active = [] := fun hroot q hq hloose =>
    active_nil_inside hroot hp hcreation (hclear hroot) (mem_children_of_kid hq) hloose
  have hinside := inside_enter s w.trace p.tree
  generalize (enter s w.trace p.tree).1 = inner at hinside hkids ⊢
  generalize deedAt s p.tree = deed at hinside ⊢
  cases hinside with
  | @method owner name _ hkind howner hname hinner hactive =>
    have hmethod := isMethod_of_name hkind hname
    have hsound' : Sound root (w.declare s.active owner name p .method) :=
      hsound.declare hp ⟨hkind, rfl, rfl, fun _ => hname⟩ (by simp)
        fun hroot _ => hclear hroot (.method hmethod)
    have hfits' : inner.Fits (w.declare s.active owner name p .method).found := by
      refine ⟨?_, ?_, ?_⟩
      · intro i hi
        rw [hactive, List.mem_singleton] at hi
        rw [hi]
        exact Nat.lt_of_lt_of_eq (Nat.lt_succ_self _) length_declare.symm
      · rw [hactive]
        exact List.nodup_singleton _
      · simp [hinner, howner]
    have hbelow := h.below hp (descends p.tree.kind) hfits' hkids hsound'
    rw [hactive] at hbelow
    exact hbelow.method hsound hfits.lt
  | @closure owner name _ hkind howner hinner hactive =>
    have hsound' : Sound root (w.declare s.active owner name p .closure) :=
      hsound.declare hp ⟨hkind, rfl, rfl, fun hne => absurd rfl hne⟩ (by simp) (by simp)
    have hpushed : Scope.Fits ⟨s.owner, none, s.active ++ [w.declarations.length], []⟩
        (w.declare s.active owner name p .closure).found := fits_push hfits howner
    have hfits' : inner.Fits (w.declare s.active owner name p .closure).found := by
      refine ⟨hactive ▸ hpushed.lt, hactive ▸ hpushed.nodup, ?_⟩
      simp [hinner, howner]
    have hbelow := h.below hp (descends p.tree.kind) hfits' hkids hsound'
    rw [hactive] at hbelow
    exact hbelow.pushed hsound hfits.lt (by simp)
  | same hdeed =>
    have hdone : Progress root s.active (fun _ => False) w (w.perform s.active p deed) :=
      progress_perform hsound hfits hdeed
    have hbelow := h.below hp (descends p.tree.kind) (hdone.fits hfits) hkids hdone.sound
    exact (hdone.trans hbelow hfits.lt fun _ hfalse => hfalse.elim).mono
      fun _ hb => hb.resolve_left id
  | cleared hdeed hactive =>
    subst hdeed
    have hfits' : inner.Fits w.found :=
      ⟨by simp [hactive], hactive ▸ List.nodup_nil, fun _ => hactive⟩
    have hbelow := h.below hp (descends p.tree.kind) hfits' hkids hsound
    rw [hactive] at hbelow
    exact hbelow.cleared

/-- A member of the anonymous body with the number `k`. -/
theorem progress_member (h : Books root v) (hp : root.at? p.path = some p.tree)
    (hcreation : p.tree.kind = .objectCreation)
    (hclear : MethodsInTypes root → HasLoose p.tree → s.active = [])
    (hbody : p.body? = some body) (hq : q ∈ body.kids) {k : Nat}
    (hk : w.bodies[k]? = some body.path) (hfits : s.Fits w.found) (hsound : Sound root w) :
    Progress root s.active (q.path <+: ·) w (journalMember v s k w q) := by
  have hat := at?_of_kid (at?_of_kid hp (mem_kids_of_body hbody)) hq
  have hmember : q.tree ∈ anonymousMembers p.tree := by
    refine mem_anonymousMembers.2 ⟨body.tree, ?_, mem_children_of_kid hq⟩
    rw [← Spot.map_body?, hbody]
    rfl
  unfold journalMember
  cases hnamed : anonymousMember? s q.tree with
  | none =>
    exact h s w q hat hfits (fun hroot => active_nil_member hfits.typed hcreation (hclear hroot)
      hmember hnamed) hsound
  | some entry =>
    obtain ⟨owner, name⟩ := entry
    obtain ⟨hkind, howner, hname⟩ := anonymousMember?_eq_some hnamed
    have hmethod := isMethod_of_name hkind hname
    have hsound' : Sound root (w.declare s.active owner name q (.anonymousMethod k)) := by
      refine hsound.declare hat ⟨hkind, rfl, rfl, fun _ => hname⟩ ?_ (by simp)
      rintro _ ⟨⟩
      obtain ⟨j, -, hpath⟩ := mem_kids.1 hq
      exact ⟨body.path, j, hpath, hk⟩
    let inside : Scope :=
      ⟨s.owner, some name, s.active ++ [w.declarations.length], locals q.tree s.known⟩
    have hfits' : inside.Fits (w.declare s.active owner name q (.anonymousMethod k)).found :=
      fits_push hfits howner
    have hbelow := h.below hat true hfits' (fun hroot c hc hloose =>
      absurd hloose (hroot q.tree (has_of_at? hat) (.inl hmethod) _ (mem_children_of_kid hc)))
      hsound'
    exact hbelow.pushed hsound hfits.lt (by simp)

/-- One level of the walk, at an expression that creates an object: the other parts first, then the
members of the anonymous body under its number. -/
theorem progress_creation {v' : Scope → Journal → Spot → Journal} (h : Books root v)
    (h' : Books root v') (hp : root.at? p.path = some p.tree)
    (hcreation : p.tree.kind = .objectCreation) (hfits : s.Fits w.found)
    (hclear : MethodsInTypes root → HasLoose p.tree → s.active = []) (hsound : Sound root w)
    (hothers : p.otherParts.foldl (v s) w = w₁) :
    Progress root s.active (p.path <+: ·) w
      (match p.body? with
      | none => w₁
      | some body => body.kids.foldl (journalMember v' s w₁.found.bodies) (w₁.openBody body)) := by
  have hparts : Progress root s.active (fun b => ∃ q ∈ p.otherParts, q.path <+: b) w w₁ := by
    rw [← hothers]
    refine h.kids hp (fun q => mem_kids_of_part) (apart_parts p) hfits ?_ hsound
    intro hroot q hq hloose
    refine hclear hroot (.part hcreation ?_ hloose)
    rw [← Spot.map_otherParts]
    exact List.mem_map.2 ⟨q, hq, rfl⟩
  have hinside : ∀ b, (∃ q ∈ p.otherParts, q.path <+: b) → p.path <+: b := by
    rintro b ⟨q, hq, hb⟩
    exact (prefix_of_kid (mem_kids_of_part hq)).trans hb
  cases hbody : p.body? with
  | none => exact hparts.mono hinside
  | some body =>
    have hkid := mem_kids_of_body hbody
    have hat := at?_of_kid hp hkid
    have hanonymous : IsAnonymousBody root body.path := by
      obtain ⟨i, -, hpath⟩ := mem_kids.1 hkid
      refine ⟨p.path, i, p.tree, body.tree, hpath, hp, hcreation, ?_, hat⟩
      rw [← Spot.map_body?, hbody]
      rfl
    have hopen : Progress root s.active (· = body.path) w₁ (w₁.openBody body) :=
      .of_same (hparts.sound.openBody hanonymous) rfl rfl rfl
        ⟨[body.path], rfl, List.nodup_singleton _, fun b hb => List.mem_singleton.1 hb⟩
    have hnumber : (w₁.openBody body).bodies[w₁.found.bodies]? = some body.path :=
      getElem?_concat_iff.2 (.inr ⟨hparts.sound.bodies_length.symm, rfl⟩)
    have hmembers : Progress root s.active (fun b => ∃ q ∈ body.kids, q.path <+: b)
        (w₁.openBody body)
        (body.kids.foldl (journalMember v' s w₁.found.bodies) (w₁.openBody body)) := by
      refine Progress.foldl
        (I := fun w => s.Fits w.found ∧ w.bodies[w₁.found.bodies]? = some body.path)
        ?_ ?_ (fun w hI => hI.1.lt) (apart_kids body) ⟨hopen.fits (hparts.fits hfits), hnumber⟩
        hopen.sound
      · intro q hq w hI hsound
        exact progress_member h' hp hcreation hclear hbody hq hI.2 hI.1 hsound
      · intro w w' Q hI hw
        obtain ⟨new, heq, -, -⟩ := hw.bodies
        refine ⟨hw.fits hI.1, ?_⟩
        rw [heq, List.getElem?_append_left (List.getElem?_eq_some_iff.1 hI.2).1]
        exact hI.2
    have hlt : ∀ i ∈ s.active, i < w₁.declarations.length := (hparts.fits hfits).lt
    have hentered := hopen.trans hmembers hlt (by
      -- bodies in the members are further down than their own
      rintro _ rfl ⟨q, hq, hb⟩
      obtain ⟨j, -, hpath⟩ := mem_kids.1 hq
      have hle := hb.length_le
      rw [hpath, List.length_append] at hle
      exact Nat.not_succ_le_self _ hle)
    have hbelow : ∀ b, (b = body.path ∨ ∃ q ∈ body.kids, q.path <+: b) → body.path <+: b := by
      rintro b (rfl | ⟨q, hq, hb⟩)
      · exact List.prefix_refl _
      · exact (prefix_of_kid hq).trans hb
    refine (hparts.trans hentered hfits.lt ?_).mono ?_
    · rintro b ⟨q, hq, hb⟩ hb'
      exact apart_body hbody hq b hb (hbelow b hb')
    · rintro b (hb | hb)
      · exact hinside b hb
      · exact (prefix_of_kid hkid).trans (hbelow b hb)

/-- One level of the walk. -/
theorem progress_level (below belowBody : Scope → Journal → Spot → Journal) (h : Books root below)
    (h' : Books root belowBody) : Books root (journalLevel below belowBody) := by
  intro s w p hp hfits hclear hsound
  unfold journalLevel
  by_cases hcreation : p.tree.kind = .objectCreation
  · rw [if_pos hcreation]
    exact progress_creation h h' hp hcreation hfits hclear hsound rfl
  · rw [if_neg hcreation]
    exact progress_plain h hp hcreation hfits hclear hsound

/-- The walk over a whole tree keeps its books. -/
theorem progress_journalOf (t : Tree) : Progress t [] (fun _ => True) .start (journalOf t) := by
  have hbooks : Books t (journal (nestingLimit + 1)) :=
    journal_induction (fun _ _ _ _ _ _ hsound => .refl hsound) progress_level _
  have hfits : Scope.outside.Fits Journal.start.found :=
    ⟨nofun, List.nodup_nil, fun _ => rfl⟩
  exact (hbooks .outside .start ⟨[], t⟩ rfl hfits (fun _ _ => rfl) (sound_start t)).mono
    fun _ _ => trivial

/-! ## Whole trees -/

/-- Where the tree stands that has the tree of a declaration among its children: for a member of an
anonymous class, its body. -/
def holderAt (t : Tree) (i : Nat) : Option (List Nat) :=
  ((journalOf t).places[i]?).map (·.dropLast)

/-- The calls of a declaration stand in a row among those of all that was active when it was
made. -/
def CallsInRow (t : Tree) (i : Nat) : Prop :=
  ∀ d outer j, (declarations t)[i]? = some d → activeAt t i = some outer → j ∈ outer →
    ∃ e, (declarations t)[j]? = some e ∧ d.targets <:+: e.targets

/-- What the journal of the walk says of the declarations of a tree. -/
structure Bookkeeping (t : Tree) : Prop where
  /-- Whenever a call is counted, all that is active is a declaration that is there. -/
  valid : ∀ c ∈ (journalOf t).calls,
    (∀ i ∈ c.active, i < c.declared) ∧ c.declared ≤ (declarations t).length
  /-- No other calls are counted, and none is counted twice. -/
  targets : ∀ (i : Nat) d, (declarations t)[i]? = some d →
    d.targets = ((journalOf t).calls.filter (i ∈ ·.active)).map (·.target)
  /-- A closure or a member of an anonymous class, and a method too where methods stand in types. -/
  rows : ∀ (i : Nat) d, (declarations t)[i]? = some d → d.kind ≠ .method ∨ MethodsInTypes t →
    CallsInRow t i
  /-- A method takes its calls for itself, even where something is active around it. -/
  apart : ∀ (i : Nat) d outer j, (declarations t)[i]? = some d → d.kind = .method →
    activeAt t i = some outer → j ∈ outer → ∀ c ∈ (journalOf t).calls, i ∈ c.active → j ∉ c.active
  origin : ∀ (i : Nat) d, (declarations t)[i]? = some d →
    ∃ path u, (journalOf t).places[i]? = some path ∧ t.at? path = some u ∧ MadeFrom d u
  /-- No body is entered twice. -/
  once : (journalOf t).bodies.Nodup
  anonymous : ∀ path ∈ (journalOf t).bodies, IsAnonymousBody t path
  /-- The number of a member is the place of its body in the order of entry. -/
  numbered : ∀ (i : Nat) d n, (declarations t)[i]? = some d → d.kind = .anonymousMethod n →
    ∃ body, holderAt t i = some body ∧ ∀ k, (journalOf t).bodies[k]? = some body ↔ k = n
  /-- Two members have the same number just if they are members of the same body. -/
  together : ∀ (i j : Nat) d e n m, (declarations t)[i]? = some d → (declarations t)[j]? = some e →
    d.kind = .anonymousMethod n → e.kind = .anonymousMethod m →
      (n = m ↔ holderAt t i = holderAt t j)

theorem around_journalOf (t : Tree) (i : Nat) : (journalOf t).trace.around[i]? = activeAt t i := by
  rw [trace_journalOf]
  rfl

theorem nodup_bodies (t : Tree) : (journalOf t).bodies.Nodup := by
  obtain ⟨new, heq, hnodup, -⟩ := (progress_journalOf t).bodies
  rw [heq]
  exact hnodup

theorem callsInRow {i : Nat} (hd : (declarations t)[i]? = some d)
    (hkind : d.kind ≠ .method ∨ MethodsInTypes t) : CallsInRow t i := by
  intro d' outer j hd' houter hj
  obtain rfl := Option.some.inj (hd.symm.trans hd')
  have hbooks := progress_journalOf t
  have hblocks := hbooks.blocks i d outer j (Nat.zero_le _)
  have halone := hbooks.sound.alone
  rw [declarations_journalOf, around_journalOf] at hblocks
  by_cases hmethod : d.kind = .method
  · -- nothing is active around a method
    have hnil := halone (hkind.resolve_left fun hne => hne hmethod) i d
      (declarations_journalOf t ▸ hd) hmethod
    rw [around_journalOf, houter] at hnil
    cases hnil
    cases hj
  · exact hblocks hd hmethod houter hj

theorem number_of_member {i n : Nat} (hd : (declarations t)[i]? = some d)
    (hkind : d.kind = .anonymousMethod n) :
    ∃ body, holderAt t i = some body ∧ ∀ k, (journalOf t).bodies[k]? = some body ↔ k = n := by
  have hsound := (progress_journalOf t).sound
  have hd' : (journalOf t).declarations[i]? = some d := declarations_journalOf t ▸ hd
  have hlt : i < (journalOf t).places.length :=
    hsound.places_length ▸ (List.getElem?_eq_some_iff.1 hd').1
  obtain ⟨body, j, hpath, hbody⟩ :=
    hsound.numbered i d _ n hd' (List.getElem?_eq_getElem hlt) hkind
  refine ⟨body, ?_, fun k => ⟨fun hk => ?_, fun hk => hk ▸ hbody⟩⟩
  · rw [holderAt, List.getElem?_eq_getElem hlt, hpath, Option.map_some, List.dropLast_concat]
  · have hlt := (List.getElem?_eq_some_iff.1 hk).1
    exact (List.getElem?_inj hlt (nodup_bodies t)).1 (hk.trans hbody.symm)

theorem bookkeeping (t : Tree) : Bookkeeping t := by
  have hsound := (progress_journalOf t).sound
  have hdeclarations := declarations_journalOf t
  exact {
    valid := by
      rw [← hdeclarations]
      exact hsound.valid
    targets := by
      rw [← hdeclarations]
      exact hsound.targets
    rows := fun i d => callsInRow
    apart := by
      intro i d outer j hd hkind houter
      rw [← hdeclarations] at hd
      rw [← around_journalOf] at houter
      exact (progress_journalOf t).apart i d outer j (Nat.zero_le _) hd hkind houter
    origin := by
      rw [← hdeclarations]
      intro i d hd
      have hlt := hsound.places_length ▸ (List.getElem?_eq_some_iff.1 hd).1
      obtain ⟨u, hu, hmade⟩ := hsound.origin i d _ hd (List.getElem?_eq_getElem hlt)
      exact ⟨_, u, List.getElem?_eq_getElem hlt, hu, hmade⟩
    once := nodup_bodies t
    anonymous := hsound.bodies
    numbered := fun i d n => number_of_member
    together := by
      intro i j d e n m hd he hn hm
      obtain ⟨body, hholder, hbody⟩ := number_of_member hd hn
      obtain ⟨body', hholder', hbody'⟩ := number_of_member he hm
      rw [hholder, hholder', Option.some.injEq]
      constructor
      · rintro rfl
        exact Option.some.inj (((hbody n).2 rfl).symm.trans ((hbody' n).2 rfl))
      · rintro rfl
        exact (hbody' n).1 ((hbody n).2 rfl) }

/-- The books of every tree are kept. In the trees of texts that fit the grammar methods stand in
types, so that the calls of any declaration stand in a row among those of all that was active when
it was made. -/
theorem extraction_bookkeeping :
    (∀ t : Tree, Bookkeeping t) ∧
    ∀ s : String, Fits s → MethodsInTypes (.ofSource s) ∧ ∀ i, CallsInRow (.ofSource s) i := by
  refine ⟨bookkeeping, fun s hfits => ⟨methodsInTypes_ofSource hfits, fun i => ?_⟩⟩
  intro d outer j hd
  exact callsInRow hd (.inr (methodsInTypes_ofSource hfits)) d outer j hd

/-- A class with a body of its own, created with an argument that has one too. -/
def twoBodiesText : String :=
  "class A \x7b void run() \x7b use(new B(new C() \x7b void go() \x7b f(); \x7d \x7d)"
    ++ " \x7b void act() \x7b g(() -> h()); \x7d void end() \x7b i(); \x7d \x7d); \x7d \x7d"

def twoBodies : Tree := .ofSource twoBodiesText

theorem fits_twoBodiesText : Fits twoBodiesText := by
  unfold Fits
  decide +kernel

theorem walk_twoBodies :
    declarations twoBodies =
        [⟨"A", "run", 1, 1, .method, [], ["use", "f", "g", "h", "i"]⟩,
          ⟨"A", "go", 1, 1, .anonymousMethod 0, [], ["f"]⟩,
          ⟨"A", "act", 1, 1, .anonymousMethod 1, [], ["g", "h"]⟩,
          ⟨"A", "act", 1, 1, .closure, [], ["h"]⟩,
          ⟨"A", "end", 1, 1, .anonymousMethod 1, [], ["i"]⟩] ∧
      activeAt twoBodies 3 = some [0, 2] := by
  decide +kernel

/-- The body in the argument is entered first, and the closure has its call in a row in two
others. -/
theorem extraction_bookkeeping_twoBodies :
    activeAt twoBodies 3 = some [0, 2] ∧ CallsInRow twoBodies 3 ∧
      holderAt twoBodies 2 = holderAt twoBodies 4 ∧ holderAt twoBodies 1 ≠ holderAt twoBodies 2 ∧
      ∃ first second, holderAt twoBodies 1 = some first ∧ holderAt twoBodies 2 = some second ∧
        (journalOf twoBodies).bodies[0]? = some first ∧
        (journalOf twoBodies).bodies[1]? = some second := by
  obtain ⟨hdeclarations, hactive⟩ := walk_twoBodies
  have hgo : (declarations twoBodies)[1]? =
      some ⟨"A", "go", 1, 1, .anonymousMethod 0, [], ["f"]⟩ := by rw [hdeclarations]; rfl
  have hact : (declarations twoBodies)[2]? =
      some ⟨"A", "act", 1, 1, .anonymousMethod 1, [], ["g", "h"]⟩ := by rw [hdeclarations]; rfl
  have hend : (declarations twoBodies)[4]? =
      some ⟨"A", "end", 1, 1, .anonymousMethod 1, [], ["i"]⟩ := by rw [hdeclarations]; rfl
  have hbooks := extraction_bookkeeping.1 twoBodies
  obtain ⟨first, hfirst, hnumber⟩ := hbooks.numbered 1 _ 0 hgo rfl
  obtain ⟨second, hsecond, hnumber'⟩ := hbooks.numbered 2 _ 1 hact rfl
  refine ⟨hactive, (extraction_bookkeeping.2 _ fits_twoBodiesText).2 3,
    (hbooks.together 2 4 _ _ 1 1 hact hend rfl rfl).1 rfl, fun hsame => ?_,
    first, second, hfirst, hsecond, (hnumber 0).2 rfl, (hnumber' 1).2 rfl⟩
  cases (hbooks.together 1 2 _ _ 0 1 hgo hact rfl rfl).2 hsame

/-- The body of a class without a name is not closed. -/
def unclosedText : String :=
  "class A \x7b void f() \x7b use(new B() \x7b void h() \x7b k(); \x7d 1); \x7d \x7d"

/-- Its tree when all from `new` to the method is set aside. -/
def unclosed : Tree :=
  let ts := tokens unclosedText
  let member := parseGoal .none (nestingBound ts) .classItem
  let aside := piecesOf (bodyPlaces ts) member 15 10 ((ts.drop 10).take 15)
  .node .program ((itemsAfter? ts [.setAside 10 aside]).getD [])

/-- The method is in a fault of the text, which is in the body of another method. It is walked as
any method, so that its call does not count for the one around it. -/
theorem method_in_fault_apart :
    declarations unclosed =
        [⟨"A", "f", 1, 1, .method, [], ["use"]⟩, ⟨"A", "h", 1, 1, .method, [], ["k"]⟩] ∧
      activeAt unclosed 1 = some [0] ∧ ¬CallsInRow unclosed 1 := by
  have hwalk : declarations unclosed =
        [⟨"A", "f", 1, 1, .method, [], ["use"]⟩, ⟨"A", "h", 1, 1, .method, [], ["k"]⟩] ∧
      activeAt unclosed 1 = some [0] := by
    decide +kernel
  obtain ⟨hdeclarations, hactive⟩ := hwalk
  refine ⟨hdeclarations, hactive, fun hrow => ?_⟩
  rw [CallsInRow, hdeclarations] at hrow
  obtain ⟨e, he, hin⟩ := hrow _ [0] 0 rfl hactive List.mem_cons_self
  cases he
  revert hin
  decide

end ChangeImpact.Java
