import ChangeImpact.Commit.Encoding
import ChangeImpact.Proofs.InstantTexts
import ChangeImpact.Proofs.JsonRoundTrip
import ChangeImpact.Proofs.ResolutionRules
import ChangeImpact.Proofs.StoreSteps
import Mathlib.Data.List.Induction

/-!
# Records that are stored and read back

The document of a record can always be read. A method is written as one text and taken apart at its
last dot, so what is read is the record itself exactly if no method has a dot in its name.

* `namedMap_of_ascending`, `Json.canonical_of_plain` — maps that are written in order are read back;
* `Method.reread` — what becomes of a method; `Method.rereadSet_eq_iff` — and of a set of methods;
* `CommitRecord.decode_tree` — what becomes of a record;
* `CommitCache.bytesAt_of_store` — the document that a store leaves;
* `CommitCache.stored_record_reads_back` — what is read from it.
-/

namespace ChangeImpact

/-! ## Sets and maps -/

theorem sortedSet_of_ascending {α : Type} [Ord α] {l : List α} (h : Ascending l) :
    sortedSet l = l := by
  induction l with
  | nil => rfl
  | cons a l ih =>
    obtain ⟨hfirst, hrest⟩ := List.pairwise_cons.1 h
    have hl : sortedSet l = l := ih hrest
    rw [sortedSet, List.foldr_cons, ← sortedSet, hl]
    cases l with
    | nil => rfl
    | cons b bs => rw [insertSorted, hfirst b List.mem_cons_self]

variable {α : Type}

/-- A name beyond all others goes to the end. -/
theorem Json.putMember_last {name : String} {value : α} {ms : List (String × α)}
    (h : ∀ m ∈ ms, compare m.1 name = .lt) :
    Json.putMember name value ms = ms ++ [(name, value)] := by
  induction ms with
  | nil => rfl
  | cons m ms ih =>
    have hgt : compare name m.1 = .gt := Std.OrientedCmp.gt_iff_lt.2 (h m List.mem_cons_self)
    rw [Json.putMember, hgt]
    exact congrArg (m :: ·) (ih fun m hm => h m (List.mem_cons_of_mem _ hm))

theorem Ascending.before {done ms : List (String × α)} {m : String × α}
    (h : Ascending ((done ++ m :: ms).map (·.1))) : ∀ d ∈ done, compare d.1 m.1 = .lt := by
  intro d hd
  rw [List.map_append, Ascending, List.pairwise_append] at h
  exact h.2.2 d.1 (List.mem_map_of_mem hd) m.1 (by simp)

/-- A map whose names are written in order is read back. -/
theorem namedMap_of_ascending {ms : List (String × α)} (h : Ascending (ms.map (·.1))) :
    namedMap ms = ms := by
  induction ms using List.reverseRecOn with
  | nil => rfl
  | append_singleton ms m ih =>
    have hfront : Ascending (ms.map (·.1)) := by
      rw [List.map_append] at h
      exact (List.pairwise_append.1 h).1
    -- the map of the names before, and then the last name
    rw [namedMap, List.foldl_append, ← namedMap, ih hfront]
    exact Json.putMember_last h.before

/-! ## Any values -/

namespace Json

/-- A value that nests at most so many levels, has only whole numbers of 64 bits, and whose objects
are maps: their names ascend. -/
inductive Plain : Nat → Json → Prop where
  | null (levels : Nat) : Plain levels .null
  | bool (levels : Nat) (b : Bool) : Plain levels (.bool b)
  | int (levels : Nat) {n : Int} (h : InRange n) : Plain levels (.num (.int n))
  | str (levels : Nat) (s : String) : Plain levels (.str s)
  | arr {levels : Nat} {items : List Json} (h : ∀ v ∈ items, Plain levels v) :
    Plain (levels + 1) (.arr items)
  | obj {levels : Nat} {members : List (String × Json)} (hnames : Ascending (members.map (·.1)))
    (h : ∀ m ∈ members, Plain levels m.2) : Plain (levels + 1) (.obj members)

variable {levels : Nat} {j : Json}

theorem Plain.exact (h : Plain levels j) : Exact j := by
  induction h with
  | null => exact .null
  | bool _ b => exact .bool b
  | int _ h => exact .int h
  | str _ s => exact .str s
  | arr _ ih => exact .arr ih
  | obj _ _ ih => exact .obj ih

theorem items_tree {depth : Nat} {items : List Json}
    (h : ∀ v ∈ items, (tree v).value? depth = some v) :
    Raw.items? depth (itemTrees items) = some items := by
  induction items with
  | nil => rfl
  | cons v items ih =>
    rw [itemTrees, Raw.items?, h v List.mem_cons_self,
      ih fun w hw => h w (List.mem_cons_of_mem _ hw)]
    rfl

theorem memberValues_tree {depth : Nat} {members : List (String × Json)}
    (h : ∀ m ∈ members, (tree m.2).value? depth = some m.2) :
    Raw.members? depth (memberTrees members) = some members := by
  induction members with
  | nil => rfl
  | cons m members ih =>
    rw [memberTrees, Raw.members?, decode_body, h m List.mem_cons_self,
      ih fun w hw => h w (List.mem_cons_of_mem _ hw)]
    rfl

/-- A value is found in its tree if the tree may nest deeper than the value does. -/
theorem value_tree {depth : Nat} (h : Plain levels j) (hdepth : levels < depth) :
    (tree j).value? depth = some j := by
  induction h generalizing depth with
  | null => rfl
  | bool => rfl
  | int _ h =>
    rw [tree, Raw.value?, value_numeral h]
    rfl
  | str _ s =>
    rw [tree, Raw.value?, decode_body]
    rfl
  | arr _ ih =>
    rw [tree, Raw.value?, if_neg (by omega), items_tree fun v hv => ih v hv (by omega)]
    rfl
  | obj _ _ ih =>
    rw [tree, Raw.value?, if_neg (by omega), memberValues_tree fun m hm => ih m hm (by omega)]
    rfl

theorem canonicalItems_eq {items : List Json} (h : ∀ v ∈ items, canonical v = v) :
    canonicalItems items = items := by
  induction items with
  | nil => rfl
  | cons v items ih =>
    rw [canonicalItems, h v List.mem_cons_self, ih fun w hw => h w (List.mem_cons_of_mem _ hw)]

theorem canonicalMembers_eq {done ms : List (String × Json)}
    (hnames : Ascending ((done ++ ms).map (·.1))) (h : ∀ m ∈ ms, canonical m.2 = m.2) :
    canonicalMembers ms done = done ++ ms := by
  induction ms generalizing done with
  | nil => rw [canonicalMembers, List.append_nil]
  | cons m ms ih =>
    rw [canonicalMembers, h m List.mem_cons_self, putMember_last hnames.before,
      ih (by simpa using hnames) fun w hw => h w (List.mem_cons_of_mem _ hw)]
    simp

/-- A value that is in order is canonical. -/
theorem canonical_of_plain (h : Plain levels j) : canonical j = j := by
  induction h with
  | null => rfl
  | bool => rfl
  | int => rfl
  | str => rfl
  | arr _ ih => rw [canonical, canonicalItems_eq ih]
  | obj hnames _ ih =>
    have hall : canonicalMembers _ [] = _ := canonicalMembers_eq hnames ih
    rw [canonical, hall, List.nil_append]

theorem any_tree {depth : Nat} (h : Plain levels j) (hdepth : levels < depth) :
    Decoder.any depth (tree j) = some j := by
  rw [Decoder.any, value_tree h hdepth, Option.map_some, canonical_of_plain h]

end Json

/-! ## Methods -/

open Json (Decoder tree)

namespace Method

/-- The method that is read from the signature of a method. -/
def reread (m : Method) : Method := .ofSignature m.signature

/-- A signature always names an owner, and the name has no dot. -/
theorem dot_not_mem_reread (m : Method) : '.' ∉ m.reread.name.toList := by
  have hdot : '.' ∈ m.signature.toList := by simp [signature]
  rcases Text.last_dot_cases m.signature with hnone | ⟨front, tail, htail, hsplit⟩
  · exact absurd hdot hnone
  · rw [reread, ofSignature, hsplit, Text.cutLast_dot htail]
    exact htail

theorem reread_eq_self {m : Method} (h : '.' ∉ m.name.toList) : m.reread = m := by
  rw [reread, ofSignature, signature, Text.cutLast_dot h]

/-- A method is read back exactly if its name has no dot. -/
theorem reread_eq_iff {m : Method} : m.reread = m ↔ '.' ∉ m.name.toList := by
  constructor
  · intro h
    -- no method that was read has a dot in its name
    have hdot := m.dot_not_mem_reread
    rwa [h] at hdot
  · exact reread_eq_self

/-- The set that is read from the signatures of a set of methods. -/
def rereadSet (ms : List Method) : List Method := sortedSet (ms.map reread)

/-- A set of methods is read back exactly if none of the names has a dot. -/
theorem rereadSet_eq_iff {ms : List Method} (h : Ascending ms) :
    rereadSet ms = ms ↔ ∀ m ∈ ms, '.' ∉ m.name.toList := by
  constructor
  · intro hsame m hm
    -- what is in the set was read from a signature
    rw [← hsame, rereadSet, mem_sortedSet] at hm
    obtain ⟨m', -, rfl⟩ := List.mem_map.1 hm
    exact m'.dot_not_mem_reread
  · intro hdots
    have hsame : ms.map reread = ms := by
      refine (List.map_congr_left fun m hm => ?_).trans (List.map_id ms)
      exact reread_eq_self (hdots m hm)
    rw [rereadSet, hsame, sortedSet_of_ascending h]

theorem decode_tree {depth : Nat} (m : Method) :
    decode depth (tree (.str m.signature)) = some m.reread := by
  rw [decode, Decoder.filterMap, Json.text_tree]
  rfl

theorem decodeSet_tree {depth : Nat} (hdepth : 1 < depth) (ms : List Method) :
    decodeSet depth (tree (listJson ms)) = some (rereadSet ms) := by
  rw [decodeSet, Decoder.filterMap, listJson, Json.list_tree hdepth fun m _ => m.decode_tree]
  rfl

end Method

/-! ## Records -/

/-- What is read from the document of a gap. -/
def Coverage.Gap.reread (g : Coverage.Gap) : Coverage.Gap :=
  { g with method := g.method.reread, callers := Method.rereadSet g.callers }

/-- What is read from the document of a record. -/
def CommitRecord.reread (r : CommitRecord) : CommitRecord :=
  { r with
    changedMethods := Method.rereadSet r.changedMethods
    impactedMethods := Method.rereadSet r.impactedMethods
    gaps := r.gaps.map (·.reread) }

/-- All methods that a record names. -/
def CommitRecord.methods (r : CommitRecord) : List Method :=
  r.changedMethods ++ r.impactedMethods ++ r.gaps.flatMap fun g => g.method :: g.callers

/-- What holds of a record for its type: sets and maps ascend, counts have 64 bits and scores 32. -/
@[mk_iff]
structure CommitRecord.Typed (r : CommitRecord) : Prop where
  changedMethods : Ascending r.changedMethods
  impactedMethods : Ascending r.impactedMethods
  owners : Ascending (r.impactedTests.map (·.1))
  tests : ∀ m ∈ r.impactedTests, Ascending m.2
  callers : ∀ g ∈ r.gaps, Ascending g.callers
  classifiers : Ascending (r.classifications.map (·.1))
  files : r.changedFiles ≤ maxWord64 ∧ r.skippedFiles ≤ maxWord64
  coverage : r.coverage.business ≤ maxWord64 ∧ r.coverage.covered ≤ maxWord64 ∧
    r.coverage.highGaps ≤ maxWord64 ∧ r.coverage.mediumGaps ≤ maxWord64 ∧
    r.coverage.lowGaps ≤ maxWord64
  scores : r.risk ≤ maxWord32 ∧ ∀ g ∈ r.gaps, g.riskScore ≤ maxWord32

instance CommitRecord.decidableTyped (r : CommitRecord) : Decidable r.Typed :=
  decidable_of_iff' _ r.typed_iff

theorem Coverage.Gap.reread_eq_iff {g : Coverage.Gap} (h : Ascending g.callers) :
    g.reread = g ↔ ∀ m ∈ g.method :: g.callers, '.' ∉ m.name.toList := by
  have hfields : g.reread = g ↔ g.method.reread = g.method ∧
      Method.rereadSet g.callers = g.callers := by
    obtain ⟨⟩ := g
    simp [reread]
  rw [hfields, Method.reread_eq_iff, Method.rereadSet_eq_iff h, List.forall_mem_cons]

/-- A record is read back exactly if no method has a dot in its name. -/
theorem CommitRecord.reread_eq_iff {r : CommitRecord} (h : r.Typed) :
    r.reread = r ↔ ∀ m ∈ r.methods, '.' ∉ m.name.toList := by
  have hgaps : r.gaps.map (·.reread) = r.gaps ↔
      ∀ g ∈ r.gaps, ∀ m ∈ g.method :: g.callers, '.' ∉ m.name.toList := by
    have hsame : r.gaps.map (·.reread) = r.gaps ↔ ∀ g ∈ r.gaps, g.reread = g := by
      conv_lhs => rw [← List.map_id r.gaps, List.map_map]
      exact List.map_inj_left
    rw [hsame]
    exact forall₂_congr fun g hg => Coverage.Gap.reread_eq_iff (h.callers g hg)
  have hfields : r.reread = r ↔ Method.rereadSet r.changedMethods = r.changedMethods ∧
      Method.rereadSet r.impactedMethods = r.impactedMethods ∧
        r.gaps.map (·.reread) = r.gaps := by
    obtain ⟨⟩ := r
    simp [reread]
  rw [hfields, hgaps, Method.rereadSet_eq_iff h.changedMethods,
    Method.rereadSet_eq_iff h.impactedMethods]
  simp only [methods, List.mem_append, List.mem_flatMap]
  constructor
  · rintro ⟨hchanged, himpacted, hgap⟩ m ((hm | hm) | ⟨g, hg, hm⟩)
    · exact hchanged m hm
    · exact himpacted m hm
    · exact hgap g hg m hm
  · intro hall
    exact ⟨fun m hm => hall m (.inl (.inl hm)), fun m hm => hall m (.inl (.inr hm)),
      fun g hg m hm => hall m (.inr ⟨g, hg, hm⟩)⟩

theorem Author.decode_tree {depth : Nat} (hdepth : 1 < depth) (a : Author) :
    decode depth (tree a.toJson) = some a := by
  have hnodup : ([("name", Json.str a.name), ("email", .str a.email)].map (·.1)).Nodup := by
    simp
  rw [decode, toJson, Json.fields_tree hdepth hnodup (by simp)]
  simp only [Option.bind_eq_bind, Option.bind_some]
  rw [Json.need_tree hnodup (by simp) (Json.text_tree a.name), Option.bind_some,
    Json.need_tree hnodup (by simp) (Json.text_tree a.email)]
  rfl

theorem Coverage.RiskLevel.decode_tree {depth : Nat} (level : RiskLevel) :
    decode depth (tree (.str level.name)) = some level := by
  rw [tree, decode, Json.decode_body]
  cases level <;> rfl

theorem maxWord32_le : maxWord32 ≤ maxWord64 := by decide

theorem Coverage.Gap.decode_tree {depth : Nat} (hdepth : 2 < depth) {g : Coverage.Gap}
    (hscore : g.riskScore ≤ maxWord32) : decode depth (tree g.toJson) = some g.reread := by
  have hnodup : ([("method", Json.str g.method.signature), ("risk_level", .str g.riskLevel.name),
      ("risk_score", .nat g.riskScore), ("impacted_callers", Method.listJson g.callers),
      ("reason", .str g.reason)].map (·.1)).Nodup := by
    simp
  rw [decode, toJson, Json.fields_tree (by omega) hnodup (by simp)]
  simp only [Option.bind_eq_bind, Option.bind_some]
  rw [Json.need_tree hnodup (by simp) g.method.decode_tree, Option.bind_some,
    Json.need_tree hnodup (by simp) g.riskLevel.decode_tree, Option.bind_some,
    Json.need_tree hnodup (by simp) (Json.number_tree hscore maxWord32_le), Option.bind_some,
    Json.need_tree hnodup (by simp) (Method.decodeSet_tree (by omega) g.callers), Option.bind_some,
    Json.need_tree hnodup (by simp) (Json.text_tree g.reason)]
  rfl

theorem Coverage.Stats.decode_tree {depth : Nat} (hdepth : 1 < depth) {s : Coverage.Stats}
    (h : s.business ≤ maxWord64 ∧ s.covered ≤ maxWord64 ∧ s.highGaps ≤ maxWord64 ∧
      s.mediumGaps ≤ maxWord64 ∧ s.lowGaps ≤ maxWord64) :
    decode depth (tree s.toJson) = some s := by
  obtain ⟨hbusiness, hcovered, hhigh, hmedium, hlow⟩ := h
  have hnodup : ([("business_methods", Json.nat s.business), ("covered_methods", .nat s.covered),
      ("high_risk_gaps", .nat s.highGaps), ("medium_risk_gaps", .nat s.mediumGaps),
      ("low_risk_gaps", .nat s.lowGaps)].map (·.1)).Nodup := by
    simp
  rw [decode, toJson, Json.fields_tree hdepth hnodup (by simp)]
  simp only [Option.bind_eq_bind, Option.bind_some]
  rw [Json.need_tree hnodup (by simp) (Json.number_tree hbusiness le_rfl), Option.bind_some,
    Json.need_tree hnodup (by simp) (Json.number_tree hcovered le_rfl), Option.bind_some,
    Json.need_tree hnodup (by simp) (Json.number_tree hhigh le_rfl), Option.bind_some,
    Json.need_tree hnodup (by simp) (Json.number_tree hmedium le_rfl), Option.bind_some,
    Json.need_tree hnodup (by simp) (Json.number_tree hlow le_rfl)]
  rfl

theorem Instant.decode_tree {depth : Nat} {t : Instant} (hwhole : t.nanos = 0)
    (hyear : 0 ≤ t.date.year ∧ t.date.year ≤ 9999) :
    decode depth (tree (.str t.text)) = some t := by
  rw [decode, Decoder.filterMap, Json.text_tree, Option.bind_some, parse_text hwhole hyear]

theorem decodeTexts_tree {depth : Nat} (hdepth : 1 < depth) {names : List String}
    (h : Ascending names) : decodeTexts depth (tree (.strs names)) = some names := by
  have hlist : Decoder.list .text depth (tree (.strs names)) = some (names.map id) :=
    Json.list_tree hdepth fun s _ => Json.text_tree s
  rw [decodeTexts, Decoder.filterMap, hlist, List.map_id]
  exact congrArg some (sortedSet_of_ascending h)

theorem Impact.ByOwner.decode_tree {depth : Nat} (hdepth : 2 < depth) {tests : Impact.ByOwner}
    (howners : Ascending (tests.map (·.1))) (hnames : ∀ m ∈ tests, Ascending m.2) :
    decode depth (tree (toJson tests)) = some tests := by
  have hinner : 1 < depth - 1 := by omega
  have hmembers : Decoder.members decodeTexts depth (tree (toJson tests)) =
      some (tests.map fun m => (m.1, m.2)) :=
    Json.members_tree .strs id (Nat.lt_of_succ_lt hdepth) fun m hm =>
      decodeTexts_tree hinner (hnames m hm)
  rw [decode, Decoder.filterMap, hmembers, List.map_id']
  exact congrArg some (namedMap_of_ascending howners)

theorem decodeClassifications_tree {levels depth : Nat} {classes : List (String × Json)}
    (hdepth : levels + 1 < depth) (hnames : Ascending (classes.map (·.1)))
    (h : ∀ m ∈ classes, m.2.Plain levels) :
    decodeClassifications depth (tree (.obj classes)) = some classes := by
  have houter : 1 < depth := by omega
  have hinner : levels < depth - 1 := by omega
  have hmembers : Decoder.members .any depth (tree (.obj (classes.map fun m => (m.1, m.2)))) =
      some (classes.map fun m => (m.1, m.2)) :=
    Json.members_tree id id houter fun m hm => Json.any_tree (h m hm) hinner
  rw [List.map_id'] at hmembers
  rw [decodeClassifications, Decoder.filterMap, hmembers]
  exact congrArg some (namedMap_of_ascending hnames)

namespace CommitRecord

/-- The members of the document of a record. -/
def members (r : CommitRecord) : List (String × Json) :=
  [("commit_id", .str r.id), ("short_id", .str r.shortId), ("message", .str r.message),
    ("author", r.author.toJson), ("timestamp", .str r.timestamp.text),
    ("changed_files", .nat r.changedFiles), ("changed_methods", Method.listJson r.changedMethods),
    ("skipped_files", .nat r.skippedFiles),
    ("impacted_methods", Method.listJson r.impactedMethods),
    ("impacted_tests", Impact.ByOwner.toJson r.impactedTests),
    ("test_coverage_gaps", .arr (r.gaps.map (·.toJson))), ("coverage", r.coverage.toJson),
    ("risk_score", .nat r.risk)] ++
    if r.classifications.isEmpty then [] else [("classifications", .obj r.classifications)]

theorem toJson_eq (r : CommitRecord) : r.toJson = .obj r.members := rfl

theorem nodup_members (r : CommitRecord) : (r.members.map (·.1)).Nodup := by
  unfold members
  split <;> simp

theorem mem_fieldNames (r : CommitRecord) : ∀ m ∈ r.members, m.1 ∈ fieldNames := by
  unfold members fieldNames
  split <;> simp

/-- Classifications that are left out were empty. -/
theorem classifications_tree {levels depth : Nat} {r : CommitRecord} (hdepth : levels + 2 < depth)
    (hnames : Ascending (r.classifications.map (·.1)))
    (h : ∀ m ∈ r.classifications, m.2.Plain levels) :
    Json.Fields.orElse (r.members.map fun m => (m.1, tree m.2)) depth decodeClassifications
      "classifications" [] = some r.classifications := by
  cases hempty : r.classifications.isEmpty with
  | true =>
    have hnone : (r.members.map fun m => (m.1, tree m.2)).lookup "classifications" = none := by
      simp [members, hempty, List.lookup_eq_none_iff]
    rw [Json.Fields.orElse, hnone, List.isEmpty_iff.1 hempty]
  | false =>
    have hmem : ("classifications", Json.obj r.classifications) ∈ r.members := by
      simp [members, hempty]
    rw [Json.Fields.orElse, Json.lookup_tree r.nodup_members hmem]
    have hinner : levels + 1 < depth - 1 := by omega
    exact decodeClassifications_tree hinner hnames h

/-- What is read from the document of a record. -/
theorem decode_tree {levels depth : Nat} {r : CommitRecord} (hr : r.Typed)
    (hwhole : r.timestamp.nanos = 0)
    (hyear : 0 ≤ r.timestamp.date.year ∧ r.timestamp.date.year ≤ 9999)
    (hclasses : ∀ m ∈ r.classifications, m.2.Plain levels) (hdepth : levels + 5 < depth) :
    decode depth (tree r.toJson) = some r.reread := by
  have hgaps : Decoder.list Coverage.Gap.decode (depth - 1)
      (tree (.arr (r.gaps.map (·.toJson)))) = some (r.gaps.map (·.reread)) := by
    have hinner : 2 < depth - 1 - 1 := by omega
    exact Json.list_tree (by omega) fun g hg =>
      Coverage.Gap.decode_tree hinner (hr.scores.2 g hg)
  obtain ⟨fields, hfields⟩ : ∃ fields, fields = r.members.map fun m => (m.1, tree m.2) := ⟨_, rfl⟩
  have hneed {β : Type} {d : Decoder β} {name : String} {j : Json} {b : β}
      (hj : (name, j) ∈ r.members) (hb : d (depth - 1) (tree j) = some b) :
      Json.Fields.need fields depth d name = some b :=
    hfields ▸ Json.need_tree r.nodup_members hj hb
  have hread : Json.Raw.fields? fieldNames depth (tree r.toJson) = some fields :=
    hfields ▸ Json.fields_tree (by omega) r.nodup_members r.mem_fieldNames
  have hclassifications : Json.Fields.orElse fields depth decodeClassifications "classifications" []
      = some r.classifications :=
    hfields ▸ classifications_tree (by omega) hr.classifiers hclasses
  -- one field after the other, in the order of the record
  refine Option.bind_eq_some_iff.2 ⟨fields, hread, ?_⟩
  refine Option.bind_eq_some_iff.2 ⟨r.id, hneed (by simp [members]) (Json.text_tree _), ?_⟩
  refine Option.bind_eq_some_iff.2 ⟨r.shortId, hneed (by simp [members]) (Json.text_tree _), ?_⟩
  refine Option.bind_eq_some_iff.2 ⟨r.message, hneed (by simp [members]) (Json.text_tree _), ?_⟩
  refine Option.bind_eq_some_iff.2
    ⟨r.author, hneed (by simp [members]) (r.author.decode_tree (by omega)), ?_⟩
  refine Option.bind_eq_some_iff.2
    ⟨r.timestamp, hneed (by simp [members]) (Instant.decode_tree hwhole hyear), ?_⟩
  refine Option.bind_eq_some_iff.2
    ⟨r.changedFiles, hneed (by simp [members]) (Json.number_tree hr.files.1 le_rfl), ?_⟩
  refine Option.bind_eq_some_iff.2
    ⟨_, hneed (by simp [members]) (Method.decodeSet_tree (by omega) r.changedMethods), ?_⟩
  refine Option.bind_eq_some_iff.2
    ⟨r.skippedFiles, hneed (by simp [members]) (Json.number_tree hr.files.2 le_rfl), ?_⟩
  refine Option.bind_eq_some_iff.2
    ⟨_, hneed (by simp [members]) (Method.decodeSet_tree (by omega) r.impactedMethods), ?_⟩
  refine Option.bind_eq_some_iff.2 ⟨r.impactedTests, hneed (by simp [members])
    (Impact.ByOwner.decode_tree (by omega) hr.owners hr.tests), ?_⟩
  refine Option.bind_eq_some_iff.2 ⟨_, hneed (by simp [members]) hgaps, ?_⟩
  refine Option.bind_eq_some_iff.2
    ⟨r.coverage, hneed (by simp [members]) (Coverage.Stats.decode_tree (by omega) hr.coverage), ?_⟩
  refine Option.bind_eq_some_iff.2
    ⟨r.risk, hneed (by simp [members]) (Json.number_tree hr.scores.1 maxWord32_le), ?_⟩
  exact Option.bind_eq_some_iff.2 ⟨r.classifications, hclassifications, rfl⟩

end CommitRecord

/-! ## Documents -/

namespace Json

theorem exact_nat {n : Nat} (h : n ≤ maxWord64) : Exact (.nat n) :=
  .int ⟨by omega, by omega⟩

theorem exact_strs (names : List String) : Exact (.strs names) := by
  refine .arr fun v hv => ?_
  obtain ⟨s, -, rfl⟩ := List.mem_map.1 hv
  exact .str s

end Json

theorem Method.exact_listJson (ms : List Method) : (listJson ms).Exact := by
  refine .arr fun v hv => ?_
  obtain ⟨m, -, rfl⟩ := List.mem_map.1 hv
  exact .str m.signature

theorem Coverage.Gap.exact_toJson {g : Coverage.Gap} (h : g.riskScore ≤ maxWord32) :
    g.toJson.Exact := by
  refine .obj ?_
  simp only [List.forall_mem_cons]
  exact ⟨.str _, .str _, Json.exact_nat (h.trans maxWord32_le), Method.exact_listJson _, .str _,
    by simp⟩

theorem CommitRecord.exact_toJson {levels : Nat} {r : CommitRecord} (hr : r.Typed)
    (hclasses : ∀ m ∈ r.classifications, m.2.Plain levels) : r.toJson.Exact := by
  have hauthor : r.author.toJson.Exact := by
    refine .obj ?_
    simp only [List.forall_mem_cons]
    exact ⟨.str _, .str _, by simp⟩
  have htests : (Impact.ByOwner.toJson r.impactedTests).Exact := by
    refine .obj fun m hm => ?_
    obtain ⟨tests, -, rfl⟩ := List.mem_map.1 hm
    exact Json.exact_strs tests.2
  have hgaps : (Json.arr (r.gaps.map (·.toJson))).Exact := by
    refine .arr fun v hv => ?_
    obtain ⟨g, hg, rfl⟩ := List.mem_map.1 hv
    exact Coverage.Gap.exact_toJson (hr.scores.2 g hg)
  have hcoverage : r.coverage.toJson.Exact := by
    obtain ⟨hbusiness, hcovered, hhigh, hmedium, hlow⟩ := hr.coverage
    refine .obj ?_
    simp only [List.forall_mem_cons]
    exact ⟨Json.exact_nat hbusiness, Json.exact_nat hcovered, Json.exact_nat hhigh,
      Json.exact_nat hmedium, Json.exact_nat hlow, by simp⟩
  have hclassifications : (Json.obj r.classifications).Exact :=
    .obj fun m hm => (hclasses m hm).exact
  rw [toJson_eq]
  refine .obj ?_
  simp only [members, List.forall_mem_append, List.forall_mem_cons]
  refine ⟨⟨.str _, .str _, .str _, hauthor, .str _, Json.exact_nat hr.files.1,
    Method.exact_listJson _, Json.exact_nat hr.files.2, Method.exact_listJson _, htests, hgaps,
    hcoverage, Json.exact_nat (hr.scores.1.trans maxWord32_le), by simp⟩, ?_⟩
  split
  · simp
  · simpa using hclassifications

/-- What it takes that a record without classifications is read back as it was written. -/
@[mk_iff]
structure CommitRecord.Rereadable (r : CommitRecord) : Prop where
  typed : r.Typed
  whole : r.timestamp.nanos = 0
  year : 0 ≤ r.timestamp.date.year ∧ r.timestamp.date.year ≤ 9999
  unclassified : r.classifications = []
  undotted : ∀ m ∈ r.methods, '.' ∉ m.name.toList

instance CommitRecord.decidableRereadable (r : CommitRecord) : Decidable r.Rereadable :=
  decidable_of_iff' _ r.rereadable_iff

namespace CommitCache

/-- What is read from a document, if what is kept in it can be read. -/
theorem spelled_document {α : Type} {d : Decoder α} {impact : Json} {v : α} (c : CommitCache)
    (commit : String) (hexact : impact.Exact)
    (hv : d (Json.nestingLimit - 1) (tree impact) = some v) :
    spelled d (c.documentBytes commit impact) = some v := by
  have hnodup : ([("fingerprint", Json.str (fingerprintText c.fingerprint)),
      ("commit", .str commit), ("impact", impact)].map (·.1)).Nodup := by
    simp
  have hdocument : (Json.obj [("fingerprint", .str (fingerprintText c.fingerprint)),
      ("commit", .str commit), ("impact", impact)]).Exact := by
    refine .obj ?_
    simp only [List.forall_mem_cons]
    exact ⟨.str _, .str _, hexact, by simp⟩
  have hparse : Document.parse? d (c.documentBytes commit impact) =
      some ⟨fingerprintText c.fingerprint, commit, v⟩ := by
    have hraw : Json.Raw.parse? (c.documentBytes commit impact) = some _ :=
      Json.parse_pretty hdocument
    rw [Document.parse?, hraw, Option.bind_eq_bind, Option.bind_some, Document.decode]
    refine Option.bind_eq_some_iff.2 ⟨_, Json.fields_tree (by decide) hnodup (by simp), ?_⟩
    refine Option.bind_eq_some_iff.2
      ⟨_, Json.need_tree hnodup (by simp) (Json.text_tree (fingerprintText c.fingerprint)), ?_⟩
    refine Option.bind_eq_some_iff.2
      ⟨_, Json.need_tree hnodup (by simp) (Json.text_tree commit), ?_⟩
    exact Option.bind_eq_some_iff.2 ⟨v, Json.need_tree hnodup (by simp) hv, rfl⟩
  rw [spelled, hparse]
  rfl

theorem spelled_record {r : CommitRecord} (c : CommitCache) (commit : String) (hr : r.Typed)
    (hwhole : r.timestamp.nanos = 0)
    (hyear : 0 ≤ r.timestamp.date.year ∧ r.timestamp.date.year ≤ 9999)
    (hclasses : ∀ m ∈ r.classifications, m.2.Plain 100) :
    spelled CommitRecord.decode (c.documentBytes commit r.toJson) = some r.reread :=
  spelled_document c commit (CommitRecord.exact_toJson hr hclasses)
    (CommitRecord.decode_tree hr hwhole hyear hclasses (by decide))

/-- A record without classifications comes back as it was written. -/
theorem spelled_of_rereadable {r : CommitRecord} (c : CommitCache) (commit : String)
    (h : r.Rereadable) :
    spelled CommitRecord.decode (c.documentBytes commit r.toJson) = some r := by
  rw [spelled_record c commit h.typed h.whole h.year (by simp [h.unclassified]),
    (CommitRecord.reread_eq_iff h.typed).2 h.undotted]

/-- A store that succeeds has moved its draft into the slot. -/
theorem bytesAt_of_storeFrom {c : CommitCache} {commit path : String} {bytes : ByteArray} {n : Nat}
    {stage : StoreStage} {t t' : FileTree} (hn : stage.left ≤ n)
    (hdraft : stage = .moveDraft → t.bytesAt (c.slotDir commit ++ [c.draftName]) = some bytes)
    (h : c.storeFrom commit bytes n t stage = (t', .ok path)) :
    t'.bytesAt (c.slotDir commit ++ [entryName]) = some bytes := by
  induction n generalizing t stage with
  | zero => cases stage <;> simp [StoreStage.left] at hn
  | succ n ih =>
    have hmove := storeMove_storeStep c commit bytes t stage
    generalize hstep : c.storeStep commit bytes t stage = step at hmove
    obtain ⟨t₁, next⟩ := step
    rw [storeFrom, hstep] at h
    cases hmove with
    | made =>
      refine ih ?_ (by simp) h
      exact Nat.le_of_succ_le_succ hn
    | written hwrite =>
      refine ih ?_ (fun _ => ?_) h
      · exact Nat.le_of_succ_le_succ hn
      · dsimp only at hwrite
        rw [FileTree.eq_of_write hwrite]
        exact FileTree.bytesAt_set_file (by simp)
    | moved hmoved =>
      -- what is moved is what was written as the draft
      obtain ⟨moved, hread, rfl⟩ := FileTree.eq_of_move hmoved
      obtain rfl : moved = bytes := Option.some.inj (hread.symm.trans (hdraft rfl))
      obtain ⟨rfl, -⟩ := Prod.mk.inj h
      exact FileTree.bytesAt_set_file (by simp)
    | notMoved =>
      -- the draft is dropped next, and that ends in an error
      refine ih ?_ (by simp) h
      exact Nat.le_of_succ_le_succ hn
    | notMade | notWritten | dropped | notDropped => simp at h

/-- A store that succeeds leaves its document in the slot. -/
theorem bytesAt_of_store {c : CommitCache} {commit path : String} {impact : Json} {t t' : FileTree}
    (h : c.store commit impact t = (t', .ok path)) :
    t'.bytesAt (.ofText (c.entryPath commit)) = some (c.documentBytes commit impact) := by
  rw [entryPath_eq]
  exact bytesAt_of_storeFrom (by decide) (by simp) h

/-- A store of a record leaves a document that can be read. What is read is the record itself
exactly if none of the methods that the record names has a dot in its name, and then a store of what
was read leaves the same document. -/
theorem stored_record_reads_back (c : CommitCache) (commit : String) (r : CommitRecord)
    (hr : r.Typed) (hwhole : r.timestamp.nanos = 0)
    (hyear : 0 ≤ r.timestamp.date.year ∧ r.timestamp.date.year ≤ 9999)
    (hclasses : ∀ m ∈ r.classifications, m.2.Plain 100) :
    let bytes := c.documentBytes commit r.toJson
    (∀ t t' path, c.store commit r.toJson t = (t', .ok path) →
      t'.bytesAt (.ofText (c.entryPath commit)) = some bytes) ∧
    ∃ read, spelled CommitRecord.decode bytes = some read ∧
      (read = r ↔ ∀ m ∈ r.methods, '.' ∉ m.name.toList) ∧
      (read = r → ∀ t t' path, c.store commit read.toJson t = (t', .ok path) →
        t'.bytesAt (.ofText (c.entryPath commit)) = some bytes) := by
  intro bytes
  refine ⟨fun t t' path hstore => bytesAt_of_store hstore, r.reread, ?_, ?_, ?_⟩
  · exact spelled_record c commit hr hwhole hyear hclasses
  · exact CommitRecord.reread_eq_iff hr
  · intro hsame t t' path hstore
    rw [hsame] at hstore
    exact bytesAt_of_store hstore

/-- A record of a leap day. The order of its methods is not that of their signatures. -/
def leapDayRecord (name : String) : CommitRecord where
  id := "abcdef12"
  shortId := "abcdef1"
  message := "say \"hi\"\n"
  author := ⟨"Ä", "a@b"⟩
  timestamp := ⟨1709251199, 0⟩
  changedFiles := 2
  changedMethods := [⟨"A", "z"⟩, ⟨"A$B", "a"⟩, ⟨"A.b", name⟩]
  skippedFiles := 0
  impactedMethods := []
  impactedTests := [("ATest", ["one", "two"]), ("BTest", [])]
  gaps := [⟨⟨"A", "z"⟩, .high, 9, [⟨"", "c"⟩, ⟨"A.b", "d"⟩], "no test"⟩]
  coverage := ⟨3, 2, 1, 0, 0⟩
  risk := 9
  classifications :=
    [("size", .obj [("big", .bool true), ("lines", .arr [.num (.int (-3)), .null])])]

theorem typed_leapDayRecord {name : String} (h : name = "c" ∨ name = "c.d") :
    (leapDayRecord name).Typed := by
  rcases h with rfl | rfl <;> constructor <;> decide +kernel

theorem plain_leapDayRecord (name : String) :
    ∀ m ∈ (leapDayRecord name).classifications, m.2.Plain 100 := by
  have hlines : (Json.arr [.num (.int (-3)), .null]).Plain 99 := by
    refine .arr ?_
    simp only [List.forall_mem_cons]
    exact ⟨.int _ (by decide), .null _, by simp⟩
  simp only [leapDayRecord, List.forall_mem_cons]
  refine ⟨.obj (by decide) ?_, by simp⟩
  simp only [List.forall_mem_cons]
  exact ⟨.bool _ true, hlines, by simp⟩

theorem stored_record_reads_back_leapDay :
    let c : CommitCache := ⟨"cache", 7, 1⟩
    let bytes (name : String) := c.documentBytes "abcdef12" (leapDayRecord name).toJson
    (∃ t path, c.store "abcdef12" (leapDayRecord "c").toJson .empty = (t, .ok path) ∧
      t.bytesAt (.ofText (c.entryPath "abcdef12")) = some (bytes "c")) ∧
    spelled CommitRecord.decode (bytes "c") = some (leapDayRecord "c") ∧
    ∃ read, spelled CommitRecord.decode (bytes "c.d") = some read ∧ read ≠ leapDayRecord "c.d" := by
  intro c bytes
  have hfits : (c.slotDir "abcdef12").Fits := by
    unfold FilePath.Fits
    decide
  obtain ⟨t, hstore, -⟩ := storeFrom_unblocked (unblocked_empty hfits) (bytes "c")
  obtain ⟨hleft, read, hread, hsame, -⟩ := stored_record_reads_back c "abcdef12" (leapDayRecord "c")
    (typed_leapDayRecord (.inl rfl)) rfl (by decide) (plain_leapDayRecord "c")
  obtain ⟨-, read', hread', hsame', -⟩ :=
    stored_record_reads_back c "abcdef12" (leapDayRecord "c.d")
      (typed_leapDayRecord (.inr rfl)) rfl (by decide) (plain_leapDayRecord "c.d")
  have hplain : read = leapDayRecord "c" := hsame.2 (by decide)
  have hdotted : read' ≠ leapDayRecord "c.d" := fun h => absurd (hsame'.1 h) (by decide)
  exact ⟨⟨t, _, hstore, hleft _ _ _ hstore⟩, hplain ▸ hread, read', hread', hdotted⟩

end CommitCache

end ChangeImpact
