import ChangeImpact.Java.SharedCache
import ChangeImpact.Proofs.PoolRuns

/-!
# Reading through a shared cache

A unit that is read by several workers through one cache is the unit that is read file by file
without a cache, whatever was read before or is read at the same time, in whatever order the workers
act, and whatever the cache drops. The cache is asked by hashes, so this needs that no two texts
that went through it have the same hash.

* `Admits` — the files that belong to a unit;
* `ParseCache.Learned` — every entry was learned from a text of that hash; `learned_step` — a step
  of a worker keeps it so, and what the worker returns is what the file says;
* `sound_readAll` — so it is after every schedule; `SharedCache.learned_after` — and after any
  number of batches;
* `Loads`, `load_shared_exact` — what is loaded.
-/

namespace ChangeImpact

/-! ## Files of a unit -/

theorem length_reading (results : List (Except SourceError SourceFacts)) :
    (results.filterMap Except.toOption).length + (results.filterMap readingError?).length =
      results.length := by
  induction results with
  | nil => rfl
  | cons r results ih =>
    cases r with
    | error e =>
      have hfile : (Except.error e : Except SourceError SourceFacts).toOption = none := rfl
      have herror : readingError? (.error e) = some (.source e) := rfl
      rw [List.filterMap_cons_none hfile, List.filterMap_cons_some herror, List.length_cons,
        List.length_cons, ← ih, Nat.add_assoc]
    | ok facts =>
      have hfile : (Except.ok facts : Except SourceError SourceFacts).toOption = some facts := rfl
      have herror : readingError? (.ok facts) = none := rfl
      rw [List.filterMap_cons_some hfile, List.filterMap_cons_none herror, List.length_cons,
        List.length_cons, ← ih, Nat.add_right_comm]

/-- Every file that belongs to a unit is read, cannot be read or is cut off. -/
theorem SourceUnit.length_load (model : SourceModel) (config : Config.Analysis)
    (files : List SourceFile) :
    (load model config files).data.files.length + (load model config files).data.skipped +
      (load model config files).data.truncated = (admitted model config files).length := by
  have hread :=
    length_reading (((admitted model config files).take config.maxFiles).map model.parse)
  rw [List.length_map, List.length_take] at hread
  show (List.filterMap ..).length + (List.filterMap ..).length + (_ - config.maxFiles) = _
  omega

namespace Java

/-- A file belongs to a unit if it is a Java file whose path, written with slashes, contains the
scope. -/
structure Admits (config : Config.Analysis) (f : SourceFile) : Prop where
  java : ".java".toList <:+ f.path.toList
  scope : ∀ scope, config.scopePath = some scope →
    scope.toList <:+: f.path.toList.map fun c => if c = '\\' then '/' else c

theorem admits_iff {config : Config.Analysis} {f : SourceFile} :
    (model.supports f.path && inScope config f.path) = true ↔ Admits config f := by
  have hjava : model.supports f.path = true ↔ ".java".toList <:+ f.path.toList :=
    List.isSuffixOf_iff_suffix
  have hscope : inScope config f.path = true ↔ ∀ scope, config.scopePath = some scope →
      scope.toList <:+: f.path.toList.map fun c => if c = '\\' then '/' else c := by
    unfold inScope
    cases config.scopePath with
    | none => simp
    | some scope =>
      show Text.hasInfix scope (Text.replaceChar '\\' '/' f.path) = true ↔ _
      rw [Text.hasInfix, Text.infixOf_iff, Text.replaceChar, String.toList_ofList]
      exact ⟨fun h _ heq => Option.some.inj heq ▸ h, fun h => h scope rfl⟩
  rw [Bool.and_eq_true, hjava, hscope]
  exact ⟨fun ⟨h, h'⟩ => ⟨h, h'⟩, fun ⟨h, h'⟩ => ⟨h, h'⟩⟩

instance (config : Config.Analysis) : DecidablePred (Admits config) := fun _ =>
  decidable_of_iff _ admits_iff

theorem admitted_eq (config : Config.Analysis) (files : List SourceFile) :
    admitted model config files = files.filter fun f => Admits config f := by
  refine List.filter_congr fun f _ => ?_
  rw [Bool.eq_iff_iff, admits_iff, decide_eq_true_iff]

/-! ## The cache -/

/-- No two different texts among these files have the same hash. Files that cannot be read do not
count. -/
def Distinguished (files : List SourceFile) : Prop :=
  ∀ f ∈ files, ∀ g ∈ files, (sourceText f).isOk → (sourceText g).isOk →
    Hash.xxh3 f.content = Hash.xxh3 g.content → f.content = g.content

instance (files : List SourceFile) : Decidable (Distinguished files) :=
  inferInstanceAs (Decidable (∀ f ∈ files, ∀ g ∈ files, _))

/-- Every entry was learned from one of these files, and stands under the hash of it. -/
def ParseCache.Learned (files : List SourceFile) (c : ParseCache) : Prop :=
  ∀ hash p, (hash, p) ∈ c.entries → ∃ f ∈ files, ∃ text, sourceText f = .ok text ∧
    hash = Hash.xxh3 f.content ∧ p = parseText text

namespace ParseCache

variable {files : List SourceFile} {c : ParseCache}

theorem learned_empty (files : List SourceFile) (capacity : Nat) :
    (empty capacity).Learned files := by
  intro hash p hmem
  cases hmem

theorem Learned.retain (h : c.Learned files) (keep : Nat → Bool) :
    (c.retain keep).Learned files := by
  intro hash p hmem
  obtain ⟨⟨entry, i⟩, hentry, heq⟩ := List.mem_map.1 hmem
  have hold : entry ∈ c.entries := List.fst_mem_of_mem_zipIdx (List.mem_filter.1 hentry).1
  obtain rfl : entry = (hash, p) := heq
  exact h hash p hold

theorem Learned.put {f : SourceFile} {text : String} (h : c.Learned files) (hf : f ∈ files)
    (htext : sourceText f = .ok text) :
    (c.put (Hash.xxh3 f.content) (parseText text)).Learned files := by
  intro hash p hmem
  rcases List.mem_append.1 hmem with hold | hnew
  · exact h hash p (List.mem_filter.1 hold).1
  · obtain ⟨rfl, rfl⟩ := Prod.mk.inj (List.mem_singleton.1 hnew)
    exact ⟨f, hf, text, htext, rfl, rfl⟩

theorem mem_of_get? {hash : UInt64} {p : Parsed} (h : c.get? hash = some p) :
    (hash, p) ∈ c.entries := by
  obtain ⟨⟨hash', p'⟩, hfind, rfl⟩ := Option.map_eq_some_iff.1 h
  obtain rfl : hash' = hash := by simpa using List.find?_some hfind
  exact List.mem_of_find?_eq_some hfind

/-- What the cache finds for a file is what the file says. -/
theorem Learned.get? {f : SourceFile} {text : String} {p : Parsed} (h : c.Learned files)
    (hfiles : Distinguished files) (hf : f ∈ files) (htext : sourceText f = .ok text)
    (hget : c.get? (Hash.xxh3 f.content) = some p) : p = parseText text := by
  obtain ⟨g, hg, text', htext', hhash, rfl⟩ := h _ p (mem_of_get? hget)
  have hcontent : f.content = g.content :=
    hfiles f hf g hg (by rw [htext]; rfl) (by rw [htext']; rfl) hhash
  -- the text of a file is determined by its bytes
  have hsame : text = text' := by
    unfold sourceText at htext htext'
    split at htext
    · cases htext
    · split at htext'
      · cases htext'
      · rw [← hcontent] at htext'
        cases hutf : String.fromUTF8? f.content with
        | none =>
          rw [hutf] at htext
          cases htext
        | some s =>
          rw [hutf] at htext htext'
          cases htext
          cases htext'
          rfl
  rw [hsame]

end ParseCache

theorem SharedCache.learned_settle {files : List SourceFile} {c : ParseCache} (s : SharedCache)
    (h : c.Learned files) : (s.settle c).cache.Learned files := by
  unfold settle
  cases s.choices with
  | nil => exact h
  | cons keep choices => exact h.retain keep

/-! ## Workers -/

/-- How far a worker has come with a file is in accord with what the file says. -/
def ParseStage.Reads (f : SourceFile) : ParseStage → Prop
  | .lookUp g => g = f
  | .extract g text => g = f ∧ sourceText f = .ok text
  | .keep g p => g = f ∧ ∃ text, sourceText f = .ok text ∧ p = parseText text

theorem parseFile_of_ok {f : SourceFile} {text : String} (h : sourceText f = .ok text) :
    parseFile f = .ok ((parseText text).facts f.path) := by
  rw [parseFile, h]
  rfl

theorem parseFile_of_error {f : SourceFile} {e : SourceError} (h : sourceText f = .error e) :
    parseFile f = .error e := by
  rw [parseFile, h]
  rfl

/-- A step of a worker keeps the cache as it should be, and a worker returns what its file says. -/
theorem learned_step {files : List SourceFile} {c : ParseCache} {f : SourceFile}
    {stage : ParseStage} (hfiles : Distinguished files) (hf : f ∈ files) (hc : c.Learned files)
    (hstage : stage.Reads f) :
    (parseStep c stage).1.Learned files ∧
      Sum.elim (ParseStage.Reads f) (· = parseFile f) (parseStep c stage).2 := by
  cases stage with
  | lookUp g =>
    obtain rfl : g = f := hstage
    cases htext : sourceText g with
    | error e =>
      simp only [parseStep, htext]
      exact ⟨hc, (parseFile_of_error htext).symm⟩
    | ok text =>
      cases hget : c.get? (Hash.xxh3 g.content) with
      | none =>
        simp only [parseStep, htext, hget]
        exact ⟨hc, rfl, htext⟩
      | some p =>
        -- a hit: the entry may be of another file, but of one with the same text
        obtain rfl := hc.get? hfiles hf htext hget
        simp only [parseStep, htext, hget]
        exact ⟨hc, (parseFile_of_ok htext).symm⟩
  | extract g text => exact ⟨hc, hstage.1, text, hstage.2, rfl⟩
  | keep g p =>
    obtain ⟨rfl, text, htext, rfl⟩ := hstage
    exact ⟨hc.put hf htext, (parseFile_of_ok htext).symm⟩

/-- In every state of a batch of files the cache is as it should be, and so are the results. -/
theorem sound_readAll {known files : List SourceFile} {s : SharedCache}
    (hknown : Distinguished known) (hsub : ∀ f ∈ files, f ∈ known)
    (hs : s.cache.Learned known) (schedule : List PoolAction) :
    Pool.Sound (·.cache.Learned known) ParseStage.Reads (fun f b => b = parseFile f) files
      (readAll files schedule s) := by
  refine Pool.Sound.run_of_step (Pool.sound_init hs) (fun _ hs => hs) (fun f _ => rfl) ?_
  intro f hf s stage hs hstage
  obtain ⟨hcache, hnext⟩ := learned_step hknown (hsub f hf) hs hstage
  exact ⟨s.learned_settle hcache, hnext⟩

/-- Files that are read side by side are read as each of them is read alone. -/
theorem parseFile_of_results {known files : List SourceFile} {s : SharedCache}
    {schedule : List PoolAction} (hknown : Distinguished known) (hsub : ∀ f ∈ files, f ∈ known)
    (hs : s.cache.Learned known) {i : Nat} {f : SourceFile} {r : Except SourceError SourceFacts}
    (hf : files[i]? = some f) (hr : (readAll files schedule s).results[i]? = some (some r)) :
    r = parseFile f := by
  have hmem : (f, some r) ∈ files.zip (readAll files schedule s).results :=
    List.mem_of_getElem? (List.getElem?_zip_eq_some.2 ⟨hf, hr⟩)
  exact (sound_readAll hknown hsub hs schedule).of_mem_zip hmem

/-- Nobody stops the workers, so when they have settled every file has been read. -/
theorem isSome_results {files : List SourceFile} {s : SharedCache} {schedule : List PoolAction}
    (hsettled : (readAll files schedule s).Settled files) :
    ∀ r ∈ (readAll files schedule s).results, r.isSome := by
  have hinit : Pool.Steady parseTask.cancelled files
      (Pool.init s files : Pool SharedCache ParseStage (Except SourceError SourceFacts)) :=
    Pool.steady_init s
  exact Pool.results_of_settled (hinit.run_of_keeps (fun _ h => h) (fun _ _ h => h)) hsettled rfl

/-! ## Units -/

/-- The cache after files were read through it, one batch after the other. -/
def SharedCache.after (s : SharedCache) (batches : List (List SourceFile × List PoolAction)) :
    SharedCache :=
  batches.foldl (fun s batch => (readAll batch.1 batch.2 s).shared) s

theorem SharedCache.learned_after {known : List SourceFile} {s : SharedCache}
    {batches : List (List SourceFile × List PoolAction)} (hknown : Distinguished known)
    (hsub : ∀ batch ∈ batches, ∀ f ∈ batch.1, f ∈ known) (hs : s.cache.Learned known) :
    (s.after batches).cache.Learned known := by
  induction batches generalizing s with
  | nil => exact hs
  | cons batch batches ih =>
    have hbatch := sound_readAll hknown (hsub batch List.mem_cons_self) hs batch.2
    exact ih (fun later hlater => hsub later (List.mem_cons_of_mem _ hlater)) hbatch.shared

/-- The values of results that are all there. -/
theorem mapM_id_eq_some {β : Type} {results : List (Option β)} {values : List β} :
    results.mapM id = some values ↔ results = values.map some := by
  induction results generalizing values with
  | nil => cases values <;> simp
  | cons r results ih =>
    rw [List.mapM_cons]
    cases r with
    | none => cases values <;> simp
    | some b =>
      simp only [id, Option.pure_def, Option.bind_eq_bind, Option.bind_some,
        Option.bind_eq_some_iff, ih]
      cases values with
      | nil => simp
      | cons v values => simp [and_comm, eq_comm]

theorem isSome_mapM_id {β : Type} {results : List (Option β)} (h : ∀ r ∈ results, r.isSome) :
    (results.mapM id).isSome := by
  induction results with
  | nil => rfl
  | cons r results ih =>
    obtain ⟨b, rfl⟩ := Option.isSome_iff_exists.1 (h r List.mem_cons_self)
    obtain ⟨values, hvalues⟩ :=
      Option.isSome_iff_exists.1 (ih fun r hr => h r (List.mem_cons_of_mem _ hr))
    simp [List.mapM_cons, hvalues]

/-- What a unit consists of: `A` are the files that belong to it. -/
structure Loads (A : List SourceFile) (limit : Nat) (outcome : Outcome SourceUnit) : Prop where
  files : outcome.data.files =
    (A.take (min A.length limit)).filterMap fun f => (parseFile f).toOption
  errors : outcome.errors =
    (A.take (min A.length limit)).filterMap fun f => readingError? (parseFile f)
  skipped : outcome.data.skipped = outcome.errors.length
  truncated : outcome.data.truncated = A.length - min A.length limit
  total : outcome.data.files.length + outcome.data.skipped + outcome.data.truncated = A.length

/-- Files that are read one by one without a cache make the unit. -/
theorem loads_load (config : Config.Analysis) (files : List SourceFile) :
    Loads (files.filter fun f => Admits config f) config.maxFiles
      (SourceUnit.load model config files) := by
  have htotal := SourceUnit.length_load model config files
  unfold SourceUnit.load at htotal ⊢
  rw [admitted_eq] at htotal ⊢
  generalize files.filter (fun f => Admits config f) = A at htotal ⊢
  have htake : A.take (min A.length config.maxFiles) = A.take config.maxFiles := by
    rw [Nat.min_comm]
    exact List.take_eq_take_min.symm
  have htruncated : A.length - config.maxFiles = A.length - min A.length config.maxFiles := by
    omega
  refine ⟨?_, ?_, rfl, htruncated, htotal⟩
  · rw [htake]
    exact List.filterMap_map
  · rw [htake]
    exact List.filterMap_map

/-- What a unit that is read through a shared cache gives is what reading its files one by one
gives. -/
theorem loadShared_eq_load {known files others : List SourceFile} {config : Config.Analysis}
    {schedule : List PoolAction} {s : SharedCache} {outcome : Outcome SourceUnit}
    (hknown : Distinguished known) (hsub : ∀ f ∈ unitFiles config files ++ others, f ∈ known)
    (hs : s.cache.Learned known) (h : loadShared config files others schedule s = some outcome) :
    outcome = SourceUnit.load model config files := by
  obtain ⟨values, hvalues, houtcome⟩ := Option.bind_eq_some_iff.1 h
  obtain rfl : _ = outcome := Option.some.inj houtcome
  have hall := mapM_id_eq_some.1 hvalues
  have hsound := sound_readAll hknown hsub hs schedule
  have hlength : values.length = (unitFiles config files).length := by
    have hslots := hsound.length_slots
    rw [List.length_append] at hslots
    have := congrArg List.length hall
    rw [List.length_take, Pool.results, List.length_map, List.length_map] at this
    omega
  -- the unit's own files come first among those that are read
  have hsame : values = (unitFiles config files).map parseFile := by
    refine List.ext_getElem (by simpa using hlength) fun i hi hi' => ?_
    rw [List.getElem_map]
    rw [List.length_map] at hi'
    have hf : (unitFiles config files ++ others)[i]? = some (unitFiles config files)[i] := by
      rw [List.getElem?_append_left hi', List.getElem?_eq_getElem hi']
    have hr : (readAll (unitFiles config files ++ others) schedule s).results[i]? =
        some (some values[i]) := by
      rw [← List.getElem?_take_of_lt hi', hall, List.getElem?_map, List.getElem?_eq_getElem hi]
      rfl
    exact parseFile_of_results hknown hsub hs hf hr
  rw [hsame]
  rfl

/-- A unit is loaded as if its files were read one by one and without a cache, however the workers
take turns, whatever the cache drops, and whatever was read before or is read meanwhile; and it is
loaded when the workers have settled. -/
theorem load_shared_exact (config : Config.Analysis) (files others : List SourceFile)
    (earlier : List (List SourceFile × List PoolAction)) (schedule : List PoolAction)
    (capacity : Nat) (choices : List (Nat → Bool))
    (hdistinct : Distinguished (earlier.flatMap (·.1) ++ unitFiles config files ++ others)) :
    let s := SharedCache.after ⟨.empty capacity, choices⟩ earlier
    let unit := unitFiles config files
    (∀ outcome, loadShared config files others schedule s = some outcome →
      outcome = SourceUnit.load model config files ∧
        Loads (files.filter fun f => Admits config f) config.maxFiles outcome) ∧
    ((readAll (unit ++ others) schedule s).Settled (unit ++ others) →
      (loadShared config files others schedule s).isSome) := by
  intro s unit
  have hs : s.cache.Learned (earlier.flatMap (·.1) ++ unit ++ others) := by
    refine SharedCache.learned_after hdistinct ?_ (ParseCache.learned_empty _ capacity)
    intro batch hbatch f hf
    rw [List.append_assoc]
    exact List.mem_append_left _ (List.mem_flatMap.2 ⟨batch, hbatch, hf⟩)
  constructor
  · intro outcome h
    have hsame : outcome = SourceUnit.load model config files := by
      refine loadShared_eq_load hdistinct ?_ hs h
      intro f hf
      rw [List.append_assoc]
      exact List.mem_append_right _ hf
    exact ⟨hsame, hsame ▸ loads_load config files⟩
  · intro hsettled
    have hall : ∀ r ∈ (readAll (unit ++ others) schedule s).results.take unit.length, r.isSome :=
      fun r hr => isSome_results hsettled r (List.mem_of_mem_take hr)
    obtain ⟨values, hvalues⟩ := Option.isSome_iff_exists.1 (isSome_mapM_id hall)
    rw [loadShared, hvalues]
    rfl

/-- Two files of one text, one that is not UTF-8, one over the limit and two that do not belong. -/
def mixedFiles : List SourceFile :=
  [⟨"com\\example\\A.java", "class A {}".toUTF8⟩, ⟨"README", "class A {}".toUTF8⟩,
    ⟨"com/example/B.java", "class A {}".toUTF8⟩, ⟨"lib/C.java", "class C {}".toUTF8⟩,
    ⟨"com/example/D.java", ⟨#[0xff]⟩⟩, ⟨"com/example/E.java", "class E {}".toUTF8⟩]

/-- The two files of one text are read at the same time, and a third one between them. -/
def mixedTurns : List PoolAction :=
  [.submit, .submit, .start 0, .start 1, .advance 0, .submit, .advance 1, .advance 1, .submit,
    .start 3, .advance 0, .start 2, .advance 1, .advance 2, .advance 3, .advance 0, .advance 3,
    .advance 3]

theorem load_shared_exact_mixed :
    let config : Config.Analysis := ⟨10, 3, "com.example", none⟩
    let other : SourceFile := ⟨"F.java", "class F {}".toUTF8⟩
    let earlier := [([other], [PoolAction.submit, .start 0, .advance 0, .advance 0, .advance 0])]
    let s := SharedCache.after ⟨.empty 1, [fun _ => true, (· = 0), fun _ => false]⟩ earlier
    ∃ outcome, loadShared config mixedFiles [other] mixedTurns s = some outcome ∧
      Loads (mixedFiles.filter fun f => Admits config f) config.maxFiles outcome := by
  intro config other earlier s
  have h := load_shared_exact config mixedFiles [other] earlier mixedTurns 1
    [fun _ => true, (· = 0), fun _ => false] (by decide +kernel)
  obtain ⟨outcome, houtcome⟩ := Option.isSome_iff_exists.1 (h.2 (by decide +kernel))
  exact ⟨outcome, houtcome, (h.1 outcome houtcome).2⟩

end Java

end ChangeImpact
