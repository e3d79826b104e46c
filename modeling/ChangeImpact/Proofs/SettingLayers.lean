import ChangeImpact.Config.Layers

/-!
# Settings from layers

Each setting is taken from the strongest layer that sets it. Only what comes out is checked, so a
value that is not allowed does no harm in a layer that another one covers; a file that is seen to be
there but cannot be read does. A file that cannot be seen is as good as none.

* `Setting` — the nine settings; `Settings.get` — the value of one of them, if it is set;
* `Overrides.get`, `Setting.envName?`, `Setting.read`, `Surroundings.get` — what the caller and the
  environment can set, and how;
* `Surroundings.Holds`, `Surroundings.Unreadable` — what is to be found at a path;
* `Layered`, `load_resolves_layers` — what loading returns;
* `unseen_files_ignored` — a broken file does no harm where nobody can see it.
-/

namespace ChangeImpact.Config

/-! ## Settings by name -/

/-- The settings. -/
inductive Setting where
  | maxDepth
  | maxFiles
  | scope
  | gapSearchDepth
  | branch
  | commits
  | since
  | cacheDir
  | threads
deriving DecidableEq, Repr

namespace Setting

/-- A setting is a text or a number. -/
def Value : Setting → Type
  | .scope | .branch | .since | .cacheDir => String
  | .maxDepth | .maxFiles | .gapSearchDepth | .commits | .threads => Nat

instance : (f : Setting) → DecidableEq f.Value
  | .scope | .branch | .since | .cacheDir => inferInstanceAs (DecidableEq String)
  | .maxDepth | .maxFiles | .gapSearchDepth | .commits | .threads =>
    inferInstanceAs (DecidableEq Nat)

/-- The environment variable of a setting; there is none for the depth of the search for tests. -/
def envName? : Setting → Option String
  | .maxDepth => some "RIPPLE_ANALYSIS_MAX_DEPTH"
  | .maxFiles => some "RIPPLE_ANALYSIS_MAX_FILES"
  | .scope => some "RIPPLE_ANALYSIS_SCOPE"
  | .gapSearchDepth => none
  | .branch => some "RIPPLE_INSPECT_BRANCH"
  | .commits => some "RIPPLE_INSPECT_COMMITS"
  | .since => some "RIPPLE_INSPECT_SINCE"
  | .cacheDir => some "RIPPLE_INSPECT_CACHE_DIR"
  | .threads => some "RIPPLE_INSPECT_THREADS"

/-- What a text says about a setting: every text is a text, but only some are numbers. -/
def read : (f : Setting) → String → Option f.Value
  | .scope, text | .branch, text | .since, text | .cacheDir, text => some text
  | .maxDepth, text | .gapSearchDepth, text => parseNumber? maxWord32 text
  | .maxFiles, text | .commits, text | .threads, text => parseNumber? maxWord64 text

end Setting

/-- The value of a setting, if it is set. -/
def Settings.get (c : Settings) : (f : Setting) → Option f.Value
  | .maxDepth => c.analysis.maxDepth
  | .maxFiles => c.analysis.maxFiles
  | .scope => c.analysis.scope
  | .gapSearchDepth => c.analysis.gapSearchDepth
  | .branch => c.inspect.branch
  | .commits => c.inspect.commits
  | .since => c.inspect.since
  | .cacheDir => c.inspect.cacheDir
  | .threads => c.inspect.threads

/-- What the caller sets: neither the number of files nor the depth of the search for tests. -/
def Overrides.get (o : Overrides) : (f : Setting) → Option f.Value
  | .maxDepth => o.maxDepth
  | .scope => o.scope
  | .branch => o.branch
  | .commits => o.commits
  | .since => o.since
  | .cacheDir => o.cacheDir
  | .threads => o.threads
  | .maxFiles | .gapSearchDepth => none

/-- What the environment sets: a variable that is there and can be read. -/
def Surroundings.get (s : Surroundings) (f : Setting) : Option f.Value :=
  (f.envName?.bind s.valueOf?).bind f.read

/-- The first value that is set. -/
def firstSet {α : Type} : List (Option α) → Option α
  | [] => none
  | some a :: _ => some a
  | none :: rest => firstSet rest

/-- Settings are what they are one by one. -/
theorem Settings.eq_of_get {c d : Settings} (h : ∀ f, c.get f = d.get f) : c = d := by
  obtain ⟨⟨a₁, a₂, a₃, a₄⟩, ⟨i₁, i₂, i₃, i₄, i₅⟩⟩ := c
  obtain ⟨⟨b₁, b₂, b₃, b₄⟩, ⟨j₁, j₂, j₃, j₄, j₅⟩⟩ := d
  obtain rfl : a₁ = b₁ := h .maxDepth
  obtain rfl : a₂ = b₂ := h .maxFiles
  obtain rfl : a₃ = b₃ := h .scope
  obtain rfl : a₄ = b₄ := h .gapSearchDepth
  obtain rfl : i₁ = j₁ := h .branch
  obtain rfl : i₂ = j₂ := h .commits
  obtain rfl : i₃ = j₃ := h .since
  obtain rfl : i₄ = j₄ := h .cacheDir
  obtain rfl : i₅ = j₅ := h .threads
  rfl

/-! ## Layers by name -/

theorem Settings.get_merge (base upper : Settings) (f : Setting) :
    (base.merge upper).get f = (upper.get f).or (base.get f) := by
  cases f <;> rfl

theorem Overrides.get_layer (o : Overrides) (f : Setting) : o.layer.get f = o.get f := by
  cases f <;> rfl

theorem Overrides.get_empty (f : Setting) : ({} : Overrides).get f = none := by
  cases f <;> rfl

/-- The layer of the environment sets what the variables set. -/
theorem Surroundings.get_layer (s : Surroundings) (f : Setting) : s.layer.get f = s.get f := by
  cases f with
  | maxDepth | maxFiles | commits | threads | gapSearchDepth => rfl
  | scope | branch | since | cacheDir => exact (Option.bind_fun_some _).symm

/-- A setting of layers on top of one another is set by the strongest layer that sets it. -/
theorem Settings.get_merged (user project : Settings) (s : Surroundings)
    (overrides : Option Overrides) (f : Setting) :
    (((user.merge project).merge s.layer).merge (overrides.getD {}).layer).get f =
      firstSet [overrides.bind (·.get f), s.get f, project.get f, user.get f] := by
  have hoverrides : (overrides.getD {}).get f = overrides.bind (·.get f) := by
    cases overrides with
    | none => exact Overrides.get_empty f
    | some o => rfl
  rw [get_merge, get_merge, get_merge, Overrides.get_layer, Surroundings.get_layer, hoverrides]
  cases overrides.bind (·.get f) with
  | some v => rfl
  | none =>
    cases s.get f with
    | some v => rfl
    | none =>
      cases project.get f with
      | some v => rfl
      | none => cases user.get f <;> rfl

/-! ## Files -/

namespace Surroundings

variable {s : Surroundings} {path : String}

/-- There is nothing at the path, or nothing that can be seen, or a document with these settings. -/
inductive Holds (s : Surroundings) (path : String) : Settings → Prop where
  | absent (h : s.files path = .absent) : Holds s path {}
  | hidden (h : s.files path = .hidden) : Holds s path {}
  | file {bytes : ByteArray} {text : String} {layer : Settings} (h : s.files path = .file bytes)
    (htext : String.fromUTF8? bytes = some text) (hlayer : Settings.ofToml? text = some layer) :
    Holds s path layer

/-- Something is seen at the path that may not be read or is no document with settings. -/
inductive Unreadable (s : Surroundings) (path : String) : Prop where
  | directory (h : s.files path = .directory)
  | locked (h : s.files path = .locked)
  | noText {bytes : ByteArray} (h : s.files path = .file bytes)
    (htext : String.fromUTF8? bytes = none)
  | noSettings {bytes : ByteArray} {text : String} (h : s.files path = .file bytes)
    (htext : String.fromUTF8? bytes = some text) (hlayer : Settings.ofToml? text = none)

/-- The user's file holds these settings; none are set where there is no user's directory. -/
inductive UserHolds (s : Surroundings) : Settings → Prop where
  | homeless (h : s.userFile? = none) : UserHolds s {}
  | file {path : String} {layer : Settings} (h : s.userFile? = some path)
    (hlayer : s.Holds path layer) : UserHolds s layer

theorem Holds.fileLayer {layer : Settings} (h : s.Holds path layer) :
    s.fileLayer path = .ok layer := by
  unfold Surroundings.fileLayer
  cases h with
  | absent h | hidden h => rw [h]
  | file h htext hlayer =>
    rw [h]
    dsimp only
    rw [htext]
    dsimp only
    rw [Settings.parse, hlayer]

theorem UserHolds.userLayer {layer : Settings} (h : s.UserHolds layer) :
    s.userLayer = .ok layer := by
  unfold Surroundings.userLayer
  cases h with
  | homeless h => rw [h]
  | file h hlayer =>
    rw [h]
    exact hlayer.fileLayer

theorem Unreadable.fileLayer (h : s.Unreadable path) : ∃ e, s.fileLayer path = .error e := by
  unfold Surroundings.fileLayer
  cases h with
  | directory h | locked h =>
    rw [h]
    exact ⟨_, rfl⟩
  | noText h htext =>
    rw [h]
    dsimp only
    rw [htext]
    exact ⟨_, rfl⟩
  | noSettings h htext hlayer =>
    rw [h]
    dsimp only
    rw [htext]
    dsimp only
    rw [Settings.parse, hlayer]
    exact ⟨_, rfl⟩

/-- There is no third. -/
theorem holds_or_unreadable (s : Surroundings) (path : String) :
    (∃ layer, s.Holds path layer) ∨ s.Unreadable path := by
  cases h : s.files path with
  | absent => exact .inl ⟨_, .absent h⟩
  | hidden => exact .inl ⟨_, .hidden h⟩
  | directory => exact .inr (.directory h)
  | locked => exact .inr (.locked h)
  | file bytes =>
    cases htext : String.fromUTF8? bytes with
    | none => exact .inr (.noText h htext)
    | some text =>
      cases hlayer : Settings.ofToml? text with
      | none => exact .inr (.noSettings h htext hlayer)
      | some layer => exact .inl ⟨layer, .file h htext hlayer⟩

end Surroundings

/-! ## Loading -/

/-- What loading returns if both files can be read or are not seen: `merged` has every setting from
the strongest layer that sets it, and it is returned unless it has a fault. -/
structure Layered (root : String) (s : Surroundings) (overrides : Option Overrides)
    (user project merged : Settings) : Prop where
  first_set : ∀ f, merged.get f =
    firstSet [overrides.bind (·.get f), s.get f, project.get f, user.get f]
  loaded : ∀ c, Settings.load root s (overrides.getD {}) = .ok c ↔ merged.fault? = none ∧ c = merged
  refused : ∀ e, Settings.load root s (overrides.getD {}) = .error e ↔ merged.fault? = some e

theorem Settings.checked_ok_iff {c d : Settings} :
    c.checked = .ok d ↔ c.fault? = none ∧ d = c := by
  unfold checked
  cases c.fault? with
  | none => simp [eq_comm]
  | some e => simp

theorem Settings.checked_error_iff {c : Settings} {e : ConfigError} :
    c.checked = .error e ↔ c.fault? = some e := by
  unfold checked
  cases c.fault? <;> simp

/-- The layers are put on top of one another, and the result is checked. -/
theorem layered_of_holds {root : String} {s : Surroundings} {user project : Settings}
    (overrides : Option Overrides) (huser : s.UserHolds user)
    (hproject : s.Holds (projectFile root) project) :
    Layered root s overrides user project
      (((user.merge project).merge s.layer).merge (overrides.getD {}).layer) := by
  have hload : Settings.load root s (overrides.getD {}) =
      (((user.merge project).merge s.layer).merge (overrides.getD {}).layer).checked := by
    unfold Settings.load
    rw [huser.userLayer, hproject.fileLayer]
    rfl
  constructor
  · exact Settings.get_merged user project s overrides
  · intro c
    rw [hload, Settings.checked_ok_iff]
  · intro e
    rw [hload, Settings.checked_error_iff]

/-- Loading fails where a file cannot be read, whatever the other layers say. -/
theorem load_of_unreadable {root path : String} {s : Surroundings} (overrides : Overrides)
    (hpath : s.userFile? = some path ∨ path = projectFile root) (h : s.Unreadable path) :
    ∃ e, Settings.load root s overrides = .error e := by
  obtain ⟨e, he⟩ := h.fileLayer
  unfold Settings.load
  rcases hpath with huser | rfl
  · have hlayer : s.userLayer = .error e := by
      unfold Surroundings.userLayer
      rw [huser]
      exact he
    rw [hlayer]
    exact ⟨e, rfl⟩
  · -- the user's file may fail before
    rw [he]
    cases s.userLayer with
    | error e' => exact ⟨e', rfl⟩
    | ok user => exact ⟨e, rfl⟩

/-- For all files, every environment and whatever the caller overrides: if both files can be read or
are not seen, then the settings are those of the strongest layers, and they are returned exactly if
they have no fault; and if one of the files is seen and cannot be read, nothing else matters. For
every file it is one or the other. -/
theorem load_resolves_layers (root : String) (s : Surroundings) (overrides : Option Overrides) :
    (∀ user project, s.UserHolds user → s.Holds (projectFile root) project →
      ∃ merged, Layered root s overrides user project merged) ∧
    (∀ path, s.userFile? = some path ∨ path = projectFile root → s.Unreadable path →
      ∃ e, Settings.load root s (overrides.getD {}) = .error e) ∧
    ∀ path, (∃ layer, s.Holds path layer) ∨ s.Unreadable path := by
  refine ⟨?_, ?_, s.holds_or_unreadable⟩
  · intro user project huser hproject
    exact ⟨_, layered_of_holds overrides huser hproject⟩
  · intro path hpath hunreadable
    exact load_of_unreadable (overrides.getD {}) hpath hunreadable

theorem fromUTF8?_toUTF8 (text : String) : String.fromUTF8? text.toUTF8 = some text :=
  dif_pos text.isValidUTF8

/-- The user's file sets a depth that is not allowed, -/
def userText : String := "[analysis]\nmax_depth = 0\nscope = 'com.acme'\n"

/-- and so does the project's file. -/
def projectText : String :=
  "[analysis]\nmax_depth = 2000\n[inspect]\ncommits = 20\nbranch = 'main'\n"

/-- The depth in the environment is no number. -/
def coveredFaults : Surroundings where
  environment := [("HOME", "/home/dev"), ("RIPPLE_ANALYSIS_MAX_DEPTH", "deep"),
    ("RIPPLE_INSPECT_COMMITS", "+30")]
  files path :=
    if path = "/home/dev/.ripple/config.toml" then .file userText.toUTF8
    else if path = "/work/ripple.toml" then .file projectText.toUTF8
    else .absent

/-- The caller sets another depth, and nothing is wrong. -/
theorem load_resolves_layers_covered :
    ∃ c, Settings.load "/work" coveredFaults { maxDepth := some 5 } = .ok c ∧
      c.get .maxDepth = some (5 : Nat) ∧ c.get .scope = some "com.acme" ∧
      c.get .commits = some (30 : Nat) ∧ c.get .branch = some "main" ∧ c.get .threads = none := by
  have huser : coveredFaults.UserHolds ⟨⟨some 0, none, some "com.acme", none⟩, {}⟩ := by
    have hpath : coveredFaults.userFile? = some "/home/dev/.ripple/config.toml" := by decide +kernel
    exact .file hpath (.file rfl (fromUTF8?_toUTF8 userText) (by decide +kernel))
  have hproject : coveredFaults.Holds (projectFile "/work")
      ⟨⟨some 2000, none, none, none⟩, ⟨some "main", some 20, none, none, none⟩⟩ := by
    have hpath : projectFile "/work" = "/work/ripple.toml" := by decide +kernel
    rw [hpath]
    exact .file rfl (fromUTF8?_toUTF8 projectText) (by decide +kernel)
  obtain ⟨merged, hlayered⟩ := (load_resolves_layers "/work" coveredFaults
    (some { maxDepth := some 5 })).1 _ _ huser hproject
  have hmerged : merged = ⟨⟨some 5, none, some "com.acme", none⟩,
      ⟨some "main", some 30, none, none, none⟩⟩ := by
    refine Settings.eq_of_get fun f => ?_
    rw [hlayered.first_set]
    cases f <;> decide +kernel
  subst hmerged
  exact ⟨_, (hlayered.loaded _).2 ⟨rfl, rfl⟩, rfl, rfl, rfl, rfl, rfl⟩

/-! ## Files that nobody can see -/

/-- A heading that is not closed. -/
def brokenText : String := "[analysis\nmax_depth = 3\n"

/-- The user's file is broken. -/
def brokenUser (environment : List (String × String)) : Surroundings where
  environment := environment
  files path :=
    if path = "/home/dev/.ripple/config.toml" then .file brokenText.toUTF8 else .absent

/-- The project's file is in a directory that may not be searched. -/
def unsearchable : Surroundings where
  environment := []
  files path := if path = "/work/ripple.toml" then .hidden else .absent

/-- A file that is there and cannot be read need not make loading fail. The user's file is not
looked for where no variable names the user's directory, and a file that cannot be asked for counts
as missing. -/
theorem unseen_files_ignored :
    (brokenUser []).Unreadable "/home/dev/.ripple/config.toml" ∧
      (∃ e, Settings.load "/work" (brokenUser [("HOME", "/home/dev")]) {} = .error e) ∧
      Settings.load "/work" (brokenUser []) {} = .ok {} ∧
    unsearchable.files (projectFile "/work") = .hidden ∧
      Settings.load "/work" unsearchable {} = .ok {} := by
  have hbroken (environment : List (String × String)) :
      (brokenUser environment).Unreadable "/home/dev/.ripple/config.toml" :=
    .noSettings rfl (fromUTF8?_toUTF8 brokenText) (by decide +kernel)
  have hproject : projectFile "/work" = "/work/ripple.toml" := by decide +kernel
  have hempty {s : Surroundings} (huser : s.userFile? = none) (hlayer : s.layer = {})
      (hfile : s.Holds (projectFile "/work") {}) : Settings.load "/work" s {} = .ok {} := by
    refine ((layered_of_holds none (.homeless huser) hfile).loaded {}).2 ?_
    rw [hlayer]
    exact ⟨rfl, rfl⟩
  refine ⟨hbroken [], ?_, ?_, ?_, ?_⟩
  · have hpath : (brokenUser [("HOME", "/home/dev")]).userFile? =
        some "/home/dev/.ripple/config.toml" := by decide +kernel
    exact load_of_unreadable {} (.inl hpath) (hbroken _)
  · exact hempty rfl rfl (.absent (by rw [hproject]; rfl))
  · rw [hproject]
    rfl
  · exact hempty rfl rfl (.hidden (by rw [hproject]; rfl))

end ChangeImpact.Config
