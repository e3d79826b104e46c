import ChangeImpact.CommitCache
import ChangeImpact.Proofs.JsonStrings

/-!
# The header of a cached document

A document is written with the fingerprint and the commit in front of what is kept about the commit.
Whatever the latter is, a reader that accepts the bytes finds the same fingerprint and commit in
them: the two stand first, and a repeated field is refused.

* `Machine.Holds` — the outermost object starts with given members, finished or not;
* `Fields.add_keeps` — fields that are given stay as they are;
* `CommitCache.header_of_parse` — a document names the fingerprint and the commit it was written
  under.
-/

namespace ChangeImpact

namespace Json

/-! ## The outermost object -/

/-- The outermost object is still open and starts with the given members, or it is finished and
nothing may follow. -/
inductive Machine.Holds (first : List (StringBody × Raw)) (m : Machine) : Prop where
  | open (frames : List Frame) (more : List (StringBody × Raw)) (name : StringBody)
    (hstack : m.stack = frames ++ [.obj (more ++ first.reverse) name]) (hroot : m.root = none)
  | done (more : List (StringBody × Raw)) (hstack : m.stack = []) (hexpect : m.expect = .after)
    (hroot : m.root = some (.obj (first ++ more)))

variable {first : List (StringBody × Raw)}

/-- A value inside of the outermost object is put into the innermost frame. -/
theorem Machine.holds_finish {m : Machine} {frames : List Frame}
    {more : List (StringBody × Raw)} {name : StringBody} (v : Raw)
    (hstack : m.stack = frames ++ [.obj (more ++ first.reverse) name]) (hroot : m.root = none) :
    (m.finish v).Holds first := by
  rcases frames with _ | ⟨frame, frames⟩
  · rw [List.nil_append] at hstack
    refine .open [] ((name, v) :: more) name ?_ ?_ <;> simp [finish, hstack, hroot]
  · cases frame with
    | arr items =>
      refine .open (.arr (v :: items) :: frames) more name ?_ ?_ <;> simp [finish, hstack, hroot]
    | obj members inner =>
      refine .open (.obj ((inner, v) :: members) inner :: frames) more name ?_ ?_ <;>
        simp [finish, hstack, hroot]

theorem Machine.holds_begin {m m' : Machine} {t : Token} {frames : List Frame}
    {more : List (StringBody × Raw)} {name : StringBody}
    (hstack : m.stack = frames ++ [.obj (more ++ first.reverse) name]) (hroot : m.root = none)
    (hbegin : m.begin t = some m') : m'.Holds first := by
  cases t with
  | null | bool | num | str =>
    obtain rfl := Option.some.inj hbegin
    exact holds_finish _ hstack hroot
  | openBracket =>
    obtain rfl := Option.some.inj hbegin
    exact .open (.arr [] :: frames) more name (by simp [hstack]) hroot
  | openBrace =>
    obtain rfl := Option.some.inj hbegin
    exact .open (.obj [] ⟨[]⟩ :: frames) more name (by simp [hstack]) hroot
  | closeBrace | closeBracket | colon | comma => simp [begin] at hbegin

/-- Closing the innermost frame finishes the outermost object, or keeps its members. -/
theorem Machine.holds_close {m : Machine} {frame : Frame} {rest frames : List Frame}
    {more : List (StringBody × Raw)} {name : StringBody} {v : Raw}
    (hstack : m.stack = frames ++ [.obj (more ++ first.reverse) name]) (hroot : m.root = none)
    (htop : m.stack = frame :: rest)
    (hv : ∀ members inner, frame = .obj members inner → v = .obj members.reverse) :
    ({ m with stack := rest }.finish v).Holds first := by
  rw [htop] at hstack
  rcases frames with _ | ⟨top, frames⟩
  · obtain ⟨hframe, hrest⟩ := List.cons.inj hstack
    refine .done more.reverse ?_ ?_ ?_ <;> simp [finish, hrest, hv _ _ hframe]
  · obtain ⟨-, hrest⟩ := List.cons.inj hstack
    exact holds_finish v (by simpa using hrest) hroot

/-- Reading a name keeps the members. -/
theorem Machine.holds_name {m : Machine} {rest frames : List Frame} {e : Expect}
    {more members : List (StringBody × Raw)} {name inner s : StringBody}
    (hstack : m.stack = frames ++ [.obj (more ++ first.reverse) name]) (hroot : m.root = none)
    (htop : m.stack = .obj members inner :: rest) :
    Machine.Holds first { m with stack := .obj members s :: rest, expect := e } := by
  rw [htop] at hstack
  rcases frames with _ | ⟨top, frames⟩
  · obtain ⟨hframe, hrest⟩ := List.cons.inj hstack
    obtain ⟨hmembers, -⟩ := Frame.obj.inj hframe
    exact .open [] more s (by simp [hmembers, hrest]) hroot
  · obtain ⟨-, hrest⟩ := List.cons.inj hstack
    exact .open (.obj members s :: frames) more name (by simp [hrest]) hroot

/-- No token takes the first members away. -/
theorem Machine.Holds.step {m m' : Machine} {t : Token} (h : m.Holds first)
    (hstep : m.step t = some m') : m'.Holds first := by
  cases h with
  | done more hstack hexpect hroot =>
    unfold Machine.step at hstep
    split at hstep <;> simp_all
  | «open» frames more name hstack hroot =>
    unfold Machine.step at hstep
    split at hstep
    case h_1 | h_2 | h_8 | h_9 =>
      -- the end of an array or object
      rename_i htop
      obtain rfl := Option.some.inj hstep
      exact holds_close hstack hroot htop (by simp)
    case h_3 | h_4 =>
      -- a name
      rename_i htop
      obtain rfl := Option.some.inj hstep
      exact holds_name hstack hroot htop
    case h_5 | h_6 | h_7 =>
      -- a colon or a comma
      obtain rfl := Option.some.inj hstep
      exact .open frames more name hstack hroot
    case h_10 | h_11 => exact holds_begin hstack hroot hstep
    case h_12 => simp at hstep

theorem Machine.Holds.run {m m' : Machine} {ts : List Token} (h : m.Holds first)
    (hrun : ts.foldlM Machine.step m = some m') : m'.Holds first := by
  induction ts generalizing m with
  | nil =>
    obtain rfl := Option.some.inj hrun
    exact h
  | cons t ts ih =>
    obtain ⟨next, hnext, hrest⟩ := Option.bind_eq_some_iff.1 hrun
    exact ih (h.step hnext) hrest

/-! ## Fields -/

theorem Fields.add_keeps {names : List String} {fields fields' : Fields}
    {member : StringBody × Raw} (h : fields.add names member = some fields') :
    fields <+: fields' := by
  obtain ⟨name, -, h⟩ := Option.bind_eq_some_iff.1 h
  split at h
  · obtain rfl := Option.some.inj h
    exact List.prefix_refl _
  · split at h
    · simp at h
    · obtain rfl := Option.some.inj h
      exact List.prefix_append _ _

/-- Members that follow leave the fields that were given before. -/
theorem Fields.addAll_keeps {names : List String} {fields fields' : Fields}
    {members : List (StringBody × Raw)}
    (h : members.foldlM (Fields.add names) fields = some fields') : fields <+: fields' := by
  induction members generalizing fields with
  | nil =>
    obtain rfl := Option.some.inj h
    exact List.prefix_refl _
  | cons member members ih =>
    obtain ⟨next, hnext, hrest⟩ := Option.bind_eq_some_iff.1 h
    exact (Fields.add_keeps hnext).trans (ih hrest)

theorem lookup_keeps {fields fields' : Fields} {name : String} {raw : Raw}
    (h : fields <+: fields') (hlookup : fields.lookup name = some raw) :
    fields'.lookup name = some raw := by
  obtain ⟨more, rfl⟩ := h
  rw [List.lookup_append, hlookup]
  rfl

end Json

namespace CommitCache

open Json

variable {α : Type} {d : Json.Decoder α} {c : CommitCache} {commit : String} {impact : Json}

/-! ## The header -/

/-- The members that stand first in a document. -/
def header (c : CommitCache) (commit : String) : List (StringBody × Raw) :=
  [(⟨body "fingerprint"⟩, .str ⟨body (fingerprintText c.fingerprint)⟩),
    (⟨body "commit"⟩, .str ⟨body commit⟩)]

/-- A member's name on a line of its own, up to the value. -/
def memberStart (name : String) : String :=
  newLine 1 ++ quote name ++ ": "

theorem scans_memberStart {name : String} {rest : List Char} {ts : List Token}
    (h : Scans (spelled (memberStart name).toList ++ rest) ts) :
    ∃ us, ts = .str ⟨body name⟩ :: .colon :: us ∧ Scans rest us := by
  have hline : spelled (newLine 1).toList = ['\n', ' ', ' '] := by decide
  have hcolon : spelled (": ").toList = [':', ' '] := by decide
  simp only [memberStart, String.toList_append, spelled_append, hline, hcolon,
    List.append_assoc] at h
  have hblank : ∀ c ∈ ['\n', ' ', ' '], isSpace c = true := by simp [isSpace]
  have hquote := Scans.skipAll hblank h
  obtain ⟨us, rfl, hus⟩ := hquote.takeQuote
  obtain ⟨vs, rfl, hvs⟩ := hus.takeColon
  exact ⟨vs, rfl, hvs.skip (by decide)⟩

/-- What follows the header in the text of a document. -/
def headless (impact : Json) : String :=
  memberStart "impact" ++ prettyAt 1 impact ++ newLine 0 ++ "\x7d" ++ "\n"

theorem text_document (fingerprint commit : String) (impact : Json) :
    (Json.obj [("fingerprint", .str fingerprint), ("commit", .str commit),
      ("impact", impact)]).pretty ++ "\n" =
    "\x7b" ++ memberStart "fingerprint" ++ quote fingerprint ++ "," ++ memberStart "commit" ++
      quote commit ++ "," ++ headless impact := by
  simp only [pretty, prettyAt, prettyMembers, memberStart, headless, String.append_assoc]

/-- The tokens of a document start with those of its header. -/
theorem tokens_documentBytes {ts : List Token}
    (h : Token.scan? (bytesAsChars (c.documentBytes commit impact)) = some ts) :
    ∃ us, ts = [.openBrace, .str ⟨body "fingerprint"⟩, .colon,
      .str ⟨body (fingerprintText c.fingerprint)⟩, .comma, .str ⟨body "commit"⟩, .colon,
      .str ⟨body commit⟩, .comma] ++ us := by
  have hscans := scans_of_scan h
  have hbrace : spelled ("\x7b").toList = ['\x7b'] := by decide
  have hcomma : spelled (",").toList = [','] := by decide
  rw [documentBytes, text_document, bytesAsChars_toUTF8] at hscans
  simp only [String.toList_append, spelled_append, hbrace, hcomma, List.append_assoc,
    List.singleton_append] at hscans
  obtain ⟨_, h1, hscans⟩ := hscans.takeBrace
  obtain ⟨_, h2, hscans⟩ := scans_memberStart hscans
  obtain ⟨_, h3, hscans⟩ := hscans.takeQuote
  obtain ⟨_, h4, hscans⟩ := hscans.takeComma
  obtain ⟨_, h5, hscans⟩ := scans_memberStart hscans
  obtain ⟨_, h6, hscans⟩ := hscans.takeQuote
  obtain ⟨us, h7, -⟩ := hscans.takeComma
  exact ⟨us, by rw [h1, h2, h3, h4, h5, h6, h7]; rfl⟩

/-- The tree of a document is an object that starts with the header. -/
theorem raw_documentBytes {raw : Raw}
    (h : Raw.parse? (c.documentBytes commit impact) = some raw) :
    ∃ more, raw = .obj (c.header commit ++ more) := by
  simp only [Raw.parse?, Raw.ofTokens?, Option.bind_eq_bind, Option.bind_eq_some_iff] at h
  obtain ⟨ts, hts, m, hm, hroot⟩ := h
  obtain ⟨us, rfl⟩ := tokens_documentBytes hts
  rw [List.foldlM_append, Option.bind_eq_bind, Option.bind_eq_some_iff] at hm
  obtain ⟨start, hstart, hrest⟩ := hm
  have hholds : start.Holds (c.header commit) := by
    obtain rfl := Option.some.inj hstart
    exact .open [] [] ⟨body "commit"⟩ rfl rfl
  cases hholds.run hrest with
  | «open» frames more name hstack _ => simp [hstack] at hroot
  | done more hstack _ hdone =>
    rw [hstack, hdone] at hroot
    exact ⟨more, (Option.some.inj hroot).symm⟩

/-- The fields of a header. -/
def headerFields (c : CommitCache) (commit : String) : Fields :=
  [("fingerprint", .str ⟨body (fingerprintText c.fingerprint)⟩), ("commit", .str ⟨body commit⟩)]

theorem addAll_header : (c.header commit).foldlM
    (Fields.add ["fingerprint", "commit", "impact"]) [] = some (c.headerFields commit) := by
  simp [header, headerFields, Fields.add, decode_body]

/-- The fields of a document start with those of its header. -/
theorem fields_header {depth : Nat} {more : List (StringBody × Raw)} {fields : Fields}
    (h : Raw.fields? ["fingerprint", "commit", "impact"] depth
      (.obj (c.header commit ++ more)) = some fields) : c.headerFields commit <+: fields := by
  simp only [Raw.fields?] at h
  split at h
  · simp at h
  · rw [List.foldlM_append, addAll_header] at h
    exact Fields.addAll_keeps h

/-- A document that can be read names the fingerprint and the commit it was written under. -/
theorem header_of_parse {doc : Document α}
    (h : Document.parse? d (c.documentBytes commit impact) = some doc) :
    doc.fingerprint = fingerprintText c.fingerprint ∧ doc.commit = commit := by
  simp only [Document.parse?, Document.decode, Option.bind_eq_bind, Option.bind_eq_some_iff] at h
  obtain ⟨raw, hraw, fields, hfields, fingerprint, hfingerprint, named, hnamed, value, -, hdoc⟩ := h
  obtain ⟨more, rfl⟩ := raw_documentBytes hraw
  obtain rfl := Option.some.inj hdoc
  have hheader := fields_header hfields
  have hfirst : fields.lookup "fingerprint" = some (.str ⟨body (fingerprintText c.fingerprint)⟩) :=
    lookup_keeps hheader rfl
  have hsecond : fields.lookup "commit" = some (.str ⟨body commit⟩) := lookup_keeps hheader rfl
  rw [Fields.need, hfirst] at hfingerprint
  rw [Fields.need, hsecond] at hnamed
  have htext (s : String) (depth : Nat) : Decoder.text depth (.str ⟨body s⟩) = some s :=
    decode_body s
  rw [Option.bind_some, htext] at hfingerprint hnamed
  exact ⟨(Option.some.inj hfingerprint).symm, (Option.some.inj hnamed).symm⟩

end CommitCache

end ChangeImpact
