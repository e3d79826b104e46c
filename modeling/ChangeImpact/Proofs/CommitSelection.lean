import ChangeImpact.Proofs.InstantTexts
import ChangeImpact.Repository.History
import Mathlib.Data.List.TakeWhile

/-!
# The commits that a filter selects

A walk over commits ends at the first one that is too old, or when it has enough. Whether a commit
is too old is asked of the day it was committed on; here it is said about seconds. That the two
agree rests on the order of the calendar being that of the numbers of its days.

* `Date.IsDay` — a day that there is; `Date.isBefore_iff` — the order of days;
* `Instant.isBefore_date_iff` — the instants before a day are those before its midnight;
* `CommitFilter.Admits` — the commits that are not too old; `CommitFilter.cut` — at most so many;
* `CommitFilter.selectFrom_eq` — the walk takes the admitted commits in front;
* `Repository.listFrom_eq` — so does the walk over a repository;
* `commits_selected` — from the newest to the oldest, these are all that are admitted.
-/

namespace ChangeImpact

/-! ## The order of days -/

namespace Date

variable {d e : Date}

/-- A day of the calendar. -/
structure IsDay (d : Date) : Prop where
  month_min : 1 ≤ d.month
  month_max : d.month ≤ 12
  day_min : 1 ≤ d.day
  day_max : d.day ≤ daysInMonth d.year d.month

/-- The year of a day, where years start in March. -/
def marchYear (d : Date) : Int := if d.month ≤ 2 then d.year - 1 else d.year

/-- The month in such a year, March having 0. -/
def marchMonth (d : Date) : Int := (d.month + 9) % 12

/-- The days of such a year before a month. -/
def daysBeforeMonth (m : Int) : Int := (153 * m + 2) / 5

/-- The days before the first of March of a year, counted from the year 0. -/
def daysBeforeYear (y : Int) : Int := 365 * y + y / 4 - y / 100 + y / 400

theorem dayNumber_eq (d : Date) : d.dayNumber =
    daysBeforeYear d.marchYear + (daysBeforeMonth d.marchMonth + d.day - 1) - 719468 := by
  have hera : ∀ y : Int, y / 400 * 146097 + y % 400 * 365 + y % 400 / 4 - y % 400 / 100 =
      daysBeforeYear y := by
    intro y
    unfold daysBeforeYear
    omega
  rw [← hera]
  rfl

theorem daysBeforeYear_step (y : Int) : daysBeforeYear y + 365 ≤ daysBeforeYear (y + 1) := by
  unfold daysBeforeYear
  omega

/-- The year that ends with February of a leap year has a day more. -/
theorem daysBeforeYear_leap {y : Int} (h : isLeap (y + 1) = true) :
    daysBeforeYear y + 366 ≤ daysBeforeYear (y + 1) := by
  simp only [isLeap, Bool.and_eq_true, Bool.or_eq_true, beq_iff_eq, bne_iff_ne] at h
  unfold daysBeforeYear
  omega

theorem daysBeforeYear_mono {y z : Int} (h : y ≤ z) : daysBeforeYear y ≤ daysBeforeYear z := by
  refine monotone_int_of_le_succ ?_ h
  intro n
  have hstep := daysBeforeYear_step n
  omega

/-- A day comes before the next month. -/
theorem IsDay.before_nextMonth (h : d.IsDay) (hm : d.marchMonth < 11) :
    daysBeforeMonth d.marchMonth + d.day ≤ daysBeforeMonth (d.marchMonth + 1) := by
  rcases d with ⟨year, month, day⟩
  rcases h with ⟨hmin, hmax, -, hday⟩
  unfold marchMonth at hm ⊢
  dsimp only at hmin hmax hday hm ⊢
  rw [daysInMonth, if_neg (by omega)] at hday
  unfold daysBeforeMonth
  split at hday
  · omega
  · next hlong =>
    have hmonth : month = 1 ∨ month = 3 ∨ month = 5 ∨ month = 7 ∨ month = 8 ∨ month = 10 ∨
        month = 12 := by
      omega
    rcases hmonth with rfl | rfl | rfl | rfl | rfl | rfl | rfl <;> omega

/-- A day comes before the next year. -/
theorem IsDay.before_nextYear (h : d.IsDay) :
    daysBeforeYear d.marchYear + (daysBeforeMonth d.marchMonth + d.day - 1) <
      daysBeforeYear (d.marchYear + 1) := by
  have hstep := daysBeforeYear_step d.marchYear
  by_cases hm : d.marchMonth < 11
  · have hnext := h.before_nextMonth hm
    unfold daysBeforeMonth at hnext ⊢
    omega
  · -- February, which has 29 days in a leap year only
    rcases h with ⟨hmin, hmax, -, hday⟩
    unfold marchMonth at hm
    have hmonth : d.month = 2 := by omega
    have hyear : d.marchYear = d.year - 1 := by
      rw [marchYear, hmonth]
      rfl
    have hbefore : daysBeforeMonth d.marchMonth = 337 := by
      rw [marchMonth, hmonth]
      rfl
    rw [hmonth, daysInMonth, if_pos rfl] at hday
    rw [hbefore]
    split at hday
    · next hleap =>
      have hlong : daysBeforeYear d.marchYear + 366 ≤ daysBeforeYear (d.marchYear + 1) := by
        refine daysBeforeYear_leap ?_
        rwa [hyear, Int.sub_add_cancel]
      omega
    · omega

theorem isBefore_iff_parts : d.isBefore e = true ↔
    d.year < e.year ∨ d.year = e.year ∧
      (d.month < e.month ∨ d.month = e.month ∧ d.day < e.day) := by
  rw [isBefore, beq_iff_eq]
  show (compare d.year e.year).then ((compare d.month e.month).then (compare d.day e.day)) = .lt ↔ _
  rw [Ordering.then_eq_lt, Ordering.then_eq_lt, Int.compare_eq_lt, Int.compare_eq_eq,
    Nat.compare_eq_lt, Nat.compare_eq_eq, Nat.compare_eq_lt]

/-- The same by the year that starts in March. -/
theorem isBefore_iff_march (hd : d.IsDay) (he : e.IsDay) : d.isBefore e = true ↔
    d.marchYear < e.marchYear ∨ d.marchYear = e.marchYear ∧
      (d.marchMonth < e.marchMonth ∨ d.marchMonth = e.marchMonth ∧ d.day < e.day) := by
  rw [isBefore_iff_parts]
  rcases hd with ⟨hdmin, hdmax, -, -⟩
  rcases he with ⟨hemin, hemax, -, -⟩
  unfold marchYear marchMonth
  split <;> split <;> omega

theorem dayNumber_lt_of_isBefore (hd : d.IsDay) (he : e.IsDay) (h : d.isBefore e = true) :
    d.dayNumber < e.dayNumber := by
  rw [dayNumber_eq, dayNumber_eq]
  have hfirst := he.day_min
  rcases (isBefore_iff_march hd he).1 h with hyear | ⟨hyear, hmonth | ⟨hmonth, hday⟩⟩
  · have hnext := hd.before_nextYear
    have hmono := daysBeforeYear_mono (Int.add_one_le_of_lt hyear)
    have hstart : 0 ≤ daysBeforeMonth e.marchMonth := by
      unfold daysBeforeMonth marchMonth
      omega
    omega
  · have hlast : e.marchMonth ≤ 11 := by
      unfold marchMonth
      omega
    have hnext := hd.before_nextMonth (by omega)
    rw [hyear]
    unfold daysBeforeMonth at hnext ⊢
    omega
  · rw [hyear, hmonth]
    omega

/-- The calendar orders days by their numbers. -/
theorem isBefore_iff (hd : d.IsDay) (he : e.IsDay) :
    d.isBefore e = true ↔ d.dayNumber < e.dayNumber := by
  refine ⟨dayNumber_lt_of_isBefore hd he, ?_⟩
  intro hlt
  by_contra hnot
  have hcases : e.isBefore d = true ∨ d = e := by
    rw [isBefore_iff_parts] at hnot ⊢
    rcases d with ⟨dy, dm, dd⟩
    rcases e with ⟨ey, em, ed⟩
    simp only [Date.mk.injEq] at hnot ⊢
    omega
  rcases hcases with hafter | rfl
  · have hgt := dayNumber_lt_of_isBefore he hd hafter
    omega
  · omega

example : dayNumber ⟨1970, 1, 1⟩ = 0 ∧ dayNumber ⟨1969, 12, 31⟩ = -1 := by decide

/-- The day of a number is a day. -/
theorem isDay_ofDayNumber (n : Int) : (ofDayNumber n).IsDay := by
  rcases fromMarch_ofDayNumber n with ⟨era, y, r, m, h⟩
  have hday := h.day_le
  rcases h with ⟨-, hmin, hmax, hstart, -, -, hmonth, hfirst, -⟩
  split at hmonth
  · exact ⟨by omega, by omega, by omega, hday⟩
  · exact ⟨by omega, by omega, by omega, hday⟩

/-- The second in which a day starts. -/
def midnight (d : Date) : Int := d.dayNumber * 86400

end Date

/-- The instants on earlier days are those before midnight. Seconds before 1970 belong to the day
that they are in, as their number is rounded down. -/
theorem Instant.isBefore_date_iff {t : Instant} {d : Date} (hd : d.IsDay) :
    t.date.isBefore d = true ↔ t.seconds < d.midnight := by
  rw [Instant.date, Date.isBefore_iff (Date.isDay_ofDayNumber _) hd, Date.dayNumber_ofDayNumber,
    Date.midnight]
  omega

/-! ## Filters -/

namespace CommitFilter

variable {f : CommitFilter}

/-- A commit is not too old: it was committed when the day of the filter had started. -/
def Admits (f : CommitFilter) (c : Commit) : Prop :=
  ∀ day ∈ f.since, day.midnight ≤ c.committedAt.seconds

instance (f : CommitFilter) : DecidablePred f.Admits := fun c =>
  inferInstanceAs (Decidable (∀ day ∈ f.since, day.midnight ≤ c.committedAt.seconds))

/-- At most as many as the filter allows. -/
def cut (f : CommitFilter) (cs : List Commit) : List Commit :=
  match f.maxCount with
  | some n => cs.take n
  | none => cs

/-- The day of the filter, if it has one, is a day of the calendar. -/
def IsDated (f : CommitFilter) : Prop := ∀ day ∈ f.since, day.IsDay

theorem stopsAt_iff (hf : f.IsDated) (taken : Nat) (c : Commit) :
    f.stopsAt taken c.committedAt = true ↔ (∃ n ∈ f.maxCount, n ≤ taken) ∨ ¬f.Admits c := by
  rcases f with ⟨maxCount, since⟩
  have holder : since.any c.committedAt.date.isBefore = true ↔ ¬Admits ⟨maxCount, since⟩ c := by
    cases since with
    | none => simp [Admits]
    | some day =>
      have hday : day.IsDay := hf day rfl
      simp [Admits, Instant.isBefore_date_iff hday]
  rw [stopsAt, Bool.or_eq_true, holder]
  simp [Option.any_eq_true]

/-- The walk takes the admitted commits in front, as many as are still to be taken. -/
theorem selectFrom_eq (hf : f.IsDated) (taken : Nat) (cs : List Commit) :
    f.selectFrom taken cs =
      match f.maxCount with
      | some n => (cs.takeWhile (f.Admits ·)).take (n - taken)
      | none => cs.takeWhile (f.Admits ·) := by
  induction cs generalizing taken with
  | nil => cases f.maxCount <;> simp [selectFrom]
  | cons c cs ih =>
    have hstops := stopsAt_iff hf taken c
    rw [selectFrom, ih]
    by_cases hc : f.Admits c
    · rw [List.takeWhile_cons_of_pos (by simpa using hc)]
      cases hmax : f.maxCount with
      | none => simp [hstops, hmax, hc]
      | some n =>
        by_cases hn : n ≤ taken
        · simp [hstops, hmax, hn]
        · obtain ⟨k, hk⟩ : ∃ k, n - taken = k + 1 := ⟨n - taken - 1, by omega⟩
          have hrest : n - (taken + 1) = k := by omega
          simp [hstops, hmax, hc, hn, hk, hrest]
    · rw [List.takeWhile_cons_of_neg (by simpa using hc)]
      cases f.maxCount <;> simp [hstops, hc]

theorem select_eq (f : CommitFilter) (hf : f.IsDated) (cs : List Commit) :
    f.select cs = f.cut (cs.takeWhile (f.Admits ·)) :=
  selectFrom_eq hf 0 cs

end CommitFilter

/-! ## Commits in front -/

section Front

variable {p : Commit → Prop} {cs front : List Commit}

/-- The longest part in front of a list in which all commits have a property. -/
structure IsLongestFront (p : Commit → Prop) (front cs : List Commit) : Prop where
  starts : front <+: cs
  all : ∀ c ∈ front, p c
  longest : ∀ other, other <+: cs → (∀ c ∈ other, p c) → other <+: front

theorem isLongestFront_takeWhile [DecidablePred p] (cs : List Commit) :
    IsLongestFront p (cs.takeWhile (p ·)) cs := by
  refine ⟨List.takeWhile_prefix _, ?_, ?_⟩
  · intro c hc
    simpa using List.mem_takeWhile_imp hc
  · rintro other ⟨rest, rfl⟩ hall
    rw [List.takeWhile_append_of_pos (by simpa using hall)]
    exact List.prefix_append _ _

/-- The newest commits come first. -/
def NewestFirst (cs : List Commit) : Prop :=
  cs.Pairwise fun c d => d.committedAt.seconds ≤ c.committedAt.seconds

/-- If one that lacks the property is followed by others that lack it, those in front are all. -/
theorem takeWhile_eq_filter [DecidablePred p] (h : cs.Pairwise fun c d => p d → p c) :
    cs.takeWhile (p ·) = cs.filter (p ·) := by
  induction cs with
  | nil => rfl
  | cons c cs ih =>
    rcases List.pairwise_cons.1 h with ⟨hfirst, hrest⟩
    by_cases hc : p c
    · rw [List.takeWhile_cons_of_pos (by simpa using hc),
        List.filter_cons_of_pos (by simpa using hc), ih hrest]
    · have hnone : cs.filter (p ·) = [] := by
        rw [List.filter_eq_nil_iff]
        intro d hd hp
        exact hc (hfirst d hd (by simpa using hp))
      rw [List.takeWhile_cons_of_neg (by simpa using hc),
        List.filter_cons_of_neg (by simpa using hc), hnone]

theorem NewestFirst.takeWhile_admits (h : NewestFirst cs) (f : CommitFilter) :
    cs.takeWhile (f.Admits ·) = cs.filter (f.Admits ·) := by
  refine takeWhile_eq_filter (h.imp ?_)
  intro c d hle hd day hday
  exact Int.le_trans (hd day hday) hle

end Front

/-! ## Repositories -/

/-- The walk over a repository selects among the commits that it looks up. -/
theorem Repository.listFrom_eq {r : Repository} {ids : List String} {stored : List Stored}
    (hfound : ids.mapM r.find? = some stored) (f : CommitFilter) (taken : Nat) :
    r.listFrom f taken ids = .ok (f.selectFrom taken (stored.map (·.commit))) := by
  induction ids generalizing stored taken with
  | nil =>
    cases hfound
    rfl
  | cons id ids ih =>
    rw [List.mapM_cons] at hfound
    rcases Option.bind_eq_some_iff.1 hfound with ⟨c, hc, hrest⟩
    rcases Option.bind_eq_some_iff.1 hrest with ⟨rest, hids, heq⟩
    cases heq
    rw [listFrom, hc, List.map_cons, CommitFilter.selectFrom]
    dsimp only
    split
    · rfl
    · rw [ih hids]
      rfl

/-! ## Selections -/

/-- What a filter selects. -/
structure Selects (f : CommitFilter) : Prop where
  /-- Of commits from the newest to the oldest, the first that are not too old. -/
  newest : ∀ cs, NewestFirst cs → f.select cs = f.cut (cs.filter (f.Admits ·))
  /-- Of commits in any order, those before the first that is too old. -/
  front : ∀ cs, ∃ front, IsLongestFront f.Admits front cs ∧ f.select cs = f.cut front
  /-- Nothing but the times of commitment matters. -/
  others : ∀ (g : Commit → Commit), (∀ c, (g c).committedAt = c.committedAt) →
    ∀ cs, f.select (cs.map g) = (f.select cs).map g
  /-- Of a repository, what the walk from a commit looks up is selected from. -/
  listed : ∀ (r : Repository) head id c stored, Repository.idOf? head = some id →
    r.find? id = some c → (r.walk c.commit).mapM r.find? = some stored →
    r.list head f = .ok (f.select (stored.map (·.commit)))

theorem CommitFilter.selectFrom_map {g : Commit → Commit}
    (hg : ∀ c, (g c).committedAt = c.committedAt) (f : CommitFilter) (taken : Nat)
    (cs : List Commit) : f.selectFrom taken (cs.map g) = (f.selectFrom taken cs).map g := by
  induction cs generalizing taken with
  | nil => rfl
  | cons c cs ih =>
    rw [List.map_cons, selectFrom, selectFrom, hg, ih]
    split <;> rfl

/-- The selected commits are the first of those that were committed on the day of the filter or
later. -/
theorem commits_selected (f : CommitFilter) (hf : f.IsDated) : Selects f where
  newest cs hcs := by
    rw [f.select_eq hf, hcs.takeWhile_admits]
  front cs := ⟨cs.takeWhile (f.Admits ·), isLongestFront_takeWhile cs, f.select_eq hf cs⟩
  others g hg cs := f.selectFrom_map hg 0 cs
  listed r head id c stored hid hc hstored := by
    rw [Repository.list, hid]
    dsimp only
    rw [hc]
    exact Repository.listFrom_eq hstored f 0

/-- A commit in the first second of the last day before 1970, written long before. -/
def atMidnight : Commit :=
  { id := "2000000000000000000000000000000000000000"
    parents := ["1000000000000000000000000000000000000000"]
    message := ""
    author := ⟨"", ""⟩
    timestamp := .ofSeconds (-999999999)
    committedAt := .ofSeconds (-86400) }

/-- Its parent, a second older. -/
def beforeMidnight : Commit :=
  { atMidnight with
    id := "1000000000000000000000000000000000000000"
    parents := []
    timestamp := .ofSeconds 0
    committedAt := .ofSeconds (-86401) }

/-- At most three commits, from the last day before 1970 on. -/
def fromLastDay : CommitFilter := ⟨some 3, some ⟨1969, 12, 31⟩⟩

theorem commits_selected_fromLastDay :
    fromLastDay.IsDated ∧ Selects fromLastDay ∧ NewestFirst [atMidnight, beforeMidnight] ∧
      fromLastDay.select [atMidnight, beforeMidnight] = [atMidnight] ∧
      Repository.list ⟨[⟨beforeMidnight, []⟩, ⟨atMidnight, []⟩], [], []⟩ "2" fromLastDay =
        .ok [atMidnight] := by
  have hdated : fromLastDay.IsDated := by
    intro day hday
    cases hday
    exact ⟨by decide, by decide, by decide, by decide⟩
  have hselects := commits_selected fromLastDay hdated
  have horder : NewestFirst [atMidnight, beforeMidnight] := by
    unfold NewestFirst
    decide
  have hselect : fromLastDay.select [atMidnight, beforeMidnight] = [atMidnight] := by
    rw [hselects.newest _ horder]
    decide
  refine ⟨hdated, hselects, horder, hselect, ?_⟩
  rw [hselects.listed ⟨[⟨beforeMidnight, []⟩, ⟨atMidnight, []⟩], [], []⟩ "2" atMidnight.id
    ⟨atMidnight, []⟩ [⟨atMidnight, []⟩, ⟨beforeMidnight, []⟩] (by decide +kernel)
    (by decide +kernel) (by decide +kernel)]
  exact congrArg _ hselect

end ChangeImpact
