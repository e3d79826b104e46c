import ChangeImpact.Time.Timestamp
import Mathlib.Data.Nat.Digits.Defs

/-!
# Points in time and their texts

A whole second of a year of four digits is read back from its text. The day of the text is found by
arithmetic on the number of the day, so this also says that this arithmetic is right.

* `InEra`, `FromMarch` — a day by the year that starts in March, in eras of 400 years;
* `Date.dayNumber_ofDayNumber`, `Date.ofParts_ofDayNumber` — a number is that of its day, which is a
  day of the calendar;
* `Date.scanNumber_padded` — numbers of a fixed width are read back;
* `Instant.parse_text` — and so are points in time.
-/

namespace ChangeImpact.Date

/-! ## Days of an era -/

/-- The year of an era that a day lies in. -/
def yearOfEra (dayOfEra : Int) : Int :=
  (dayOfEra - dayOfEra / 1460 + dayOfEra / 36524 - dayOfEra / 146096) / 365

/-- The number of a day in its year. -/
def dayOfYear (dayOfEra : Int) : Int :=
  let y := yearOfEra dayOfEra
  dayOfEra - (365 * y + y / 4 - y / 100)

/-- A day of century `b` and of the `k`th four years of it. The divisor 1460 leaves a day too many
at the end of four years; it falls into the fourth year. -/
theorem yearOfEra_parts {b k s : Int} (hb : 0 ≤ b ∧ b ≤ 3) (hk : 0 ≤ k ∧ k ≤ 24)
    (hs : 0 ≤ s ∧ s ≤ 1460) (hlast : k = 24 → s ≤ 1459) :
    ∃ i, 0 ≤ i ∧ i ≤ 3 ∧ yearOfEra (36524 * b + 1461 * k + s) = 100 * b + 4 * k + i ∧
      365 * i ≤ s ∧ s ≤ 365 * i + 365 ∧ (s = 365 * i + 365 → i = 3) := by
  obtain ⟨e, he, hlate, hquarter⟩ : ∃ e, (e = 0 ∨ e = 1) ∧ (e = 1 → 1364 ≤ s) ∧
      (36524 * b + 1461 * k + s) / 1460 = 25 * b + k + e := by
    by_cases h : 24 * b + k + s < 1460
    · exact ⟨0, by omega, by omega, by omega⟩
    · exact ⟨1, by omega, by omega, by omega⟩
  have hcentury : (36524 * b + 1461 * k + s) / 36524 = b := by omega
  have hera : (36524 * b + 1461 * k + s) / 146096 = 0 := by omega
  refine ⟨(s - e) / 365, by omega, by omega, ?_, by omega, by omega, by omega⟩
  rw [yearOfEra, hquarter, hcentury, hera]
  omega

/-- Year and day of a day of an era. A 366th day, which is the 29th of February, is a day of a leap
year. -/
structure InEra (year day : Int) : Prop where
  year_min : 0 ≤ year
  year_max : year ≤ 399
  day_min : 0 ≤ day
  day_max : day ≤ 365
  leap : day = 365 → (year + 1) % 4 = 0 ∧ ((year + 1) % 100 ≠ 0 ∨ year = 399)

theorem inEra {d : Int} (hmin : 0 ≤ d) (hmax : d ≤ 146096) :
    InEra (yearOfEra d) (dayOfYear d) := by
  by_cases hlast : d = 146096
  · -- the leap day at the end of the era is a day of no century
    subst hlast
    constructor <;> decide
  · have hsplit : d = 36524 * (d / 36524) + 1461 * (d % 36524 / 1461) + d % 36524 % 1461 := by omega
    generalize hb : d / 36524 = b at hsplit
    generalize hk : d % 36524 / 1461 = k at hsplit
    generalize hs : d % 36524 % 1461 = s at hsplit
    have hbounds : (0 ≤ b ∧ b ≤ 3) ∧ (0 ≤ k ∧ k ≤ 24) ∧ (0 ≤ s ∧ s ≤ 1460) ∧
        (k = 24 → s ≤ 1459) := by
      omega
    obtain ⟨hb', hk', hs', hlate⟩ := hbounds
    obtain ⟨i, hi, hi', hyear, hday, hday', hleap⟩ := yearOfEra_parts hb' hk' hs' hlate
    rw [← hsplit] at hyear
    have hquarter : (100 * b + 4 * k + i) / 4 = 25 * b + k := by omega
    have hcentury : (100 * b + 4 * k + i) / 100 = b := by omega
    have hdayOfYear : dayOfYear d = s - 365 * i := by
      rw [dayOfYear, hyear, hquarter, hcentury]
      omega
    rw [hyear, hdayOfYear]
    clear hb hk hs hdayOfYear hyear hsplit hmin hmax hlast
    constructor <;> omega

/-! ## Days of the calendar -/

/-- A day and its number, by the year that starts in March: it is day `r` of year `y` of the era and
lies in month `m`. -/
structure FromMarch (n era y r m : Int) (d : Date) : Prop where
  inEra : InEra y r
  month_min : 0 ≤ m
  month_max : m ≤ 11
  start : 153 * m ≤ 5 * r + 2
  next : 5 * r + 2 < 153 * m + 153
  year_eq : d.year = y + era * 400 + if m < 10 then 0 else 1
  month_eq : (d.month : Int) = if m < 10 then m + 3 else m - 9
  day_eq : (d.day : Int) = r - (153 * m + 2) / 5 + 1
  number_eq : n = era * 146097 + (365 * y + y / 4 - y / 100 + r) - 719468

theorem fromMarch_ofDayNumber (n : Int) : ∃ era y r m, FromMarch n era y r m (ofDayNumber n) := by
  generalize hz : n + 719468 = z
  generalize hy : yearOfEra (z % 146097) = y
  generalize hr : dayOfYear (z % 146097) = r
  generalize hm : (5 * r + 2) / 153 = m
  have hera : InEra y r := by
    subst hy hr
    exact inEra (by omega) (by omega)
  have hmonth : 0 ≤ m ∧ m ≤ 11 ∧ (153 * m + 2) / 5 ≤ r := by
    have := hera.day_min
    have := hera.day_max
    omega
  have hsum : z % 146097 = 365 * y + y / 4 - y / 100 + r := by
    rw [← hr, dayOfYear, hy]
    omega
  have hparts : ofDayNumber n = ⟨y + z / 146097 * 400 +
      (if (if m < 10 then m + 3 else m - 9) ≤ 2 then 1 else 0),
      (if m < 10 then m + 3 else m - 9).toNat, (r - (153 * m + 2) / 5 + 1).toNat⟩ := by
    subst hm hr hy hz
    rfl
  refine ⟨z / 146097, y, r, m, hera, hmonth.1, hmonth.2.1, by omega, by omega, ?_, ?_, ?_, by omega⟩
  · rw [hparts]
    dsimp only
    split <;> split <;> omega
  · rw [hparts]
    dsimp only
    split <;> omega
  · rw [hparts]
    dsimp only
    omega

theorem dayNumber_ofDayNumber (n : Int) : (ofDayNumber n).dayNumber = n := by
  obtain ⟨era, y, r, m, h⟩ := fromMarch_ofDayNumber n
  generalize ofDayNumber n = d at h
  obtain ⟨year, month, day⟩ := d
  obtain ⟨hera, hmin, hmax, -, -, hyear, hmonth, hday, hnumber⟩ := h
  have hfirst := hera.year_min
  have hlast := hera.year_max
  dsimp only at hyear hmonth hday
  have hmarch : (if month ≤ 2 then year - 1 else year) = y + era * 400 := by
    rw [hyear]
    split <;> split <;> split at hmonth <;> omega
  have hback : ((month : Int) + 9) % 12 = m := by
    split at hmonth <;> omega
  have hera : (y + era * 400) / 400 = era := by omega
  have hyearOfEra : (y + era * 400) % 400 = y := by omega
  simp only [dayNumber, hmarch, hback, hera, hyearOfEra, hday]
  omega

/-- The day is one of its month. -/
theorem FromMarch.day_le {n era y r m : Int} {d : Date} (h : FromMarch n era y r m d) :
    d.day ≤ daysInMonth d.year d.month := by
  obtain ⟨year, month, day⟩ := d
  obtain ⟨hera, hmin, hmax, hstart, hnext, hyear, hmonth, hday, -⟩ := h
  obtain ⟨-, -, -, hlast, hleap⟩ := hera
  dsimp only at hyear hmonth hday ⊢
  by_cases hfebruary : m = 11
  · subst hfebruary
    obtain rfl : month = 2 := by omega
    have hyear' : year = y + era * 400 + 1 := hyear
    rw [daysInMonth, if_pos rfl]
    split
    · omega
    · next hno =>
      -- a year that is no leap year has no 366th day
      have : r ≠ 365 := by
        intro hr
        obtain ⟨hfour, hcentury⟩ := hleap hr
        refine hno ?_
        simp only [isLeap, Bool.and_eq_true, Bool.or_eq_true, beq_iff_eq, bne_iff_ne]
        omega
      omega
  · have hmonth' : month ≠ 2 := by split at hmonth <;> omega
    rw [daysInMonth, if_neg hmonth']
    split
    · next hshort =>
      -- April, June, September and November
      have hm : m = 1 ∨ m = 3 ∨ m = 6 ∨ m = 8 := by split at hmonth <;> omega
      rcases hm with rfl | rfl | rfl | rfl <;> omega
    · omega

/-- A number is that of a day that there is. -/
theorem ofParts_ofDayNumber {n : Int} {d : Date} (hd : ofDayNumber n = d)
    (hyear : minYear ≤ d.year ∧ d.year ≤ maxYear) : ofParts? d.year d.month d.day = some d := by
  obtain ⟨era, y, r, m, h⟩ := fromMarch_ofDayNumber n
  rw [hd] at h
  have hday := h.day_le
  obtain ⟨-, hmin, hmax, hstart, -, -, hmonth, hfirst, -⟩ := h
  have hmonths : 1 ≤ d.month ∧ d.month ≤ 12 := by split at hmonth <;> omega
  exact if_pos ⟨hyear.1, hyear.2, hmonths.1, hmonths.2, by omega, hday⟩

/-! ## Digits -/

/-- Digits, all of which are to be read. -/
theorem scanDigits_digits {ds : List Char} {acc : Nat} (rest : List Char)
    (hdigits : ∀ c ∈ ds, c.isDigit = true) (hmax : Nat.ofDigitChars 10 ds acc ≤ maxNumber) :
    scanDigits (some ds.length) acc (ds ++ rest) = .ok (Nat.ofDigitChars 10 ds acc, rest) := by
  induction ds generalizing acc with
  | nil =>
    cases rest with
    | nil => rfl
    | cons c cs =>
      rw [List.nil_append, List.length_nil, scanDigits, if_pos (.inl rfl)]
      rfl
  | cons c ds ih =>
    have hc := hdigits c List.mem_cons_self
    rw [Nat.ofDigitChars_cons, Nat.mul_comm] at hmax ⊢
    have hle : acc * 10 + (c.toNat - '0'.toNat) ≤
        Nat.ofDigitChars 10 ds (acc * 10 + (c.toNat - '0'.toNat)) := by
      have hpow : 0 < 10 ^ ds.length := Nat.pow_pos (by decide)
      rw [Nat.ofDigitChars_eq_ofDigitChars_zero]
      exact Nat.le_add_right_of_le (Nat.le_mul_of_pos_left _ hpow)
    rw [List.cons_append, List.length_cons, scanDigits, if_neg (by simp [hc])]
    dsimp only
    rw [if_neg (by omega)]
    exact ih (fun d hd => hdigits d (List.mem_cons_of_mem _ hd)) hmax

/-- A number in a fixed number of digits. -/
theorem padded_digits {width n : Nat} (hwidth : 0 < width) (hn : n < 10 ^ width) :
    (padded width n).toList.length = width ∧ (∀ c ∈ (padded width n).toList, c.isDigit = true) ∧
      Nat.ofDigitChars 10 (padded width n).toList 0 = n := by
  have hdigits : (toString n).toList = Nat.toDigits 10 n := by simp
  have hlength : (Nat.toDigits 10 n).length ≤ width := Nat.toDigits_length 10 n width hwidth hn
  rw [padded, hdigits, String.toList_ofList]
  refine ⟨?_, ?_, ?_⟩
  · rw [List.length_append, List.length_replicate]
    omega
  · intro c hc
    rcases List.mem_append.1 hc with hzero | hdigit
    · rw [List.eq_of_mem_replicate hzero]
      decide
    · exact Nat.isDigit_of_mem_toDigits (by decide) (by decide) hdigit
  · rw [Nat.ofDigitChars_append, Nat.ofDigitChars_replicate_zero, Nat.mul_zero,
      Nat.ofDigitChars_ten_toDigits]

/-- Such a number starts with a digit. -/
theorem padded_cons {width n : Nat} (hwidth : 0 < width) (hn : n < 10 ^ width) :
    ∃ c cs, (padded width n).toList = c :: cs ∧ c.isDigit = true := by
  obtain ⟨hlength, hdigits, -⟩ := padded_digits hwidth hn
  have hne : (padded width n).toList ≠ [] := by
    intro h
    rw [h, List.length_nil] at hlength
    omega
  obtain ⟨c, cs, hcs⟩ := List.exists_cons_of_ne_nil hne
  exact ⟨c, cs, hcs, hdigits c (hcs ▸ List.mem_cons_self)⟩

theorem scanNumber_padded {width n : Nat} (rest : List Char) (hwidth : 0 < width)
    (hn : n < 10 ^ width) (hmax : n ≤ maxNumber) :
    scanNumber (some width) ((padded width n).toList ++ rest) = .ok (n, rest) := by
  obtain ⟨hlength, hdigits, hvalue⟩ := padded_digits hwidth hn
  obtain ⟨c, cs, hcs, hc⟩ := padded_cons hwidth hn
  have hscan : scanDigits (some _) 0 _ = _ := scanDigits_digits rest hdigits (by rwa [hvalue])
  rw [hvalue, hlength, hcs, List.cons_append] at hscan
  rw [hcs, List.cons_append, scanNumber, if_pos hc, hscan]

/-- No blanks stand in front of such a number. -/
theorem dropWhile_padded {width n : Nat} (rest : List Char) (hwidth : 0 < width)
    (hn : n < 10 ^ width) : ((padded width n).toList ++ rest).dropWhile Text.isBlank =
      (padded width n).toList ++ rest := by
  obtain ⟨c, cs, hcs, hc⟩ := padded_cons hwidth hn
  rw [hcs, List.cons_append, List.dropWhile_cons_of_neg (by simp [Text.isBlank_of_isDigit hc])]

theorem scanYear_padded {n : Nat} (rest : List Char) (hn : n ≤ 9999) :
    scanYear ((padded 4 n).toList ++ rest) = .ok ((n : Int), rest) := by
  have hwidth : n < 10 ^ 4 := by omega
  have hscan := scanNumber_padded rest (by decide) hwidth (by unfold maxNumber; omega)
  have hblank := dropWhile_padded rest (by decide) hwidth
  obtain ⟨c, cs, hcs, hc⟩ := padded_cons (by decide) hwidth
  have hrange : -2147483648 ≤ (n : Int) ∧ (n : Int) ≤ 2147483647 := by omega
  rw [scanYear, hblank]
  rw [hcs, List.cons_append] at hscan ⊢
  -- the number has no sign
  split
  · next heq =>
    obtain ⟨rfl, -⟩ := List.cons.inj heq
    simp at hc
  · next heq =>
    obtain ⟨rfl, -⟩ := List.cons.inj heq
    simp at hc
  · simp only [hscan, bind, Except.bind, pure, Except.pure, if_pos hrange]

end ChangeImpact.Date

namespace ChangeImpact.Instant

open Date

theorem scanUnit_padded {n limit : Nat} (rest : List Char) (hn : n ≤ limit) (hlimit : limit < 100) :
    scanUnit limit ((padded 2 n).toList ++ rest) = some (n, rest) := by
  have hwidth : n < 10 ^ 2 := by omega
  have hscan := scanNumber_padded rest (by decide) hwidth (by unfold maxNumber; omega)
  rw [scanUnit, skipBlanks, dropWhile_padded rest (by decide) hwidth, hscan]
  exact if_pos hn

theorem scanMark_self {mark : Char} (rest : List Char) (h : Text.isBlank mark = false) :
    scanMark mark (mark :: rest) = some rest := by
  rw [scanMark, skipBlanks, List.dropWhile_cons_of_neg (by simp [h])]
  exact if_pos rfl

/-- A day of a year of four digits is read back. -/
theorem scanDay_text {d : Date} (rest : List Char) (hyear : 0 ≤ d.year ∧ d.year ≤ 9999)
    (hday : ofParts? d.year d.month d.day = some d) :
    scanDay (d.text.toList ++ rest) = some (d, rest) := by
  have hparts : 1 ≤ d.month ∧ d.month ≤ 12 ∧ 1 ≤ d.day ∧ d.day ≤ daysInMonth d.year d.month := by
    unfold ofParts? at hday
    split at hday
    · next h => exact h.2.2
    · cases hday
  have hlength : daysInMonth d.year d.month ≤ 31 := by
    unfold daysInMonth
    split
    · split <;> omega
    · split <;> omega
  have hyear' : ((d.year.toNat : Nat) : Int) = d.year := Int.toNat_of_nonneg hyear.1
  have htext : d.text.toList ++ rest = (padded 4 d.year.toNat).toList ++
      '-' :: ((padded 2 d.month).toList ++ '-' :: ((padded 2 d.day).toList ++ rest)) := by
    simp [Date.text, yearText, if_pos hyear]
  rw [htext, scanDay, scanYear_padded _ (by omega)]
  simp only [Except.toOption, Option.bind_eq_bind, Option.bind_some]
  rw [scanMark_self _ (by decide), Option.bind_some, scanUnit_padded _ hparts.2.1 (by decide),
    Option.bind_some, scanMark_self _ (by decide), Option.bind_some,
    scanUnit_padded _ (by omega : d.day ≤ 31) (by decide), Option.bind_some, hyear', hday]
  rfl

/-- A time of the day is read back. -/
theorem scanTime_text {hour minute second : Nat} (rest : List Char) (hhour : hour ≤ 23)
    (hminute : minute ≤ 59) (hsecond : second ≤ 59) :
    scanTime ((padded 2 hour).toList ++ ':' :: ((padded 2 minute).toList ++
      ':' :: ((padded 2 second).toList ++ 'Z' :: rest))) =
      some ((hour * 3600 + minute * 60 + second, 0), 'Z' :: rest) := by
  have hleap : ¬second = 60 := by omega
  rw [scanTime, scanUnit_padded _ hhour (by decide)]
  simp only [Option.bind_eq_bind, Option.bind_some]
  rw [scanMark_self _ (by decide), Option.bind_some, scanUnit_padded _ hminute (by decide),
    Option.bind_some, scanMark_self _ (by decide), Option.bind_some,
    scanUnit_padded _ (by omega : second ≤ 60) (by decide), Option.bind_some]
  simp [scanFraction, if_neg hleap]

/-- The days of the years of four digits. -/
theorem dayNumber_bounds {n : Int} (h : 0 ≤ (ofDayNumber n).year ∧ (ofDayNumber n).year ≤ 9999) :
    -1000000 ≤ n ∧ n ≤ 4000000 := by
  obtain ⟨era, y, r, m, hparts⟩ := fromMarch_ofDayNumber n
  obtain ⟨⟨hy, hy', hr, hr', -⟩, -, -, -, -, hyear, -, -, hnumber⟩ := hparts
  rw [hyear] at h
  split at h <;> omega

/-- A whole second of a year of four digits is read back from its text. -/
theorem parse_text {t : Instant} (hwhole : t.nanos = 0)
    (hyear : 0 ≤ t.date.year ∧ t.date.year ≤ 9999) : parse? t.text = some t := by
  obtain ⟨seconds, nanos⟩ := t
  obtain rfl : nanos = 0 := hwhole
  generalize hdate : date ⟨seconds, 0⟩ = d at hyear
  have hdate' : ofDayNumber (seconds / 86400) = d := hdate
  have hbounds := dayNumber_bounds (hdate' ▸ hyear)
  have hday : ofParts? d.year d.month d.day = some d := by
    refine ofParts_ofDayNumber hdate' ?_
    unfold minYear maxYear
    omega
  have hnumber : d.dayNumber = seconds / 86400 := hdate' ▸ dayNumber_ofDayNumber _
  -- the time of the day
  generalize hsecond : (seconds % 86400).toNat = second
  have hsecond' : (second : Int) = seconds % 86400 := by omega
  have htext : (text ⟨seconds, 0⟩).toList = d.text.toList ++ 'T' ::
      ((padded 2 (second / 3600)).toList ++ ':' :: ((padded 2 (second / 60 % 60)).toList ++
        ':' :: ((padded 2 (second % 60)).toList ++ ['Z']))) := by
    simp [text, hdate, hsecond, fractionText]
  have hoffset : scanOffset (skipBlanks ['Z']) = some (0, []) := by decide
  have hback : d.dayNumber * 86400 +
      ((second / 3600 * 3600 + second / 60 % 60 * 60 + second % 60 : Nat) : Int) - 0 = seconds := by
    rw [hnumber]
    omega
  have hrange : ofSeconds? seconds = some ⟨seconds, 0⟩ := by
    refine if_pos ?_
    unfold minSeconds maxSeconds
    omega
  rw [parse?, htext, scanDay_text _ hyear hday]
  simp only [Option.bind_eq_bind, Option.bind_some]
  rw [if_pos (.inl trivial), scanTime_text _ (by omega) (by omega) (by omega), Option.bind_some]
  dsimp only
  rw [hoffset, Option.bind_some]
  dsimp only
  rw [hback, hrange]
  rfl

end ChangeImpact.Instant
