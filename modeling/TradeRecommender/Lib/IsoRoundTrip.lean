import Mathlib.Data.String.Basic
import Mathlib.Tactic.Common
import Mathlib.Tactic.IntervalCases
import Mathlib.Tactic.Linarith
import TradeRecommender.Lib.IsoFormat

/-!
# Reading an instant back

`fromisoformat` reads what `isoformat` writes of any instant a `datetime` represents.

1. numbers of a fixed width;
2. the calendar: days to dates and back;
3. the text of an instant, and its parts read back.
-/

namespace Civil

open Py

/-! ## Numbers of a fixed width -/

/-- The last `width` decimal digits of a number. -/
def fixed : ℕ → ℕ → List Char
  | 0, _ => []
  | width + 1, n => fixed width (n / 10) ++ [Nat.digitChar (n % 10)]

@[simp] theorem length_fixed (width n : ℕ) : (fixed width n).length = width := by
  induction width generalizing n with
  | zero => rfl
  | succ width ih => rw [fixed, List.length_append, ih, List.length_singleton]

theorem fixed_zero (width : ℕ) : fixed width 0 = List.replicate width '0' := by
  induction width with
  | zero => rfl
  | succ width ih =>
    rw [fixed, Nat.zero_div, ih, List.replicate_succ']
    rfl

/-- Padding with zeros gives a fixed width to the numbers that fit. -/
theorem toList_pad {width n : ℕ} (fits : n < 10 ^ width) (wide : 0 < width) :
    (pad width n).toList = fixed width n := by
  have padded : ∀ {width n : ℕ}, n < 10 ^ width → 0 < width →
      List.replicate (width - (Nat.toDigits 10 n).length) '0' ++ Nat.toDigits 10 n =
        fixed width n := by
    intro width
    induction width with
    | zero => exact fun _ h => absurd h (by decide)
    | succ width ih =>
      intro n fits _
      rw [fixed]
      by_cases small : n < 10
      · rw [Nat.toDigits_of_lt_base small, Nat.div_eq_of_lt small, fixed_zero,
          Nat.mod_eq_of_lt small]
        rfl
      · have wide : 0 < width := by
          rcases Nat.eq_zero_or_pos width with rfl | h
          · simp at fits
            omega
          · exact h
        have shorter : n / 10 < 10 ^ width := by
          rw [pow_succ] at fits
          omega
        rw [Nat.toDigits_of_base_le (by decide) (by omega), ← ih shorter wide,
          List.length_append, List.length_singleton, Nat.add_sub_add_right, List.append_assoc]
  have shown : (toString (n : ℤ)).toList = Nat.toDigits 10 n := Nat.toList_repr
  have measured : (toString (n : ℤ)).length = (Nat.toDigits 10 n).length := by
    rw [← String.length_toList, shown]
  simp only [pad, String.toList_append, String.toList_ofList, shown, measured]
  exact padded fits wide

theorem isDigit_of_mem_fixed {width n : ℕ} {c : Char} (h : c ∈ fixed width n) : c.isDigit := by
  induction width generalizing n with
  | zero => cases h
  | succ width ih =>
    rcases List.mem_append.mp h with h | h
    · exact ih h
    · rw [List.mem_singleton.mp h]
      simp [Nat.mod_lt]

/-- `digits` reads the number a fixed width stands for. -/
theorem digits_fixed {width n : ℕ} (fits : n < 10 ^ width) (rest : List Char) :
    digits width (fixed width n ++ rest) = .ok ((n : ℤ), rest) := by
  have value : ∀ {width n : ℕ}, n < 10 ^ width →
      (fixed width n).foldl (fun (v : ℤ) c => 10 * v + (c.toNat - '0'.toNat : ℕ)) 0 = n := by
    intro width
    induction width with
    | zero =>
      intro n fits
      simp at fits
      simp [fixed, fits]
    | succ width ih =>
      intro n fits
      have shorter : n / 10 < 10 ^ width := by
        rw [pow_succ] at fits
        omega
      have last : (Nat.digitChar (n % 10)).toNat - '0'.toNat = n % 10 :=
        Nat.toNat_digitChar_sub_48_of_lt_ten (Nat.mod_lt _ (by decide))
      rw [fixed, List.foldl_append, ih shorter]
      show 10 * ((n / 10 : ℕ) : ℤ) + ((Nat.digitChar (n % 10)).toNat - '0'.toNat : ℕ) = n
      rw [last]
      omega
  have front : (fixed width n ++ rest).take width = fixed width n :=
    List.take_left' (length_fixed width n)
  have back : (fixed width n ++ rest).drop width = rest := List.drop_left' (length_fixed width n)
  rw [digits, front, back, value fits]
  refine if_pos ⟨length_fixed width n, List.all_eq_true.mpr fun c h => isDigit_of_mem_fixed h⟩

/-- Texts of one width compare as their numbers. -/
theorem fixed_append_lt {width m n : ℕ} (hm : m < 10 ^ width) (hn : n < 10 ^ width) (less : m < n)
    (xs ys : List Char) : fixed width m ++ xs < fixed width n ++ ys := by
  induction width generalizing m n xs ys with
  | zero =>
    simp at hm hn
    omega
  | succ width ih =>
    rw [pow_succ] at hm hn
    rw [fixed, fixed, List.append_assoc, List.append_assoc]
    by_cases h : m / 10 < n / 10
    · exact ih (by omega) (by omega) h _ _
    · have same : m / 10 = n / 10 := by omega
      have last : m % 10 < n % 10 := by omega
      rw [same]
      refine List.append_left_lt (List.Lex.rel ?_)
      have bound : n % 10 < 10 := Nat.mod_lt _ (by decide)
      generalize m % 10 = i at last
      generalize n % 10 = j at last bound
      interval_cases j <;> interval_cases i <;> decide

/-! ## The calendar -/

/-- A day of an era, and its year from March: the day of the year, the 366th only before a leap
February's end. -/
theorem dayOfYear_bounds {e y : ℤ} (low : 0 ≤ e) (high : e < 146097)
    (hy : (e - e / 1460 + e / 36524 - e / 146096) / 365 = y) :
    0 ≤ y ∧ y ≤ 399 ∧ 0 ≤ e - (365 * y + y / 4 - y / 100) ∧
      e - (365 * y + y / 4 - y / 100) ≤ 365 ∧
      (e - (365 * y + y / 4 - y / 100) = 365 →
        (y + 1) % 4 = 0 ∧ ((y + 1) % 100 = 0 → (y + 1) % 400 = 0)) := by
  by_cases last : e = 146096
  · subst last
    omega
  have l : e / 146096 = 0 := by omega
  have c : e / 36524 = 0 ∨ e / 36524 = 1 ∨ e / 36524 = 2 ∨ e / 36524 = 3 := by omega
  rw [l] at hy
  rcases c with h | h | h | h <;> rw [h] at hy
  · have century : y / 100 = 0 := by omega
    rw [century]
    refine ⟨by omega, by omega, by omega, by omega, fun long => ?_⟩
    have later : 1460 * (y / 4 + 1) ≤ e := by omega
    have quarter : y % 4 = 3 := by omega
    omega
  · have century : y / 100 = 1 := by omega
    rw [century]
    refine ⟨by omega, by omega, by omega, by omega, fun long => ?_⟩
    have later : 1460 * (y / 4 + 1) ≤ e := by omega
    have quarter : y % 4 = 3 := by omega
    omega
  · have century : y / 100 = 2 := by omega
    rw [century]
    refine ⟨by omega, by omega, by omega, by omega, fun long => ?_⟩
    have later : 1460 * (y / 4 + 1) ≤ e := by omega
    have quarter : y % 4 = 3 := by omega
    omega
  · have century : y / 100 = 3 := by omega
    rw [century]
    refine ⟨by omega, by omega, by omega, by omega, fun long => ?_⟩
    have later : 1460 * (y / 4 + 1) ≤ e := by omega
    have quarter : y % 4 = 3 := by omega
    omega

/-- The date of a day, by its era, its year and day from March, and its month from March. -/
theorem ofDays_eq (n : ℤ) : ∃ era y d m : ℤ,
    Date.ofDays n = ⟨if m < 10 then y + era * 400 else y + era * 400 + 1,
      if m < 10 then m + 3 else m - 9, d - (153 * m + 2) / 5 + 1⟩ ∧
    0 ≤ y ∧ y ≤ 399 ∧ 0 ≤ d ∧ d ≤ 365 ∧ m = (5 * d + 2) / 153 ∧
    n + 719468 = 146097 * era + 365 * y + y / 4 - y / 100 + d ∧
    (d = 365 → (y + 1) % 4 = 0 ∧ ((y + 1) % 100 = 0 → (y + 1) % 400 = 0)) := by
  obtain ⟨y1, y2, d1, d2, leap⟩ := dayOfYear_bounds
    (Int.emod_nonneg (n + 719468) (by decide : (146097 : ℤ) ≠ 0))
    (Int.emod_lt_of_pos (n + 719468) (by decide)) rfl
  refine ⟨(n + 719468) / 146097, _, _, _, rfl, y1, y2, d1, d2, rfl, ?_, leap⟩
  have := Int.mul_ediv_add_emod (n + 719468) 146097
  omega

/-- A day of the years 1..9999 has a valid date, and the date has the day. -/
theorem ofDays_valid {n : ℤ} (low : (Date.mk 1 1 1).toDays ≤ n)
    (high : n ≤ (Date.mk 9999 12 31).toDays) :
    (Date.ofDays n).valid = true ∧ (Date.ofDays n).toDays = n := by
  have e1 : (Date.mk 1 1 1).toDays = -719162 := by decide
  have e2 : (Date.mk 9999 12 31).toDays = 2932896 := by decide
  rw [e1] at low
  rw [e2] at high
  obtain ⟨era, y, d, m, date, y1, y2, d1, d2, hm, whole, leap⟩ := ofDays_eq n
  have m1 : 0 ≤ m := by omega
  have m2 : m ≤ 11 := by omega
  rw [date]
  have y4 : (y + era * 400) / 4 = y / 4 + era * 100 := by omega
  have y100 : (y + era * 400) / 100 = y / 100 + era * 4 := by omega
  have y400 : (y + era * 400) / 400 = era := by omega
  constructor
  · simp only [Date.valid, Bool.and_eq_true, decide_eq_true_eq]
    have d3 : d - (153 * m + 2) / 5 + 1 ≤
        daysInMonth (if m < 10 then y + era * 400 else y + era * 400 + 1)
          (if m < 10 then m + 3 else m - 9) := by
      by_cases feb : m = 11
      · subst feb
        have r4 : (y + era * 400 + 1) % 4 = (y + 1) % 4 := by omega
        have r100 : (y + era * 400 + 1) % 100 = (y + 1) % 100 := by omega
        have r400 : (y + era * 400 + 1) % 400 = (y + 1) % 400 := by omega
        simp only [daysInMonth, isLeap, Int.reduceLT, if_false, Int.reduceSub, if_true, r4, r100,
          r400]
        split_ifs with h
        · omega
        · simp at h
          omega
      · interval_cases m <;> simp [daysInMonth] at feb ⊢ <;> omega
    refine ⟨⟨⟨⟨⟨?_, ?_⟩, ?_⟩, ?_⟩, ?_⟩, d3⟩
    · split_ifs <;> omega
    · split_ifs <;> omega
    · split_ifs <;> omega
    · split_ifs <;> omega
    · omega
  · simp only [Date.toDays]
    have late : ¬ m < 10 → m - 9 ≤ 2 := by omega
    have early : m < 10 → ¬ m + 3 ≤ 2 := by omega
    by_cases h : m < 10
    · rw [if_pos h, if_pos h, if_neg (early h), if_neg (early h), Int.add_sub_cancel, y4, y100, y400]
      omega
    · rw [if_neg h, if_neg h, if_pos (late h), if_pos (late h), Int.add_sub_cancel,
        Int.sub_add_cancel, y4, y100, y400]
      omega

/-- The fields of a valid date are natural numbers of their widths. -/
theorem exists_fields {date : Date} (valid : date.valid = true) : ∃ y m d : ℕ,
    date = ⟨y, m, d⟩ ∧ y < 10000 ∧ 1 ≤ m ∧ m ≤ 12 ∧ 1 ≤ d ∧ d ≤ 31 := by
  obtain ⟨y, m, d⟩ := date
  simp only [Date.valid, Bool.and_eq_true, decide_eq_true_eq] at valid
  obtain ⟨⟨⟨⟨⟨y1, y2⟩, m1⟩, m2⟩, d1⟩, d2⟩ := valid
  have d3 : d ≤ 31 := by
    refine d2.trans ?_
    unfold daysInMonth
    split_ifs <;> omega
  obtain ⟨y, rfl⟩ := Int.eq_ofNat_of_zero_le (by omega : 0 ≤ y)
  obtain ⟨m, rfl⟩ := Int.eq_ofNat_of_zero_le (by omega : 0 ≤ m)
  obtain ⟨d, rfl⟩ := Int.eq_ofNat_of_zero_le (by omega : 0 ≤ d)
  exact ⟨y, m, d, rfl, by omega, by omega, by omega, by omega, by omega⟩

/-! ## The text of an instant -/

theorem isDigit_of_mem_head?_fixed {width k : ℕ} {rest : List Char} {c : Char}
    (wide : 0 < width) (h : (fixed width k ++ rest).head? = some c) : c.isDigit := by
  have long : 0 < (fixed width k).length := by
    rw [length_fixed]
    exact wide
  obtain ⟨first, tail, split⟩ := List.exists_cons_of_length_pos long
  rw [split] at h
  obtain rfl : first = c := Option.some.inj h
  exact isDigit_of_mem_fixed (split ▸ List.mem_cons_self)

theorem parseDate_fixed {y m d : ℕ} (hy : y < 10000) (hm : m < 100) (hd : d < 100) :
    parseDate (fixed 4 y ++ ('-' :: (fixed 2 m ++ ('-' :: fixed 2 d)))) = Date.make y m d := by
  have month : (fixed 2 m ++ ('-' :: fixed 2 d)).head? ≠ some 'W' := fun h =>
    absurd (isDigit_of_mem_head?_fixed (by decide) h) (by decide)
  have last : digits 2 (fixed 2 d) = .ok ((d : ℤ), []) := by
    have := digits_fixed (show d < 10 ^ 2 from hd) []
    rwa [List.append_nil] at this
  rw [parseDate, digits_fixed hy]
  show (if (fixed 2 m ++ ('-' :: fixed 2 d)).head? = some 'W' then _ else _) = _
  rw [if_neg month]
  show (digits 2 (fixed 2 m ++ ('-' :: fixed 2 d)) >>= _) = _
  rw [digits_fixed hm]
  show (digits 2 (fixed 2 d) >>= _) = _
  rw [last]
  rfl

/-- The characters of a fraction of a second. -/
def fractionText (f : ℕ) : List Char := if f = 0 then [] else '.' :: fixed 6 f

theorem parseFraction_text {f : ℕ} (h : f < 1000000) : parseFraction (fractionText f) = .ok (f : ℤ) := by
  by_cases zero : f = 0
  · rw [fractionText, if_pos zero, zero]
    rfl
  · have read : digits 6 (fixed 6 f) = .ok ((f : ℤ), []) := by
      have := digits_fixed (show f < 10 ^ 6 from h) []
      rwa [List.append_nil] at this
    have written : (fixed 6 f).all Char.isDigit = true :=
      List.all_eq_true.mpr fun c hc => isDigit_of_mem_fixed hc
    have some : fixed 6 f ≠ [] := by
      intro h
      have := length_fixed 6 f
      rw [h] at this
      cases this
    rw [fractionText, if_neg zero, parseFraction, if_neg (by simp [written, some]), length_fixed]
    show (digits 6 (fixed 6 f) >>= _) = _
    rw [read]
    show Except.ok ((f : ℤ) * 10 ^ 0) = _
    rw [pow_zero, mul_one]

/-- The characters of a clock reading. -/
def clockText (h m s f : ℕ) : List Char :=
  fixed 2 h ++ (':' :: (fixed 2 m ++ (':' :: (fixed 2 s ++ fractionText f))))

theorem parseClock_text {h m s f : ℕ} (hh : h < 100) (hm : m < 100) (hs : s < 100)
    (hf : f < 1000000) : parseClock (clockText h m s f) = .ok ((h : ℤ), (m : ℤ), (s : ℤ), (f : ℤ)) := by
  have second : digits 2 (fixed 2 s ++ fractionText f) = .ok ((s : ℤ), fractionText f) :=
    digits_fixed (show s < 10 ^ 2 from hs) _
  rw [clockText, parseClock, digits_fixed (show h < 10 ^ 2 from hh)]
  show (digits 2 (fixed 2 m ++ (':' :: (fixed 2 s ++ fractionText f))) >>= _) = _
  rw [digits_fixed (show m < 10 ^ 2 from hm)]
  show (digits 2 (fixed 2 s ++ fractionText f) >>= _) = _
  rw [second]
  show (parseFraction (fractionText f) >>= _) = _
  rw [parseFraction_text hf]
  rfl

/-- A clock reading is written in digits, colons and a dot. -/
theorem mem_clockText {h m s f : ℕ} {c : Char} (hc : c ∈ clockText h m s f) :
    c.isDigit ∨ c = ':' ∨ c = '.' := by
  have fraction : c ∈ fractionText f → c.isDigit ∨ c = ':' ∨ c = '.' := by
    intro hc
    rw [fractionText] at hc
    split_ifs at hc
    · cases hc
    · rcases List.mem_cons.mp hc with rfl | hc
      · exact .inr (.inr rfl)
      · exact .inl (isDigit_of_mem_fixed hc)
  simp only [clockText, List.mem_append, List.mem_cons] at hc
  rcases hc with hc | rfl | hc | rfl | hc | hc
  · exact .inl (isDigit_of_mem_fixed hc)
  · exact .inr (.inl rfl)
  · exact .inl (isDigit_of_mem_fixed hc)
  · exact .inr (.inl rfl)
  · exact .inl (isDigit_of_mem_fixed hc)
  · exact fraction hc

/-- A time of day with the offset zero, read back. -/
theorem parseTime_text {h m s f : ℕ} (hh : h < 24) (hm : m < 60) (hs : s < 60) (hf : f < 1000000) :
    parseTime (clockText h m s f ++ "+00:00".toList) =
      .ok (clockMicros ((h : ℤ), (m : ℤ), (s : ℤ), (f : ℤ)), some 0) := by
  have unmarked : ∀ mark : Char, mark = '-' ∨ mark = '+' ∨ mark = 'Z' →
      mark ∉ clockText h m s f := by
    rintro mark hmark hc
    rcases mem_clockText hc with digit | rfl | rfl
    · rcases hmark with rfl | rfl | rfl <;> exact absurd digit (by decide)
    · exact absurd hmark (by decide)
    · exact absurd hmark (by decide)
  have mark : ['-', '+', 'Z'].find? (fun mark =>
      (clockText h m s f ++ "+00:00".toList).contains mark) = some '+' := by
    have minus : (clockText h m s f ++ "+00:00".toList).contains '-' = false := by
      simp [unmarked '-' (.inl rfl)]
    have plus : (clockText h m s f ++ "+00:00".toList).contains '+' = true := by
      simp
    rw [List.find?_cons_of_neg (by rw [minus]; decide), List.find?_cons_of_pos plus]
  have front : (clockText h m s f ++ "+00:00".toList).takeWhile (· ≠ '+') = clockText h m s f := by
    rw [List.takeWhile_append_of_pos]
    · show clockText h m s f ++ [] = _
      rw [List.append_nil]
    · intro c hc
      simpa using fun same : c = '+' => unmarked '+' (.inr (.inl rfl)) (same ▸ hc)
  have offset : (clockText h m s f ++ "+00:00".toList).drop ((clockText h m s f).length + 1) =
      "00:00".toList := by
    rw [List.drop_append]
    simp
  have zero : parseOffset '+' "00:00".toList = .ok 0 := by decide
  rw [parseTime, mark]
  dsimp only
  rw [front, offset, parseClock_text (by omega) (by omega) (by omega) hf, zero]
  show (if _ ∧ _ ∧ _ then _ else _ : Except Exc (ℤ × Option ℤ)) = _
  rw [if_pos (by simp only []; omega)]

/-- An instant inside the range of `datetime`, by the fields its text shows. -/
theorem exists_reading {t : ℤ} (low : minInstant ≤ t) (high : t < endInstant) :
    ∃ y mo d h m s f : ℕ, Date.ofDays (t / day) = ⟨y, mo, d⟩ ∧ y < 10000 ∧ mo < 100 ∧ d < 100 ∧
      Date.make (y : ℤ) mo d = .ok ⟨y, mo, d⟩ ∧ h < 24 ∧ m < 60 ∧ s < 60 ∧ f < 1000000 ∧
      t % day / hour = h ∧ t % day % hour / 60000000 = m ∧ t % day % 60000000 / 1000000 = s ∧
      t % day % 1000000 = f ∧
      (Date.mk (y : ℤ) mo d).toDays * day + clockMicros ((h : ℤ), (m : ℤ), (s : ℤ), (f : ℤ)) = t := by
  have first : (Date.mk 1 1 1).toDays ≤ t / day :=
    (Int.le_ediv_iff_mul_le (by decide)).mpr low
  have last : t / day ≤ (Date.mk 9999 12 31).toDays :=
    Int.lt_add_one_iff.mp ((Int.ediv_lt_iff_lt_mul (by decide)).mpr high)
  obtain ⟨valid, back⟩ := ofDays_valid first last
  obtain ⟨y, mo, d, date, hy, -, hmo, -, hd⟩ := exists_fields valid
  rw [date] at valid back
  refine ⟨y, mo, d, (t % day / hour).toNat, (t % day % hour / 60000000).toNat,
    (t % day % 60000000 / 1000000).toNat, (t % day % 1000000).toNat, date, hy, by omega, by omega,
    if_pos valid, ?_⟩
  rw [back, clockMicros]
  have split := Int.mul_ediv_add_emod t day
  have bounds := Int.emod_nonneg t (by decide : day ≠ 0)
  have short := Int.emod_lt_of_pos t (by decide : 0 < day)
  generalize t % day = micros at *
  generalize t / day = days at *
  simp only [day, hour] at *
  refine ⟨by omega, by omega, by omega, by omega, by omega, by omega, by omega, by omega, ?_⟩
  rw [← split]
  omega

/-- What `isoformat` writes. -/
theorem toList_isoformat {t : ℤ} {y mo d h m s f : ℕ} (date : Date.ofDays (t / day) = ⟨y, mo, d⟩)
    (hy : y < 10000) (hmo : mo < 100) (hd : d < 100) (hh : h < 24) (hm : m < 60) (hs : s < 60)
    (hf : f < 1000000) (h1 : t % day / hour = h) (h2 : t % day % hour / 60000000 = m)
    (h3 : t % day % 60000000 / 1000000 = s) (h4 : t % day % 1000000 = f) :
    (isoformat t).toList = fixed 4 y ++ ('-' :: (fixed 2 mo ++ ('-' :: (fixed 2 d ++
      ('T' :: (clockText h m s f ++ "+00:00".toList)))))) := by
  have fraction : (if t % day % 1000000 = 0 then "" else "." ++ pad 6 (t % day % 1000000)).toList =
      fractionText f := by
    rw [h4, fractionText]
    by_cases zero : f = 0
    · rw [if_pos (by exact_mod_cast zero), if_pos zero]
      rfl
    · rw [if_neg (by exact_mod_cast zero), if_neg zero, String.toList_append,
        toList_pad (show f < 10 ^ 6 from hf) (by decide)]
      rfl
  simp only [isoformat, Date.isoformat, date, String.toList_append, h1, h2, h3, fraction,
    toList_pad (show y < 10 ^ 4 by omega) (by decide),
    toList_pad (show mo < 10 ^ 2 by omega) (by decide),
    toList_pad (show d < 10 ^ 2 by omega) (by decide),
    toList_pad (show h < 10 ^ 2 by omega) (by decide),
    toList_pad (show m < 10 ^ 2 by omega) (by decide),
    toList_pad (show s < 10 ^ 2 by omega) (by decide)]
  simp [clockText]

/-- `fromisoformat` reads an instant back. -/
theorem fromisoformat_isoformat {t : ℤ} (low : minInstant ≤ t) (high : t < endInstant) :
    fromisoformat (isoformat t) = .ok ⟨t, some 0⟩ := by
  obtain ⟨y, mo, d, h, m, s, f, date, hy, hmo, hd, made, hh, hm, hs, hf, h1, h2, h3, h4, whole⟩ :=
    exists_reading low high
  have text := toList_isoformat date hy hmo hd hh hm hs hf h1 h2 h3 h4
  have long : ¬ (isoformat t).toList.length < 7 ∧ ¬ (isoformat t).toList.length = 7 := by
    rw [text]
    simp only [List.length_append, List.length_cons, length_fixed]
    omega
  have dash : (isoformat t).toList.getD 4 ' ' = '-' := by
    rw [text]
    rfl
  have calendar : (isoformat t).toList.getD 5 ' ' ≠ 'W' := by
    rw [text]
    show Nat.digitChar (mo / 10 % 10) ≠ 'W'
    intro h
    have : Char.isDigit (Nat.digitChar (mo / 10 % 10)) = true := by simp [Nat.mod_lt]
    rw [h] at this
    exact absurd this (by decide)
  have front : (isoformat t).toList.take 10 =
      fixed 4 y ++ ('-' :: (fixed 2 mo ++ ('-' :: fixed 2 d))) := by
    rw [text]
    rfl
  have behind : (isoformat t).toList.drop 11 = clockText h m s f ++ "+00:00".toList := by
    rw [text]
    rfl
  rw [fromisoformat]
  generalize (isoformat t).toList = chars at long dash calendar front behind ⊢
  have separator : separatorLocation chars = .ok 10 := by
    rw [separatorLocation]
    simp only [long.2, if_false, dash, calendar, if_true]
  have someTime : clockText h m s f ++ "+00:00".toList ≠ [] := by
    simp [clockText]
  show (if chars.length < 7 then _ else separatorLocation chars >>= _) = _
  rw [if_neg long.1, separator]
  show (parseDate (chars.take 10) >>= _) = _
  rw [front, parseDate_fixed hy hmo hd, made]
  show (if chars.drop 11 = [] then _ else parseTime (chars.drop 11) >>= _) = _
  rw [behind, if_neg someTime, parseTime_text hh hm hs hf]
  show Except.ok (Stamp.mk _ (some 0)) = _
  rw [whole]

/-- A text `isoformat` writes is of digits, dashes, colons, a dot, a `T` and a plus sign. -/
theorem mem_isoformat {t : ℤ} (low : minInstant ≤ t) (high : t < endInstant) {c : Char}
    (hc : c ∈ (isoformat t).toList) :
    c.isDigit ∨ c = '-' ∨ c = ':' ∨ c = '.' ∨ c = 'T' ∨ c = '+' := by
  obtain ⟨y, mo, d, h, m, s, f, date, hy, hmo, hd, -, hh, hm, hs, hf, h1, h2, h3, h4, -⟩ :=
    exists_reading low high
  rw [toList_isoformat date hy hmo hd hh hm hs hf h1 h2 h3 h4] at hc
  simp only [List.mem_append, List.mem_cons] at hc
  rcases hc with hc | rfl | hc | rfl | hc | rfl | hc | hc
  · exact .inl (isDigit_of_mem_fixed hc)
  · exact .inr (.inl rfl)
  · exact .inl (isDigit_of_mem_fixed hc)
  · exact .inr (.inl rfl)
  · exact .inl (isDigit_of_mem_fixed hc)
  · tauto
  · rcases mem_clockText hc with hc | rfl | rfl <;> tauto
  · have all : ("+00:00".toList.all fun c => c.isDigit || c == ':' || c == '+') = true := by
      decide
    have here := List.all_eq_true.mp all c hc
    simp only [Bool.or_eq_true, beq_iff_eq] at here
    tauto

/-- The length of a text `isoformat` writes. -/
theorem length_isoformat_le {t : ℤ} (low : minInstant ≤ t) (high : t < endInstant) :
    (isoformat t).toList.length ≤ 32 := by
  obtain ⟨y, mo, d, h, m, s, f, date, hy, hmo, hd, -, hh, hm, hs, hf, h1, h2, h3, h4, -⟩ :=
    exists_reading low high
  have fraction : (fractionText f).length ≤ 7 := by
    rw [fractionText]
    split_ifs <;> simp
  rw [toList_isoformat date hy hmo hd hh hm hs hf h1 h2 h3 h4, clockText]
  simp only [List.length_append, List.length_cons, length_fixed]
  simp
  omega

end Civil
