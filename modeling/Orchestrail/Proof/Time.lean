import Mathlib.Data.Nat.Digits.Defs
import Orchestrail.Spec.Time

/-!
# Timestamps read back

In the years of four digits a timestamp is read back as the second it was written for
(`isoToEpoch_epochToIso`): the calendar loses no day, and every field keeps its width.
-/

namespace Orchestrail

open Text

/-- The last second of the year 9999. -/
def lastSecond : Nat := 253402300799

/-! ## The calendar -/

/-- The year of an era and the day of the year, from the day of the era. -/
theorem yearOfEra {doe yoe : Int} (h0 : 0 ≤ doe) (h1 : doe ≤ 146096)
    (hy : yoe = (doe - doe / 1460 + doe / 36524 - doe / 146096) / 365) :
    (0 ≤ yoe ∧ yoe ≤ 399) ∧ 0 ≤ doe - (365 * yoe + yoe / 4 - yoe / 100) ∧
      doe - (365 * yoe + yoe / 4 - yoe / 100) ≤ 365 := by
  by_cases hlast : doe = 146096
  · subst hlast
    subst hy
    decide
  -- the day in its century, four-year cycle and cycle day
  obtain ⟨f, q, t, hdoe, hf, hq, ht⟩ : ∃ f q t : Int, doe = 36524 * f + 1461 * q + t ∧
      (0 ≤ f ∧ f ≤ 3) ∧ (0 ≤ q ∧ q ≤ 24) ∧ 0 ≤ t ∧ t ≤ 1460 ∧ 1461 * q + t ≤ 36523 :=
    ⟨doe / 36524, doe % 36524 / 1461, doe % 36524 % 1461, by omega, by omega, by omega, by omega⟩
  have hcentury : doe / 36524 = f := by omega
  have hera : doe / 146096 = 0 := by omega
  obtain ⟨u, hu, hyoe, hday⟩ : ∃ u : Int, (0 ≤ u ∧ u ≤ 3) ∧ yoe = 100 * f + 4 * q + u ∧
      0 ≤ t - 365 * u ∧ t - 365 * u ≤ 365 := by
    by_cases hleap : 1460 ≤ 24 * f + q + t
    · have he : doe / 1460 = 25 * f + q + 1 := by omega
      exact ⟨3, by omega, by omega, by omega⟩
    · have he : doe / 1460 = 25 * f + q := by omega
      exact ⟨t / 365, by omega, by omega, by omega⟩
  have h4 : yoe / 4 = 25 * f + q := by omega
  have h100 : yoe / 100 = f := by omega
  omega

/-- **A civil date keeps its day**, and its fields fit their widths. -/
theorem civilFromDays_spec {days : Int} (h0 : 0 ≤ days) (h1 : days ≤ 2932896) :
    ∃ year month day, civilFromDays days = (year, month, day) ∧ (0 ≤ year ∧ year ≤ 9999) ∧
      (1 ≤ month ∧ month ≤ 12) ∧ (1 ≤ day ∧ day ≤ 31) ∧ daysFromCivil year month day = days := by
  obtain ⟨z, hz⟩ : ∃ z, z = days + 719468 := ⟨_, rfl⟩
  obtain ⟨era, hera⟩ : ∃ era, era = z / 146097 := ⟨_, rfl⟩
  obtain ⟨doe, hdoe⟩ : ∃ doe, doe = z - era * 146097 := ⟨_, rfl⟩
  obtain ⟨yoe, hyoe⟩ : ∃ yoe, yoe = (doe - doe / 1460 + doe / 36524 - doe / 146096) / 365 := ⟨_, rfl⟩
  have hrange : 0 ≤ doe ∧ doe ≤ 146096 := by omega
  obtain ⟨hyear, hlow, hhigh⟩ := yearOfEra hrange.1 hrange.2 hyoe
  obtain ⟨doy, hdoy⟩ : ∃ doy, doy = doe - (365 * yoe + yoe / 4 - yoe / 100) := ⟨_, rfl⟩
  obtain ⟨mp, hmp⟩ : ∃ mp, mp = (5 * doy + 2) / 153 := ⟨_, rfl⟩
  have hmonth : 0 ≤ mp ∧ mp ≤ 11 := by omega
  have hnum : 0 ≤ doe - doe / 1460 + doe / 36524 - doe / 146096 := by omega
  have hcivil : civilFromDays days =
      (if (if mp < 10 then mp + 3 else mp - 9) ≤ 2 then yoe + era * 400 + 1 else yoe + era * 400,
        if mp < 10 then mp + 3 else mp - 9, doy - (153 * mp + 2) / 5 + 1) := by
    have e1 : (if 0 ≤ z then z else z - 146096).tdiv 146097 = era := by
      rw [if_pos (by omega), Int.tdiv_eq_ediv_of_nonneg (by omega)]
      omega
    simp only [civilFromDays, ← hz, e1, ← hdoe, Int.tdiv_eq_ediv_of_nonneg hrange.1]
    rw [Int.tdiv_eq_ediv_of_nonneg hnum, ← hyoe]
    simp only [Int.tdiv_eq_ediv_of_nonneg hyear.1, ← hdoy]
    rw [Int.tdiv_eq_ediv_of_nonneg (show 0 ≤ 5 * doy + 2 by omega), ← hmp,
      Int.tdiv_eq_ediv_of_nonneg (show 0 ≤ 153 * mp + 2 by omega)]
  refine ⟨_, _, _, hcivil, ?_, ?_, ?_, ?_⟩
  · split <;> split at * <;> omega
  · split <;> omega
  · omega
  · have hback : ∀ year month day : Int, (if month ≤ 2 then year - 1 else year) = yoe + era * 400 →
        (if 2 < month then month - 3 else month + 9) = mp → day = doy - (153 * mp + 2) / 5 + 1 →
        daysFromCivil year month day = days := by
      intro year month day hy hm hd
      have he : (if 0 ≤ yoe + era * 400 then yoe + era * 400 else yoe + era * 400 - 399).tdiv 400 = era := by
        rw [if_pos (by omega), Int.tdiv_eq_ediv_of_nonneg (by omega)]
        omega
      have hyo : yoe + era * 400 - era * 400 = yoe := by omega
      simp only [daysFromCivil, hy, hm, he, hyo, Int.tdiv_eq_ediv_of_nonneg hyear.1,
        Int.tdiv_eq_ediv_of_nonneg (show 0 ≤ 153 * mp + 2 by omega)]
      omega
    refine hback _ _ _ ?_ ?_ rfl
    · split <;> omega
    · split <;> split <;> omega

/-! ## The text -/

theorem length_toDigits_le {n w : Nat} (hw : 0 < w) (h : n < 10 ^ w) :
    (Nat.toDigits 10 n).length ≤ w := by
  induction w generalizing n with
  | zero => omega
  | succ w ih =>
    by_cases hn : n < 10
    · rw [Nat.toDigits_of_lt_base hn]
      simp
    · have hlt : n / 10 < 10 ^ w := by
        rw [Nat.pow_succ] at h
        omega
      have hpos : 0 < w := by
        rcases Nat.eq_zero_or_pos w with rfl | hpos
        · omega
        · exact hpos
      rw [Nat.toDigits_of_base_le (by omega) (by omega), List.length_append]
      have := ih hpos hlt
      simpa using this

/-- The last digit stands behind the others. -/
theorem padded_succ {n w : Nat} (hw : 0 < w) (h : n < 10 ^ (w + 1)) :
    padded (w + 1) n = padded w (n / 10) ++ [(n % 10).digitChar] := by
  have hlt : n / 10 < 10 ^ w := by
    rw [Nat.pow_succ] at h
    omega
  have hlen := length_toDigits_le hw hlt
  by_cases hn : n < 10
  · have hzero : n / 10 = 0 := by omega
    have hself : n % 10 = n := by omega
    have hdigit : Nat.toDigits 10 0 = ['0'] := by decide
    obtain ⟨k, rfl⟩ : ∃ k, w = k + 1 := ⟨w - 1, by omega⟩
    simp only [padded, Nat.toDigits_of_lt_base hn, hzero, hself, hdigit, List.length_singleton,
      Nat.add_sub_cancel, ← List.replicate_succ']
  · simp only [padded, Nat.toDigits_of_base_le (show 1 < 10 by omega) (show 10 ≤ n by omega),
      List.length_append, List.length_singleton, Nat.add_sub_add_right, List.append_assoc]

theorem padded_one {n : Nat} (h : n < 10) : padded 1 n = [n.digitChar] := by
  simp [padded, Nat.toDigits_of_lt_base h]

theorem padded_two {n : Nat} (h : n < 100) :
    padded 2 n = [(n / 10).digitChar, (n % 10).digitChar] := by
  rw [padded_succ (by omega) (by omega), padded_one (by omega)]
  rfl

theorem padded_four {n : Nat} (h : n < 10000) :
    padded 4 n = [(n / 1000).digitChar, (n / 100 % 10).digitChar, (n / 10 % 10).digitChar,
      (n % 10).digitChar] := by
  rw [padded_succ (by omega) (by omega), padded_succ (by omega) (by omega), padded_two (by omega)]
  simp only [Nat.div_div_eq_div_mul, List.cons_append, List.nil_append]

theorem digitChar_facts {d : Nat} (h : d < 10) :
    isAsciiDigit d.digitChar = true ∧ d.digitChar.toNat - '0'.toNat = d := by
  have hall : ∀ d : Fin 10, isAsciiDigit d.val.digitChar = true ∧
      d.val.digitChar.toNat - '0'.toNat = d.val := by decide
  exact hall ⟨d, h⟩

theorem decimal_two {n : Nat} (h : n < 100) : decimal (padded 2 n) = n := by
  simp only [padded_two h, decimal, List.foldl_cons, List.foldl_nil,
    (digitChar_facts (show n / 10 < 10 by omega)).2, (digitChar_facts (show n % 10 < 10 by omega)).2]
  omega

theorem decimal_four {n : Nat} (h : n < 10000) : decimal (padded 4 n) = n := by
  simp only [padded_four h, decimal, List.foldl_cons, List.foldl_nil,
    (digitChar_facts (show n / 1000 < 10 by omega)).2,
    (digitChar_facts (show n / 100 % 10 < 10 by omega)).2,
    (digitChar_facts (show n / 10 % 10 < 10 by omega)).2,
    (digitChar_facts (show n % 10 < 10 by omega)).2]
  omega

/-- Six fields of their widths are a strict timestamp, and the fields are found in it. -/
theorem iso_fields {year month day hour minute second : Nat} (hy : year < 10000)
    (hm : month < 100) (hd : day < 100) (hh : hour < 100) (hmin : minute < 100) (hs : second < 100) :
    let s := String.ofList (padded 4 year ++ '-' :: padded 2 month ++ '-' :: padded 2 day ++
      'T' :: padded 2 hour ++ ':' :: padded 2 minute ++ ':' :: padded 2 second ++ ['Z'])
    isIsoUtc s = true ∧ (s.toList.drop 0).take 4 = padded 4 year ∧
      (s.toList.drop 5).take 2 = padded 2 month ∧ (s.toList.drop 8).take 2 = padded 2 day ∧
      (s.toList.drop 11).take 2 = padded 2 hour ∧ (s.toList.drop 14).take 2 = padded 2 minute ∧
      (s.toList.drop 17).take 2 = padded 2 second := by
  have hdigit : ∀ n : Nat, isAsciiDigit (n % 10).digitChar = true := fun n =>
    (digitChar_facts (Nat.mod_lt n (by omega))).1
  have hten : ∀ n : Nat, n < 100 → isAsciiDigit (n / 10).digitChar = true := fun n hn =>
    (digitChar_facts (by omega)).1
  have hthousand := (digitChar_facts (show year / 1000 < 10 by omega)).1
  intro s
  refine ⟨?_, ?_, ?_, ?_, ?_, ?_, ?_⟩
  · simp [s, isIsoUtc, padded_four hy, padded_two hm, padded_two hd, padded_two hh, padded_two hmin,
      padded_two hs, hdigit, hten, hthousand, hm, hd, hh, hmin, hs]
  all_goals
    simp [s, padded_four hy, padded_two hm, padded_two hd, padded_two hh, padded_two hmin,
      padded_two hs]

/-- **A timestamp is read back** as the second it was written for. -/
theorem isoToEpoch_epochToIso {secs : Nat} (h : secs ≤ lastSecond) :
    isoToEpoch (epochToIso secs) = some secs := by
  have hlast : secs ≤ 253402300799 := h
  obtain ⟨year, month, day, hcivil, hy, hm, hd, hdays⟩ := civilFromDays_spec
    (show (0 : Int) ≤ (secs / 86400 : Nat) by omega) (by omega)
  obtain ⟨hiso, h1, h2, h3, h4, h5, h6⟩ := iso_fields (show year.toNat < 10000 by omega)
    (show month.toNat < 100 by omega) (show day.toNat < 100 by omega)
    (show secs % 86400 / 3600 < 100 by omega) (show secs % 86400 % 3600 / 60 < 100 by omega)
    (show secs % 86400 % 60 < 100 by omega)
  simp only [epochToIso, hcivil, isoToEpoch, hiso, h1, h2, h3, h4, h5, h6,
    decimal_four (show year.toNat < 10000 by omega), decimal_two (show month.toNat < 100 by omega),
    decimal_two (show day.toNat < 100 by omega), decimal_two (show secs % 86400 / 3600 < 100 by omega),
    decimal_two (show secs % 86400 % 3600 / 60 < 100 by omega),
    decimal_two (show secs % 86400 % 60 < 100 by omega), Int.toNat_of_nonneg hy.1,
    Int.toNat_of_nonneg (show 0 ≤ month by omega), Int.toNat_of_nonneg (show 0 ≤ day by omega), hdays]
  have hsum : ((secs / 86400 : Nat) : Int) * 86400 + (secs % 86400 / 3600 : Nat) * 3600 +
      (secs % 86400 % 3600 / 60 : Nat) * 60 + (secs % 86400 % 60 : Nat) = secs := by omega
  rw [hsum, if_neg (by decide), if_pos (by omega), Int.toNat_natCast]

end Orchestrail
