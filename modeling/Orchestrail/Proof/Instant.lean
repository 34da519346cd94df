import Orchestrail.Spec.Instant
import Orchestrail.Proof.Time

/-!
# The order of timestamps

A timestamp that `is_iso_utc` accepts denotes an instant in milliseconds, also before 1970, where
`iso_to_epoch_millis` has no number for it and `iso_chrono_cmp` falls back to the order of the
texts. `iso_timestamps` says when the comparison is that of the instants; the round trips and the
reviewer's window hold from there.
-/

namespace Orchestrail

open Text

/-! ## What an accepted timestamp denotes -/

theorem decimal_concat (ds : List Char) (d : Char) :
    decimal (ds ++ [d]) = 10 * decimal ds + (d.toNat - '0'.toNat : Nat) := by
  unfold decimal
  rw [List.foldl_append]
  rfl

theorem decimal_bounds {ds : List Char} (h : ∀ d ∈ ds, isAsciiDigit d = true) :
    0 ≤ decimal ds ∧ decimal ds < 10 ^ ds.length := by
  induction ds using List.reverseRecOn with
  | nil => exact ⟨le_rfl, by decide⟩
  | append_singleton ds d ih =>
    obtain ⟨hlow, hhigh⟩ := ih fun e he => h e (List.mem_append_left _ he)
    have hd : d.toNat - '0'.toNat ≤ 9 := by
      have hdigit := h d (by simp)
      unfold isAsciiDigit at hdigit
      simp only [Bool.and_eq_true, decide_eq_true_eq, Char.le_def, UInt32.le_iff_toNat_le] at hdigit
      have hnine : d.toNat ≤ '9'.toNat := hdigit.2
      have : '9'.toNat = 57 := rfl
      have : '0'.toNat = 48 := rfl
      omega
    rw [decimal_concat, List.length_append, List.length_singleton, pow_succ]
    omega

theorem digits_at {cs : List Char} {start len : Nat}
    (h : ∀ i, start ≤ i → i < start + len → cs[i]?.any isAsciiDigit = true) :
    ∀ d ∈ (cs.drop start).take len, isAsciiDigit d = true := by
  intro d hd
  obtain ⟨i, hi⟩ := List.mem_iff_getElem?.1 hd
  rw [List.getElem?_take, List.getElem?_drop] at hi
  split at hi
  · rename_i hlt
    have hdigit := h (start + i) (by omega) (by omega)
    rw [hi] at hdigit
    exact hdigit
  · cases hi

/-- The fields of an accepted timestamp are digits, and so is its fraction of at most three. -/
theorem accepted_fields {s : String} (h : isIsoUtc s = true) :
    (∀ start len, (start, len) ∈ [(0, 4), (5, 2), (8, 2), (11, 2), (14, 2), (17, 2)] →
      ∀ d ∈ (s.toList.drop start).take len, isAsciiDigit d = true) ∧
    (s.toList.drop 19 = ['Z'] ∨ ∃ ds, ds ≠ [] ∧ ds.length ≤ 3 ∧
      (∀ d ∈ ds, isAsciiDigit d = true) ∧ s.toList.drop 19 = '.' :: (ds ++ ['Z'])) := by
  unfold isIsoUtc at h
  simp only [Bool.and_eq_true, and_assoc] at h
  obtain ⟨-, d0, d1, d2, d3, -, d5, d6, -, d8, d9, -, d11, d12, -, d14, d15, -, d17, d18,
    htail⟩ := h
  refine ⟨fun start len hmem => digits_at fun i hlow hhigh => ?_, ?_⟩
  · have hi : i ∈ [0, 1, 2, 3, 5, 6, 8, 9, 11, 12, 14, 15, 17, 18] := by
      simp only [List.mem_cons, Prod.mk.injEq, List.not_mem_nil, or_false] at hmem ⊢
      omega
    simp only [List.mem_cons, List.not_mem_nil, or_false] at hi
    rcases hi with rfl | rfl | rfl | rfl | rfl | rfl | rfl | rfl | rfl | rfl | rfl | rfl | rfl |
      rfl <;> assumption
  · split at htail
    · rename_i rest hrest
      simp only [Bool.and_eq_true, decide_eq_true_eq, beq_iff_eq] at htail
      obtain ⟨⟨hlow, hhigh⟩, hend⟩ := htail
      refine .inr ⟨rest.takeWhile isAsciiDigit, List.ne_nil_of_length_pos hlow, hhigh,
        fun d hd => List.mem_takeWhile_imp hd, ?_⟩
      have hsplit := List.takeWhile_append_dropWhile (p := isAsciiDigit) (l := rest)
      have hdrop : rest.dropWhile isAsciiDigit = ['Z'] := calc
        rest.dropWhile isAsciiDigit = (rest.takeWhile isAsciiDigit ++
            rest.dropWhile isAsciiDigit).drop (rest.takeWhile isAsciiDigit).length :=
          List.drop_left.symm
        _ = ['Z'] := by rw [hsplit, hend]
      rw [hrest, ← hdrop, hsplit]
    · exact .inl (by simpa using htail)

theorem fraction_spec {s : String} (h : isIsoUtc s = true) :
    (∀ d ∈ Instant.fraction s, isAsciiDigit d = true) ∧ (Instant.fraction s).length ≤ 3 ∧
      (s.toList.drop 19).dropLast =
        if Instant.fraction s = [] then [] else '.' :: Instant.fraction s := by
  have hdrop : s.toList.drop 20 = (s.toList.drop 19).tail := by rw [List.tail_drop]
  unfold Instant.fraction
  rw [hdrop]
  obtain hnone | ⟨ds, hne, hlength, hdigits, hsome⟩ := (accepted_fields h).2
  · rw [hnone]
    simp
  · rw [hsome, List.tail_cons, List.dropLast_concat]
    refine ⟨hdigits, hlength, ?_⟩
    rw [if_neg hne, ← List.cons_append, List.dropLast_concat]

theorem field_bounds {s : String} (h : isIsoUtc s = true) {start len : Nat}
    (hmem : (start, len) ∈ [(0, 4), (5, 2), (8, 2), (11, 2), (14, 2), (17, 2)]) :
    0 ≤ Instant.field s start len ∧ Instant.field s start len < 10 ^ len := by
  obtain ⟨hlow, hhigh⟩ := decimal_bounds ((accepted_fields h).1 start len hmem)
  refine ⟨hlow, hhigh.trans_le ?_⟩
  exact pow_le_pow_right₀ (by decide) (List.length_take_le _ _)

/-- A quotient towards zero is less than one off. -/
theorem tdiv_near (a : Int) {n : Int} (hn : 0 < n) :
    a < n * a.tdiv n + n ∧ n * a.tdiv n < a + n := by
  have hsum := Int.mul_tdiv_add_tmod a n
  have hhigh := Int.tmod_lt_of_pos a hn
  have hlow := Int.lt_tmod_of_pos a hn
  omega

theorem daysFromCivil_le {year month day : Int} (hyear : year < 10000) (hmonth : month < 100)
    (hday : day < 100) :
    daysFromCivil year month day ≤ 4000000 := by
  obtain ⟨y, hy⟩ : ∃ y, y = if month ≤ 2 then year - 1 else year := ⟨_, rfl⟩
  obtain ⟨era, hera⟩ : ∃ era, era = (if 0 ≤ y then y else y - 399).tdiv 400 := ⟨_, rfl⟩
  obtain ⟨mp, hmp⟩ : ∃ mp, mp = if 2 < month then month - 3 else month + 9 := ⟨_, rfl⟩
  have hdays : daysFromCivil year month day = era * 146097 + ((y - era * 400) * 365 +
      (y - era * 400).tdiv 4 - (y - era * 400).tdiv 100 + ((153 * mp + 2).tdiv 5 + day - 1)) -
      719468 := by
    simp only [daysFromCivil, ← hy, ← hera, ← hmp]
  have h1 := tdiv_near (if 0 ≤ y then y else y - 399) (n := 400) (by decide)
  have h2 := tdiv_near (y - era * 400) (n := 4) (by decide)
  have h3 := tdiv_near (y - era * 400) (n := 100) (by decide)
  have h4 := tdiv_near (153 * mp + 2) (n := 5) (by decide)
  rw [← hera] at h1
  have hmp' : mp ≤ 96 := by
    rw [hmp]
    split_ifs <;> omega
  have hy' : y < 10000 := by
    rw [hy]
    split_ifs <;> omega
  rw [hdays]
  split_ifs at h1 <;> omega

/-- The fraction in milliseconds. -/
theorem fraction_bounds {s : String} (h : isIsoUtc s = true) :
    0 ≤ decimal (Instant.fraction s) * 10 ^ (3 - (Instant.fraction s).length) ∧
      decimal (Instant.fraction s) * 10 ^ (3 - (Instant.fraction s).length) < 1000 := by
  obtain ⟨hdigits, hlength, -⟩ := fraction_spec h
  obtain ⟨hlow, hhigh⟩ := decimal_bounds hdigits
  refine ⟨mul_nonneg hlow (by positivity), ?_⟩
  have hpos : (0 : Int) < 10 ^ (3 - (Instant.fraction s).length) := by positivity
  calc decimal (Instant.fraction s) * 10 ^ (3 - (Instant.fraction s).length)
      < 10 ^ (Instant.fraction s).length * 10 ^ (3 - (Instant.fraction s).length) :=
        mul_lt_mul_of_pos_right hhigh hpos
    _ = 1000 := by
      rw [← pow_add, Nat.add_sub_cancel' hlength]
      norm_num

theorem seconds_le {s : String} (h : isIsoUtc s = true) : Instant.seconds s ≤ 400000000000 := by
  have hyear := (field_bounds h (show (0, 4) ∈ _ by decide)).2
  have hmonth := (field_bounds h (show (5, 2) ∈ _ by decide)).2
  have hday := (field_bounds h (show (8, 2) ∈ _ by decide)).2
  have hhour := (field_bounds h (show (11, 2) ∈ _ by decide)).2
  have hminute := (field_bounds h (show (14, 2) ∈ _ by decide)).2
  have hsecond := (field_bounds h (show (17, 2) ∈ _ by decide)).2
  have hdays := daysFromCivil_le (show Instant.field s 0 4 < 10000 by omega)
    (show Instant.field s 5 2 < 100 by omega) (show Instant.field s 8 2 < 100 by omega)
  unfold Instant.seconds
  omega

theorem isoToEpoch_eq {s : String} (h : isIsoUtc s = true) :
    isoToEpoch s = if 0 ≤ Instant.seconds s then some (Instant.seconds s).toNat else none := by
  have hle := seconds_le h
  have hunfold : isoToEpoch s = if 0 ≤ Instant.seconds s ∧
      Instant.seconds s ≤ 18446744073709551615 then some (Instant.seconds s).toNat else none := by
    unfold isoToEpoch
    rw [if_neg (by simp [h])]
    rfl
  rw [hunfold]
  by_cases hpos : 0 ≤ Instant.seconds s
  · rw [if_pos hpos, if_pos ⟨hpos, by omega⟩]
  · rw [if_neg hpos, if_neg fun hboth => hpos hboth.1]

/-- The milliseconds that the source reads from the point on. -/
def scaled (tail : List Char) : Nat :=
  match tail with
  | '.' :: digits =>
    if digits.length = 1 then (decimal digits).toNat * 100
    else if digits.length = 2 then (decimal digits).toNat * 10
    else if digits.length = 3 then (decimal digits).toNat
    else 0
  | _ => 0

theorem isoToEpochMillis_scaled (s : String) : isoToEpochMillis s = (isoToEpoch s).bind fun secs =>
    if secs * 1000 + scaled (s.toList.drop 19).dropLast ≤ 18446744073709551615 then
      some (secs * 1000 + scaled (s.toList.drop 19).dropLast)
    else none := rfl

theorem scaled_eq {s : String} (h : isIsoUtc s = true) : scaled (s.toList.drop 19).dropLast =
    (decimal (Instant.fraction s) * 10 ^ (3 - (Instant.fraction s).length)).toNat := by
  obtain ⟨hdigits, hlength, htail⟩ := fraction_spec h
  obtain ⟨hlow, -⟩ := decimal_bounds hdigits
  rw [htail]
  generalize Instant.fraction s = ds at hlength hlow
  match ds, hlength with
  | [], _ => rfl
  | [a], _ =>
    show (decimal [a]).toNat * 100 = (decimal [a] * 10 ^ 2).toNat
    omega
  | [a, b], _ =>
    show (decimal [a, b]).toNat * 10 = (decimal [a, b] * 10 ^ 1).toNat
    omega
  | [a, b, c], _ =>
    show (decimal [a, b, c]).toNat = (decimal [a, b, c] * 10 ^ 0).toNat
    omega

/-- A timestamp at or after 1970 is its instant, an earlier one is none. -/
theorem isoToEpochMillis_eq {s : String} (h : isIsoUtc s = true) :
    isoToEpochMillis s = if 0 ≤ Instant.millis s then some (Instant.millis s).toNat else none := by
  obtain ⟨hlow, hhigh⟩ := fraction_bounds h
  have hmillis : Instant.millis s = Instant.seconds s * 1000 + decimal (Instant.fraction s) *
    10 ^ (3 - (Instant.fraction s).length) := rfl
  have hle := seconds_le h
  rw [isoToEpochMillis_scaled, isoToEpoch_eq h, scaled_eq h, hmillis]
  generalize decimal (Instant.fraction s) * 10 ^ (3 - (Instant.fraction s).length) = f at hlow hhigh
  by_cases hpos : 0 ≤ Instant.seconds s
  · rw [if_pos hpos, if_pos (by omega), Option.bind_some, if_pos (by omega)]
    congr 1
    omega
  · rw [if_neg hpos, if_neg (by omega), Option.bind_none]

/-! ## The order -/

theorem compare_toNat {x y : Int} (hx : 0 ≤ x) (hy : 0 ≤ y) :
    compare x.toNat y.toNat = compare x y := by
  rw [Nat.compare_eq_ite_le, Int.compare_eq_ite_le]
  split_ifs <;> first | rfl | omega

/-- The text order serves for what lies before 1970. -/
theorem isoChronoCmp_eq {a b : String} (ha : isIsoUtc a = true) (hb : isIsoUtc b = true) :
    isoChronoCmp a b = if 0 ≤ Instant.millis a ∧ 0 ≤ Instant.millis b then
      compare (Instant.millis a) (Instant.millis b) else compare a b := by
  unfold isoChronoCmp
  rw [isoToEpochMillis_eq ha, isoToEpochMillis_eq hb]
  by_cases ha' : 0 ≤ Instant.millis a
  · by_cases hb' : 0 ≤ Instant.millis b
    · rw [if_pos ha', if_pos hb', if_pos ⟨ha', hb'⟩]
      exact compare_toNat ha' hb'
    · have hboth : ¬ (0 ≤ Instant.millis a ∧ 0 ≤ Instant.millis b) := fun h => hb' h.2
      rw [if_pos ha', if_neg hb', if_neg hboth]
  · have hboth : ¬ (0 ≤ Instant.millis a ∧ 0 ≤ Instant.millis b) := fun h => ha' h.1
    rw [if_neg ha', if_neg hboth]

theorem foldl_latest {α : Type} {cmp : α → α → Ordering} {key : α → Int} {best : α} {l : List α}
    (hcmp : ∀ a ∈ best :: l, ∀ b ∈ best :: l, cmp a b = compare (key a) (key b)) :
    l.foldl (fun best next => if cmp best next = .gt then best else next) best ∈ best :: l ∧
      ∀ a ∈ best :: l,
        key a ≤
          key (l.foldl (fun best next => if cmp best next = .gt then best else next) best) := by
  induction l generalizing best with
  | nil =>
    refine ⟨List.mem_cons_self, fun a ha => ?_⟩
    rw [List.mem_singleton.1 ha]
    exact le_rfl
  | cons next l ih =>
    have hpair := hcmp best List.mem_cons_self next (by simp)
    rw [List.foldl_cons]
    -- the winner of the two goes on, and the other is not later
    obtain ⟨winner, hwinner, hmem, hbest, hnext⟩ : ∃ winner,
        (if cmp best next = .gt then best else next) = winner ∧ (winner = best ∨ winner = next) ∧
          key best ≤ key winner ∧ key next ≤ key winner := by
      by_cases hgt : cmp best next = .gt
      · have hlt : key next < key best := by
          rw [hpair, compare_gt_iff_gt] at hgt
          exact hgt
        exact ⟨best, if_pos hgt, .inl rfl, le_rfl, hlt.le⟩
      · have hle : key best ≤ key next := by
          rw [hpair, compare_gt_iff_gt] at hgt
          exact not_lt.1 hgt
        exact ⟨next, if_neg hgt, .inr rfl, hle, le_rfl⟩
    rw [hwinner]
    have hsub : ∀ a ∈ winner :: l, a ∈ best :: next :: l := by
      intro a ha
      rcases List.mem_cons.1 ha with rfl | ha
      · rcases hmem with rfl | rfl <;> simp
      · simp [ha]
    obtain ⟨hfold, hmax⟩ := ih fun a ha b hb => hcmp a (hsub a ha) b (hsub b hb)
    refine ⟨hsub _ hfold, fun a ha => ?_⟩
    have hwin := hmax winner List.mem_cons_self
    rcases List.mem_cons.1 ha with rfl | ha
    · exact hbest.trans hwin
    · rcases List.mem_cons.1 ha with rfl | ha
      · exact hnext.trans hwin
      · exact hmax a (List.mem_cons_of_mem _ ha)

/-- Of the latest elements the last one: no element of the list is later. -/
theorem maxBy_spec {α : Type} (cmp : α → α → Ordering) (key : α → Int) {l : List α}
    (hcmp : ∀ a ∈ l, ∀ b ∈ l, cmp a b = compare (key a) (key b)) :
    match maxBy cmp l with
    | some best => best ∈ l ∧ ∀ a ∈ l, key a ≤ key best
    | none => l = [] := by
  cases l with
  | nil => rfl
  | cons first rest =>
    exact foldl_latest hcmp

/-! ## Collections of timestamps -/

/-- The summaries of a review are dated by the timestamps of the collection. -/
def Dated (S : Set String) (parse : ReviewParse) : Prop :=
  ∀ finding ∈ parse.findings, finding.isSummary = true →
    ∃ timestamp ∈ S, finding.summaryTimestamp = some timestamp

/-- The order of a collection is that of its instants, and nothing that is built on it depends on
the order of the findings. -/
structure Chronological (S : Set String) : Prop where
  agrees : ∀ a ∈ S, ∀ b ∈ S, isoChronoCmp a b = compare (Instant.millis a) (Instant.millis b)
  refl : ∀ a ∈ S, isoChronoCmp a a = .eq
  antisymm : ∀ a ∈ S, ∀ b ∈ S, isoChronoCmp a b ≠ .gt → isoChronoCmp b a ≠ .gt →
    Instant.millis a = Instant.millis b
  total : ∀ a ∈ S, ∀ b ∈ S, isoChronoCmp a b ≠ .gt ∨ isoChronoCmp b a ≠ .gt
  trans : ∀ a ∈ S, ∀ b ∈ S, ∀ c ∈ S, isoChronoCmp a b ≠ .gt → isoChronoCmp b c ≠ .gt →
    isoChronoCmp a c ≠ .gt
  latest : ∀ p q : ReviewParse, p.findings.Perm q.findings → Dated S p →
    (p.latestSummary.bind (·.summaryTimestamp)).map Instant.millis =
      (q.latestSummary.bind (·.summaryTimestamp)).map Instant.millis
  window : ∀ p q : ReviewParse, p.findings.Perm q.findings → Dated S p → ∀ since ∈ S,
    ∀ until_ ∈ S, p.isCleanPass since until_ = q.isCleanPass since until_ ∧
      (p.summaryAfterWindow until_).map Instant.millis =
        (q.summaryAfterWindow until_).map Instant.millis

/-- Where one of two timestamps lies before 1970, their texts stand in the order of the instants. -/
def TextOrder (S : Set String) : Prop :=
  ∀ a ∈ S, ∀ b ∈ S, (0 ≤ Instant.millis a ∧ 0 ≤ Instant.millis b) ∨
    compare a b = compare (Instant.millis a) (Instant.millis b)

theorem agrees_iff {S : Set String} (hS : ∀ a ∈ S, isIsoUtc a = true) :
    (∀ a ∈ S, ∀ b ∈ S, isoChronoCmp a b = compare (Instant.millis a) (Instant.millis b)) ↔
      TextOrder S := by
  refine forall₂_congr fun a ha => forall₂_congr fun b hb => ?_
  rw [isoChronoCmp_eq (hS a ha) (hS b hb)]
  by_cases hpos : 0 ≤ Instant.millis a ∧ 0 ≤ Instant.millis b
  · exact iff_of_true (if_pos hpos) (.inl hpos)
  · rw [if_neg hpos]
    exact (or_iff_right hpos).symm

section Agrees

variable {S : Set String} (h : ∀ a ∈ S, ∀ b ∈ S,
  isoChronoCmp a b = compare (Instant.millis a) (Instant.millis b))

include h

theorem cmp_gt_iff {a b : String} (ha : a ∈ S) (hb : b ∈ S) :
    isoChronoCmp a b = .gt ↔ Instant.millis b < Instant.millis a := by
  rw [h a ha b hb]
  exact compare_gt_iff_gt

/-- The latest summary is a dated one, and none is later. -/
theorem latestSummary_spec {p : ReviewParse} (hp : Dated S p) :
    (p.findings.filter (·.isSummary) = [] ∧ p.latestSummary = none) ∨
      ∃ best ∈ p.findings.filter (·.isSummary), ∃ timestamp ∈ S, p.latestSummary = some best ∧
        best.summaryTimestamp = some timestamp ∧
        ∀ finding ∈ p.findings.filter (·.isSummary), ∀ other ∈ finding.summaryTimestamp,
          Instant.millis other ≤ Instant.millis timestamp := by
  have hdated : ∀ finding ∈ p.findings.filter (·.isSummary),
      ∃ timestamp ∈ S, finding.summaryTimestamp = some timestamp := by
    intro finding hfinding
    obtain ⟨hmem, hsummary⟩ := List.mem_filter.1 hfinding
    exact hp finding hmem hsummary
  have hspec := maxBy_spec
    (fun a b : Finding => isoChronoCmp (a.summaryTimestamp.getD "") (b.summaryTimestamp.getD ""))
    (fun a => Instant.millis (a.summaryTimestamp.getD ""))
    (l := p.findings.filter (·.isSummary)) (by
      intro a ha b hb
      obtain ⟨s, hs, hsa⟩ := hdated a ha
      obtain ⟨t, ht, htb⟩ := hdated b hb
      rw [hsa, htb]
      exact h s hs t ht)
  unfold ReviewParse.latestSummary
  split at hspec
  · rename_i best hbest
    obtain ⟨hmem, hmax⟩ := hspec
    obtain ⟨timestamp, hin, htimestamp⟩ := hdated best hmem
    refine .inr ⟨best, hmem, timestamp, hin, hbest, htimestamp, ?_⟩
    intro finding hfinding other hother
    have hle := hmax finding hfinding
    rw [htimestamp, hother] at hle
    exact hle
  · rename_i hnone
    exact .inl ⟨hspec, hnone⟩

/-- The latest summaries of two orders of the findings are of one instant. -/
theorem latest_perm {p q : ReviewParse} (hperm : p.findings.Perm q.findings) (hp : Dated S p) :
    (p.latestSummary.bind (·.summaryTimestamp) = none ∧
        q.latestSummary.bind (·.summaryTimestamp) = none) ∨
      ∃ s ∈ S, ∃ t ∈ S, p.latestSummary.bind (·.summaryTimestamp) = some s ∧
        q.latestSummary.bind (·.summaryTimestamp) = some t ∧
        Instant.millis s = Instant.millis t := by
  have hq : Dated S q := fun finding hfinding => hp finding (hperm.mem_iff.2 hfinding)
  have hfilter : ∀ finding, finding ∈ p.findings.filter (·.isSummary) ↔
      finding ∈ q.findings.filter (·.isSummary) := fun finding =>
    (hperm.filter _).mem_iff
  obtain ⟨hpnil, hpnone⟩ | ⟨f, hf, s, hs, hpbest, hfs, hpmax⟩ := latestSummary_spec h hp
  · obtain ⟨-, hqnone⟩ | ⟨g, hg, -⟩ := latestSummary_spec h hq
    · rw [hpnone, hqnone]
      exact .inl ⟨rfl, rfl⟩
    · rw [← hfilter, hpnil] at hg
      exact absurd hg List.not_mem_nil
  · obtain ⟨hqnil, -⟩ | ⟨g, hg, t, ht, hqbest, hgt, hqmax⟩ := latestSummary_spec h hq
    · rw [hfilter, hqnil] at hf
      exact absurd hf List.not_mem_nil
    · have hle := hqmax f ((hfilter f).1 hf) s hfs
      have hge := hpmax g ((hfilter g).2 hg) t hgt
      rw [hpbest, hqbest]
      exact .inr ⟨s, hs, t, ht, hfs, hgt, le_antisymm hle hge⟩

theorem inWindow_congr {s t since until_ : String} (hs : s ∈ S) (ht : t ∈ S) (hsince : since ∈ S)
    (huntil : until_ ∈ S) (heq : Instant.millis s = Instant.millis t) :
    inWindow since until_ s = inWindow since until_ t ∧
      isoChronoCmp s until_ = isoChronoCmp t until_ := by
  unfold inWindow
  rw [h s hs since hsince, h t ht since hsince, h s hs until_ huntil, h t ht until_ huntil, heq]
  exact ⟨rfl, rfl⟩

end Agrees

theorem openReviewFindings_perm {p q : ReviewParse} (hperm : p.findings.Perm q.findings) :
    p.openReviewFindings.isEmpty = q.openReviewFindings.isEmpty :=
  (hperm.filter _).isEmpty_eq

theorem chronological_iff {S : Set String} (hS : ∀ a ∈ S, isIsoUtc a = true) :
    Chronological S ↔ TextOrder S := by
  refine ⟨fun h => (agrees_iff hS).1 h.agrees, fun h => ?_⟩
  have hagrees := (agrees_iff hS).2 h
  have hle : ∀ a ∈ S, ∀ b ∈ S, isoChronoCmp a b ≠ .gt ↔ Instant.millis a ≤ Instant.millis b :=
    fun a ha b hb => (not_congr (cmp_gt_iff hagrees ha hb)).trans not_lt
  refine {
    agrees := hagrees
    refl := fun a ha => ?_
    antisymm := fun a ha b hb hab hba => ?_
    total := fun a ha b hb => ?_
    trans := fun a ha b hb c hc hab hbc => ?_
    latest := fun p q hperm hp => ?_
    window := fun p q hperm hp since hsince until_ huntil => ?_ }
  · rw [hagrees a ha a ha]
    exact compare_eq_iff_eq.2 rfl
  · exact le_antisymm ((hle a ha b hb).1 hab) ((hle b hb a ha).1 hba)
  · rw [hle a ha b hb, hle b hb a ha]
    exact le_total _ _
  · rw [hle a ha b hb] at hab
    rw [hle b hb c hc] at hbc
    exact (hle a ha c hc).2 (hab.trans hbc)
  · obtain ⟨hpnone, hqnone⟩ | ⟨s, -, t, -, hps, hqt, heq⟩ := latest_perm hagrees hperm hp
    · rw [hpnone, hqnone]
    · rw [hps, hqt]
      exact congrArg some heq
  · unfold ReviewParse.isCleanPass ReviewParse.summaryAfterWindow
    rw [openReviewFindings_perm hperm]
    obtain ⟨hpnone, hqnone⟩ | ⟨s, hs, t, ht, hps, hqt, heq⟩ := latest_perm hagrees hperm hp
    · rw [hpnone, hqnone]
      exact ⟨rfl, rfl⟩
    · obtain ⟨hin, hcmp⟩ := inWindow_congr hagrees hs ht hsince huntil heq
      rw [hps, hqt, Option.map_some, Option.map_some, hin]
      refine ⟨rfl, ?_⟩
      rw [Option.filter_some, Option.filter_some, hcmp]
      split
      · exact congrArg some heq
      · rfl

/-! ## Seconds and milliseconds written and read -/

theorem padded_three {n : Nat} (h : n < 1000) : padded 3 n =
    [(n / 100).digitChar, (n / 10 % 10).digitChar, (n % 10).digitChar] := by
  rw [padded_succ (by omega) (by omega), padded_two (by omega)]
  simp only [Nat.div_div_eq_div_mul, List.cons_append, List.nil_append]

theorem decimal_three {n : Nat} (h : n < 1000) :
    (∀ d ∈ padded 3 n, isAsciiDigit d = true) ∧ decimal (padded 3 n) = n := by
  have h1 := digitChar_facts (show n / 100 < 10 by omega)
  have h2 := digitChar_facts (show n / 10 % 10 < 10 by omega)
  have h3 := digitChar_facts (show n % 10 < 10 by omega)
  rw [padded_three h]
  refine ⟨by simp [h1.1, h2.1, h3.1], ?_⟩
  simp only [decimal, List.foldl_cons, List.foldl_nil, h1.2, h2.2, h3.2]
  omega

/-- A second is written with nothing behind its fields. -/
theorem epochToIso_drop {secs : Nat} (h : secs ≤ lastSecond) :
    isIsoUtc (epochToIso secs) = true ∧ (epochToIso secs).toList.drop 19 = ['Z'] := by
  have hlast : secs ≤ 253402300799 := h
  obtain ⟨year, month, day, hcivil, hy, hm, hd, -⟩ := civilFromDays_spec
    (show (0 : Int) ≤ (secs / 86400 : Nat) by omega) (by omega)
  obtain ⟨hiso, -⟩ := iso_fields (show year.toNat < 10000 by omega)
    (show month.toNat < 100 by omega) (show day.toNat < 100 by omega)
    (show secs % 86400 / 3600 < 100 by omega) (show secs % 86400 % 3600 / 60 < 100 by omega)
    (show secs % 86400 % 60 < 100 by omega)
  refine ⟨by simpa only [epochToIso, hcivil] using hiso, ?_⟩
  simp only [epochToIso, hcivil, String.toList_ofList,
    padded_four (show year.toNat < 10000 by omega), padded_two (show month.toNat < 100 by omega),
    padded_two (show day.toNat < 100 by omega),
    padded_two (show secs % 86400 / 3600 < 100 by omega),
    padded_two (show secs % 86400 % 3600 / 60 < 100 by omega),
    padded_two (show secs % 86400 % 60 < 100 by omega), List.cons_append, List.nil_append,
    List.drop_succ_cons, List.drop_zero]

/-- A fraction behind the seconds leaves the fields. -/
theorem fraction_behind {s t : String} {ds : List Char} (hs : isIsoUtc s = true)
    (hdrop : s.toList.drop 19 = ['Z']) (hne : ds ≠ []) (hlength : ds.length ≤ 3)
    (hdigits : ∀ d ∈ ds, isAsciiDigit d = true)
    (ht : t.toList = s.toList.take 19 ++ '.' :: (ds ++ ['Z'])) :
    isIsoUtc t = true ∧ Instant.seconds t = Instant.seconds s ∧ Instant.fraction t = ds := by
  have hfront : (s.toList.take 19).length = 19 := by
    have hlen := congrArg List.length hdrop
    rw [List.length_drop, List.length_singleton] at hlen
    rw [List.length_take]
    omega
  have hget : ∀ i, i < 19 → t.toList[i]? = s.toList[i]? := by
    intro i hi
    rw [ht, List.getElem?_append_left (by omega), List.getElem?_take_of_lt hi]
  have hdrop' : t.toList.drop 19 = '.' :: (ds ++ ['Z']) := by
    rw [ht, List.drop_left' hfront]
  have hfield : ∀ start len, start + len ≤ 19 →
      Instant.field t start len = Instant.field s start len := by
    intro start len hle
    unfold Instant.field
    congr 1
    apply List.ext_getElem?
    intro i
    rw [List.getElem?_take, List.getElem?_take]
    split
    · rw [List.getElem?_drop, List.getElem?_drop, hget _ (by omega)]
    · rfl
  refine ⟨?_, ?_, ?_⟩
  · unfold isIsoUtc at hs ⊢
    simp only [Bool.and_eq_true, and_assoc] at hs ⊢
    obtain ⟨hlen, d0, d1, d2, d3, l4, d5, d6, l7, d8, d9, l10, d11, d12, l13, d14, d15, l16, d17,
      d18, -⟩ := hs
    have hlen' : 20 ≤ t.toList.length := by
      rw [ht, List.length_append, hfront, List.length_cons]
      omega
    rw [hget 0 (by decide), hget 1 (by decide), hget 2 (by decide), hget 3 (by decide),
      hget 4 (by decide), hget 5 (by decide), hget 6 (by decide), hget 7 (by decide),
      hget 8 (by decide), hget 9 (by decide), hget 10 (by decide), hget 11 (by decide),
      hget 12 (by decide), hget 13 (by decide), hget 14 (by decide), hget 15 (by decide),
      hget 16 (by decide), hget 17 (by decide), hget 18 (by decide), hdrop']
    have htake : (ds ++ ['Z']).takeWhile isAsciiDigit = ds := by
      rw [List.takeWhile_append_of_pos hdigits, List.takeWhile_cons_of_neg (by decide),
        List.append_nil]
    refine ⟨decide_eq_true hlen', d0, d1, d2, d3, l4, d5, d6, l7, d8, d9, l10, d11, d12, l13, d14,
      d15, l16, d17, d18, ?_⟩
    show (decide (1 ≤ ((ds ++ ['Z']).takeWhile isAsciiDigit).length) &&
      decide (((ds ++ ['Z']).takeWhile isAsciiDigit).length ≤ 3) &&
      (ds ++ ['Z']).drop ((ds ++ ['Z']).takeWhile isAsciiDigit).length == ['Z']) = true
    rw [htake, List.drop_left]
    have hpos := List.length_pos_iff.2 hne
    simp only [Bool.and_eq_true, decide_eq_true_eq, beq_self_eq_true, and_true]
    exact ⟨hpos, hlength⟩
  · unfold Instant.seconds
    rw [hfield 0 4 (by decide), hfield 5 2 (by decide), hfield 8 2 (by decide),
      hfield 11 2 (by decide), hfield 14 2 (by decide), hfield 17 2 (by decide)]
  · have htail : t.toList.drop 20 = (t.toList.drop 19).tail := by rw [List.tail_drop]
    unfold Instant.fraction
    rw [htail, hdrop', List.tail_cons, List.dropLast_concat]

/-- **Every second of the years of four digits** is its instant. -/
theorem isoToEpochMillis_epochToIso {secs : Nat} (h : secs ≤ lastSecond) :
    isoToEpochMillis (epochToIso secs) = some (secs * 1000) := by
  rw [isoToEpochMillis_scaled, isoToEpoch_epochToIso h, (epochToIso_drop h).2, Option.bind_some]
  have hlast : secs ≤ 253402300799 := h
  have hzero : scaled (['Z'] : List Char).dropLast = 0 := rfl
  rw [hzero, if_pos (by omega), Nat.add_zero]

theorem epochMillisToIso_toList {millis : Nat} (h : millis / 1000 ≤ lastSecond) :
    (epochMillisToIso millis).toList = (epochToIso (millis / 1000)).toList.take 19 ++
      '.' :: (padded 3 (millis % 1000) ++ ['Z']) := by
  obtain ⟨hiso, hdrop⟩ := epochToIso_drop h
  have hlast := (accepted_fields hiso).1 17 2 (by decide)
  unfold epochMillisToIso
  dsimp only
  generalize (epochToIso (millis / 1000)).toList = cs at hdrop hlast
  -- the text without its end ends with a digit of the seconds, so one letter is stripped
  obtain ⟨front, d, hfront, hd⟩ : ∃ front d, cs.take 19 = front ++ [d] ∧ isAsciiDigit d = true := by
    have hlen := congrArg List.length hdrop
    rw [List.length_drop, List.length_singleton] at hlen
    have hlt : 18 < cs.length := by omega
    refine ⟨cs.take 18, cs[18], List.take_succ_eq_append_getElem hlt, hlast _ ?_⟩
    refine List.mem_iff_getElem?.2 ⟨1, ?_⟩
    rw [List.getElem?_take_of_lt (by decide), List.getElem?_drop]
    exact List.getElem?_eq_getElem hlt
  have hne : (d == 'Z') = false := by
    rw [beq_eq_false_iff_ne]
    rintro rfl
    exact absurd hd (by decide)
  have hcs : cs = front ++ [d] ++ ['Z'] := by rw [← hfront, ← hdrop, List.take_append_drop]
  have hstrip : (cs.reverse.dropWhile (· == 'Z')).reverse = front ++ [d] := by
    rw [hcs, List.reverse_append, List.reverse_append]
    simp [hne]
  rw [String.toList_ofList, hstrip, hfront]
  simp

theorem isoToEpochMillis_epochMillisToIso {millis : Nat} (h : millis / 1000 ≤ lastSecond) :
    isIsoUtc (epochMillisToIso millis) = true ∧
      isoToEpochMillis (epochMillisToIso millis) = some millis := by
  obtain ⟨hiso, hdrop⟩ := epochToIso_drop h
  obtain ⟨hdigits, hdecimal⟩ := decimal_three (show millis % 1000 < 1000 by omega)
  have hlength : (padded 3 (millis % 1000)).length = 3 := by
    rw [padded_three (by omega)]
    rfl
  obtain ⟨hiso', hseconds, hfraction⟩ := fraction_behind hiso hdrop
    (List.ne_nil_of_length_pos (by omega)) hlength.le hdigits (epochMillisToIso_toList h)
  have hsecs : Instant.seconds (epochToIso (millis / 1000)) = (millis / 1000 : Nat) := by
    have hread := isoToEpoch_epochToIso h
    rw [isoToEpoch_eq hiso] at hread
    by_cases hpos : 0 ≤ Instant.seconds (epochToIso (millis / 1000))
    · rw [if_pos hpos] at hread
      have heq := Option.some.inj hread
      omega
    · rw [if_neg hpos] at hread
      cases hread
  have hmillis : Instant.millis (epochMillisToIso millis) = millis := by
    unfold Instant.millis
    rw [hseconds, hfraction, hsecs, hlength, hdecimal]
    omega
  refine ⟨hiso', ?_⟩
  rw [isoToEpochMillis_eq hiso', hmillis, if_pos (Int.natCast_nonneg millis), Int.toNat_natCast]

/-- **The order of timestamps.** A collection of accepted timestamps is ordered by its instants, and
nothing built on the order depends on the order of the findings, exactly if the texts before 1970
stand in the order of their instants; what is written for a second or a millisecond is read back,
and later ones are later. -/
theorem iso_timestamps (S : Set String) (hS : ∀ timestamp ∈ S, isIsoUtc timestamp = true) :
    (Chronological S ↔ TextOrder S) ∧
    (∀ secs ≤ lastSecond, isoToEpoch (epochToIso secs) = some secs) ∧
    (∀ secs later, secs < later → later ≤ lastSecond →
      isoChronoCmp (epochToIso secs) (epochToIso later) = .lt) ∧
    (∀ millis, millis / 1000 ≤ lastSecond →
      isoToEpochMillis (epochMillisToIso millis) = some millis) ∧
    ∀ millis later, millis < later → later / 1000 ≤ lastSecond →
      isoChronoCmp (epochMillisToIso millis) (epochMillisToIso later) = .lt := by
  have hcmp : ∀ {a b : String} {x y : Nat}, isoToEpochMillis a = some x →
      isoToEpochMillis b = some y → x < y → isoChronoCmp a b = .lt := by
    intro a b x y ha hb hlt
    unfold isoChronoCmp
    rw [ha, hb]
    exact compare_lt_iff_lt.2 hlt
  refine ⟨chronological_iff hS, fun secs h => isoToEpoch_epochToIso h, ?_, ?_, ?_⟩
  · intro secs later hlt hlast
    exact hcmp (isoToEpochMillis_epochToIso (by omega)) (isoToEpochMillis_epochToIso hlast)
      (by omega)
  · exact fun millis h => (isoToEpochMillis_epochMillisToIso h).2
  · intro millis later hlt hlast
    exact hcmp (isoToEpochMillis_epochMillisToIso (by omega)).2
      (isoToEpochMillis_epochMillisToIso hlast).2 hlt

/-- Two timestamps from 1970 on, of which one has a fraction. -/
theorem iso_timestamps_after :
    Chronological {"1970-01-01T00:00:00Z", "1970-01-01T00:00:00.5Z"} ∧
      isoToEpoch (epochToIso 951782400) = some 951782400 ∧
      isoChronoCmp (epochToIso 951782400) (epochToIso 951868800) = .lt ∧
      isoToEpochMillis (epochMillisToIso 951782400005) = some 951782400005 ∧
      isoChronoCmp (epochMillisToIso 951782400005) (epochMillisToIso 951782400050) = .lt := by
  have hS : ∀ timestamp ∈ ({"1970-01-01T00:00:00Z", "1970-01-01T00:00:00.5Z"} : Set String),
      isIsoUtc timestamp = true := by
    rintro _ (rfl | rfl) <;> decide
  have h := iso_timestamps _ hS
  refine ⟨h.1.2 ?_, h.2.1 _ (by decide), h.2.2.1 _ _ (by decide) (by decide),
    h.2.2.2.1 _ (by decide), h.2.2.2.2 _ _ (by decide) (by decide)⟩
  rintro _ (rfl | rfl) _ (rfl | rfl) <;> exact .inl (by decide)

/-- Half a second later, and yet before it in the text order. -/
theorem iso_timestamps_before : ¬ Chronological {timestamp | isIsoUtc timestamp = true} := by
  intro h
  have hlt := h.agrees "1969-12-31T23:59:59.5Z" (by decide) "1969-12-31T23:59:59Z" (by decide)
  revert hlt
  decide

end Orchestrail
