import Orchestrail.Proof.Archive
import Orchestrail.Proof.ReviewGate

/-!
# What a report is read from

The markers of a review artifact are read from its lines one by one, each with the white space
around it taken off. So a report is read from its active lines alone, those that are not blank,
whatever line endings and blank lines stand between them.

* `parseHeading_trim`, `parseReview_active`, `riskMarkers_active`: headings and risk markers are
  those of the active lines.
-/

namespace Orchestrail

open Text Outcome Outline

/-! ## White space -/

theorem notSpace_of_all {text : List Char} (h : (text.all fun ch => !isWhiteSpace ch) = true) :
    ∀ ch ∈ text, isWhiteSpace ch = false := by
  intro ch hch
  simpa using List.all_eq_true.1 h ch hch

/-! ## Active lines -/

/-- Lines trimmed, without those that are blank. -/
def shown (lines : List (List Char)) : List (List Char) :=
  (lines.map trim).filter fun line => !line.isEmpty

theorem shown_append (a b : List (List Char)) : shown (a ++ b) = shown a ++ shown b := by
  simp [shown]

theorem shown_blank {lines : List (List Char)} (h : ∀ line ∈ lines, trim line = []) :
    shown lines = [] := by
  unfold shown
  rw [List.filter_eq_nil_iff]
  intro line hline
  obtain ⟨raw, hraw, rfl⟩ := List.mem_map.1 hline
  simp [h raw hraw]

theorem activeLines_inclusive (text : List Char) : activeLines text = shown (inclusive text) := by
  unfold activeLines shown textLines
  rw [List.map_map]
  congr 1
  refine List.map_congr_left fun line _ => ?_
  obtain ⟨w, hline, hw⟩ := stripLineEnding_append line
  conv_rhs => rw [hline]
  exact (trim_tail hw).symm

/-- White space behind a text adds no active line. -/
theorem activeLines_space (text : List Char) {w : List Char}
    (hw : ∀ ch ∈ w, isWhiteSpace ch = true) : activeLines (text ++ w) = activeLines text := by
  induction w generalizing text with
  | nil => rw [List.append_nil]
  | cons ch w ih =>
    have hch : isWhiteSpace ch = true := hw ch List.mem_cons_self
    have hone : ∀ c ∈ [ch], isWhiteSpace c = true := by simpa using hch
    rw [← List.singleton_append, ← List.append_assoc,
      ih _ fun c hc => hw c (List.mem_cons_of_mem _ hc), activeLines_inclusive,
      activeLines_inclusive]
    rcases inclusive_snoc text ch with hinc | ⟨ls, l, htext, hinc⟩
    · have hblank : shown [[ch]] = [] := shown_blank (by simpa using trim_eq_nil.2 hone)
      rw [hinc, shown_append, hblank, List.append_nil]
    · rw [hinc, htext, shown_append, shown_append]
      simp only [shown, List.map_cons, List.map_nil, trim_tail (s := l) hone]

theorem activeLines_trimEnd (text : List Char) : activeLines (trimEnd text) = activeLines text := by
  obtain ⟨w, htext, hw⟩ := trimEnd_append text
  conv_rhs => rw [htext]
  exact (activeLines_space _ hw).symm

/-- **A line ending cuts the active lines.** -/
theorem activeLines_cut (a b : List Char) :
    activeLines (a ++ '\n' :: b) = activeLines a ++ activeLines b := by
  have hend : LineEnd (a ++ ['\n']) := by
    intro ch hch
    simpa [eq_comm] using hch
  have hcut : a ++ '\n' :: b = (a ++ ['\n']) ++ b := by simp
  calc activeLines (a ++ '\n' :: b) = activeLines (a ++ ['\n']) ++ activeLines b := by
        rw [hcut, activeLines_inclusive, activeLines_inclusive, activeLines_inclusive,
          inclusive_append hend, shown_append]
    _ = activeLines a ++ activeLines b := by
        rw [activeLines_space a (by simpa using show isWhiteSpace '\n' = true by decide)]

/-- A line is an active line unless it is blank. -/
theorem activeLines_line {line : List Char} (h : '\n' ∉ line) :
    activeLines line = shown [line] := by
  cases line with
  | nil => rfl
  | cons ch rest =>
    rw [activeLines_inclusive, inclusive_line (List.cons_ne_nil _ _)
      fun hmem => h (List.dropLast_subset _ hmem)]

/-- A line in front of others. -/
theorem activeLines_cons {line : List Char} (h : '\n' ∉ line) (rest : List Char) :
    activeLines (line ++ '\n' :: rest) = shown [line] ++ activeLines rest := by
  rw [activeLines_cut, activeLines_line h]

theorem newline_textLines {text line : List Char} (h : line ∈ textLines text) : '\n' ∉ line := by
  obtain ⟨raw, hraw, rfl⟩ := List.mem_map.1 h
  obtain ⟨front, behind, hsplit⟩ := List.append_of_mem hraw
  obtain ⟨hne, hbody, -⟩ := cut_inclusive text front raw behind hsplit
  have hback : raw = raw.dropLast ++ [raw.getLast hne] := (List.dropLast_concat_getLast hne).symm
  unfold stripLineEnding
  rw [hback, List.reverse_append]
  generalize raw.getLast hne = ch
  generalize raw.dropLast = body at hbody
  rw [List.reverse_singleton, List.singleton_append]
  split
  case h_1 rest heq =>
    obtain ⟨-, hrest⟩ := List.cons.inj heq
    intro hmem
    refine hbody (List.mem_reverse.1 ?_)
    rw [hrest]
    exact List.mem_cons_of_mem _ (List.mem_reverse.1 hmem)
  case h_2 rest _ heq =>
    obtain ⟨-, hrest⟩ := List.cons.inj heq
    rw [← hrest, List.reverse_reverse]
    exact hbody
  case h_3 _ hno =>
    intro hmem
    rcases List.mem_append.1 hmem with hmem | hmem
    · exact hbody hmem
    · obtain rfl := List.mem_singleton.1 hmem
      exact hno _ rfl

theorem joinLines_cons (line next : List Char) (rest : List (List Char)) :
    ['\n'].intercalate (line :: next :: rest) =
      line ++ '\n' :: ['\n'].intercalate (next :: rest) := by
  simp [List.intercalate]

/-- **Lines put together with line endings** have the active lines of the list. -/
theorem activeLines_join {lines : List (List Char)} (h : ∀ line ∈ lines, '\n' ∉ line) :
    activeLines (['\n'].intercalate lines) = shown lines := by
  induction lines with
  | nil => rfl
  | cons line rest ih =>
    cases rest with
    | nil => simpa [List.intercalate] using activeLines_line (h line List.mem_cons_self)
    | cons next rest =>
      rw [joinLines_cons, activeLines_cons (h line List.mem_cons_self),
        ih fun l hl => h l (List.mem_cons_of_mem _ hl), ← shown_append, List.singleton_append]

/-! ## Headings -/

theorem isPrefixOf_space {pattern : List Char} (hp : ∀ ch ∈ pattern, isWhiteSpace ch = false)
    (text : List Char) {w : List Char} (hw : ∀ ch ∈ w, isWhiteSpace ch = true) :
    pattern.isPrefixOf (text ++ w) = pattern.isPrefixOf text := by
  induction pattern generalizing text with
  | nil => simp
  | cons ch pattern ih =>
    cases text with
    | nil =>
      cases w with
      | nil => rfl
      | cons c w =>
        have hne : ch ≠ c := by
          rintro rfl
          have hch := hp ch List.mem_cons_self
          rw [hw ch List.mem_cons_self] at hch
          cases hch
        simp [List.isPrefixOf, hne]
    | cons c text =>
      rw [List.cons_append, List.isPrefixOf, List.isPrefixOf,
        ih (fun x hx => hp x (List.mem_cons_of_mem _ hx))]

theorem lastMatch_blank {pattern : List Char} (hp : ∀ ch ∈ pattern, isWhiteSpace ch = false)
    (hne : pattern ≠ []) {w : List Char} (hw : ∀ ch ∈ w, isWhiteSpace ch = true) :
    lastMatch pattern w = none := by
  induction w with
  | nil => simp [lastMatch, hne]
  | cons ch w ih =>
    have hno : pattern.isPrefixOf (ch :: w) = false := by
      have := isPrefixOf_space hp [] hw
      rw [List.nil_append] at this
      rw [this]
      cases pattern with
      | nil => exact absurd rfl hne
      | cons c pattern => rfl
    simp [lastMatch, ih fun c hc => hw c (List.mem_cons_of_mem _ hc), hno]

/-- White space behind a text does not move the last match. -/
theorem lastMatch_space {pattern : List Char} (hp : ∀ ch ∈ pattern, isWhiteSpace ch = false)
    (hne : pattern ≠ []) (text : List Char) {w : List Char}
    (hw : ∀ ch ∈ w, isWhiteSpace ch = true) :
    lastMatch pattern (text ++ w) = lastMatch pattern text := by
  induction text with
  | nil => rw [List.nil_append, lastMatch_blank hp hne hw]; simp [lastMatch, hne]
  | cons ch text ih =>
    rw [List.cons_append, lastMatch, lastMatch, ih, ← List.cons_append, isPrefixOf_space hp _ hw]

theorem lastMatch_le {pattern text : List Char} {p : Nat} (h : lastMatch pattern text = some p) :
    p + pattern.length ≤ text.length := by
  induction text generalizing p with
  | nil =>
    unfold lastMatch at h
    split at h
    · rename_i hempty
      obtain rfl := Option.some.inj h
      simp [List.isEmpty_iff.1 hempty]
    · cases h
  | cons ch text ih =>
    unfold lastMatch at h
    split at h
    · rename_i q hq
      obtain rfl := Option.some.inj h
      have := ih hq
      rw [List.length_cons]
      omega
    · split at h
      · rename_i hprefixed
        obtain rfl := Option.some.inj h
        have := (List.isPrefixOf_iff_prefix.1 hprefixed).length_le
        omega
      · cases h

/-- What a heading is once its `###` is found: the part of the reader behind the blanks in front. -/
theorem parseHeading_space (text : List Char) {w : List Char}
    (hw : ∀ ch ∈ w, isWhiteSpace ch = true) : parseHeading (text ++ w) = parseHeading text := by
  have hmarker : ∀ ch ∈ "###".toList, isWhiteSpace ch = false := notSpace_of_all (by decide)
  have hstatus : ∀ ch ∈ "статус:".toList, isWhiteSpace ch = false :=
    notSpace_of_all (by decide +kernel)
  by_cases hblank : text.dropWhile isWhiteSpace = []
  · have hboth : (text ++ w).dropWhile isWhiteSpace = [] := by
      rw [List.dropWhile_append, hblank, dropWhile_space hw]
      rfl
    unfold parseHeading
    simp only [hboth, hblank]
  · have hdrop : (text ++ w).dropWhile isWhiteSpace = text.dropWhile isWhiteSpace ++ w := by
      rw [List.dropWhile_append, if_neg (by simpa using hblank)]
    unfold parseHeading
    simp only [hdrop]
    generalize text.dropWhile isWhiteSpace = l
    rw [isPrefixOf_space hmarker l hw, lastMatch_space hstatus (by decide) l hw]
    have hopen : '[' ∉ w := not_space_of_eq hw (by decide)
    have hclose : ']' ∉ w := not_space_of_eq hw (by decide)
    split
    · rfl
    cases hl : splitOnce ['['] l with
    | none =>
      have hnone : splitOnce ['['] (l ++ w) = none :=
        splitOnce_none.2 (by simpa [hopen] using splitOnce_none.1 hl)
      rw [hnone]
    | some pair =>
      obtain ⟨before, inner⟩ := pair
      obtain ⟨hsplit, hbefore⟩ := splitOnce_char.1 hl
      have hsome : splitOnce ['['] (l ++ w) = some (before, inner ++ w) :=
        splitOnce_char.2 ⟨by rw [hsplit]; simp, hbefore⟩
      rw [hsome]
      simp only
      cases hi : splitOnce [']'] inner with
      | none =>
        have hnone : splitOnce [']'] (inner ++ w) = none :=
          splitOnce_none.2 (by simpa [hclose] using splitOnce_none.1 hi)
        rw [hnone]
      | some pair =>
        obtain ⟨marker, behind⟩ := pair
        obtain ⟨hsplit', hmark⟩ := splitOnce_char.1 hi
        have hsome' : splitOnce [']'] (inner ++ w) = some (marker, behind ++ w) :=
          splitOnce_char.2 ⟨by rw [hsplit']; simp, hmark⟩
        rw [hsome']
        simp only
        split
        · rfl
        cases hp : lastMatch "статус:".toList l with
        | none => rfl
        | some p =>
          -- the match and the title end before the white space
          have hle := lastMatch_le hp
          have hliteral : trim ((l ++ w).drop (p + "статус:".toList.length)) =
              trim (l.drop (p + "статус:".toList.length)) := by
            rw [List.drop_append_of_le_length hle, trim_tail hw]
          have htitle : (l ++ w).take p = l.take p := List.take_append_of_le_length (by omega)
          simp only [hliteral, htitle]

theorem parseHeading_front (line : List Char) :
    parseHeading (line.dropWhile isWhiteSpace) = parseHeading line := by
  unfold parseHeading
  rw [List.dropWhile_idempotent]

/-- **A heading is read from the trimmed line.** -/
theorem parseHeading_trim (line : List Char) : parseHeading (trim line) = parseHeading line := by
  obtain ⟨w, hline, hw⟩ := trimEnd_append (line.dropWhile isWhiteSpace)
  have htrim : trim line = trimEnd (line.dropWhile isWhiteSpace) := rfl
  rw [← parseHeading_front line, htrim]
  conv_rhs => rw [hline]
  exact (parseHeading_space _ hw).symm

/-- The findings of some lines. -/
def headings (lines : List (List Char)) : Except SlicePanic (List Finding) :=
  (lines.mapM parseHeading).map (·.reduceOption)

theorem headings_append (a b : List (List Char)) :
    headings (a ++ b) = (headings a).bind fun x => (headings b).map fun y => x ++ y := by
  unfold headings
  rw [List.mapM_append]
  cases a.mapM parseHeading with
  | error e => rfl
  | ok x =>
    cases b.mapM parseHeading with
    | error e => rfl
    | ok y =>
      simp [Except.map, Except.bind, bind, pure, Except.pure, reduceOption_eq,
        List.filterMap_append]

theorem headings_shown (lines : List (List Char)) : headings (shown lines) = headings lines := by
  induction lines with
  | nil => rfl
  | cons line rest ih =>
    have hone : headings (shown [line]) = headings [line] := by
      by_cases hblank : trim line = []
      · have hnone : parseHeading line = .ok none := by
          rw [← parseHeading_trim, hblank]
          rfl
        rw [shown_blank (by simpa using hblank)]
        simp [headings, hnone, bind, Except.bind, pure, Except.pure, Except.map, reduceOption_eq]
      · have hshown : shown [line] = [trim line] := by simp [shown, hblank]
        rw [hshown]
        simp only [headings, List.mapM_cons, parseHeading_trim]
    rw [← List.singleton_append, shown_append, headings_append, headings_append, hone, ih]

/-- **The findings of a report are those of its active lines.** -/
theorem parseReview_active (text : List Char) :
    parseReview text = (headings (activeLines text)).map ReviewParse.mk := by
  have hactive : activeLines text = shown (textLines text) := rfl
  rw [hactive, headings_shown]
  unfold parseReview headings
  cases (textLines text).mapM parseHeading <;> rfl

/-- What is read of the trimmed lines, and of no blank one, is read of the active lines. -/
theorem filterMap_shown {α : Type} {f : List Char → Option α} (hf : f [] = none)
    (lines : List (List Char)) :
    lines.filterMap (fun line => f (trim line)) = (shown lines).filterMap f := by
  unfold shown
  induction lines with
  | nil => rfl
  | cons line rest ih =>
    rw [List.filterMap_cons, ih, List.map_cons, List.filter_cons]
    by_cases hblank : trim line = []
    · simp [hblank, hf]
    · rw [if_pos (by simpa using hblank), List.filterMap_cons]

/-- The risk marker of a trimmed line. -/
def riskMarker (line : List Char) : Option (List Char) :=
  (stripFront "Риск-повышен:".toList line).map trim

theorem riskMarkers_active (text : List Char) :
    riskMarkers text = (activeLines text).filterMap riskMarker := by
  have hnone : riskMarker [] = none := by decide +kernel
  exact filterMap_shown hnone (textLines text)

end Orchestrail
