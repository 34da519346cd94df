import Orchestrail.Spec.Archive

/-!
# The sections of the archive

An archive heading does not depend on white space behind it (`archiveHeaderTaskId_append`), so the
three ways the source cuts its lines see the same headings, and the archive is a text divided by
headings. The section of a task has the task's heading and no other
(`parts_formatArchiveSection`), with one marker in it, if its descriptor brings neither (`Plain`);
so an archive that takes it in, at the end or in the place of an incomplete one, has one section
more and keeps the others (`Recorded`).
-/

namespace Orchestrail

open Text Outcome Outline

/-! ## White space -/

theorem dropWhile_space {w : List Char} (hw : ∀ ch ∈ w, isWhiteSpace ch = true) :
    w.dropWhile isWhiteSpace = [] := by
  rw [List.dropWhile_eq_nil_iff]
  exact hw

theorem not_space_of_eq {w : List Char} {ch : Char} (hw : ∀ ch ∈ w, isWhiteSpace ch = true)
    (hch : isWhiteSpace ch = false) : ch ∉ w := by
  intro hmem
  rw [hw ch hmem] at hch
  cases hch

/-- Trimming behind takes white space off. -/
theorem trimEnd_append (text : List Char) :
    ∃ w, text = trimEnd text ++ w ∧ ∀ ch ∈ w, isWhiteSpace ch = true := by
  refine ⟨text.rtakeWhile isWhiteSpace, ?_, ?_⟩
  · have := List.takeWhile_append_dropWhile (p := isWhiteSpace) (l := text.reverse)
    have := congrArg List.reverse this
    rw [List.reverse_append, List.reverse_reverse] at this
    exact this.symm
  · intro ch hch
    exact List.mem_rtakeWhile_imp hch

theorem pieces_append_space (text : List Char) {w : List Char}
    (hw : ∀ ch ∈ w, isWhiteSpace ch = true) :
    Text.pieces isWhiteSpace (text ++ w) =
      Text.pieces isWhiteSpace text ++ List.replicate w.length [] := by
  induction text with
  | nil =>
    induction w with
    | nil => rfl
    | cons ch w ih =>
      have hch : isWhiteSpace ch = true := hw ch (by simp)
      have ih := ih fun x hx => hw x (by simp [hx])
      simp only [List.nil_append] at ih ⊢
      simp [Text.pieces, hch, ih, List.replicate_succ]
  | cons ch text ih =>
    rw [List.cons_append]
    unfold Text.pieces
    rw [ih]
    split
    · rfl
    · cases hpieces : Text.pieces isWhiteSpace text with
      | nil => exact absurd hpieces (pieces_ne_nil isWhiteSpace text)
      | cons piece more => rfl

theorem splitWhitespace_append (text : List Char) {w : List Char}
    (hw : ∀ ch ∈ w, isWhiteSpace ch = true) :
    splitWhitespace (text ++ w) = splitWhitespace text := by
  unfold splitWhitespace
  rw [pieces_append_space text hw, List.filter_append]
  simp

/-! ## Archive headings -/

section Archive

variable {alphanumeric : Char → Bool}

theorem bracketedTaskId_append (rest : List Char) {w : List Char}
    (hw : ∀ ch ∈ w, isWhiteSpace ch = true) :
    bracketedTaskId (rest ++ w) = bracketedTaskId rest := by
  have hclose : ']' ∉ w := not_space_of_eq hw (by decide)
  unfold bracketedTaskId
  rw [List.dropWhile_append]
  cases hrest : rest.dropWhile isWhiteSpace with
  | nil => simp [dropWhile_space hw]
  | cons ch inner =>
    simp only [List.isEmpty_cons, Bool.false_eq_true, if_false, List.cons_append]
    by_cases hch : ch = '['
    · subst hch
      simp only [List.mem_append, hclose, or_false]
      split
      · rename_i hmem
        have htake : (inner ++ w).takeWhile (· ≠ ']') = inner.takeWhile (· ≠ ']') := by
          rw [List.takeWhile_append, if_neg]
          intro hlen
          have hall := (List.takeWhile_prefix _).eq_of_length hlen
          have := List.mem_takeWhile_imp (hall ▸ hmem)
          simp at this
        rw [htake]
      · rfl
    · split
      · rename_i heq
        exact absurd (List.cons.inj heq).1 hch
      · split
        · rename_i heq
          exact absurd (List.cons.inj heq).1 hch
        · rfl

theorem legacyTaskId_append (rest : List Char) {w : List Char}
    (hw : ∀ ch ∈ w, isWhiteSpace ch = true) :
    legacyTaskId alphanumeric (rest ++ w) = legacyTaskId alphanumeric rest := by
  unfold legacyTaskId
  rw [splitWhitespace_append rest hw]
  cases rest with
  | nil => simp [splitWhitespace, Text.pieces]
  | cons ch rest => rfl

/-- **White space behind a line** does not matter to its heading. -/
theorem archiveHeaderTaskId_append (line : List Char) {w : List Char}
    (hw : ∀ ch ∈ w, isWhiteSpace ch = true) :
    archiveHeaderTaskId alphanumeric (line ++ w) = archiveHeaderTaskId alphanumeric line := by
  unfold archiveHeaderTaskId
  rw [List.dropWhile_append]
  cases htrimmed : line.dropWhile isWhiteSpace with
  | nil => simp [dropWhile_space hw]
  | cons ch trimmed =>
    simp only [List.isEmpty_cons, Bool.false_eq_true, if_false]
    -- the hashes are in front of the white space
    have hhash : ∀ x ∈ w, ¬ decide (x = '#') = true := by
      intro x hx heq
      rw [of_decide_eq_true heq] at hx
      exact not_space_of_eq hw (by decide) hx
    have htake : w.takeWhile (· = '#') = [] := by
      cases w with
      | nil => rfl
      | cons x w =>
        have hx := hhash x (by simp)
        rw [List.takeWhile_cons, if_neg hx]
    have hdrop : w.dropWhile (· = '#') = w := by
      cases w with
      | nil => rfl
      | cons x w =>
        have hx := hhash x (by simp)
        rw [List.dropWhile_cons, if_neg hx]
    have hhashes : (ch :: trimmed ++ w).takeWhile (· = '#') =
        (ch :: trimmed).takeWhile (· = '#') := by
      rw [List.takeWhile_append, htake]
      split
      · rename_i hlen
        rw [List.append_nil]
        exact ((List.takeWhile_prefix _).eq_of_length hlen).symm
      · rfl
    have hrest : (ch :: trimmed ++ w).dropWhile (· = '#') =
        (ch :: trimmed).dropWhile (· = '#') ++ w := by
      rw [List.dropWhile_append, hdrop]
      split
      · rename_i hempty
        rw [List.isEmpty_iff.1 hempty]
        rfl
      · rfl
    rw [hhashes, hrest, bracketedTaskId_append _ hw, legacyTaskId_append _ hw]

theorem archiveHeaderTaskId_trimmed (line front : List Char)
    (h : ∃ w, line = front ++ w ∧ ∀ ch ∈ w, isWhiteSpace ch = true) :
    archiveHeaderTaskId alphanumeric front = archiveHeaderTaskId alphanumeric line := by
  obtain ⟨w, rfl, hw⟩ := h
  exact (archiveHeaderTaskId_append front hw).symm

/-- Line endings are white space: the three ways to cut a line see one heading. -/
theorem archiveHeading_eq (line : List Char) :
    archiveHeading alphanumeric line = archiveHeaderTaskId alphanumeric line := by
  refine archiveHeaderTaskId_trimmed _ _
    ⟨line.rtakeWhile fun ch => ch = '\r' || ch = '\n', ?_, ?_⟩
  · have := List.takeWhile_append_dropWhile (p := fun ch => ch = '\r' || ch = '\n')
      (l := line.reverse)
    have := congrArg List.reverse this
    rw [List.reverse_append, List.reverse_reverse] at this
    exact this.symm
  · intro ch hch
    have := List.mem_rtakeWhile_imp hch
    simp only [Bool.or_eq_true, decide_eq_true_eq] at this
    rcases this with rfl | rfl <;> decide

theorem stripLineEnding_append (line : List Char) :
    ∃ w, line = stripLineEnding line ++ w ∧ ∀ ch ∈ w, isWhiteSpace ch = true := by
  unfold stripLineEnding
  have hback : line = line.reverse.reverse := (List.reverse_reverse line).symm
  split
  · rename_i rest heq
    refine ⟨['\r', '\n'], ?_, List.all_eq_true.1 rfl⟩
    rw [hback, heq]
    simp
  · rename_i rest _ heq
    refine ⟨['\n'], ?_, List.all_eq_true.1 rfl⟩
    rw [hback, heq]
    simp
  · exact ⟨[], (List.append_nil _).symm, by simp⟩

theorem stripLineEnding_heading (line : List Char) :
    archiveHeaderTaskId alphanumeric (stripLineEnding line) =
      archiveHeaderTaskId alphanumeric line :=
  archiveHeaderTaskId_trimmed _ _ (stripLineEnding_append line)

variable (alphanumeric) in
theorem forgiving_header : Forgiving isWhiteSpace (archiveHeaderTaskId alphanumeric) where
  snoc line ch hch := archiveHeaderTaskId_append line (by simpa using hch)
  nil := by simp [archiveHeaderTaskId]

/-! ## The archive as a text with headings -/

variable (alphanumeric) in
/-- The sections of an archive, with the task ids of their headings. -/
abbrev archiveParts (text : List Char) : List (String × List Char) :=
  parts (archiveHeaderTaskId alphanumeric) text

variable (alphanumeric) in
/-- What an archive has in front of its first heading. -/
abbrev archiveLead (text : List Char) : List Char :=
  lead (archiveHeaderTaskId alphanumeric) text

variable (alphanumeric) in
theorem archiveParts_space (text : List Char) {w : List Char}
    (hw : ∀ ch ∈ w, isWhiteSpace ch = true) :
    archiveParts alphanumeric (text ++ w) = padLast w (archiveParts alphanumeric text) :=
  parts_blank (forgiving_header alphanumeric) text hw

variable (alphanumeric) in
theorem archiveParts_join {a : List Char} (ha : LineEnd a) (b : List Char) :
    archiveParts alphanumeric (a ++ b) =
      padLast (archiveLead alphanumeric b) (archiveParts alphanumeric a) ++
        archiveParts alphanumeric b :=
  parts_join ha b

theorem archiveLead_space {text w : List Char} (hw : ∀ ch ∈ w, isWhiteSpace ch = true)
    (hparts : archiveParts alphanumeric text ≠ []) :
    archiveLead alphanumeric (text ++ w) = archiveLead alphanumeric text :=
  lead_blank (forgiving_header alphanumeric) hw hparts

theorem archiveLead_join {a : List Char} (ha : LineEnd a)
    (hparts : archiveParts alphanumeric a ≠ []) (b : List Char) :
    archiveLead alphanumeric (a ++ b) = archiveLead alphanumeric a :=
  lead_join ha hparts b

theorem archiveSections_parts (text : List Char) :
    (archiveSections alphanumeric text).map (fun p => (p.taskId, p.text)) =
      archiveParts alphanumeric text := by
  have hheading : archiveHeading alphanumeric = archiveHeaderTaskId alphanumeric :=
    funext archiveHeading_eq
  unfold archiveSections archiveParts parts
  rw [hheading, ← pieces_sections [], List.map_map, List.map_map]
  rfl

theorem completed_keys (text : List Char) :
    (textLines text).filterMap (archiveHeaderTaskId alphanumeric) =
      (archiveParts alphanumeric text).map Prod.fst := by
  rw [parts_keys, textLines, List.filterMap_map]
  exact List.filterMap_congr fun line _ => stripLineEnding_heading line

/-! ## The section of a task -/

theorem taskId_spec {taskId : String} (hid : isTaskId taskId = true) :
    ∃ digits, taskId.toList = 'T' :: '-' :: digits ∧ ∀ ch ∈ digits, isAsciiDigit ch = true := by
  unfold isTaskId wholeDecimal stripFront at hid
  split at hid
  · rename_i digits hsome
    split at hsome
    · rename_i hprefix
      obtain ⟨rest, hrest⟩ := List.isPrefixOf_iff_prefix.1 hprefix
      rw [← hrest] at hsome ⊢
      rw [List.drop_left] at hsome
      rw [Bool.and_eq_true, List.all_eq_true] at hid
      exact ⟨rest, rfl, Option.some.inj hsome ▸ hid.2⟩
    · cases hsome
  · cases hid

/-- A character that a task id does not have. -/
theorem notMem_taskId {taskId : String} (hid : isTaskId taskId = true) {ch : Char}
    (hch : isAsciiDigit ch = false) (hT : ch ≠ 'T') (hdash : ch ≠ '-') : ch ∉ taskId.toList := by
  obtain ⟨digits, hlist, hdigits⟩ := taskId_spec hid
  rw [hlist]
  intro hmem
  rcases List.mem_cons.1 hmem with rfl | hmem
  · exact hT rfl
  rcases List.mem_cons.1 hmem with rfl | hmem
  · exact hdash rfl
  · rw [hdigits ch hmem] at hch
    cases hch

theorem digit_not_space {ch : Char} (hch : isAsciiDigit ch = true) : isWhiteSpace ch = false := by
  unfold isAsciiDigit at hch
  simp only [Bool.and_eq_true, decide_eq_true_eq, Char.le_def, UInt32.le_iff_toNat_le] at hch
  unfold isWhiteSpace
  simp only [Char.toNat]
  have h0 : ('0' : Char).val.toNat = 48 := rfl
  have h9 : ('9' : Char).val.toNat = 57 := rfl
  simp only [Bool.or_eq_false_iff, Bool.and_eq_false_iff, beq_eq_false_iff_ne,
    decide_eq_false_iff_not]
  omega

theorem taskId_not_space {taskId : String} (hid : isTaskId taskId = true) :
    ∀ ch ∈ taskId.toList, isWhiteSpace ch = false := by
  obtain ⟨digits, hlist, hdigits⟩ := taskId_spec hid
  rw [hlist]
  intro ch hmem
  rcases List.mem_cons.1 hmem with rfl | hmem
  · decide
  rcases List.mem_cons.1 hmem with rfl | hmem
  · decide
  · exact digit_not_space (hdigits ch hmem)

/-- The heading `format_archive_section` writes. -/
theorem writtenHeading {taskId : String} (hid : isTaskId taskId = true) (rest : List Char) :
    archiveHeaderTaskId alphanumeric ("### [".toList ++ taskId.toList ++ ']' :: rest) =
      some taskId := by
  have hclose : ']' ∉ taskId.toList := notMem_taskId hid (by decide) (by decide) (by decide)
  have htake : (taskId.toList ++ ']' :: rest).takeWhile (· ≠ ']') = taskId.toList := by
    rw [List.takeWhile_append_of_pos]
    · simp
    · intro ch hch
      simp only [decide_eq_true_eq]
      rintro rfl
      exact hclose hch
  have hline : "### [".toList ++ taskId.toList ++ ']' :: rest =
      '#' :: '#' :: '#' :: ' ' :: '[' :: (taskId.toList ++ ']' :: rest) := rfl
  have hbracket : bracketedTaskId (' ' :: '[' :: (taskId.toList ++ ']' :: rest)) =
      some taskId := by
    unfold bracketedTaskId
    have hspace : (' ' :: '[' :: (taskId.toList ++ ']' :: rest)).dropWhile isWhiteSpace =
        '[' :: (taskId.toList ++ ']' :: rest) := by
      rw [List.dropWhile_cons, if_pos (by decide), List.dropWhile_cons, if_neg (by decide)]
    simp only [hspace]
    rw [if_pos (by simp), htake, trim_of_not_space (taskId_not_space hid), String.ofList_toList,
      if_pos hid]
  have hfront : ('#' :: '#' :: '#' :: ' ' :: '[' :: (taskId.toList ++ ']' :: rest)).dropWhile
      isWhiteSpace = '#' :: '#' :: '#' :: ' ' :: '[' :: (taskId.toList ++ ']' :: rest) := by
    rw [List.dropWhile_cons, if_neg (by decide)]
  unfold archiveHeaderTaskId
  rw [hline, hfront]
  simp [hbracket]

def writtenHeadline (taskId : String) : List Char :=
  "### [".toList ++ taskId.toList ++ "] выполнена".toList

variable (alphanumeric) in
/-- The heading as a text of its own. -/
theorem writtenHeading_parts {taskId : String} (hid : isTaskId taskId = true) :
    archiveParts alphanumeric (writtenHeadline taskId) = [(taskId, writtenHeadline taskId)] ∧
      archiveLead alphanumeric (writtenHeadline taskId) = [] := by
  have hT : '\n' ∉ taskId.toList := notMem_taskId hid (by decide) (by decide) (by decide)
  have hnewline : '\n' ∉ writtenHeadline taskId := by
    unfold writtenHeadline
    rw [List.mem_append, List.mem_append, not_or, not_or]
    exact ⟨⟨by decide, hT⟩, by decide⟩
  have hlines : inclusive (writtenHeadline taskId) = [writtenHeadline taskId] :=
    inclusive_line (List.append_ne_nil_of_right_ne_nil _ (by decide)) fun hmem =>
      hnewline (List.mem_of_mem_dropLast hmem)
  have hheading : archiveHeaderTaskId alphanumeric (writtenHeadline taskId) = some taskId :=
    writtenHeading hid " выполнена".toList
  unfold archiveParts archiveLead parts lead
  rw [hlines, sections_cons_some hheading, List.takeWhile_cons, hheading]
  simp only [List.takeWhile_nil, sections, List.map_cons, List.map_nil, List.flatten_cons,
    List.flatten_nil, List.append_nil, Option.isNone_some, Bool.false_eq_true, if_false, and_self]

theorem all_space_of_trim {text : List Char} (h : trim text = []) :
    ∀ ch ∈ text, isWhiteSpace ch = true := by
  unfold trim at h
  rw [List.reverse_eq_nil_iff, List.dropWhile_eq_nil_iff] at h
  rw [← List.dropWhile_eq_nil_iff]
  cases hdrop : text.dropWhile isWhiteSpace with
  | nil => rfl
  | cons ch rest =>
    have hnot := List.head?_dropWhile_not isWhiteSpace text
    rw [hdrop] at hnot h
    have := h ch (by simp)
    simp [this] at hnot

/-- In front of a heading that is the first line with a text in it stands white space only. -/
theorem lead_space {taskId : String} {descriptor : List Char}
    (hown : descriptorHasHeader alphanumeric taskId descriptor = true) :
    ∀ ch ∈ archiveLead alphanumeric descriptor, isWhiteSpace ch = true := by
  unfold descriptorHasHeader textLines at hown
  rw [beq_iff_eq] at hown
  unfold archiveLead lead
  generalize inclusive descriptor = ls at hown
  induction ls with
  | nil => simp
  | cons l ls ih =>
    obtain ⟨w, hl, hw⟩ := stripLineEnding_append l
    rw [List.map_cons, List.find?_cons] at hown
    split at hown
    · -- the heading itself
      rw [Option.bind_some, stripLineEnding_heading] at hown
      simp [hown]
    · rename_i hblank
      have hspace : ∀ ch ∈ l, isWhiteSpace ch = true := by
        have hstrip := all_space_of_trim (show trim (stripLineEnding l) = [] by simpa using hblank)
        rw [hl]
        intro ch hch
        rcases List.mem_append.1 hch with hch | hch
        · exact hstrip ch hch
        · exact hw ch hch
      have hnone := (forgiving_header alphanumeric).onBlank hspace
      rw [List.takeWhile_cons, hnone]
      simp only [Option.isNone_none, if_true, List.flatten_cons, List.mem_append]
      rintro ch (hch | hch)
      · exact hspace ch hch
      · exact ih hown ch hch

/-! ## The marker of a section -/

theorem marker_front (taskId batchId : String) :
    ∃ rest, taskMetricsMarker taskId batchId = '<' :: rest := by
  refine ⟨("!-- orchestra/task-execution-metrics@1 task_id=" ++ taskId ++ " batch_id=" ++
    batchId ++ " status=").toList, ?_⟩
  simp [taskMetricsMarker]

theorem marker_last (taskId batchId : String) :
    (taskMetricsMarker taskId batchId).getLast? = some '=' := by
  unfold taskMetricsMarker
  rw [String.toList_append, List.getLast?_append]
  rfl

theorem marker_line {taskId batchId : String} (hid : isTaskId taskId = true)
    (hbatch : contains batchId '\n' = false) : '\n' ∉ taskMetricsMarker taskId batchId := by
  have hT : '\n' ∉ taskId.toList := notMem_taskId hid (by decide) (by decide) (by decide)
  have hB : '\n' ∉ batchId.toList := by simpa [contains] using hbatch
  unfold taskMetricsMarker
  simp only [String.toList_append, List.mem_append, not_or]
  exact ⟨⟨⟨⟨by decide, hT⟩, by decide⟩, hB⟩, by decide⟩

variable {taskId batchId : String}

variable (taskId batchId) in
/-- No match begins in a text without the marker's first character. -/
theorem countMarkers_front {a : List Char} (ha : '<' ∉ a) (b : List Char) :
    countMarkers taskId batchId (a ++ b) = countMarkers taskId batchId b := by
  obtain ⟨rest, hmarker⟩ := marker_front taskId batchId
  refine occurrences_front b fun x y heq hne hp => ?_
  cases y with
  | nil => exact hne rfl
  | cons ch y =>
    rw [hmarker, List.cons_append, List.cons_prefix_cons] at hp
    exact ha (by rw [heq, hp.1]; simp)

/-- White space behind a text adds no match. -/
theorem countMarkers_space (text : List Char) {w : List Char}
    (hw : ∀ ch ∈ w, isWhiteSpace ch = true) :
    countMarkers taskId batchId (text ++ w) = countMarkers taskId batchId text := by
  have hlt : '<' ∉ w := not_space_of_eq hw (by decide)
  have hzero := countMarkers_front taskId batchId hlt []
  rw [List.append_nil] at hzero
  have hsplit := occurrences_append (m := taskMetricsMarker taskId batchId) (a := text) (b := w)
    0 (Nat.zero_le _) fun x y _ _ hp =>
      prefix_of_last (marker_last taskId batchId) (not_space_of_eq hw (by decide)) hp
  unfold countMarkers at hzero ⊢
  rw [hsplit, hzero]
  rfl

/-- Two texts with a line ending between them have the matches of both. -/
theorem countMarkers_line (hline : '\n' ∉ taskMetricsMarker taskId batchId) (a b : List Char) :
    countMarkers taskId batchId (a ++ '\n' :: b) =
      countMarkers taskId batchId a + countMarkers taskId batchId b := by
  have hsplit := occurrences_append (m := taskMetricsMarker taskId batchId) (a := a)
    (b := '\n' :: b) 0 (Nat.zero_le _) fun x y _ _ hp => prefix_of_notMem hline hp
  have hfront := countMarkers_front taskId batchId (a := ['\n']) (by decide) b
  unfold countMarkers at hfront ⊢
  rw [hsplit, ← hfront]
  rfl

/-! ## What a descriptor may not bring -/

variable (alphanumeric) in
/-- A descriptor without an archive heading, its own one in front apart, and without the marker of
the metrics. -/
structure Plain (taskId batchId : String) (descriptor : List Char) : Prop where
  headings : (textLines descriptor).filterMap (archiveHeaderTaskId alphanumeric) =
    if descriptorHasHeader alphanumeric taskId descriptor then [taskId] else []
  marker : countMarkers taskId batchId descriptor = 0

variable (alphanumeric) in
/-- The section of a task: its heading opens it, white space stands in front, the marker is in it
once. -/
structure TaskSection (taskId batchId : String) (section_ : List Char) : Prop where
  parts : ∃ text, archiveParts alphanumeric section_ = [(taskId, text)] ∧
    countMarkers taskId batchId text = 1
  lead : ∀ ch ∈ archiveLead alphanumeric section_, isWhiteSpace ch = true
  lineEnd : LineEnd section_

theorem lineEnd_concat (text : List Char) : LineEnd (text ++ ['\n']) := by
  intro ch hch
  rw [List.getLast?_append] at hch
  exact (Option.some.inj hch).symm

variable (alphanumeric) in
theorem keys_trimEnd (text : List Char) :
    (archiveParts alphanumeric (trimEnd text)).map Prod.fst =
      (textLines text).filterMap (archiveHeaderTaskId alphanumeric) := by
  obtain ⟨w, htext, hw⟩ := trimEnd_append text
  have hparts := archiveParts_space alphanumeric (trimEnd text) hw
  rw [← htext] at hparts
  rw [completed_keys, hparts, padLast_keys]

theorem countMarkers_trimEnd (text : List Char) :
    countMarkers taskId batchId (trimEnd text) = countMarkers taskId batchId text := by
  obtain ⟨w, htext, hw⟩ := trimEnd_append text
  conv_rhs => rw [htext]
  exact (countMarkers_space _ hw).symm

/-- The part in front of the metrics: one heading, and white space in front of it. -/
theorem section_front {descriptor : List Char} (hid : isTaskId taskId = true)
    (hheadings : (textLines descriptor).filterMap (archiveHeaderTaskId alphanumeric) =
      if descriptorHasHeader alphanumeric taskId descriptor then [taskId] else []) :
    let front := (if descriptorHasHeader alphanumeric taskId descriptor then []
      else ("### [" ++ taskId ++ "] выполнена\n\n").toList) ++ trimEnd descriptor ++ ['\n', '\n']
    (archiveParts alphanumeric front).map Prod.fst = [taskId] ∧
      ∀ ch ∈ archiveLead alphanumeric front, isWhiteSpace ch = true := by
  have hnl : ∀ ch ∈ ['\n', '\n'], isWhiteSpace ch = true := List.all_eq_true.1 rfl
  have hkeys := keys_trimEnd alphanumeric descriptor
  have hblank := archiveParts_space alphanumeric (trimEnd descriptor) hnl
  rw [hheadings] at hkeys
  cases hown : descriptorHasHeader alphanumeric taskId descriptor with
  | true =>
    rw [hown, if_pos rfl] at hkeys
    simp only [if_true, List.nil_append]
    have hne : archiveParts alphanumeric (trimEnd descriptor) ≠ [] := by
      intro hnil
      rw [hnil] at hkeys
      cases hkeys
    obtain ⟨w, htext, hw⟩ := trimEnd_append descriptor
    refine ⟨by rw [hblank, padLast_keys, hkeys], ?_⟩
    rw [archiveLead_space hnl hne, ← archiveLead_space hw hne, ← htext]
    exact lead_space hown
  | false =>
    rw [hown, if_neg (by simp)] at hkeys
    simp only [Bool.false_eq_true, if_false]
    obtain ⟨hparts, hlead⟩ := writtenHeading_parts alphanumeric hid
    have hnone : archiveParts alphanumeric (trimEnd descriptor ++ ['\n', '\n']) = [] := by
      have := congrArg (List.map Prod.fst) hblank
      rw [padLast_keys, hkeys] at this
      exact List.map_eq_nil_iff.1 this
    have hfront := archiveParts_space alphanumeric (writtenHeadline taskId) hnl
    rw [hparts] at hfront
    have hne : archiveParts alphanumeric (writtenHeadline taskId ++ ['\n', '\n']) ≠ [] := by
      rw [hfront]
      simp [padLast]
    have hend : LineEnd (writtenHeadline taskId ++ ['\n', '\n']) := by
      have := lineEnd_concat (writtenHeadline taskId ++ ['\n'])
      simpa using this
    have hhead : ("### [" ++ taskId ++ "] выполнена\n\n").toList =
        writtenHeadline taskId ++ ['\n', '\n'] := by
      simp [writtenHeadline]
    rw [hhead, List.append_assoc]
    constructor
    · rw [archiveParts_join _ hend, hnone, List.append_nil, padLast_keys, hfront]
      rfl
    · rw [archiveLead_join hend hne, archiveLead_space hnl (by rw [hparts]; simp), hlead]
      simp

theorem heading_chars {taskId : String} (hid : isTaskId taskId = true) (own : Bool) :
    '<' ∉ if own then [] else ("### [" ++ taskId ++ "] выполнена\n\n").toList := by
  have hT : '<' ∉ taskId.toList := notMem_taskId hid (by decide) (by decide) (by decide)
  cases own with
  | true => simp
  | false =>
    simp only [Bool.false_eq_true, if_false, String.toList_append, List.mem_append, not_or]
    exact ⟨⟨by decide, hT⟩, by decide⟩

/-- **The section of a task**: one heading, and the marker once, if the descriptor brings
neither. -/
theorem formatArchiveSection_spec {descriptor metrics : List Char} (hid : isTaskId taskId = true)
    (hbatch : contains batchId '\n' = false)
    (hmetrics : validateTaskMetricsBlock alphanumeric metrics taskId batchId = .ok ())
    (hplain : Plain alphanumeric taskId batchId descriptor) :
    TaskSection alphanumeric taskId batchId
      (formatArchiveSection alphanumeric taskId descriptor metrics) := by
  obtain ⟨-, honce, hnone⟩ := demand_eq_ok.1 hmetrics
  obtain ⟨hkeys, hlead⟩ := section_front hid hplain.headings
  have hline := marker_line hid hbatch
  unfold formatArchiveSection
  generalize hhead : (if descriptorHasHeader alphanumeric taskId descriptor then []
    else ("### [" ++ taskId ++ "] выполнена\n\n").toList) = head at hkeys hlead
  have hchars : '<' ∉ head := by
    rw [← hhead]
    exact heading_chars hid _
  generalize hfront : head ++ trimEnd descriptor ++ ['\n', '\n'] = front at hkeys hlead ⊢
  have hend : LineEnd front := by
    have := lineEnd_concat (head ++ trimEnd descriptor ++ ['\n'])
    rw [← hfront]
    simpa using this
  have hne : archiveParts alphanumeric front ≠ [] := by
    intro hnil
    rw [hnil] at hkeys
    cases hkeys
  -- the metrics have no heading, so they belong to the section in front
  have hmetricsParts : archiveParts alphanumeric (trimEnd metrics ++ ['\n']) = [] := by
    have hkeys' := keys_trimEnd alphanumeric metrics
    rw [List.filterMap_eq_nil_iff.2 hnone, List.map_eq_nil_iff] at hkeys'
    rw [archiveParts_space _ _ (List.all_eq_true.1 rfl), hkeys']
    rfl
  have hparts := archiveParts_join alphanumeric hend
    (trimEnd metrics ++ ['\n'])
  rw [hmetricsParts, List.append_nil, ← List.append_assoc] at hparts
  have hsingle : ∃ text, archiveParts alphanumeric (front ++ trimEnd metrics ++ ['\n']) =
      [(taskId, text)] := by
    have hkeys' := congrArg (List.map Prod.fst) hparts
    rw [padLast_keys, hkeys] at hkeys'
    cases hlist : archiveParts alphanumeric (front ++ trimEnd metrics ++ ['\n']) with
    | nil =>
      rw [hlist] at hkeys'
      cases hkeys'
    | cons p ps =>
      rw [hlist] at hkeys'
      obtain ⟨hp, hps⟩ := List.cons.inj hkeys'
      rw [List.map_eq_nil_iff.1 hps]
      exact ⟨p.2, by rw [← hp]⟩
  have hleadAll : archiveLead alphanumeric (front ++ trimEnd metrics ++ ['\n']) =
      archiveLead alphanumeric front := by
    rw [List.append_assoc]
    exact archiveLead_join hend hne _
  obtain ⟨text, htext⟩ := hsingle
  refine ⟨⟨text, htext, ?_⟩, by rw [hleadAll]; exact hlead, lineEnd_concat _⟩
  -- the whole section has the marker once, and so has what follows its white space
  have hwhole := lead_parts (h := archiveHeaderTaskId alphanumeric)
    (front ++ trimEnd metrics ++ ['\n'])
  rw [show parts (archiveHeaderTaskId alphanumeric) (front ++ trimEnd metrics ++ ['\n']) =
    [(taskId, text)] from htext] at hwhole
  have hcount : countMarkers taskId batchId (front ++ trimEnd metrics ++ ['\n']) = 1 := by
    have hshape : front ++ trimEnd metrics ++ ['\n'] =
        head ++ (trimEnd descriptor ++ '\n' :: (['\n'] ++ (trimEnd metrics ++ ['\n']))) := by
      rw [← hfront]
      simp
    rw [hshape, countMarkers_front _ _ hchars, countMarkers_line hline,
      countMarkers_front _ _ (by decide), countMarkers_space _ (List.all_eq_true.1 rfl),
      countMarkers_trimEnd, countMarkers_trimEnd, honce, hplain.marker]
  rw [← hwhole] at hcount
  have hspace : '<' ∉ archiveLead alphanumeric (front ++ trimEnd metrics ++ ['\n']) := by
    rw [hleadAll]
    exact not_space_of_eq hlead (by decide)
  rw [countMarkers_front _ _ hspace] at hcount
  simpa using hcount

end Archive

end Orchestrail
