import Orchestrail.Proof.ActiveLines
import Orchestrail.Proof.Verification
import Orchestrail.Spec.ReviewCycle

/-!
# A failed gate stays in the round

Command output is quoted into a line-oriented artifact that the reviewer may keep, edit or replace.
-/

namespace Orchestrail

open Text Outcome Outline

/-! ## Lines that mark nothing -/

/-- The words of the contract that the proofs read, as characters. -/
theorem markerWords : "ИТОГ:".toList = ['И', 'Т', 'О', 'Г', ':'] ∧
    "Риск-повышен:".toList = 'Р' :: "иск-повышен:".toList ∧
    ("новая".toList).isEmpty = false ∧
    (" — статус: новая\n" : String).toList = (" — статус: новая" : String).toList ++ ['\n'] ∧
    "| (пусто)\n".toList = ('|' :: " (пусто)".toList) ++ ['\n'] ∧
    '\n' ∉ '|' :: " (пусто)".toList := by
  decide +kernel

/-- A line of the finding's body: it starts like an item or like quoted output. -/
def Inert (line : List Char) : Prop := ∃ rest, line = '-' :: rest ∨ line = '|' :: rest

theorem inert_trim {line : List Char} (h : Inert line) :
    trim line ≠ [] ∧ Inert (trim line) := by
  obtain ⟨rest, rfl | rfl⟩ := h
  · obtain ⟨behind, hline, -⟩ := @trim_cons '-' (by decide) rest
    exact ⟨by rw [hline]; simp, behind, .inl hline⟩
  · obtain ⟨behind, hline, -⟩ := @trim_cons '|' (by decide) rest
    exact ⟨by rw [hline]; simp, behind, .inr hline⟩

/-- No heading, risk marker or terminal line starts like an inert line. -/
theorem isPrefixOf_inert {pattern line : List Char} (h : Inert line)
    (hp : pattern.head?.any (fun ch => ch != '-' && ch != '|') = true) :
    pattern.isPrefixOf line = false := by
  cases pattern with
  | nil => cases hp
  | cons ch pattern =>
    simp only [List.head?_cons, Option.any_some, Bool.and_eq_true, bne_iff_ne] at hp
    obtain ⟨rest, rfl | rfl⟩ := h
    · simp [List.isPrefixOf, hp.1]
    · simp [List.isPrefixOf, hp.2]

theorem parseHeading_inert {line : List Char} (h : Inert line) : parseHeading line = .ok none := by
  have hfront : line.dropWhile isWhiteSpace = line := by
    obtain ⟨rest, rfl | rfl⟩ := h
    · rw [List.dropWhile_cons, if_neg (by decide)]
    · rw [List.dropWhile_cons, if_neg (by decide)]
  unfold parseHeading
  simp only [hfront]
  rw [isPrefixOf_inert h (by decide)]
  rfl

theorem isTailLine_inert {line : List Char} (h : Inert line) : isTailLine line = false := by
  refine isPrefixOf_inert h ?_
  rw [markerWords.1]
  decide

theorem riskMarker_inert {line : List Char} (h : Inert line) : riskMarker line = none := by
  unfold riskMarker stripFront
  have hword : "Риск-повышен:".toList.head?.any (fun ch => ch != '-' && ch != '|') = true := by
    rw [markerWords.2.1]
    decide
  rw [isPrefixOf_inert h hword]
  rfl

theorem headings_inert {lines : List (List Char)} (h : ∀ line ∈ lines, Inert line) :
    headings lines = .ok [] := by
  have hmap : lines.mapM parseHeading = .ok (lines.map fun _ => none) := by
    refine mapM_eq_ok.2 ?_
    rw [List.forall₂_map_right_iff, List.forall₂_same]
    exact fun line hline => parseHeading_inert (h line hline)
  have hnone : (lines.map fun _ => (none : Option Finding)).reduceOption = [] := by
    simp [reduceOption_eq]
  simp only [headings, hmap, Except.map, hnone]

/-! ## The body of the finding -/

/-- A text whose active lines are inert. -/
def InertText (text : List Char) : Prop := ∀ line ∈ activeLines text, Inert line

theorem inertText_cons {line rest : List Char} (hline : Inert line) (hnew : '\n' ∉ line)
    (hrest : InertText rest) : InertText (line ++ '\n' :: rest) := by
  intro l hl
  rw [activeLines_cons hnew] at hl
  rcases List.mem_append.1 hl with hl | hl
  · obtain ⟨hne, hinert⟩ := inert_trim hline
    simp only [shown, List.map_cons, List.map_nil, List.mem_filter, List.mem_singleton] at hl
    exact hl.1 ▸ hinert
  · exact hrest l hl

theorem inertText_nil : InertText [] := by
  intro line hline
  cases hline

theorem inertText_newline {rest : List Char} (h : InertText rest) : InertText ('\n' :: rest) := by
  intro line hline
  refine h line ?_
  have hcut := activeLines_cut [] rest
  rw [List.nil_append] at hcut
  rw [hcut] at hline
  exact hline

theorem inertText_quoteLines (lines : List (List Char)) :
    InertText (lines.flatMap fun line =>
      "| ".toList ++ line.filter (fun ch => ch == '\t' || !isControl ch) ++ ['\n']) := by
  induction lines with
  | nil => exact inertText_nil
  | cons line rest ih =>
    have hcontrol : isControl '\n' = true := by decide
    rw [List.flatMap_cons, List.append_assoc, List.singleton_append]
    exact inertText_cons ⟨_, .inr rfl⟩ (by simp [hcontrol]) ih

/-- Quoted output is inert, whatever it says. -/
theorem inertText_quote (text : List Char) : InertText (quoteExternalOutput text) := by
  unfold quoteExternalOutput
  split
  case h_1 =>
    obtain ⟨-, -, -, -, hempty, hnew⟩ := markerWords
    rw [hempty]
    exact inertText_cons ⟨_, .inr rfl⟩ hnew inertText_nil
  case h_2 => exact inertText_quoteLines _

/-! ### Fields -/

/-- A text of one line. -/
def OneLine (text : String) : Prop := '\n' ∉ text.toList

instance (text : String) : Decidable (OneLine text) :=
  inferInstanceAs (Decidable ('\n' ∉ text.toList))

theorem oneLine_append {a b : String} (ha : OneLine a) (hb : OneLine b) : OneLine (a ++ b) := by
  unfold OneLine
  rw [String.toList_append, List.mem_append, not_or]
  exact ⟨ha, hb⟩

theorem notMem_intercalate {ch : Char} {sep : List Char} (hsep : ch ∉ sep)
    {lines : List (List Char)} (h : ∀ line ∈ lines, ch ∉ line) : ch ∉ sep.intercalate lines := by
  induction lines with
  | nil => exact List.not_mem_nil
  | cons line rest ih =>
    have hline := h line List.mem_cons_self
    cases rest with
    | nil => simpa using hline
    | cons next rest =>
      rw [List.intercalate_cons_cons, List.mem_append, List.mem_append, not_or, not_or]
      exact ⟨⟨hline, hsep⟩, ih fun l hl => h l (List.mem_cons_of_mem _ hl)⟩

/-- A field collapsed onto one line. -/
theorem oneLine_field (value : String) : OneLine (oneLine value) := by
  unfold OneLine oneLine
  rw [String.toList_ofList]
  refine notMem_intercalate (by decide) fun piece hpiece hch => ?_
  have hsep := piece_not_sep (List.mem_filter.1 hpiece).1 '\n' hch
  revert hsep
  decide

theorem oneLine_nat (n : Nat) : OneLine (toString n) := by
  have hdigit : ∀ c ∈ Nat.toDigits 10 n, c.isDigit = true :=
    fun c hc => Nat.isDigit_of_mem_toDigits (by omega) (by omega) hc
  have hlist : (toString n).toList = Nat.toDigits 10 n := by
    simp [toString, Nat.repr]
  intro hmem
  rw [hlist] at hmem
  have := hdigit '\n' hmem
  revert this
  decide

theorem oneLine_int (n : Int) : OneLine (toString n) := by
  cases n with
  | ofNat n => exact oneLine_nat n
  | negSucc n =>
    have htext : toString (Int.negSucc n) = "-" ++ toString (n + 1) := rfl
    rw [htext]
    exact oneLine_append (by decide) (oneLine_nat _)

theorem oneLine_taskId {taskId : String} (h : isTaskId taskId = true) : OneLine taskId := by
  intro hmem
  have := taskId_not_space h '\n' hmem
  revert this
  decide

theorem oneLine_hex (bytes : List UInt8) : OneLine (hex bytes) := by
  unfold OneLine hex
  rw [String.toList_ofList]
  intro hmem
  obtain ⟨b, -, hch⟩ := List.mem_flatMap.1 hmem
  have := List.all_eq_true.1 (hexPad_hex 2 b.toNat) '\n' hch
  revert this
  decide

/-- An item of the body, on one line. -/
structure ItemLine (text : String) : Prop where
  dash : text.toList.head? = some '-'
  oneLine : OneLine text

theorem ItemLine.append {a b : String} (ha : ItemLine a) (hb : OneLine b) : ItemLine (a ++ b) :=
  ⟨by rw [String.toList_append, List.head?_append, ha.dash]; rfl, oneLine_append ha.oneLine hb⟩

instance (text : String) : Decidable (ItemLine text) :=
  decidable_of_iff (text.toList.head? = some '-' ∧ OneLine text)
    ⟨fun h => ⟨h.1, h.2⟩, fun h => ⟨h.dash, h.oneLine⟩⟩

/-- The fixed texts of the items. -/
theorem bodyTexts :
    (ItemLine "- Упавшая команда: " ∧ OneLine " — verdict=" ∧ OneLine ", exit=" ∧ OneLine "нет") ∧
    ItemLine "- Причина: " ∧
    (ItemLine "- Полный протокол " ∧ OneLine "прогона: .work/tasks/" ∧
      OneLine reviewCycleTranscriptFile) ∧
    (ItemLine "- Хвост вывода " ∧ OneLine "(внешние данные; " ∧ OneLine "каждая строка " ∧
      OneLine "префиксована \x60| \x60, " ∧ OneLine "чтобы вывод не мог " ∧
      OneLine "подделать маркеры " ∧
      ("ревью):\n\n" : String).toList = ['р', 'е', 'в', 'ь', 'ю', ')', ':'] ++ '\n' :: ['\n']) ∧
    (ItemLine "- Обнаружено движком " ∧ OneLine "в worktree задачи " ∧
      OneLine "до вызова ревьюера " ∧ OneLine "этого цикла: профиль " ∧ OneLine " (отпечаток " ∧
      OneLine "), команд ") := by
  decide +kernel

theorem oneLine_exitCode (code : Option Int) : OneLine (exitCodeText code) := by
  cases code with
  | none => exact bodyTexts.1.2.2.2
  | some code => exact oneLine_int code

/-- An item in front of an inert text. -/
theorem inertText_item {text tail : String} {last behind rest : List Char} (h : ItemLine text)
    (htail : tail.toList = last ++ '\n' :: behind) (hlast : '\n' ∉ last)
    (hrest : InertText (behind ++ rest)) : InertText ((text ++ tail).toList ++ rest) := by
  have hline : Inert (text.toList ++ last) := by
    cases hl : text.toList with
    | nil => have := h.dash; rw [hl] at this; cases this
    | cons ch chars =>
      have hch := h.dash
      rw [hl] at hch
      obtain rfl := Option.some.inj hch
      exact ⟨chars ++ last, .inl rfl⟩
  have hsplit : (text ++ tail).toList ++ rest =
      (text.toList ++ last) ++ '\n' :: (behind ++ rest) := by
    rw [String.toList_append, htail]
    simp
  rw [hsplit]
  have hnew : '\n' ∉ text.toList := h.oneLine
  exact inertText_cons hline (by simp [hnew, hlast]) hrest

theorem inertText_dot {text : String} {rest : List Char} (h : ItemLine text)
    (hrest : InertText rest) : InertText ((text ++ ".\n").toList ++ rest) := by
  have hdot : (".\n" : String).toList = ['.'] ++ '\n' :: [] := by decide
  exact inertText_item h hdot (by decide) hrest

theorem inertText_failedCommand (command : Option VerificationCommandRun) {rest : List Char}
    (h : InertText rest) : InertText (failedCommandItem command ++ rest) := by
  cases command with
  | none => exact h
  | some command =>
    obtain ⟨hfront, hverdict, hexit, -⟩ := bodyTexts.1
    have hitem : ItemLine ("- Упавшая команда: " ++ oneLine command.command ++ " — verdict=" ++
        oneLine command.reason ++ ", exit=" ++ exitCodeText command.exitCode) :=
      ((((hfront.append (oneLine_field _)).append hverdict).append (oneLine_field _)).append
        hexit).append (oneLine_exitCode _)
    exact inertText_dot hitem h

theorem inertText_protocol {taskId : String} (h : isTaskId taskId = true) {rest : List Char}
    (hrest : InertText rest) : InertText (("- Полный протокол " ++ "прогона: .work/tasks/" ++
      taskId ++ "/" ++ reviewCycleTranscriptFile ++ "\n").toList ++ rest) := by
  obtain ⟨hfront, hdirectory, hfile⟩ := bodyTexts.2.2.1
  have hitem : ItemLine ("- Полный протокол " ++ "прогона: .work/tasks/" ++ taskId ++ "/" ++
      reviewCycleTranscriptFile) :=
    (((hfront.append hdirectory).append (oneLine_taskId h)).append (by decide)).append hfile
  have hnewline : ("\n" : String).toList = [] ++ '\n' :: [] := by decide
  exact inertText_item hitem hnewline (by decide) hrest

theorem inertText_tail {rest : List Char} (hrest : InertText rest) : InertText
    (("- Хвост вывода " ++ "(внешние данные; " ++ "каждая строка " ++ "префиксована \x60| \x60, " ++
      "чтобы вывод не мог " ++ "подделать маркеры " ++ "ревью):\n\n").toList ++ rest) := by
  obtain ⟨hfront, hdata, hline, hmarked, hforge, hmarkers, hlast⟩ := bodyTexts.2.2.2.1
  have hitem : ItemLine ("- Хвост вывода " ++ "(внешние данные; " ++ "каждая строка " ++
      "префиксована \x60| \x60, " ++ "чтобы вывод не мог " ++ "подделать маркеры ") :=
    ((((hfront.append hdata).append hline).append hmarked).append hforge).append hmarkers
  exact inertText_item hitem hlast (by decide) (inertText_newline hrest)

theorem inertText_source {profile : VerificationProfile} (h : OneLine profile.fingerprint)
    {rest : List Char} (hrest : InertText rest) : InertText (("- Обнаружено движком " ++
      "в worktree задачи " ++ "до вызова ревьюера " ++ "этого цикла: профиль " ++
      oneLine profile.source ++ " (отпечаток " ++
      String.ofList (profile.fingerprint.toList.take 12) ++ "), команд " ++
      toString profile.commands.length ++ ".\n").toList ++ rest) := by
  have hfingerprint : OneLine (String.ofList (profile.fingerprint.toList.take 12)) := by
    unfold OneLine
    rw [String.toList_ofList]
    exact fun hmem => h (List.mem_of_mem_take hmem)
  obtain ⟨hengine, hworktree, hcall, hcycle, hprint, hcount⟩ := bodyTexts.2.2.2.2
  have hfront : ItemLine ("- Обнаружено движком " ++ "в worktree задачи " ++
      "до вызова ревьюера " ++ "этого цикла: профиль ") :=
    ((hengine.append hworktree).append hcall).append hcycle
  have hitem := ((((hfront.append (oneLine_field profile.source)).append
    hprint).append hfingerprint).append hcount).append (oneLine_nat profile.commands.length)
  exact inertText_dot hitem hrest

/-- **Whatever a failed run says, the body of its finding marks nothing.** -/
theorem inertText_body {taskId : String} {profile : VerificationProfile} (run : VerificationRun)
    (reason : String) (htask : isTaskId taskId = true) (hprofile : OneLine profile.fingerprint) :
    InertText (renderReviewCycleFindingBody taskId profile run reason) := by
  have hreason : ItemLine ("- Причина: " ++ oneLine reason) :=
    bodyTexts.2.1.append (oneLine_field _)
  unfold renderReviewCycleFindingBody
  rw [List.append_assoc, List.append_assoc, List.append_assoc, List.append_assoc]
  exact inertText_source hprofile <|
    inertText_failedCommand _ <|
    inertText_dot hreason <|
    inertText_protocol htask <|
    inertText_tail (inertText_quote _)

/-! ## The heading of the finding -/

theorem lastMatch_append {pattern : List Char} (front : List Char) {text : List Char} {p : Nat}
    (h : lastMatch pattern text = some p) :
    lastMatch pattern (front ++ text) = some (front.length + p) := by
  induction front with
  | nil => simpa using h
  | cons ch front ih =>
    rw [List.cons_append, lastMatch, ih, List.length_cons]
    simp only [Option.some.injEq]
    omega

/-- What stands behind the id in the heading of the engine's finding. -/
def gateHeadingTail : List Char := (" " ++ reviewCycleFindingTitle ++ " — статус: новая").toList

theorem gateHeadingTail_read : lastMatch "статус:".toList gateHeadingTail = some 50 ∧
    trim (gateHeadingTail.drop (50 + "статус:".toList.length)) = "новая".toList ∧
    String.ofList (trim (((trim (gateHeadingTail.take 50)).dropWhile
      fun ch => ch == '—' || ch == '-').rdropWhile fun ch => ch == '—' || ch == '-')) =
        reviewCycleFindingTitle ∧
    Status.parse "новая".toList = .new ∧ '\n' ∉ gateHeadingTail := by
  decide +kernel

/-- **The heading reads as one open finding** with the engine's title. -/
theorem parseHeading_gate {id : List Char} (hmarker : isMarkerId (String.ofList id) = true)
    (hclose : ']' ∉ id) (hspace : ∀ ch ∈ id, isWhiteSpace ch = false) :
    parseHeading (['#', '#', '#', ' ', '['] ++ id ++ [']'] ++ gateHeadingTail) =
      .ok (some ⟨String.ofList id, reviewCycleFindingTitle, .new⟩) := by
  obtain ⟨hlast, hliteral, htitle, hstatus, -⟩ := gateHeadingTail_read
  have hlen : (['#', '#', '#', ' ', '['] ++ id ++ [']']).length = 4 + 1 + id.length + 1 := by
    simp only [List.length_append, List.length_cons, List.length_nil]
  have hwhole := lastMatch_append (['#', '#', '#', ' ', '['] ++ id ++ [']']) hlast
  have hdrop : (['#', '#', '#', ' ', '['] ++ id ++ [']'] ++ gateHeadingTail).drop
      ((['#', '#', '#', ' ', '['] ++ id ++ [']']).length + 50 + "статус:".toList.length) =
        gateHeadingTail.drop (50 + "статус:".toList.length) := by
    rw [Nat.add_assoc, List.drop_length_add_append]
  have htake : ((['#', '#', '#', ' ', '['] ++ id ++ [']'] ++ gateHeadingTail).take
      ((['#', '#', '#', ' ', '['] ++ id ++ [']']).length + 50)).drop (4 + 1 + id.length + 1) =
        gateHeadingTail.take 50 := by
    rw [List.take_length_add_append, ← hlen, List.drop_left]
  have hfront : (['#', '#', '#', ' ', '['] ++ id ++ [']'] ++ gateHeadingTail).dropWhile
      isWhiteSpace = ['#', '#', '#', ' ', '['] ++ id ++ [']'] ++ gateHeadingTail := rfl
  have hmark : "###".toList.isPrefixOf
      (['#', '#', '#', ' ', '['] ++ id ++ [']'] ++ gateHeadingTail) = true := rfl
  have hopen : splitOnce ['['] (['#', '#', '#', ' ', '['] ++ id ++ [']'] ++ gateHeadingTail) =
      some (['#', '#', '#', ' '], id ++ ']' :: gateHeadingTail) := by
    refine splitOnce_char.2 ⟨?_, by decide⟩
    rw [List.append_assoc, List.append_assoc]
    rfl
  have hshut : splitOnce [']'] (id ++ ']' :: gateHeadingTail) = some (id, gateHeadingTail) :=
    splitOnce_char.2 ⟨rfl, hclose⟩
  have hword : ("новая".toList).isEmpty = false := markerWords.2.2.1
  generalize hl : ['#', '#', '#', ' ', '['] ++ id ++ [']'] ++ gateHeadingTail = l at *
  generalize (['#', '#', '#', ' ', '['] ++ id ++ [']']).length = n at *
  unfold parseHeading
  simp only [hfront, hmark, hopen, hshut, hwhole, trim_of_not_space hspace, hmarker, hdrop,
    hliteral, hword, hstatus, List.length_cons, List.length_nil, htake,
    htitle]
  have hno : ¬ n + 50 < 0 + 1 + 1 + 1 + 1 + 1 + id.length + 1 := by omega
  rw [if_neg hno]
  rfl

/-! ## The id of the finding -/

theorem digit_toDigits {n : Nat} : ∀ ch ∈ Nat.toDigits 10 n, isAsciiDigit ch = true := by
  intro ch hch
  have hdigit : ch.isDigit = true := Nat.isDigit_of_mem_toDigits (by omega) (by omega) hch
  simpa [isAsciiDigit, Char.isDigit, Char.le_def] using hdigit

theorem digit_padded {n : Nat} : ∀ ch ∈ padded 2 n, isAsciiDigit ch = true := by
  intro ch hch
  rcases List.mem_append.1 hch with hch | hch
  · obtain rfl := List.eq_of_mem_replicate hch
    decide
  · exact digit_toDigits ch hch

theorem padded_ne_nil (n : Nat) : padded 2 n ≠ [] := by
  intro h
  have hnil := (List.append_eq_nil_iff.1 h).2
  exact Nat.toDigits_ne_nil hnil

/-- Digits are read as their number. -/
theorem parseU32_digits {text : List Char} {n : Nat}
    (hdigit : ∀ ch ∈ text, isAsciiDigit ch = true) (hne : text ≠ [])
    (hvalue : Nat.ofDigitChars 10 text 0 = n) (h : n ≤ u32Max) : parseU32 text = some n := by
  have hplus : ∀ rest, text ≠ '+' :: rest := by
    intro rest heq
    have := hdigit '+' (by rw [heq]; exact List.mem_cons_self)
    revert this
    decide
  have hall : text.all isAsciiDigit = true := List.all_eq_true.2 hdigit
  unfold parseU32
  split
  case h_1 _ rest => exact absurd rfl (hplus rest)
  case h_2 =>
    simp only [hvalue, hall, h, hne, ne_eq, not_false_eq_true, and_self, if_true]

theorem parseU32_padded {n : Nat} (h : n ≤ u32Max) : parseU32 (padded 2 n) = some n := by
  have hvalue : Nat.ofDigitChars 10 (padded 2 n) 0 = n := by
    unfold padded
    rw [Nat.ofDigitChars_append, Nat.ofDigitChars_replicate_zero, Nat.mul_zero,
      Nat.ofDigitChars_ten_toDigits]
  exact parseU32_digits digit_padded (padded_ne_nil n) hvalue h

/-- The characters of the id of a new finding. -/
theorem nextReviewFindingId_toList (parsed : ReviewParse) : (nextReviewFindingId parsed).toList =
    'R' :: '-' :: padded 2 (satAdd (highestReviewNumber parsed) 1) := by
  unfold nextReviewFindingId
  rw [String.toList_ofList]
  rfl

theorem stripFront_next (parsed : ReviewParse) :
    stripFront "R-".toList (nextReviewFindingId parsed).toList =
      some (padded 2 (satAdd (highestReviewNumber parsed) 1)) := by
  rw [nextReviewFindingId_toList]
  rfl

/-- The id of a new finding is a marker id of a review finding, on one line. -/
theorem nextReviewFindingId_marker (parsed : ReviewParse) :
    isMarkerId (nextReviewFindingId parsed) = true ∧
      hasPrefix "R-" (nextReviewFindingId parsed) = true ∧
      ∀ ch ∈ (nextReviewFindingId parsed).toList,
        isWhiteSpace ch = false ∧ ch ≠ ']' := by
  refine ⟨?_, ?_, ?_⟩
  · have hcounter : isCounter (String.ofList (padded 2 (satAdd (highestReviewNumber parsed) 1)))
        = true := by
      unfold isCounter
      rw [String.toList_ofList, Bool.and_eq_true]
      refine ⟨?_, List.all_eq_true.2 digit_padded⟩
      have hne := padded_ne_nil (satAdd (highestReviewNumber parsed) 1)
      simpa [← String.toList_inj] using hne
    simp only [isMarkerId, behindPrefix, stripFront_next, Option.map_some, Option.any_some,
      hcounter, Bool.true_or]
  · unfold hasPrefix
    rw [nextReviewFindingId_toList]
    rfl
  · intro ch hch
    rw [nextReviewFindingId_toList] at hch
    rcases List.mem_cons.1 hch with rfl | hch
    · decide
    rcases List.mem_cons.1 hch with rfl | hch
    · decide
    · have hdigit := digit_padded ch hch
      refine ⟨digit_not_space hdigit, ?_⟩
      rintro rfl
      revert hdigit
      decide

/-- The id of the last number. -/
def lastReviewFindingId : String := "R-4294967295"

/-- A review finding's number is at most the highest. -/
theorem le_highest {parsed : ReviewParse} {finding : Finding} {n : Nat}
    (hfinding : finding ∈ parsed.findings) (hreview : finding.isReview = true)
    (hnumber : (stripFront "R-".toList finding.id.toList).bind parseU32 = some n) :
    n ≤ highestReviewNumber parsed :=
  List.le_max?_getD_of_mem
    (List.mem_filterMap.2 ⟨finding, List.mem_filter.2 ⟨hfinding, hreview⟩, hnumber⟩)

/-- **A new finding takes an id that no finding of the artifact has**, exactly while the last one is
free. -/
theorem nextReviewFindingId_fresh {parsed : ReviewParse} :
    nextReviewFindingId parsed ∉ parsed.findings.map (·.id) ↔
      lastReviewFindingId ∉ parsed.findings.map (·.id) := by
  have hlast : u32Max ≤ highestReviewNumber parsed →
      nextReviewFindingId parsed = lastReviewFindingId := by
    intro hfull
    have hsat : satAdd (highestReviewNumber parsed) 1 = u32Max := by
      unfold satAdd
      omega
    unfold nextReviewFindingId
    rw [hsat]
    decide +kernel
  constructor
  · intro hfresh hmem
    refine hfresh (hlast ?_ ▸ hmem)
    obtain ⟨finding, hfinding, hid⟩ := List.mem_map.1 hmem
    have hread : hasPrefix "R-" lastReviewFindingId = true ∧
        (stripFront "R-".toList lastReviewFindingId.toList).bind parseU32 = some u32Max := by
      decide +kernel
    refine le_highest hfinding ?_ (hid ▸ hread.2)
    unfold Finding.isReview
    rw [hid]
    exact hread.1
  · intro hfree hmem
    by_cases hroom : highestReviewNumber parsed < u32Max
    · obtain ⟨finding, hfinding, hid⟩ := List.mem_map.1 hmem
      have hsat : satAdd (highestReviewNumber parsed) 1 = highestReviewNumber parsed + 1 := by
        unfold satAdd
        omega
      have hreview : finding.isReview = true := by
        unfold Finding.isReview
        rw [hid]
        exact (nextReviewFindingId_marker parsed).2.1
      have hle : satAdd (highestReviewNumber parsed) 1 ≤ highestReviewNumber parsed := by
        refine le_highest hfinding hreview ?_
        rw [hid, stripFront_next]
        exact parseU32_padded (by unfold satAdd; omega)
      omega
    · exact hfree (hlast (Nat.not_lt.1 hroom) ▸ hmem)

/-! ## Mixing the finding in -/

theorem rposition_none {α : Type} {p : α → Bool} {l : List α} (h : rposition p l = none) :
    ∀ x ∈ l, p x = false := by
  induction l with
  | nil => simp
  | cons b l ih =>
    unfold rposition at h
    split at h
    · cases h
    · rename_i hrest
      split at h
      · cases h
      · rename_i hb
        rintro x (_ | ⟨_, hx⟩)
        · simpa using hb
        · exact ih hrest x hx

theorem rposition_some {α : Type} {p : α → Bool} {l : List α} {index : Nat}
    (h : rposition p l = some index) : ∃ a rest, l.drop index = a :: rest ∧ p a = true ∧
      ∀ x ∈ rest, p x = false := by
  induction l generalizing index with
  | nil => cases h
  | cons b l ih =>
    unfold rposition at h
    split at h
    · rename_i i hi
      obtain rfl := Option.some.inj h
      exact ih hi
    · rename_i hrest
      split at h
      · rename_i hb
        obtain rfl := Option.some.inj h
        exact ⟨b, l, rfl, hb, rposition_none hrest⟩
      · cases h

/-- Whether a line is terminal shows in front, so the white space behind it does not matter. -/
theorem isTailLine_trim (line : List Char) :
    isTailLine (trim line) = isTailLine (line.dropWhile isWhiteSpace) := by
  obtain ⟨w, hline, hw⟩ := trimEnd_append (line.dropWhile isWhiteSpace)
  have hword : ∀ ch ∈ "ИТОГ:".toList, isWhiteSpace ch = false := by
    rw [markerWords.1]
    exact notSpace_of_all (by decide)
  have htrim : trim line = trimEnd (line.dropWhile isWhiteSpace) := rfl
  rw [htrim]
  conv_rhs => rw [hline]
  exact (isPrefixOf_space hword _ hw).symm

theorem parseHeading_tail {line : List Char} (h : isTailLine line = true) :
    parseHeading line = .ok none := by
  obtain ⟨rest, hline⟩ := List.isPrefixOf_iff_prefix.1 h
  rw [markerWords.1] at hline
  subst hline
  rfl

/-- The finding behind a text, over a blank line. -/
theorem activeLines_below (text finding : List Char) :
    activeLines (text ++ ['\n', '\n'] ++ finding) = activeLines text ++ activeLines finding := by
  have hcut : text ++ ['\n', '\n'] ++ finding = text ++ '\n' :: ([] ++ '\n' :: finding) := by simp
  have hnil : activeLines [] = [] := rfl
  rw [hcut, activeLines_cut, activeLines_cut, hnil, List.nil_append]

/-- The finding in front of a terminal line. -/
theorem activeLines_above (finding tail : List Char) :
    activeLines (finding ++ ['\n'] ++ tail ++ ['\n']) =
      activeLines finding ++ activeLines tail := by
  have hnewline : ∀ ch ∈ ['\n'], isWhiteSpace ch = true := by
    intro ch hch
    obtain rfl := List.mem_singleton.1 hch
    decide
  have hcut : finding ++ ['\n'] ++ tail = finding ++ '\n' :: tail := by simp
  rw [activeLines_space _ hnewline, hcut, activeLines_cut]

/-- **The last line that is not blank** is the last active line. -/
theorem last_shown {lines : List (List Char)} {index : Nat}
    (h : rposition (fun line => !(trim line).isEmpty) lines = some index) :
    ∃ line, lines.getD index [] = line ∧ shown (lines.drop index) = [trim line] ∧
      shown lines = shown (lines.take index) ++ [trim line] := by
  obtain ⟨line, rest, hdrop, hline, hrest⟩ := rposition_some h
  have hget : lines.getD index [] = line := by
    rw [List.getD_eq_getElem?_getD, ← List.head?_drop, hdrop]
    rfl
  have hback : shown (lines.drop index) = [trim line] := by
    have hone : shown [line] = [trim line] := by simpa [shown] using hline
    have hblank : shown rest = [] := shown_blank fun l hl => by simpa using hrest l hl
    rw [hdrop, ← List.singleton_append, shown_append, hone, hblank]
    rfl
  refine ⟨line, hget, hback, ?_⟩
  calc shown lines = shown (lines.take index ++ lines.drop index) := by rw [List.take_append_drop]
    _ = shown (lines.take index) ++ [trim line] := by rw [shown_append, hback]

theorem activeLines_blank {text : List Char} (h : trim (trimEnd text) = []) :
    activeLines text = [] := by
  have hblank := activeLines_space [] (trim_eq_nil.1 h)
  rw [List.nil_append] at hblank
  rw [← activeLines_trimEnd, hblank]
  rfl

/-- **Where the finding goes**: behind the active lines of the artifact, in front of a terminal
one. -/
theorem merge_active (existing : Option (List Char)) (finding : List Char) :
    ∃ front back, activeLines (existing.getD []) = front ++ back ∧
      activeLines (mergeReviewCycleFinding existing finding) =
        front ++ activeLines finding ++ back ∧
      ((back = [] ∧ ∀ line, (activeLines (existing.getD [])).getLast? = some line →
        isTailLine line = false) ∨ ∃ line, back = [line] ∧ isTailLine line = true) := by
  unfold mergeReviewCycleFinding
  split
  case h_1 hnone =>
    have hblank : activeLines (existing.getD []) = [] := by
      cases existing with
      | none => rfl
      | some text => exact activeLines_blank (by simpa [Option.filter] using hnone)
    refine ⟨[], [], hblank, by simp, .inl ⟨rfl, ?_⟩⟩
    simp [hblank]
  case h_2 text' hsome =>
    obtain ⟨text, rfl, htext⟩ : ∃ text, existing = some text ∧ trimEnd text = text' := by
      obtain ⟨hmap, -⟩ := Option.filter_eq_some_iff.1 hsome
      obtain ⟨text, htext, heq⟩ := Option.map_eq_some_iff.1 hmap
      exact ⟨text, htext, heq⟩
    have hactive : activeLines ((some text).getD []) = shown (textLines text') := by
      rw [Option.getD_some, ← activeLines_trimEnd, htext]
      rfl
    have hshown : activeLines text' = shown (textLines text') := rfl
    have hlines : ∀ line ∈ textLines text', '\n' ∉ line :=
      fun line hline => newline_textLines hline
    generalize textLines text' = lines at *
    simp only
    cases hposition : rposition (fun line => !(trim line).isEmpty) lines with
    | none =>
      have hblank : shown lines = [] :=
        shown_blank fun line hline => by simpa using rposition_none hposition line hline
      rw [Option.filter_none]
      refine ⟨[], [], by rw [hactive, hblank]; rfl, ?_, .inl ⟨rfl, ?_⟩⟩
      · simp only
        rw [activeLines_below, hshown, hblank, List.append_nil]
      · rw [hactive, hblank]
        exact fun line hline => by cases hline
    | some index =>
      obtain ⟨line, hget, hback, hlast⟩ := last_shown hposition
      by_cases htail : isTailLine (line.dropWhile isWhiteSpace) = true
      · have hfilter : (some index).filter (fun index =>
            isTailLine ((lines.getD index []).dropWhile isWhiteSpace)) = some index := by
          rw [Option.filter_some, hget, if_pos htail]
        have hhead : activeLines (trimEnd (joinLines (lines.take index))) =
            shown (lines.take index) := by
          rw [activeLines_trimEnd]
          exact activeLines_join fun l hl => hlines l (List.mem_of_mem_take hl)
        have htailLines : activeLines (joinLines (lines.drop index)) = [trim line] := by
          rw [← hback]
          exact activeLines_join fun l hl => hlines l (List.mem_of_mem_drop hl)
        rw [hfilter]
        refine ⟨shown (lines.take index), [trim line], by rw [hactive, hlast], ?_,
          .inr ⟨_, rfl, by rw [isTailLine_trim]; exact htail⟩⟩
        simp only
        split
        case isTrue hempty =>
          have hnil : shown (lines.take index) = [] := by
            rw [← hhead, List.isEmpty_iff.1 hempty]
            rfl
          rw [activeLines_above, htailLines, hnil, List.nil_append]
        case isFalse => rw [activeLines_above, activeLines_below, htailLines, hhead]
      · have hfilter : (some index).filter (fun index =>
            isTailLine ((lines.getD index []).dropWhile isWhiteSpace)) = none := by
          rw [Option.filter_some, hget, if_neg htail]
        rw [hfilter]
        refine ⟨shown lines, [], by rw [hactive, List.append_nil], ?_,
          .inl ⟨rfl, fun l hl => ?_⟩⟩
        · simp only
          rw [activeLines_below, hshown, List.append_nil]
        · rw [hactive, hlast, List.getLast?_concat] at hl
          obtain rfl := Option.some.inj hl
          rw [isTailLine_trim]
          simpa using htail

/-- The engine's open finding under an id. -/
def gateFinding (id : String) : Finding := ⟨id, reviewCycleFindingTitle, .new⟩

theorem document_lines (id : String) (body : List Char) : reviewCycleFindingDocument id body =
    (['#', '#', '#', ' ', '['] ++ id.toList ++ [']'] ++ gateHeadingTail) ++ '\n' :: body := by
  have hopen : ("### [" : String).toList = ['#', '#', '#', ' ', '['] := by decide
  have hclose : ("] " : String).toList = [']', ' '] := by decide
  have hblank : (" " : String).toList = [' '] := by decide
  have hstatus : (" — статус: новая\n" : String).toList =
      (" — статус: новая" : String).toList ++ ['\n'] := markerWords.2.2.2.1
  unfold reviewCycleFindingDocument gateHeadingTail
  simp only [String.toList_append, hopen, hclose, hblank, hstatus]
  simp

section

variable {existing : Option (List Char)} {parsed : ReviewParse} {body : List Char}

/-- **The active lines of the finding**: its heading, and lines that mark nothing. -/
theorem document_active (parsed : ReviewParse) (body : List Char) : ∃ heading,
    activeLines (reviewCycleFindingDocument (nextReviewFindingId parsed) body) =
      heading :: activeLines body ∧
    parseHeading heading = .ok (some (gateFinding (nextReviewFindingId parsed))) ∧
    isTailLine heading = false ∧ riskMarker heading = none := by
  obtain ⟨hmarker, -, hchars⟩ := nextReviewFindingId_marker parsed
  set id := nextReviewFindingId parsed with hid
  set line := ['#', '#', '#', ' ', '['] ++ id.toList ++ [']'] ++ gateHeadingTail with hline
  have hparse : parseHeading line = .ok (some (gateFinding id)) := by
    have := @parseHeading_gate id.toList (by rw [String.ofList_toList]; exact hmarker)
      (fun hmem => (hchars _ hmem).2 rfl) (fun ch hch => (hchars ch hch).1)
    rw [String.ofList_toList, ← hline] at this
    exact this
  have hnew : '\n' ∉ line := by
    have hspace : '\n' ∉ id.toList := fun hmem => by
      have := (hchars _ hmem).1
      revert this
      decide
    have htail : '\n' ∉ gateHeadingTail := gateHeadingTail_read.2.2.2.2
    simp [hline, hspace, htail]
  obtain ⟨behind, htrim, -⟩ := @trim_cons '#' (by decide)
    (['#', '#', ' ', '['] ++ id.toList ++ [']'] ++ gateHeadingTail)
  have hshown : shown [line] = ['#' :: behind] := by
    have : trim line = '#' :: behind := htrim
    simp [shown, this]
  refine ⟨'#' :: behind, ?_, ?_, ?_, ?_⟩
  · rw [document_lines, activeLines_cons hnew, hshown]
    rfl
  · rw [← htrim]
    exact (parseHeading_trim line).trans hparse
  · unfold isTailLine
    rw [markerWords.1]
    simp [List.isPrefixOf]
  · unfold riskMarker stripFront
    rw [markerWords.2.1]
    simp [List.isPrefixOf]

theorem parseReview_headings {text : List Char} {parsed : ReviewParse}
    (h : parseReview text = .ok parsed) : headings (activeLines text) = .ok parsed.findings := by
  rw [parseReview_active] at h
  cases hall : headings (activeLines text) with
  | error e => rw [hall] at h; cases h
  | ok findings =>
    rw [hall] at h
    cases h
    rfl

/-- **The merged document reads as the old findings and the engine's.** -/
theorem parseReview_merge (hparse : parseReview (existing.getD []) = .ok parsed)
    (hbody : InertText body) :
    parseReview (mergeReviewCycleFinding existing
      (reviewCycleFindingDocument (nextReviewFindingId parsed) body)) =
        .ok ⟨parsed.findings ++ [gateFinding (nextReviewFindingId parsed)]⟩ := by
  obtain ⟨front, back, hold, hnew, hback⟩ := merge_active existing
    (reviewCycleFindingDocument (nextReviewFindingId parsed) body)
  obtain ⟨heading, hdocument, hheading, -, -⟩ := document_active parsed body
  have hnone : headings back = .ok [] := by
    rcases hback with ⟨rfl, -⟩ | ⟨line, rfl, hline⟩
    · rfl
    · simp [headings, parseHeading_tail hline, bind, Except.bind, pure, Except.pure, Except.map,
        reduceOption_eq]
  have hfront : headings front = .ok parsed.findings := by
    have hboth := parseReview_headings hparse
    rw [hold, headings_append, hnone] at hboth
    cases hf : headings front with
    | error e => rw [hf] at hboth; cases hboth
    | ok findings => simpa [hf, Except.bind, Except.map] using hboth
  have hfinding : headings (heading :: activeLines body) =
      .ok [gateFinding (nextReviewFindingId parsed)] := by
    have hone : headings [heading] = .ok [gateFinding (nextReviewFindingId parsed)] := by
      simp [headings, hheading, bind, Except.bind, pure, Except.pure, Except.map,
        reduceOption_eq]
    rw [← List.singleton_append, headings_append, hone, headings_inert hbody]
    rfl
  rw [parseReview_active, hnew, hdocument, headings_append, headings_append, hfront, hfinding,
    hnone]
  simp [Except.bind, Except.map]

/-- No risk marker and no terminal line comes with the finding. -/
theorem merge_markers (parsed : ReviewParse) (hbody : InertText body) :
    riskMarkers (mergeReviewCycleFinding existing
      (reviewCycleFindingDocument (nextReviewFindingId parsed) body)) =
        riskMarkers (existing.getD []) ∧
    (activeLines (mergeReviewCycleFinding existing
      (reviewCycleFindingDocument (nextReviewFindingId parsed) body))).filter isTailLine =
        (activeLines (existing.getD [])).filter isTailLine := by
  obtain ⟨front, back, hold, hnew, -⟩ := merge_active existing
    (reviewCycleFindingDocument (nextReviewFindingId parsed) body)
  obtain ⟨heading, hdocument, -, htail, hrisk⟩ := document_active parsed body
  have hrisks : (activeLines body).filterMap riskMarker = [] :=
    List.filterMap_eq_nil_iff.2 fun line hline => riskMarker_inert (hbody line hline)
  have htails : (activeLines body).filter isTailLine = [] := by
    rw [List.filter_eq_nil_iff]
    exact fun line hline => by simp [isTailLine_inert (hbody line hline)]
  constructor
  · rw [riskMarkers_active, riskMarkers_active, hnew, hold, hdocument]
    simp [hrisk, hrisks]
  · rw [hnew, hold, hdocument]
    simp [htail, htails]

end

theorem trimEnd_last {text : List Char} {ch : Char} (h : (trimEnd text).getLast? = some ch) :
    isWhiteSpace ch = false := by
  unfold trimEnd at h
  rw [List.getLast?_eq_head?_reverse, List.rdropWhile, List.reverse_reverse] at h
  have hhead := List.head?_dropWhile_not isWhiteSpace text.reverse
  rw [h] at hhead
  simpa using hhead

/-- The last line of a text that ends in something, as it stands there. -/
theorem textLines_last {text : List Char} {ch : Char} (hlast : text.getLast? = some ch)
    (hch : isWhiteSpace ch = false) : ∃ ls line, textLines text = ls ++ [line] ∧
      (∃ before, text = before ++ line ∧ (before = [] ∨ before.getLast? = some '\n')) ∧
      line.getLast? = some ch ∧ '\n' ∉ line := by
  rcases List.eq_nil_or_concat (inclusive text) with hnil | ⟨ls, line, hinc⟩
  · rw [inclusive_eq_nil hnil] at hlast
    cases hlast
  · rw [List.concat_eq_append] at hinc
    have hcut := cut_inclusive text
    rw [hinc] at hcut
    obtain ⟨hne, -, -⟩ := hcut ls line [] rfl
    have htext : text = ls.flatten ++ line := by
      have := inclusive_flatten text
      rw [hinc] at this
      simpa using this.symm
    have hend : line.getLast? = some ch := by
      rw [htext, List.getLast?_append] at hlast
      cases hl : line.getLast? with
      | none => exact absurd (List.getLast?_eq_none_iff.1 hl) hne
      | some c => rw [hl] at hlast; simpa using hlast
    have hstrip : stripLineEnding line = line := by
      have hback : line.reverse.head? = some ch := by rw [← List.getLast?_eq_head?_reverse, hend]
      have hno : ∀ rest, line.reverse ≠ '\n' :: rest := by
        intro rest heq
        rw [heq] at hback
        obtain rfl := Option.some.inj hback
        revert hch
        decide
      unfold stripLineEnding
      split
      case h_1 rest heq => exact absurd heq (hno _)
      case h_2 rest _ heq => exact absurd heq (hno _)
      case h_3 => rfl
    have hlines : textLines text = ls.map stripLineEnding ++ [line] := by
      rw [textLines, hinc, List.map_append, List.map_cons, List.map_nil, hstrip]
    refine ⟨ls.map stripLineEnding, line, hlines, ⟨ls.flatten, htext, ?_⟩, hend,
      newline_textLines (by rw [hlines]; simp)⟩
    by_cases hnil : ls.flatten = []
    · exact .inl hnil
    · have hlineEnd : LineEnd ls.flatten := hcut.lineEnd (List.cons_ne_nil _ _)
      refine .inr ?_
      cases hl : ls.flatten.getLast? with
      | none => exact absurd (List.getLast?_eq_none_iff.1 hl) hnil
      | some c => rw [hlineEnd c hl]

/-- **A terminal line is kept as it stands**, but for white space behind it: the merged document
ends in it. -/
theorem merge_terminal {text finding last : List Char}
    (hlast : (activeLines text).getLast? = some last) (htail : isTailLine last = true) :
    ∃ before line front, trimEnd text = before ++ line ∧
      (before = [] ∨ before.getLast? = some '\n') ∧ '\n' ∉ line ∧ trim line = last ∧
      mergeReviewCycleFinding (some text) finding = front ++ '\n' :: line ++ ['\n'] := by
  have hactive : activeLines (trimEnd text) = shown (textLines (trimEnd text)) := rfl
  rw [← activeLines_trimEnd, hactive] at hlast
  cases hend : (trimEnd text).getLast? with
  | none =>
    rw [List.getLast?_eq_none_iff.1 hend] at hlast
    cases hlast
  | some ch =>
    have hch := trimEnd_last hend
    obtain ⟨ls, line, hlines, ⟨before, hbefore, hcut⟩, hline, hnew⟩ := textLines_last hend hch
    have hne : trim line ≠ [] := by
      intro hnil
      have := trim_eq_nil.1 hnil ch (List.mem_of_getLast? hline)
      rw [hch] at this
      cases this
    have htrim : trim line = last := by
      have hone : shown [line] = [trim line] := by simp [shown, hne]
      rw [hlines, shown_append, hone] at hlast
      simpa using hlast
    have htail' : isTailLine (line.dropWhile isWhiteSpace) = true := by
      rw [← isTailLine_trim, htrim, htail]
    have hfilter : ((some text).map trimEnd).filter (fun text => !(trim text).isEmpty) =
        some (trimEnd text) := by
      have hnonblank : trim (trimEnd text) ≠ [] := by
        intro hnil
        have := trim_eq_nil.1 hnil ch (List.mem_of_getLast? hend)
        rw [hch] at this
        cases this
      rw [Option.map_some, Option.filter_some, if_pos (by simpa using hnonblank)]
    have hposition : rposition (fun line => !(trim line).isEmpty) (ls ++ [line]) =
        some ls.length := by
      clear hlines hlast hfilter
      induction ls with
      | nil => simp [rposition, hne]
      | cons l ls ih => rw [List.cons_append, rposition, ih, List.length_cons]
    have hget : (ls ++ [line]).getD ls.length [] = line := by simp
    have hterminal : (some ls.length).filter (fun index =>
        isTailLine (((ls ++ [line]).getD index []).dropWhile isWhiteSpace)) = some ls.length := by
      rw [Option.filter_some, hget, if_pos htail']
    have hjoin : joinLines ((ls ++ [line]).drop ls.length) = line := by
      rw [List.drop_left]
      simp [joinLines]
    unfold mergeReviewCycleFinding
    rw [hfilter]
    simp only [hlines, hposition, hterminal, hjoin]
    split
    case isTrue => exact ⟨before, line, finding, hbefore, hcut, hnew, htrim, by simp⟩
    case isFalse =>
      exact ⟨before, line, trimEnd (joinLines ((ls ++ [line]).take ls.length)) ++ ['\n', '\n'] ++
        finding, hbefore, hcut, hnew, htrim, by simp⟩

/-! ## Holding a round open -/

/-- The artifact with the engine's finding in it. -/
def ReviewParse.held (parsed : ReviewParse) : ReviewParse :=
  if carriesGateFinding parsed then parsed
  else ⟨parsed.findings ++ [gateFinding (nextReviewFindingId parsed)]⟩

/-- The reviewer's own open findings. -/
def ReviewParse.reviewerFindings (parsed : ReviewParse) : List Finding :=
  parsed.openReviewFindings.filter fun finding => finding.title != reviewCycleFindingTitle

theorem held_open (parsed : ReviewParse) : parsed.held.openReviewFindings =
    parsed.openReviewFindings ++
      if carriesGateFinding parsed then [] else [gateFinding (nextReviewFindingId parsed)] := by
  unfold ReviewParse.held
  split
  · rw [List.append_nil]
  · have hreview : (gateFinding (nextReviewFindingId parsed)).isReview = true :=
      (nextReviewFindingId_marker parsed).2.1
    have hstatus : (gateFinding (nextReviewFindingId parsed)).status = .new := rfl
    simp [ReviewParse.openReviewFindings, List.filter_append, hreview, hstatus]

theorem held_carries (parsed : ReviewParse) : carriesGateFinding parsed.held = true := by
  unfold carriesGateFinding
  rw [held_open]
  by_cases h : carriesGateFinding parsed = true
  · rw [if_pos h, List.append_nil]
    exact h
  · rw [if_neg h]
    simp [gateFinding]

theorem held_held (parsed : ReviewParse) : parsed.held.held = parsed.held :=
  if_pos (held_carries parsed)

theorem held_reviewerFindings (parsed : ReviewParse) :
    parsed.held.reviewerFindings = parsed.reviewerFindings := by
  unfold ReviewParse.reviewerFindings
  rw [held_open, List.filter_append]
  split <;> simp [gateFinding]

/-- The ids stay distinct. -/
theorem held_distinct {parsed : ReviewParse}
    (hfree : lastReviewFindingId ∉ parsed.findings.map (·.id))
    (h : (parsed.openReviewFindings.map (·.id)).Nodup) :
    (parsed.held.openReviewFindings.map (·.id)).Nodup := by
  rw [held_open]
  split
  · rwa [List.append_nil]
  · rw [List.map_append, List.map_singleton]
    refine h.append (List.nodup_singleton _) ?_
    intro id hid hnew
    obtain rfl := List.mem_singleton.1 hnew
    obtain ⟨finding, hfinding, hsame⟩ := List.mem_map.1 hid
    exact nextReviewFindingId_fresh.2 hfree
      (List.mem_map.2 ⟨finding, (mem_openReviewFindings.1 hfinding).1, hsame⟩)

section

variable {replace : Replace} {file file' : ReviewArtifact} {parsed : ReviewParse}
  {body : List Char}

theorem readReviewArtifact_eq_ok {artifact : ReviewArtifact} :
    readReviewArtifact file = .ok artifact ↔
      textBytes (file.getD []) ≤ maxReviewArtifactBytes ∧ file = artifact := by
  unfold readReviewArtifact
  split
  case isTrue h => simp [Nat.not_le.2 h]
  case isFalse h => simp [Nat.not_lt.1 h]

theorem parseArtifact_eq_ok :
    parseArtifact file = .ok parsed ↔ parseReview (file.getD []) = .ok parsed := by
  unfold parseArtifact
  cases parseReview (file.getD []) <;> simp

/-- What mixing the finding in leaves in the file. -/
theorem mix_spec (h : mixReviewCycleFinding replace file body = .ok file')
    (hparse : parseReview (file.getD []) = .ok parsed) :
    if carriesGateFinding parsed then file' = file
    else file' = some (mergeReviewCycleFinding file
      (reviewCycleFindingDocument (nextReviewFindingId parsed) body)) := by
  obtain ⟨artifact, hread, h⟩ := bind_eq_ok.1 h
  obtain ⟨-, rfl⟩ := readReviewArtifact_eq_ok.1 hread
  obtain ⟨found, hfound, h⟩ := bind_eq_ok.1 h
  rw [parseArtifact_eq_ok, hparse] at hfound
  obtain rfl := Except.ok.inj hfound
  split at h
  · rename_i hcarries
    rw [if_pos hcarries]
    exact (Except.ok.inj h).symm
  · rename_i hcarries
    rw [if_neg hcarries]
    unfold replaceReviewArtifact at h
    simp only at h
    split at h
    · cases h
    · split at h
      · exact (Except.ok.inj h).symm
      · cases h

/-- Nothing is mixed into a text that the parser stops at. -/
theorem mix_unread {slice : SlicePanic} (hparse : parseReview (file.getD []) = .error slice) :
    mixReviewCycleFinding replace file body ≠ .ok file' := by
  intro h
  obtain ⟨artifact, hread, h⟩ := bind_eq_ok.1 h
  obtain ⟨-, rfl⟩ := readReviewArtifact_eq_ok.1 hread
  obtain ⟨found, hfound, -⟩ := bind_eq_ok.1 h
  rw [parseArtifact_eq_ok, hparse] at hfound
  cases hfound

/-- **Once mixed in, the finding is read with the others.** -/
theorem mix_parse (h : mixReviewCycleFinding replace file body = .ok file')
    (hparse : parseReview (file.getD []) = .ok parsed) (hbody : InertText body) :
    parseReview (file'.getD []) = .ok parsed.held := by
  have hspec := mix_spec h hparse
  unfold ReviewParse.held
  split at hspec
  · rename_i hcarries
    rw [if_pos hcarries, hspec, hparse]
  · rename_i hcarries
    rw [if_neg hcarries, hspec]
    exact parseReview_merge hparse hbody

/-- An artifact within its bound has fewer findings than a count can hold. -/
theorem findings_bounded {text : List Char} (hparse : parseReview text = .ok parsed)
    (hbytes : textBytes text ≤ maxReviewArtifactBytes) :
    parsed.openReviewFindings.length < u32Max := by
  have hlines : (textLines text).length ≤ text.length := by
    have hcut := cut_inclusive text
    have hflat := congrArg List.length (inclusive_flatten text)
    have hsum : ∀ ls : List (List Char), (∀ l ∈ ls, l ≠ []) → ls.length ≤ ls.flatten.length := by
      intro ls hls
      induction ls with
      | nil => exact le_rfl
      | cons l ls ih =>
        have hl := List.length_pos_of_ne_nil (hls l List.mem_cons_self)
        have := ih fun x hx => hls x (List.mem_cons_of_mem _ hx)
        rw [List.length_cons, List.flatten_cons, List.length_append]
        omega
    have hne : ∀ l ∈ inclusive text, l ≠ [] := by
      intro l hl
      obtain ⟨front, behind, hsplit⟩ := List.append_of_mem hl
      exact (hcut front l behind hsplit).1
    have := hsum _ hne
    rw [textLines, List.length_map]
    omega
  have hchars : text.length ≤ textBytes text := by
    clear hlines hbytes hparse
    unfold textBytes
    induction text with
    | nil => exact le_rfl
    | cons ch text ih =>
      have := Char.utf8Size_pos ch
      rw [List.length_cons, List.map_cons, List.sum_cons]
      omega
  have hfindings : parsed.findings.length ≤ (textLines text).length := by
    obtain ⟨headings, hmap, hdone⟩ := bind_eq_ok.1 hparse
    obtain rfl := Except.ok.inj hdone
    have hlen := (mapM_eq_ok.1 hmap).length_eq
    have hreduce : headings.reduceOption.length ≤ headings.length := List.length_filterMap_le _ _
    simp only
    omega
  have hopen : parsed.openReviewFindings.length ≤ parsed.findings.length :=
    List.length_filter_le _ _
  have hmax : maxReviewArtifactBytes < u32Max := by decide
  omega

end

/-- An outcome that decides the round reports the open findings of the artifact. -/
def ReviewOutcome.Fits (outcome : ReviewOutcome) (parsed : ReviewParse) : Prop :=
  outcome.undecided = false → outcome.listed.getD (0, []) =
    (parsed.openReviewFindings.length, parsed.openReviewFindings.map (·.id))

/-- **The adapter of a task review fits the artifact it was given.** -/
theorem taskReviewOutcome_fits {reason : SuperviseReason} {report : List Char}
    {since until_ sha : String} {outcome : ReviewOutcome} {parsed : ReviewParse}
    (h : taskReviewOutcome reason report since until_ sha = .ok outcome)
    (hparse : parseReview report = .ok parsed)
    (hbytes : textBytes report ≤ maxReviewArtifactBytes) : outcome.Fits parsed := by
  intro hdecided
  have hbound := findings_bounded hparse hbytes
  by_cases hreason : reason = .ok
  · subst hreason
    obtain ⟨risk, -, htail, hbranch⟩ | ⟨-, text, hescalated⟩ :=
      taskReviewOutcome_cases hparse since until_ sha
    · rw [hbranch] at h
      obtain rfl := Except.ok.inj h
      obtain ⟨happroved, hlisted, -, -⟩ :=
        @taskReviewBranch_spec parsed since until_ sha risk _ htail
      have hcount : ∀ count ids, (count, ids) =
          (toU32 ids.length, parsed.openReviewFindings.map (·.id)) →
          (count, ids) =
            (parsed.openReviewFindings.length, parsed.openReviewFindings.map (·.id)) := by
        rintro count ids heq
        obtain ⟨rfl, rfl⟩ := Prod.mk.inj heq
        rw [toU32, List.length_map, Nat.min_eq_left (by omega)]
      generalize taskReviewBranch parsed risk (strictOutcome report) since until_ sha = outcome at *
      cases outcome with
      | clean approved | cleanRiskElevated approved =>
        obtain ⟨-, -, -, hopen⟩ := happroved approved rfl
        rw [hopen]
        rfl
      | findings _ count ids | findingsRiskElevated _ _ count ids =>
        obtain ⟨hids, hlen⟩ := hlisted count ids rfl
        exact hcount count ids (by rw [hlen, hids])
      | incomplete => cases hdecided
      | escalated => cases hdecided
    · rw [hescalated] at h
      obtain rfl := Except.ok.inj h
      cases hdecided
  · rw [(escalates_of_failed report since until_ sha hreason).1] at h
    obtain rfl := Except.ok.inj h
    cases hdecided

/-! ## The round -/

/-- The signature of a round, from the failure and the reviewer's own findings. -/
def roundSignature (gateSignature : String) (parsed : ReviewParse) : String :=
  (AttemptSignature.ofFinding reviewCycleRoundSubject
    (gateSignature ++ "\n" ++ findingSignature parsed.reviewerFindings)).asStr

def ReviewOutcome.signature : ReviewOutcome → Option String
  | .findings signature _ _ | .findingsRiskElevated signature _ _ _ => some signature
  | _ => none

theorem heldOpen_spec (risk : Option Risk) (signature : String) (count : Nat) (ids : List String) :
    (heldOpen risk signature count ids).approved = none ∧
      (heldOpen risk signature count ids).risk = risk ∧
      (heldOpen risk signature count ids).listed = some (count, ids) ∧
      (heldOpen risk signature count ids).signature = some signature := by
  cases risk <;> exact ⟨rfl, rfl, rfl, rfl⟩

section

variable {replace : Replace} {record : Option ReviewCycleGateRecord} {head : String}
  {outcome outcome' : ReviewOutcome} {restoreFinding : Bool} {file file' : ReviewArtifact}
  {parsed : ReviewParse} {failure : ReviewCycleGateFailure}

theorem reviewCycleRoundSignature_eq {gateSignature signature : String}
    (h : reviewCycleRoundSignature file gateSignature = .ok signature)
    (hparse : parseReview (file.getD []) = .ok parsed) :
    signature = roundSignature gateSignature parsed := by
  obtain ⟨artifact, hread, h⟩ := bind_eq_ok.1 h
  obtain ⟨-, rfl⟩ := readReviewArtifact_eq_ok.1 hread
  obtain ⟨found, hfound, h⟩ := bind_eq_ok.1 h
  rw [parseArtifact_eq_ok, hparse] at hfound
  obtain rfl := Except.ok.inj hfound
  exact (Except.ok.inj h).symm

theorem enforce_undecided (hundecided : outcome.undecided = true)
    (h : enforceReviewCycleGate replace record head outcome restoreFinding file =
      .ok (outcome', file')) : outcome' = outcome ∧ file' = file := by
  unfold enforceReviewCycleGate at h
  split at h
  · obtain ⟨rfl, rfl⟩ := Prod.mk.inj (Except.ok.inj h)
    exact ⟨rfl, rfl⟩
  · rw [if_pos hundecided] at h
    obtain ⟨rfl, rfl⟩ := Prod.mk.inj (Except.ok.inj h)
    exact ⟨rfl, rfl⟩

/-- What the gate makes of an outcome that decides the round, read off its steps. -/
theorem enforce_decided (hfailure : ReviewCycleGateRecord.failureOf record head = some failure)
    (hdecided : outcome.undecided = false)
    (h : enforceReviewCycleGate replace record head outcome restoreFinding file =
      .ok (outcome', file')) : ∃ parsed ids signature,
    parseReview (file.getD []) = .ok parsed ∧
    textBytes (file.getD []) ≤ maxReviewArtifactBytes ∧
    outcome' = heldOpen outcome.risk signature (satAdd (outcome.listed.getD (0, [])).1
      (if outcome.listed.isSome && carriesGateFinding parsed then 0 else 1)) ids ∧
    reviewCycleRoundSignature file' failure.signature = .ok signature ∧
    if restoreFinding then
      mixReviewCycleFinding replace file failure.body = .ok file' ∧
        ∀ reparsed, parseReview (file'.getD []) = .ok reparsed →
          ids = reparsed.openReviewFindings.map (·.id)
    else file' = file ∧ ids = (outcome.listed.getD (0, [])).2 ++
      if carriesGateFinding parsed then [] else [nextReviewFindingId parsed] := by
  simp only [enforceReviewCycleGate, hfailure, hdecided, Bool.false_eq_true, if_false] at h
  obtain ⟨artifact, hread, h⟩ := bind_eq_ok.1 h
  obtain ⟨hbytes, rfl⟩ := readReviewArtifact_eq_ok.1 hread
  obtain ⟨parsed, hparsed, h⟩ := bind_eq_ok.1 h
  rw [parseArtifact_eq_ok] at hparsed
  obtain ⟨restored, hrestored, h⟩ := bind_eq_ok.1 h
  obtain ⟨ids, hids, h⟩ := bind_eq_ok.1 h
  obtain ⟨signature, hsignature, h⟩ := bind_eq_ok.1 h
  obtain ⟨rfl, rfl⟩ := Prod.mk.inj (Except.ok.inj h)
  refine ⟨parsed, ids, signature, hparsed, hbytes, rfl, hsignature, ?_⟩
  cases restoreFinding with
  | true =>
    refine ⟨hrestored, fun reparsed hreparsed => ?_⟩
    unfold routedFindingIds at hids
    rw [if_pos rfl] at hids
    obtain ⟨artifact, hread, hids⟩ := bind_eq_ok.1 hids
    obtain ⟨-, rfl⟩ := readReviewArtifact_eq_ok.1 hread
    cases restored with
    | none =>
      have hempty : parseReview [] = .ok ⟨[]⟩ := rfl
      rw [Option.getD_none, hempty] at hreparsed
      obtain rfl := Except.ok.inj hreparsed
      exact (Except.ok.inj hids).symm
    | some text =>
      obtain ⟨found, hfound, hids⟩ := bind_eq_ok.1 hids
      rw [parseArtifact_eq_ok, hreparsed] at hfound
      obtain rfl := Except.ok.inj hfound
      exact (Except.ok.inj hids).symm
  | false =>
    refine ⟨(Except.ok.inj hrestored).symm, ?_⟩
    unfold routedFindingIds at hids
    rw [if_neg Bool.false_ne_true] at hids
    split at hids
    · rename_i hcarries
      rw [if_pos hcarries, List.append_nil]
      exact (Except.ok.inj hids).symm
    · rename_i hcarries
      rw [if_neg hcarries]
      exact (Except.ok.inj hids).symm

/-- **The round the gate holds open** is not approved, keeps its risk, and is signed by the failure
and the reviewer's own findings alone. -/
theorem enforce_signed (hfailure : ReviewCycleGateRecord.failureOf record head = some failure)
    (hbody : InertText failure.body) (hparse : parseReview (file.getD []) = .ok parsed)
    (hdecided : outcome.undecided = false)
    (h : enforceReviewCycleGate replace record head outcome restoreFinding file =
      .ok (outcome', file')) :
    outcome'.approved = none ∧ outcome'.risk = outcome.risk ∧
      outcome'.signature = some (roundSignature failure.signature parsed) := by
  obtain ⟨found, ids, signature, hfound, -, rfl, hsignature, hroute⟩ :=
    enforce_decided hfailure hdecided h
  rw [hparse] at hfound
  obtain rfl := Except.ok.inj hfound
  obtain ⟨happroved, hrisk, -, hsigned⟩ := heldOpen_spec outcome.risk signature
    (satAdd (outcome.listed.getD (0, [])).1
      (if outcome.listed.isSome && carriesGateFinding parsed then 0 else 1)) ids
  refine ⟨happroved, hrisk, ?_⟩
  rw [hsigned]
  cases restoreFinding with
  | true =>
    rw [reviewCycleRoundSignature_eq hsignature (mix_parse hroute.1 hparse hbody)]
    unfold roundSignature
    rw [held_reviewerFindings]
  | false =>
    obtain rfl := hroute.1
    rw [reviewCycleRoundSignature_eq hsignature hparse]

/-- It counts and names what the next fixer reads, on both routes. -/
theorem enforce_held {fixed : ReviewArtifact}
    (hfailure : ReviewCycleGateRecord.failureOf record head = some failure)
    (hbody : InertText failure.body) (hparse : parseReview (file.getD []) = .ok parsed)
    (hfits : outcome.Fits parsed) (hdecided : outcome.undecided = false)
    (h : enforceReviewCycleGate replace record head outcome restoreFinding file =
      .ok (outcome', file'))
    (hfix : restoreReviewCycleFindingBeforeFix replace record .fix (some head) file' =
      .ok fixed) :
    parseReview (fixed.getD []) = .ok parsed.held ∧
      outcome'.listed = some (parsed.held.openReviewFindings.length,
        parsed.held.openReviewFindings.map (·.id)) := by
  obtain ⟨found, ids, signature, hfound, hbytes, rfl, -, hroute⟩ :=
    enforce_decided hfailure hdecided h
  rw [hparse] at hfound
  obtain rfl := Except.ok.inj hfound
  obtain ⟨-, -, hlisted, -⟩ := heldOpen_spec outcome.risk signature
    (satAdd (outcome.listed.getD (0, [])).1
      (if outcome.listed.isSome && carriesGateFinding parsed then 0 else 1)) ids
  have hmix : mixReviewCycleFinding replace file' failure.body = .ok fixed := by
    simpa [restoreReviewCycleFindingBeforeFix, hfailure] using hfix
  have hfitted := hfits hdecided
  -- a clean verdict fits an artifact without open findings only
  have hcounted : (outcome.listed.isSome && carriesGateFinding parsed) =
      carriesGateFinding parsed := by
    cases hrep : outcome.listed with
    | some pair => rfl
    | none =>
      rw [hrep] at hfitted
      have hopen : parsed.openReviewFindings = [] :=
        List.length_eq_zero_iff.1 (Prod.mk.inj hfitted).1.symm
      simp [carriesGateFinding, hopen]
  have hbound := findings_bounded hparse hbytes
  have hcount : satAdd (outcome.listed.getD (0, [])).1
      (if outcome.listed.isSome && carriesGateFinding parsed then 0 else 1) =
        parsed.held.openReviewFindings.length := by
    rw [hcounted, hfitted, held_open]
    unfold satAdd
    split <;> simp <;> omega
  have hids : parseReview (file'.getD []) = .ok parsed.held ∨ file' = file := by
    cases restoreFinding with
    | true => exact .inl (mix_parse hroute.1 hparse hbody)
    | false => exact .inr hroute.1
  have hfixed : parseReview (fixed.getD []) = .ok parsed.held := by
    rcases hids with hheld | rfl
    · have := mix_parse hmix hheld hbody
      rwa [held_held] at this
    · exact mix_parse hmix hparse hbody
  have hnamed : ids = parsed.held.openReviewFindings.map (·.id) := by
    cases restoreFinding with
    | true => exact hroute.2 _ (mix_parse hroute.1 hparse hbody)
    | false =>
      have hlist := hroute.2
      rw [hfitted] at hlist
      rw [hlist, held_open, List.map_append]
      split <;> rfl
  refine ⟨hfixed, ?_⟩
  rw [hlisted, hcount, hnamed]

end
/-- A round's signature does not read the engine's finding. -/
theorem roundSignature_gate (gateSignature id : String) (front back : List Finding) :
    roundSignature gateSignature ⟨front ++ gateFinding id :: back⟩ =
      roundSignature gateSignature ⟨front ++ back⟩ := by
  have hsame : ReviewParse.reviewerFindings ⟨front ++ gateFinding id :: back⟩ =
      ReviewParse.reviewerFindings ⟨front ++ back⟩ := by
    simp only [ReviewParse.reviewerFindings, ReviewParse.openReviewFindings, List.filter_append,
      List.filter_cons, List.filter_filter]
    split <;> simp [gateFinding]
  unfold roundSignature
  rw [hsame]

theorem undecided_approved {outcome : ReviewOutcome} (h : outcome.undecided = true) :
    outcome.approved = none := by
  cases outcome <;> first | rfl | cases h

theorem fingerprint_oneLine (codec : ProfileCodec) (mode source : String)
    (commands : List String) :
    OneLine (fingerprintedProfile codec mode source commands).fingerprint :=
  oneLine_hex _

namespace ReviewCycleSample

/-- A build that echoes a terminal line. -/
def failed : VerificationRun where
  outcome := .failed "s" "error"
  transcript := "ИТОГ: ok"
  profile := fingerprintedProfile VerificationSample.codec "required" "queue" ["build"]
  commands := [⟨"build", "error", some 1⟩]

def body : List Char :=
  renderReviewCycleFindingBody "T-1"
    (fingerprintedProfile VerificationSample.codec "required" "queue" ["build"]) failed "error"

def replace : Replace := fun _ => .ok ()

def clean : ReviewArtifact := some "ИТОГ: ok".toList

/-- A review whose one finding, long fixed, has the last number. -/
def full : ReviewArtifact := some "### [R-4294967295] x — статус: исправлено".toList

/-- A review with the status in front of the bracket. -/
def statusFirst : ReviewArtifact := some "### статус: новая [R-02] x".toList

/-- The finding goes into a short review that is read. -/
theorem mixes {file : ReviewArtifact} {parsed : ReviewParse}
    (hparse : parseReview (file.getD []) = .ok parsed)
    (hshort : textBytes (file.getD []) ≤ maxReviewArtifactBytes ∧
      textBytes (mergeReviewCycleFinding file
        (reviewCycleFindingDocument (nextReviewFindingId parsed) body)) ≤ maxReviewArtifactBytes) :
    ∃ file', mixReviewCycleFinding replace file body = .ok file' := by
  unfold mixReviewCycleFinding
  have hread : readReviewArtifact file = .ok file := readReviewArtifact_eq_ok.2 ⟨hshort.1, rfl⟩
  have hfound : parseArtifact file = .ok parsed := parseArtifact_eq_ok.2 hparse
  rw [hread]
  simp only [bind, Except.bind, hfound]
  split
  · exact ⟨file, rfl⟩
  · unfold replaceReviewArtifact
    rw [if_neg (Nat.not_lt.2 hshort.2)]
    exact ⟨_, rfl⟩

end ReviewCycleSample

end Orchestrail
