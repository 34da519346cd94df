import Orchestrail.Spec.ReviewGate

/-!
# The review adapters refine the review gates

The adapter goes down the gate's branches over the same parsed artifact, behind what it knows of the
call and of the reviewer's last line. What it adds makes it stricter: a clean gate needs the
reviewer's word, and an artifact that can never prove the gate escalates.
-/

namespace Orchestrail

open Text Outcome

/-! ## The last line of a report -/

/-- A report ends in exactly one outcome line, which has this outcome. -/
structure EndsIn (report : List Char) (outcome : TerminalOutcome) : Prop where
  last : ∃ front line, activeLines report = front ++ [line] ∧ outcomeOfLine line = some outcome ∧
    ∀ other ∈ front, isTailLine other = false

theorem outcomeOfLine_trim (line : List Char) : outcomeOfLine (trim line) = outcomeOfLine line := by
  unfold outcomeOfLine
  rw [trim_trim]

theorem isTailLine_of_outcome {line : List Char} {outcome : TerminalOutcome}
    (h : outcomeOfLine line = some outcome) : isTailLine (trim line) = true := by
  unfold outcomeOfLine stripFront at h
  by_contra hno
  unfold isTailLine at hno
  rw [if_neg hno] at h
  cases h

/-- Blank lines have no outcome. -/
theorem filterMap_activeLines (report : List Char) :
    (textLines report).filterMap outcomeOfLine = (activeLines report).filterMap outcomeOfLine := by
  unfold activeLines
  induction textLines report with
  | nil => rfl
  | cons line lines ih =>
    rw [List.map_cons, List.filter_cons]
    by_cases hblank : trim line = []
    · have hnone : outcomeOfLine line = none := by
        rw [← outcomeOfLine_trim, hblank]
        rfl
      rw [List.filterMap_cons_none hnone, ih, if_neg (by simp [hblank])]
    · rw [if_pos (by simp [hblank]), List.filterMap_cons, List.filterMap_cons, ih,
        outcomeOfLine_trim]

/-- **A strict outcome** is the one of the only outcome line, at the end of the report. -/
theorem strictOutcome_endsIn {report : List Char} {outcome : TerminalOutcome}
    (h : strictOutcome report = some outcome) : EndsIn report outcome := by
  unfold strictOutcome parseOutcome at h
  rw [filterMap_activeLines] at h
  dsimp only at h
  split at h
  · cases h
  rename_i hguard
  rw [Bool.or_eq_true, not_or, decide_eq_true_eq, not_not] at hguard
  obtain ⟨hlast, hcount⟩ := hguard
  generalize hactive : activeLines report = active at h hlast hcount
  obtain rfl | ⟨front, line, rfl⟩ := List.eq_nil_or_concat active
  · exact absurd rfl hlast
  rw [List.concat_eq_append] at hactive h hlast hcount
  rw [List.getLast?_concat] at hlast
  have hline : isTailLine line = true := by simpa using hlast
  rw [List.filter_append, List.length_append, List.filter_cons_of_pos hline] at hcount
  have hfront : front.filter isTailLine = [] := List.length_eq_zero_iff.1 (by simpa using hcount)
  have hothers : ∀ other ∈ front, isTailLine other = false := by
    intro other hother
    have := List.filter_eq_nil_iff.1 hfront other hother
    simpa using this
  -- no line before the last one has an outcome
  have hnone : front.filterMap outcomeOfLine = [] := by
    refine List.filterMap_eq_nil_iff.2 fun other hother => ?_
    cases houtcome : outcomeOfLine other with
    | none => rfl
    | some found =>
      have htail := isTailLine_of_outcome houtcome
      have hmem : other ∈ activeLines report := by
        rw [hactive]
        exact List.mem_append_left _ hother
      obtain ⟨raw, -, rfl⟩ := List.mem_map.1 (List.mem_filter.1 hmem).1
      rw [trim_trim, hothers _ hother] at htail
      cases htail
  rw [List.filterMap_append, hnone, List.nil_append] at h
  refine ⟨front, line, hactive, ?_, hothers⟩
  cases hfound : outcomeOfLine line with
  | none => simp [hfound] at h
  | some found => simpa [hfound] using h

/-! ## What an outcome says -/

/-- The commit an outcome approves. -/
def ReviewOutcome.approved : ReviewOutcome → Option String
  | .clean sha | .cleanRiskElevated sha _ => some sha
  | _ => none

/-- The branch of the gate an outcome stands for. -/
def ReviewOutcome.gate : ReviewOutcome → Option ReviewGate
  | .clean _ | .cleanRiskElevated _ _ => some .clean
  | .findings _ _ _ | .findingsRiskElevated _ _ _ _ => some .findings
  | .incomplete => some .incomplete
  | .escalated _ => none

/-- The tail is absent or one of the two verdicts a task reviewer has. -/
def KnownTail (tail : Option TerminalOutcome) : Prop :=
  ∀ outcome, tail = some outcome →
    outcome.verdict = readyToMerge ∨ outcome.verdict = openFindingsClaim

section Task

variable {parsed : ReviewParse} {since until_ sha : String} {risk : Option Risk}
  {tail : Option TerminalOutcome}

theorem mem_openReviewFindings {finding : Finding} :
    finding ∈ parsed.openReviewFindings ↔
      finding ∈ parsed.findings ∧ finding.isReview = true ∧ finding.status = .new := by
  unfold ReviewParse.openReviewFindings
  rw [List.mem_filter, Bool.and_eq_true, decide_eq_true_eq]

/-- The summary of a clean pass is not dated behind the invocation. -/
theorem summaryAfterWindow_of_clean (h : parsed.isCleanPass since until_ = true) :
    parsed.summaryAfterWindow until_ = none := by
  unfold ReviewParse.isCleanPass at h
  unfold ReviewParse.summaryAfterWindow
  cases htimestamp : parsed.latestSummary.bind (·.summaryTimestamp) with
  | none => rfl
  | some timestamp =>
    rw [htimestamp] at h
    have hwindow : inWindow since until_ timestamp = true := (Bool.and_eq_true _ _ ▸ h).1
    unfold inWindow at hwindow
    simp only [Bool.and_eq_true, decide_eq_true_eq] at hwindow
    simp [hwindow.2]

/-- What the branches of the adapter do, behind a known tail and a well-formed risk. -/
theorem taskReviewBranch_spec (htail : KnownTail tail) :
    (∀ approved, (taskReviewBranch parsed risk tail since until_ sha).approved = some approved →
      approved = sha ∧ reviewGate parsed since until_ = .clean ∧
        (∃ outcome, tail = some outcome ∧ outcome.verdict = readyToMerge) ∧
        parsed.openReviewFindings = []) ∧
    (∀ count ids, (taskReviewBranch parsed risk tail since until_ sha).listed = some (count, ids) →
      ids = parsed.openReviewFindings.map (·.id) ∧ count = toU32 ids.length) ∧
    ((taskReviewBranch parsed risk tail since until_ sha).listed ≠ none ↔
      parsed.openReviewFindings ≠ []) ∧
    ((taskReviewBranch parsed risk tail since until_ sha).gate =
        some (reviewGate parsed since until_) ∨
      (reviewGate parsed since until_ = .clean ∧
        taskReviewBranch parsed risk tail since until_ sha = .incomplete ∧
        ∀ outcome, tail = some outcome → outcome.verdict = openFindingsClaim) ∨
      (reviewGate parsed since until_ = .incomplete ∧
        (taskReviewBranch parsed risk tail since until_ sha).gate = none ∧
        (parsed.summaryAfterWindow until_).isSome = true)) := by
  unfold taskReviewBranch reviewGate
  dsimp only
  by_cases hopen : parsed.openReviewFindings = []
  swap
  · rw [if_pos hopen, if_pos hopen]
    cases risk <;>
      simp [ReviewOutcome.approved, ReviewOutcome.listed, ReviewOutcome.gate, hopen]
  rw [if_neg (not_not.2 hopen), if_neg (not_not.2 hopen)]
  by_cases hready : tail.any (·.verdict = readyToMerge) = true
  · obtain ⟨outcome, rfl, hverdict⟩ := (Option.any_eq_true _ _).1 hready
    rw [decide_eq_true_eq] at hverdict
    rw [hready, Bool.true_and]
    by_cases hclean : parsed.isCleanPass since until_ = true
    · rw [if_pos hclean, if_pos hclean]
      cases risk with
      | none | some =>
        exact ⟨fun approved h => ⟨(Option.some.inj h).symm, rfl, ⟨outcome, rfl, hverdict⟩, hopen⟩,
          nofun, by simp [ReviewOutcome.listed, hopen], .inl rfl⟩
    · rw [if_neg hclean, if_neg hclean]
      cases hafter : parsed.summaryAfterWindow until_ <;>
        simp [ReviewOutcome.approved, ReviewOutcome.listed, ReviewOutcome.gate,
          reviewProtocolError, hopen]
  · rw [Bool.eq_false_iff.2 hready, Bool.false_and, if_neg Bool.false_ne_true]
    have hclaim : ∀ outcome, tail = some outcome → outcome.verdict = openFindingsClaim := by
      rintro outcome rfl
      refine (htail outcome rfl).resolve_left fun hverdict => hready ?_
      simp [hverdict]
    by_cases hclean : parsed.isCleanPass since until_ = true
    · rw [if_pos hclean, summaryAfterWindow_of_clean hclean]
      refine ⟨nofun, nofun, by simp [ReviewOutcome.listed, hopen], .inr (.inl ⟨rfl, rfl, hclaim⟩)⟩
    · rw [if_neg hclean]
      cases hafter : parsed.summaryAfterWindow until_ <;>
        simp [ReviewOutcome.approved, ReviewOutcome.listed, ReviewOutcome.gate,
          reviewProtocolError, hopen]

end Task

/-! ## The adapters -/

/-- A supervised review that did not end well. -/
theorem escalates_of_failed {reason : SuperviseReason} (report : List Char)
    (since until_ sha : String) (h : reason ≠ .ok) :
    taskReviewOutcome reason report since until_ sha =
        .ok (.escalated (supervisorReason reason)) ∧
      integrationReviewOutcome reason report since until_ sha =
        .ok (.escalated (supervisorReason reason)) :=
  ⟨if_pos h, if_pos h⟩

/-- The ways a supervised task review is decided: by its branches, behind a known tail, or by a
protocol error. -/
theorem taskReviewOutcome_cases {report : List Char} {parsed : ReviewParse}
    (hparsed : parseReview report = .ok parsed) (since until_ sha : String) :
    (∃ risk, reviewRiskElevation report = .ok risk ∧ KnownTail (strictOutcome report) ∧
      taskReviewOutcome .ok report since until_ sha =
        .ok (taskReviewBranch parsed risk (strictOutcome report) since until_ sha)) ∨
    ((∃ error, reviewRiskElevation report = .error error) ∨ ¬KnownTail (strictOutcome report)) ∧
      ∃ reason, taskReviewOutcome .ok report since until_ sha = .ok (.escalated reason) := by
  unfold taskReviewOutcome
  rw [if_neg (not_not.2 rfl)]
  cases hrisk : reviewRiskElevation report with
  | error error => exact .inr ⟨.inl ⟨error, rfl⟩, _, rfl⟩
  | ok risk =>
    simp only [hparsed, bind, Except.bind]
    cases htail : strictOutcome report with
    | none => exact .inl ⟨risk, rfl, nofun, rfl⟩
    | some outcome =>
      dsimp only
      by_cases hescalation : outcome.verdict = "эскалация codex"
      · rw [if_pos hescalation]
        refine .inr ⟨.inr fun hknown => ?_, _, rfl⟩
        rcases hknown outcome rfl with h | h <;> rw [hescalation] at h <;> exact absurd h (by decide)
      rw [if_neg hescalation]
      by_cases hknown : outcome.verdict = readyToMerge ∨ outcome.verdict = openFindingsClaim
      · rw [if_pos hknown]
        refine .inl ⟨risk, rfl, ?_, rfl⟩
        rintro other hother
        obtain rfl := Option.some.inj hother
        exact hknown
      · rw [if_neg hknown]
        exact .inr ⟨.inr fun h => hknown (h outcome rfl), _, rfl⟩

theorem openReviewFindings_nil {parsed : ReviewParse} (h : parsed.openReviewFindings = []) :
    ∀ finding ∈ parsed.findings, finding.isReview = true → finding.status ≠ .new := by
  intro finding hmem hreview hnew
  have hopen := mem_openReviewFindings.2 ⟨hmem, hreview, hnew⟩
  rw [h] at hopen
  cases hopen

theorem openIntegrationFindings_nil {parsed : ReviewParse}
    (h : parsed.openIntegrationFindings = []) :
    ∀ finding ∈ parsed.findings, finding.isIntegration = true → finding.status ≠ .new := by
  intro finding hmem hintegration hnew
  have hopen : finding ∈ parsed.openIntegrationFindings := by
    unfold ReviewParse.openIntegrationFindings
    simp [hmem, hintegration, hnew]
  rw [h] at hopen
  cases hopen

/-- A supervised full review approves only behind a clean gate and the reviewer's word. -/
theorem integrationReviewOutcome_approved {report : List Char} {parsed : ReviewParse}
    (hparsed : parseReview report = .ok parsed) (since until_ sha : String) :
    ∃ outcome, integrationReviewOutcome .ok report since until_ sha = .ok outcome ∧
      ∀ approved, outcome.approved = some approved →
        approved = sha ∧ parsed.isCleanIntegrationPass since until_ = true ∧
          ∃ tail, strictOutcome report = some tail ∧ tail.verdict = readyToPublish := by
  unfold integrationReviewOutcome
  rw [if_neg (not_not.2 rfl)]
  simp only [hparsed, bind, Except.bind]
  cases strictOutcome report with
  | none => exact ⟨_, rfl, nofun⟩
  | some tail =>
    dsimp only
    by_cases hready : tail.verdict = readyToPublish
    · rw [if_pos hready]
      by_cases hclean : parsed.isCleanIntegrationPass since until_ = true
      · rw [if_pos hclean]
        exact ⟨_, rfl, fun approved h => ⟨(Option.some.inj h).symm, hclean, tail, rfl, hready⟩⟩
      · rw [if_neg hclean]
        exact ⟨_, rfl, nofun⟩
    rw [if_neg hready]
    by_cases hclaim : tail.verdict = openFindingsClaim
    · rw [if_pos hclaim]
      by_cases hfound : parsed.openIntegrationFindings = []
      · rw [if_neg (not_not.2 hfound)]
        exact ⟨_, rfl, nofun⟩
      · rw [if_pos hfound]
        exact ⟨_, rfl, nofun⟩
    · rw [if_neg hclaim]
      exact ⟨_, rfl, nofun⟩

theorem exists_open_iff {parsed : ReviewParse} :
    parsed.openReviewFindings ≠ [] ↔
      ∃ finding ∈ parsed.findings, finding.isReview = true ∧ finding.status = .new := by
  constructor
  · intro hne
    obtain ⟨finding, hfinding⟩ := List.exists_mem_of_ne_nil _ hne
    obtain ⟨hmem, hopen⟩ := mem_openReviewFindings.1 hfinding
    exact ⟨finding, hmem, hopen⟩
  · rintro ⟨finding, hmem, hopen⟩ hnil
    have hfinding := mem_openReviewFindings.2 ⟨hmem, hopen⟩
    rw [hnil] at hfinding
    cases hfinding

/-- **The adapters refine the gates**, on every artifact the parser gets through. -/
theorem review_outcomes_refine {report : List Char} {parsed : ReviewParse}
    (hparsed : parseReview report = .ok parsed) (reason : SuperviseReason)
    (since until_ sha : String) :
    (∃ outcome, taskReviewOutcome reason report since until_ sha = .ok outcome ∧
      (∀ approved, outcome.approved = some approved →
        approved = sha ∧ reason = .ok ∧ reviewGate parsed since until_ = .clean ∧
          (∃ tail, EndsIn report tail ∧ tail.verdict = readyToMerge) ∧
          ∀ finding ∈ parsed.findings, finding.isReview = true → finding.status ≠ .new) ∧
      (outcome.listed ≠ none ↔
        reason = .ok ∧
          (∃ finding ∈ parsed.findings, finding.isReview = true ∧ finding.status = .new) ∧
          (∃ risk, reviewRiskElevation report = .ok risk) ∧ KnownTail (strictOutcome report)) ∧
      (∀ count ids, outcome.listed = some (count, ids) →
        ids = parsed.openReviewFindings.map (·.id) ∧ count = toU32 ids.length) ∧
      (reason ≠ .ok → outcome.gate = none) ∧
      (reason = .ok → outcome.gate = some (reviewGate parsed since until_) ∨
        (reviewGate parsed since until_ = .clean ∧ outcome = .incomplete ∧
          ∀ tail, strictOutcome report = some tail → tail.verdict = openFindingsClaim) ∨
        (outcome.gate = none ∧ ((∃ error, reviewRiskElevation report = .error error) ∨
          ¬KnownTail (strictOutcome report) ∨
          reviewGate parsed since until_ = .incomplete ∧
            (parsed.summaryAfterWindow until_).isSome = true)))) ∧
    ∃ outcome, integrationReviewOutcome reason report since until_ sha = .ok outcome ∧
      ∀ approved, outcome.approved = some approved →
        approved = sha ∧ reason = .ok ∧ integrationGate parsed since until_ = .clean ∧
          (∃ tail, EndsIn report tail ∧ tail.verdict = readyToPublish) ∧
          ∀ finding ∈ parsed.findings, finding.isIntegration = true → finding.status ≠ .new := by
  by_cases hreason : reason = .ok
  swap
  · obtain ⟨htask, hintegration⟩ := escalates_of_failed report since until_ sha hreason
    exact ⟨⟨_, htask, nofun, ⟨fun h => absurd rfl h, fun h => absurd h.1 hreason⟩, nofun,
      fun _ => rfl, fun h => absurd h hreason⟩, _, hintegration, nofun⟩
  subst hreason
  constructor
  · rcases taskReviewOutcome_cases hparsed since until_ sha with
      ⟨risk, hrisk, hknown, houtcome⟩ | ⟨hprotocol, error, houtcome⟩
    · obtain ⟨happroved, hcounted, hlisted, hgate⟩ :=
        @taskReviewBranch_spec parsed since until_ sha risk _ hknown
      refine ⟨_, houtcome, ?_, ?_, hcounted, fun h => absurd rfl h, fun _ => ?_⟩
      · intro approved h
        obtain ⟨hsha, hclean, ⟨tail, htail, hverdict⟩, hopen⟩ := happroved approved h
        exact ⟨hsha, rfl, hclean, ⟨tail, strictOutcome_endsIn htail, hverdict⟩,
          openReviewFindings_nil hopen⟩
      · rw [hlisted, exists_open_iff]
        exact ⟨fun h => ⟨rfl, h, ⟨risk, hrisk⟩, hknown⟩, fun h => h.2.1⟩
      · rcases hgate with hgate | hincomplete | ⟨hincomplete, hnone, hafter⟩
        · exact .inl hgate
        · exact .inr (.inl hincomplete)
        · exact .inr (.inr ⟨hnone, .inr (.inr ⟨hincomplete, hafter⟩)⟩)
    · refine ⟨_, houtcome, nofun, ⟨fun h => absurd rfl h, fun h => ?_⟩, nofun, fun _ => rfl,
        fun _ => .inr (.inr ⟨rfl, ?_⟩)⟩
      · obtain ⟨-, -, ⟨risk, hrisk⟩, hknown⟩ := h
        rcases hprotocol with ⟨message, herror⟩ | hunknown
        · rw [hrisk] at herror
          cases herror
        · exact absurd hknown hunknown
      · exact hprotocol.imp_right .inl
  · obtain ⟨outcome, houtcome, happroved⟩ :=
      integrationReviewOutcome_approved hparsed since until_ sha
    refine ⟨outcome, houtcome, fun approved h => ?_⟩
    obtain ⟨hsha, hclean, tail, htail, hverdict⟩ := happroved approved h
    have hopen : parsed.openIntegrationFindings = [] :=
      List.isEmpty_iff.1 (Bool.and_eq_true _ _ ▸ hclean).2
    refine ⟨hsha, rfl, ?_, ⟨tail, strictOutcome_endsIn htail, hverdict⟩,
      openIntegrationFindings_nil hopen⟩
    unfold integrationGate
    rw [if_neg (not_not.2 hopen), if_pos hclean]

/-! ## Artifacts the adapters and the gates see differently -/

namespace ReviewSample

def since : String := "2026-07-10T17:00:00Z"

def until_ : String := "2026-07-10T19:00:00Z"

/-- A report of these lines. -/
def report (lines : List String) : List Char := lines.flatMap fun line => line.toList ++ ['\n']

def summary : String := "### [SUMMARY-R-2026-07-10T18:00:00Z] — статус: ок"

def summaryParse : Finding := ⟨"SUMMARY-R-2026-07-10T18:00:00Z", "", .other "ок"⟩

def clean : List Char := report [summary, "ИТОГ: готово к слиянию"]

/-- A finding in a status of its own, under a clean summary. -/
def inProgress : List Char :=
  report ["### [R-01] — статус: в работе", summary, "ИТОГ: готово к слиянию"]

/-- A clean summary under a claim of findings. -/
def claimed : List Char := report [summary, "ИТОГ: открытые находки"]

/-- A heading whose only status stands before its id. -/
def statusFirst : List Char := report ["### статус: [R-1]"]

end ReviewSample

/-! ### A count that saturates -/

theorem textLines_replicate {body : List Char} (hbody : '\n' ∉ body) (n : Nat) :
    textLines (List.replicate n (body ++ ['\n'])).flatten =
      List.replicate n (stripLineEnding (body ++ ['\n'])) := by
  have hcut : Outline.Cut (List.replicate n (body ++ ['\n'])) := by
    intro b l r heq
    have hmem : l ∈ List.replicate n (body ++ ['\n']) := by rw [heq]; simp
    obtain rfl := List.eq_of_mem_replicate hmem
    exact ⟨by simp, by simpa using hbody, fun _ => by simp⟩
  unfold textLines
  rw [Outline.inclusive_of_cut hcut, List.map_replicate]

theorem reduceOption_eq {α : Type} (xs : List (Option α)) : xs.reduceOption = xs.filterMap id := rfl

theorem mapM_replicate {α β ε : Type} {f : α → Except ε β} {a : α} {b : β} (h : f a = .ok b)
    (n : Nat) : (List.replicate n a).mapM f = .ok (List.replicate n b) := by
  induction n with
  | zero => rfl
  | succ n ih =>
    rw [List.replicate_succ, List.mapM_cons, h, ih]
    rfl

/-- A report of one line over and over has no tail. -/
theorem strictOutcome_of_no_tail {report : List Char}
    (h : ∀ line ∈ textLines report, isTailLine (trim line) = false) : strictOutcome report = none := by
  unfold strictOutcome
  refine if_pos ?_
  rw [Bool.or_eq_true]
  refine .inl ?_
  cases hlast : (activeLines report).getLast? with
  | none => rfl
  | some line =>
    obtain ⟨raw, hraw, rfl⟩ :=
      List.mem_map.1 (List.mem_filter.1 (List.mem_of_getLast? hlast)).1
    simp [h raw hraw]

/-- More open findings than a `u32` counts. -/
theorem findings_saturate (since until_ sha : String) : ∃ report outcome count ids,
    taskReviewOutcome .ok report since until_ sha = .ok outcome ∧
      outcome.listed = some (count, ids) ∧ count ≠ ids.length := by
  obtain ⟨body, hbody⟩ : ∃ body, body = "### [R-1] Гонка — статус: новая".toList := ⟨_, rfl⟩
  have hstrip : stripLineEnding (body ++ ['\n']) = body := by rw [hbody]; decide +kernel
  have hheading : parseHeading body = .ok (some ⟨"R-1", "Гонка", .new⟩) := by
    rw [hbody]
    decide +kernel
  have hnewline : '\n' ∉ body := by rw [hbody]; decide +kernel
  have hmarker : stripFront "Риск-повышен:".toList (trim body) = none := by
    rw [hbody]
    decide +kernel
  have htail : isTailLine (trim body) = false := by rw [hbody]; decide +kernel
  obtain ⟨n, hn⟩ : ∃ n, u32Max < n := ⟨_, Nat.lt_succ_self _⟩
  have hlines := textLines_replicate hnewline n
  rw [hstrip] at hlines
  generalize (List.replicate n (body ++ ['\n'])).flatten = report at hlines
  have hmem : ∀ line ∈ textLines report, line = body := by
    intro line hline
    rw [hlines] at hline
    exact List.eq_of_mem_replicate hline
  have hparsed : parseReview report = .ok ⟨List.replicate n ⟨"R-1", "Гонка", .new⟩⟩ := by
    unfold parseReview
    rw [hlines, mapM_replicate hheading]
    simp [bind, Except.bind, reduceOption_eq]
  have hopen : (ReviewParse.mk (List.replicate n ⟨"R-1", "Гонка", .new⟩)).openReviewFindings =
      List.replicate n ⟨"R-1", "Гонка", .new⟩ := by
    unfold ReviewParse.openReviewFindings
    rw [List.filter_replicate_of_pos (by decide)]
  have hknown : KnownTail (strictOutcome report) := by
    rw [strictOutcome_of_no_tail fun line hline => by rw [hmem line hline]; exact htail]
    intro outcome houtcome
    cases houtcome
  have hrisk : reviewRiskElevation report = .ok none := by
    have hmarkers : riskMarkers report = [] :=
      List.filterMap_eq_nil_iff.2 fun line hline => by rw [hmem line hline, hmarker]; rfl
    unfold reviewRiskElevation
    rw [hmarkers]
  rcases taskReviewOutcome_cases hparsed since until_ sha with
    ⟨risk, -, -, houtcome⟩ | ⟨⟨error, herror⟩ | hunknown, -⟩
  · obtain ⟨-, hcounted, hlisted, -⟩ := @taskReviewBranch_spec _ since until_ sha risk _ hknown
    have hne := hlisted.2 (by rw [hopen]; simp only [ne_eq, List.replicate_eq_nil_iff]; omega)
    obtain ⟨⟨count, ids⟩, hsome⟩ := Option.ne_none_iff_exists'.1 hne
    obtain ⟨hids, hcount⟩ := hcounted count ids hsome
    refine ⟨report, _, count, ids, houtcome, hsome, ?_⟩
    have hlength : ids.length = n := by rw [hids, hopen, List.length_map, List.length_replicate]
    rw [hcount, hlength]
    unfold toU32
    omega
  · rw [hrisk] at herror
    cases herror
  · exact absurd hknown hunknown

/-- An artifact with a clean summary and the word of the reviewer. -/
theorem review_outcomes_refine_clean :
    ∃ outcome, taskReviewOutcome .ok ReviewSample.clean ReviewSample.since ReviewSample.until_
        "abc" = .ok outcome ∧
      ∀ approved, outcome.approved = some approved → approved = "abc" := by
  have hparsed : parseReview ReviewSample.clean = .ok ⟨[ReviewSample.summaryParse]⟩ := by
    decide +kernel
  obtain ⟨⟨outcome, houtcome, happroved, -⟩, -⟩ :=
    review_outcomes_refine hparsed .ok ReviewSample.since ReviewSample.until_ "abc"
  exact ⟨outcome, houtcome, fun approved h => (happroved approved h).1⟩

/-- **Where adapter and gate part**: a heading in a status of its own passes as clean, a claim
of findings makes a clean gate incomplete, more findings than a `u32` counts are undercounted, and
the parser stops at a heading whose status stands before its id. -/
theorem review_outcomes_differ :
    (taskReviewOutcome .ok ReviewSample.inProgress ReviewSample.since ReviewSample.until_ "abc" =
        .ok (.clean "abc") ∧
      parseReview ReviewSample.inProgress =
        .ok ⟨[⟨"R-01", "", .other "в работе"⟩, ReviewSample.summaryParse]⟩ ∧
      Finding.isReview ⟨"R-01", "", .other "в работе"⟩ = true) ∧
    (taskReviewOutcome .ok ReviewSample.claimed ReviewSample.since ReviewSample.until_ "abc" =
        .ok .incomplete ∧
      parseReview ReviewSample.claimed = .ok ⟨[ReviewSample.summaryParse]⟩ ∧
      reviewGate ⟨[ReviewSample.summaryParse]⟩ ReviewSample.since ReviewSample.until_ = .clean ∧
      (strictOutcome ReviewSample.claimed).isSome = true) ∧
    (∃ report outcome count ids,
      taskReviewOutcome .ok report ReviewSample.since ReviewSample.until_ "abc" = .ok outcome ∧
        outcome.listed = some (count, ids) ∧ count ≠ ids.length) ∧
    ∃ panic, taskReviewOutcome .ok ReviewSample.statusFirst ReviewSample.since
      ReviewSample.until_ "abc" = .error panic := by
  refine ⟨⟨by decide +kernel, by decide +kernel, by decide +kernel⟩,
    ⟨by decide +kernel, by decide +kernel, by decide +kernel, by decide +kernel⟩,
    findings_saturate _ _ _, ⟨17, 4⟩, by decide +kernel⟩

end Orchestrail
