import Orchestrail.Spec.Archive

/-!
# The structured markers of leaf agents

`contract.rs`: the findings of a review artifact, the terminal outcome line of a report, and the
task lines of a merge report. Texts are lists of characters; what is compared or kept is a string.

A heading whose last `статус:` stands in front of the bracket that ends its id makes the parser
take a slice that ends before it starts; the program stops there (`SlicePanic`).
-/

namespace Orchestrail

open Text

/-! ## Searching a text -/

/-- Where a pattern occurs last (`str::rfind`). -/
def lastMatch (pattern : List Char) : List Char → Option Nat
  | [] => if pattern.isEmpty then some 0 else none
  | ch :: text =>
    match lastMatch pattern text with
    | some at_ => some (at_ + 1)
    | none => if pattern.isPrefixOf (ch :: text) then some 0 else none

/-- `str::split` at a pattern: the piece that is read, and what is left to skip of a match. -/
def splitText (pattern : List Char) : List Char → Nat → List Char → List (List Char)
  | piece, _, [] => [piece]
  | piece, skip + 1, _ :: text => splitText pattern piece skip text
  | piece, 0, ch :: text =>
    if pattern.isPrefixOf (ch :: text) then
      piece :: splitText pattern [] (pattern.length - 1) text
    else splitText pattern (piece ++ [ch]) 0 text

/-- `str::split_once`: the text before the first match and the text behind it. -/
def splitOnce (pattern text : List Char) : Option (List Char × List Char) :=
  (afterFirst pattern text).map fun behind =>
    (text.take (text.length - behind.length - pattern.length), behind)

/-- `char::is_control`. -/
def isControl (ch : Char) : Bool := ch.toNat < 0x20 || (0x7F ≤ ch.toNat && ch.toNat < 0xA0)

/-- A text is split once at its first separator. -/
theorem splitOnce_char {sep : Char} {s a b : List Char} :
    splitOnce [sep] s = some (a, b) ↔ s = a ++ sep :: b ∧ sep ∉ a := by
  have hafter : ∀ s b : List Char,
      afterFirst [sep] s = some b ↔ ∃ a, s = a ++ sep :: b ∧ sep ∉ a := by
    intro s
    induction s with
    | nil => intro b; simp [afterFirst]
    | cons ch s ih =>
      intro b
      by_cases hch : sep = ch
      · subst hch
        constructor
        · intro h
          have hb : s = b := by simpa [afterFirst] using h
          exact ⟨[], by rw [hb]; rfl, List.not_mem_nil⟩
        · rintro ⟨a, hs, ha⟩
          cases a with
          | nil =>
            have hb : s = b := (List.cons.inj hs).2
            simp [afterFirst, hb]
          | cons c a => exact absurd (List.mem_cons.2 (.inl (List.cons.inj hs).1)) ha
      · have hstep : afterFirst [sep] (ch :: s) = afterFirst [sep] s := by simp [afterFirst, hch]
        rw [hstep, ih]
        constructor
        · rintro ⟨a, rfl, ha⟩
          exact ⟨ch :: a, rfl, by simp [hch, ha]⟩
        · rintro ⟨a, hs, ha⟩
          cases a with
          | nil => exact absurd (List.cons.inj hs).1.symm hch
          | cons c a => exact ⟨a, (List.cons.inj hs).2, fun h => ha (List.mem_cons_of_mem _ h)⟩
  unfold splitOnce
  constructor
  · intro h
    obtain ⟨behind, hbehind, hpair⟩ := Option.map_eq_some_iff.1 h
    obtain ⟨c, rfl, hc⟩ := (hafter s behind).1 hbehind
    obtain ⟨rfl, rfl⟩ := Prod.mk.inj hpair
    have htake : (c ++ sep :: behind).length - behind.length - [sep].length = c.length := by
      simp
      omega
    rw [htake, List.take_left]
    exact ⟨rfl, hc⟩
  · rintro ⟨rfl, ha⟩
    rw [(hafter _ b).2 ⟨a, rfl, ha⟩, Option.map_some]
    have htake : (a ++ sep :: b).length - b.length - [sep].length = a.length := by
      simp
      omega
    rw [htake, List.take_left]

theorem splitOnce_none {sep : Char} {s : List Char} : splitOnce [sep] s = none ↔ sep ∉ s := by
  constructor
  · intro h hmem
    obtain ⟨a, b, rfl, ha⟩ := List.eq_append_cons_of_mem hmem
    rw [splitOnce_char.2 ⟨rfl, ha⟩] at h
    cases h
  · intro h
    cases hsplit : splitOnce [sep] s with
    | none => rfl
    | some pair =>
      obtain ⟨a, b⟩ := pair
      obtain ⟨rfl, -⟩ := splitOnce_char.1 hsplit
      simp at h

/-! ## Findings -/

inductive Status where
  | new | fixed | rejected | ready
  | other (value : String)
  deriving DecidableEq

def Status.parse (s : List Char) : Status :=
  let literal := String.ofList (trim s)
  if literal = "новая" then .new
  else if literal = "исправлено" then .fixed
  else if literal = "отклонено" then .rejected
  else if literal = "готово к слиянию" then .ready
  else .other literal

structure Finding where
  id : String
  /-- The heading between the marker id and `статус:`. -/
  title : String
  status : Status
  deriving DecidableEq

/-- The text behind a prefix of an id. -/
def behindPrefix (front id : String) : Option String :=
  (stripFront front.toList id.toList).map String.ofList

def hasPrefix (front id : String) : Bool := front.toList.isPrefixOf id.toList

namespace Finding

variable (finding : Finding)

def isSummary : Bool := hasPrefix "SUMMARY-R" finding.id

def isReview : Bool := hasPrefix "R-" finding.id

def isIntegration : Bool := hasPrefix "F-" finding.id

def summaryTimestamp : Option String := behindPrefix "SUMMARY-R-" finding.id

def isIntegrationSummary : Bool := hasPrefix "SUMMARY-F" finding.id

def integrationSummaryTimestamp : Option String := behindPrefix "SUMMARY-F-" finding.id

end Finding

structure ReviewParse where
  findings : List Finding
  deriving DecidableEq

/-- The milliseconds of a strict UTC timestamp. -/
def isoToEpochMillis (value : String) : Option Nat := do
  let seconds ← isoToEpoch value
  let tail := (value.toList.drop 19).dropLast
  let fraction :=
    match tail with
    | '.' :: digits =>
      if digits.length = 1 then (decimal digits).toNat * 100
      else if digits.length = 2 then (decimal digits).toNat * 10
      else if digits.length = 3 then (decimal digits).toNat
      else 0
    | _ => 0
  let millis := seconds * 1000 + fraction
  if millis ≤ 18446744073709551615 then some millis else none

def isoChronoCmp (a b : String) : Ordering :=
  match isoToEpochMillis a, isoToEpochMillis b with
  | some a, some b => compare a b
  | _, _ => compare a b

/-- `Iterator::max_by`: of equal elements the last one. -/
def maxBy {α : Type} (cmp : α → α → Ordering) : List α → Option α
  | [] => none
  | first :: rest =>
    some (rest.foldl (fun best next => if cmp best next = .gt then best else next) first)

/-- The summary mark of an invocation: behind its start and not behind its end. -/
def inWindow (since until_ timestamp : String) : Bool :=
  isoChronoCmp timestamp since = .gt && isoChronoCmp timestamp until_ ≠ .gt

namespace ReviewParse

variable (parse : ReviewParse)

def latestSummary : Option Finding :=
  maxBy (fun a b => isoChronoCmp (a.summaryTimestamp.getD "") (b.summaryTimestamp.getD ""))
    (parse.findings.filter (·.isSummary))

def openReviewFindings : List Finding :=
  parse.findings.filter fun finding => finding.isReview && finding.status = .new

/-- A `SUMMARY-R` of this invocation and no open `R-` finding. -/
def isCleanPass (since until_ : String) : Bool :=
  ((parse.latestSummary.bind (·.summaryTimestamp)).map (inWindow since until_)).getD false &&
    parse.openReviewFindings.isEmpty

/-- The latest `SUMMARY-R` when it is dated behind the invocation. -/
def summaryAfterWindow (until_ : String) : Option String :=
  (parse.latestSummary.bind (·.summaryTimestamp)).filter fun timestamp =>
    isoChronoCmp timestamp until_ = .gt

def latestIntegrationSummary : Option Finding :=
  maxBy (fun a b => isoChronoCmp (a.integrationSummaryTimestamp.getD "")
      (b.integrationSummaryTimestamp.getD ""))
    (parse.findings.filter (·.isIntegrationSummary))

def openIntegrationFindings : List Finding :=
  parse.findings.filter fun finding => finding.isIntegration && finding.status = .new

def isCleanIntegrationPass (since until_ : String) : Bool :=
  ((parse.latestIntegrationSummary.bind (·.integrationSummaryTimestamp)).map
      (inWindow since until_)).getD false &&
    parse.openIntegrationFindings.isEmpty

end ReviewParse

/-- One or more ASCII digits. -/
def isCounter (s : String) : Bool := s ≠ "" && s.toList.all isAsciiDigit

def isMarkerId (id : String) : Bool :=
  (behindPrefix "R-" id).any isCounter || (behindPrefix "F-" id).any isCounter ||
    (behindPrefix "SUMMARY-R-" id).any isIsoUtc || (behindPrefix "SUMMARY-F-" id).any isIsoUtc

/-- A slice whose end lies before its start. -/
structure SlicePanic where
  start : Nat
  stop : Nat
  deriving DecidableEq

/-- One `### [ID] … — статус: X` heading; a line that is none has no finding. -/
def parseHeading (line : List Char) : Except SlicePanic (Option Finding) :=
  let l := line.dropWhile isWhiteSpace
  if !"###".toList.isPrefixOf l then .ok none
  else
    match splitOnce ['['] l with
    | none => .ok none
    | some (before, inner) =>
      match splitOnce [']'] inner with
      | none => .ok none
      | some (marker, _) =>
        let id := String.ofList (trim marker)
        if !isMarkerId id then .ok none
        else
          match lastMatch "статус:".toList l with
          | none => .ok none
          | some p =>
            let literal := trim (l.drop (p + "статус:".toList.length))
            if literal.isEmpty then .ok none
            else
              -- the title is the slice from behind the bracket to the last `статус:`
              let start := before.length + 1 + marker.length + 1
              if p < start then .error ⟨start, p⟩
              else
                let dash := fun ch : Char => ch == '—' || ch == '-'
                let title := trim ((l.take p).drop start)
                let title := trim ((title.dropWhile dash).rdropWhile dash)
                .ok (some ⟨id, String.ofList title, Status.parse literal⟩)

/-- The findings of a review artifact. -/
def parseReview (text : List Char) : Except SlicePanic ReviewParse := do
  let headings ← (textLines text).mapM parseHeading
  .ok ⟨headings.reduceOption⟩

/-! ## The terminal outcome line -/

/-- A leaf agent's terminal `ИТОГ:` line. -/
structure TerminalOutcome where
  verdict : String
  fields : List (String × String)
  deriving DecidableEq

def TerminalOutcome.field (outcome : TerminalOutcome) (key : String) : Option String :=
  (outcome.fields.find? (·.1 = key)).map (·.2)

def outcomeSep : List Char := [' ', '·', ' ']

def outcomeField (seg : List Char) : String × String :=
  match splitOnce ['='] seg with
  | some (key, value) => (String.ofList (trim key), String.ofList (trim value))
  | none => (String.ofList (trim seg), "")

/-- The outcome of a line, if it is an outcome line with a verdict. -/
def outcomeOfLine (line : List Char) : Option TerminalOutcome := do
  let rest ← stripFront "ИТОГ:".toList (trim line)
  match splitText outcomeSep [] 0 rest with
  | [] => none
  | verdict :: fields =>
    if (trim verdict).isEmpty then none
    else some ⟨String.ofList (trim verdict), fields.map outcomeField⟩

/-- The last outcome line of a report. -/
def parseOutcome (text : List Char) : Option TerminalOutcome :=
  ((textLines text).filterMap outcomeOfLine).getLast?

end Orchestrail
