import Orchestrail.Spec.Transcript
import Mathlib.Algebra.BigOperators.Group.List.Basic

/-!
# What a transcript of the coder says

One loop of `parse_json_transcript` keeps the last report and the last session and adds the counters
up. The two parts meet where a sum overflows: the loop ends there, and what comes behind is not
read. `verdict_scan` says when that changes nothing.
-/

namespace Orchestrail.Codex

open Text

/-! ## The reading of all values -/

/-- The text of the last agent message. -/
def lastReport (values : List Json) : Option String :=
  (values.filter isAgentMessage).getLast?.bind messageText

/-- The last conversation that is named. -/
def lastSession (values : List Json) : Option String := (values.filterMap threadId).getLast?

/-- The sum of one counter over all usage objects that can be read. -/
def sumOf (counter : ProviderUsage → Option Nat) (values : List Json) : Nat :=
  ((values.filterMap usageOf).map fun usage => (counter usage).getD 0).sum

/-- The sums of all counters. -/
def exactUsage (values : List Json) : ProviderUsage where
  inputTokens := some (sumOf (·.inputTokens) values)
  outputTokens := some (sumOf (·.outputTokens) values)
  cacheReadInputTokens := some (sumOf (·.cacheReadInputTokens) values)
  cacheCreationInputTokens := some (sumOf (·.cacheCreationInputTokens) values)
  totalTokens := some (sumOf (·.totalTokens) values)

/-- A sum does not fit into 64 bits. -/
def Overflows (values : List Json) : Prop :=
  u64Max < sumOf (·.inputTokens) values ∨ u64Max < sumOf (·.outputTokens) values ∨
    u64Max < sumOf (·.cacheReadInputTokens) values ∨
    u64Max < sumOf (·.cacheCreationInputTokens) values ∨ u64Max < sumOf (·.totalTokens) values

instance (values : List Json) : Decidable (Overflows values) := inferInstanceAs (Decidable (_ ∨ _))

/-! ## The loop -/

/-- What the locals hold behind some values none of which ended the loop. -/
def tallyOf (values : List Json) : Tally where
  report := lastReport values
  input := sumOf (·.inputTokens) values
  output := sumOf (·.outputTokens) values
  cacheRead := sumOf (·.cacheReadInputTokens) values
  cacheCreation := sumOf (·.cacheCreationInputTokens) values
  total := sumOf (·.totalTokens) values
  sawUsage := !(values.filterMap usageOf).isEmpty
  sessionId := lastSession values

theorem lastReport_concat (values : List Json) (value : Json) : lastReport (values ++ [value]) =
    if isAgentMessage value then messageText value else lastReport values := by
  unfold lastReport
  rw [List.filter_append]
  by_cases h : isAgentMessage value
  · simp [h]
  · simp [h]

theorem lastSession_concat (values : List Json) (value : Json) :
    lastSession (values ++ [value]) = (threadId value).or (lastSession values) := by
  unfold lastSession
  rw [List.filterMap_append]
  cases h : threadId value with
  | none => simp [h]
  | some id => simp [h]

theorem sumOf_concat (counter : ProviderUsage → Option Nat) (values : List Json) (value : Json) :
    sumOf counter (values ++ [value]) = sumOf counter values +
      ((usageOf value).map fun usage => (counter usage).getD 0).getD 0 := by
  unfold sumOf
  rw [List.filterMap_append, List.map_append, List.sum_append]
  cases h : usageOf value <;> simp [h]

theorem read_tallyOf (values : List Json) (value : Json) :
    (tallyOf values).read value = { tallyOf values with
      report := lastReport (values ++ [value])
      sessionId := lastSession (values ++ [value]) } := by
  unfold Tally.read
  rw [lastReport_concat, lastSession_concat]
  rfl

theorem tallyOf_concat_none {value : Json} (h : usageOf value = none) (values : List Json) :
    (tallyOf values).read value = tallyOf (values ++ [value]) := by
  rw [read_tallyOf]
  unfold tallyOf
  simp [sumOf_concat, h, List.filterMap_append]

theorem overflows_concat_none {value : Json} (h : usageOf value = none) (values : List Json) :
    Overflows (values ++ [value]) ↔ Overflows values := by
  unfold Overflows
  simp [sumOf_concat, h]

theorem checkedSum_of_le {a b : Nat} (h : a + b ≤ u64Max) : checkedSum a b = some (a + b) :=
  if_pos h

theorem checkedSum_of_lt {a b : Nat} (h : u64Max < a + b) : checkedSum a b = none :=
  if_neg (Nat.not_le.2 h)

/-- A usage is charged exactly if no sum overflows with it. -/
theorem charge_tallyOf {value : Json} {usage : ProviderUsage} (h : usageOf value = some usage)
    (values : List Json) : ((tallyOf values).read value).charge usage =
      if Overflows (values ++ [value]) then none else some (tallyOf (values ++ [value])) := by
  have hsum : ∀ counter : ProviderUsage → Option Nat, sumOf counter (values ++ [value]) =
      sumOf counter values + (counter usage).getD 0 := by
    intro counter
    rw [sumOf_concat, h]
    rfl
  rw [read_tallyOf]
  unfold Tally.charge Overflows
  dsimp only [tallyOf]
  simp only [hsum]
  -- the additions in the order of the source
  by_cases hinput : u64Max < sumOf (·.inputTokens) values + usage.inputTokens.getD 0
  · rw [if_pos (.inl hinput), checkedSum_of_lt hinput]
    rfl
  rw [checkedSum_of_le (Nat.not_lt.1 hinput), Option.bind_eq_bind, Option.bind_some]
  by_cases houtput : u64Max < sumOf (·.outputTokens) values + usage.outputTokens.getD 0
  · rw [if_pos (.inr (.inl houtput)), checkedSum_of_lt houtput]
    rfl
  rw [checkedSum_of_le (Nat.not_lt.1 houtput), Option.bind_some]
  by_cases hread : u64Max < sumOf (·.cacheReadInputTokens) values +
      usage.cacheReadInputTokens.getD 0
  · rw [if_pos (.inr (.inr (.inl hread))), checkedSum_of_lt hread]
    rfl
  rw [checkedSum_of_le (Nat.not_lt.1 hread), Option.bind_some]
  by_cases hcreation : u64Max < sumOf (·.cacheCreationInputTokens) values +
      usage.cacheCreationInputTokens.getD 0
  · rw [if_pos (.inr (.inr (.inr (.inl hcreation)))), checkedSum_of_lt hcreation]
    rfl
  rw [checkedSum_of_le (Nat.not_lt.1 hcreation), Option.bind_some]
  by_cases htotal : u64Max < sumOf (·.totalTokens) values + usage.totalTokens.getD 0
  · rw [if_pos (.inr (.inr (.inr (.inr htotal)))), checkedSum_of_lt htotal]
    rfl
  rw [checkedSum_of_le (Nat.not_lt.1 htotal), Option.bind_some, if_neg]
  · simp [List.filterMap_append, h]
  · rintro (h | h | h | h | h)
    · exact hinput h
    · exact houtput h
    · exact hread h
    · exact hcreation h
    · exact htotal h

theorem Overflows.append {values : List Json} (h : Overflows values) (behind : List Json) :
    Overflows (values ++ behind) := by
  have hle : ∀ counter, sumOf counter values ≤ sumOf counter (values ++ behind) := by
    intro counter
    unfold sumOf
    rw [List.filterMap_append, List.map_append, List.sum_append]
    exact Nat.le_add_right _ _
  exact h.imp (·.trans_le (hle _)) <| .imp (·.trans_le (hle _)) <| .imp (·.trans_le (hle _)) <|
    .imp (·.trans_le (hle _)) (·.trans_le (hle _))

/-- The values up to the one at which a sum overflows. -/
structure EndsAt (values front : List Json) : Prop where
  begins : front <+: values
  overflows : Overflows front
  first : ∀ shorter, shorter <+: front → shorter ≠ front → ¬ Overflows shorter

/-- The loop reads all values, or those up to the first at which a sum overflows. -/
theorem scan_tallyOf (front values : List Json) (h : ¬ Overflows front) :
    (¬ Overflows (front ++ values) ∧
        scan (tallyOf front) values = (tallyOf (front ++ values)).finish) ∨
      ∃ read, EndsAt (front ++ values) read ∧
        scan (tallyOf front) values = ⟨lastReport read, none, lastSession read⟩ := by
  induction values generalizing front with
  | nil => exact .inl ⟨by rwa [List.append_nil], by rw [List.append_nil]; rfl⟩
  | cons value values ih =>
    have hassoc : front ++ value :: values = front ++ [value] ++ values := by simp
    rw [hassoc]
    unfold scan
    cases husage : usageOf value with
    | none =>
      rw [tallyOf_concat_none husage]
      exact ih _ (by rwa [overflows_concat_none husage])
    | some usage =>
      dsimp only
      rw [charge_tallyOf husage]
      by_cases hover : Overflows (front ++ [value])
      · rw [if_pos hover]
        refine .inr ⟨front ++ [value], ⟨List.prefix_append _ _, hover, ?_⟩, ?_⟩
        · intro shorter hshorter hne hbad
          rcases List.prefix_concat_iff.1 hshorter with heq | hprefix
          · exact hne heq
          · obtain ⟨behind, rfl⟩ := hprefix
            exact h (hbad.append behind)
        · rw [read_tallyOf]
      · rw [if_neg hover]
        exact ih _ hover

theorem EndsAt.unique {values a b : List Json} (ha : EndsAt values a) (hb : EndsAt values b) :
    a = b := by
  rcases List.prefix_or_prefix_of_prefix ha.begins hb.begins with h | h
  · by_contra hne
    exact hb.first a h hne ha.overflows
  · by_contra hne
    exact ha.first b h (Ne.symm hne) hb.overflows

/-! ## The verdict -/

/-- The report and the session are the last ones of all values, and the usage is the exact sum of
all usage objects that can be read, or absent. -/
structure Verdict (values : List Json) (transcript : JsonTranscript) : Prop where
  report : transcript.report = lastReport values
  sessionId : transcript.sessionId = lastSession values
  usage : transcript.usage = none ∨
    transcript.usage = some (exactUsage values) ∧ values.filterMap usageOf ≠ []

/-- Where the sums of the counters outgrow 64 bits, the report and the session read so far are the
last ones. -/
def NothingBehind (values : List Json) : Prop :=
  ∀ read, EndsAt values read → lastReport read = lastReport values ∧
    lastSession read = lastSession values

/-- A value without its usage objects. -/
def dropUsage : Json → Json
  | .object fields => .object (fields.filter fun field =>
      field.1 != "usage" && field.1 != "token_usage")
  | value => value

theorem nothingBehind_of_not_overflows {values : List Json} (h : ¬ Overflows values) :
    NothingBehind values := by
  intro read hends
  obtain ⟨behind, rfl⟩ := hends.begins
  exact absurd (hends.overflows.append behind) h

theorem verdict_scan (values : List Json) :
    Verdict values (scan {} values) ↔ NothingBehind values := by
  have hstart : ({} : Tally) = tallyOf [] := rfl
  have hempty : ¬ Overflows [] := by decide
  rw [hstart]
  obtain ⟨hno, hscan⟩ | ⟨read, hends, hscan⟩ := scan_tallyOf [] values hempty
  · rw [List.nil_append] at hno hscan
    rw [hscan]
    refine iff_of_true ⟨rfl, rfl, ?_⟩ ?_
    · by_cases hnil : values.filterMap usageOf = []
      · exact .inl (by simp [Tally.finish, tallyOf, hnil])
      · refine .inr ⟨?_, hnil⟩
        simp [Tally.finish, tallyOf, hnil, exactUsage]
    · exact nothingBehind_of_not_overflows hno
  · rw [List.nil_append] at hends
    rw [hscan]
    constructor
    · intro h read' hends'
      rw [hends'.unique hends]
      exact ⟨h.report, h.sessionId⟩
    · intro h
      obtain ⟨hreport, hsession⟩ := h read hends
      exact ⟨hreport, hsession, .inl rfl⟩

theorem get_dropUsage {key : String} (h : key ≠ "usage") (h' : key ≠ "token_usage") (value : Json) :
    (dropUsage value).get key = value.get key := by
  cases value with
  | object fields =>
    show (fields.filter _).lookup key = fields.lookup key
    induction fields with
    | nil => rfl
    | cons field fields ih =>
      obtain ⟨name, value⟩ := field
      by_cases hname : key = name
      · subst hname
        simp [h, h']
      · have hskip : ∀ rest : List (String × Json), ((name, value) :: rest).lookup key =
            rest.lookup key := fun rest => by
          rw [List.lookup_cons, beq_eq_false_iff_ne.2 hname]
        rw [hskip, ← ih, List.filter_cons]
        split
        · exact hskip _
        · rfl
  | _ => rfl

theorem reading_dropUsage (values : List Json) :
    lastReport (values.map dropUsage) = lastReport values ∧
      lastSession (values.map dropUsage) = lastSession values := by
  have hid : ∀ value, threadId (dropUsage value) = threadId value := by
    intro value
    unfold threadId
    rw [get_dropUsage (by decide) (by decide), get_dropUsage (by decide) (by decide)]
  have hmessage : ∀ value, isAgentMessage (dropUsage value) = isAgentMessage value ∧
      messageText (dropUsage value) = messageText value := by
    intro value
    unfold isAgentMessage messageText
    rw [get_dropUsage (by decide) (by decide), get_dropUsage (by decide) (by decide)]
    exact ⟨rfl, rfl⟩
  constructor
  · unfold lastReport
    rw [List.filter_map]
    have hfilter : (isAgentMessage ∘ dropUsage) = isAgentMessage :=
      funext fun value => (hmessage value).1
    rw [hfilter, List.getLast?_map]
    cases (values.filter isAgentMessage).getLast? with
    | none => rfl
    | some value => exact (hmessage value).2
  · unfold lastSession
    rw [List.filterMap_map]
    have hfilter : (threadId ∘ dropUsage) = threadId := funext hid
    rw [hfilter]

/-- **A transcript says what its last message says**, exactly if no sum of its counters outgrows 64
bits before a message or a session that changes what was read; and usage objects then make no
difference to two transcripts. -/
theorem transcript_verdict (serde : Serde) :
    (∀ transcript : List Char, Verdict (transcriptValues serde transcript)
        (parseJsonTranscript serde transcript) ↔
      NothingBehind (transcriptValues serde transcript)) ∧
    ∀ a b : List Char, (transcriptValues serde a).map dropUsage =
        (transcriptValues serde b).map dropUsage →
      NothingBehind (transcriptValues serde a) → NothingBehind (transcriptValues serde b) →
      (parseJsonTranscript serde a).report = (parseJsonTranscript serde b).report ∧
        (parseJsonTranscript serde a).sessionId = (parseJsonTranscript serde b).sessionId := by
  refine ⟨fun transcript => verdict_scan _, fun a b hsame ha hb => ?_⟩
  have hva := (verdict_scan _).2 ha
  have hvb := (verdict_scan _).2 hb
  obtain ⟨hreport, hsession⟩ := reading_dropUsage (transcriptValues serde a)
  obtain ⟨hreport', hsession'⟩ := reading_dropUsage (transcriptValues serde b)
  unfold parseJsonTranscript
  rw [hva.report, hvb.report, hva.sessionId, hvb.sessionId, ← hreport, ← hsession, hsame, hreport',
    hsession']
  exact ⟨rfl, rfl⟩

def fullLine : String := "\x7b\"usage\":\x7b\"total_tokens\":18446744073709551615\x7d\x7d"

def oneLine : String := "\x7b\"usage\":\x7b\"total_tokens\":1\x7d\x7d"

def messageLine : String :=
  "\x7b\"item\":\x7b\"text\":\"done\",\"type\":\"agent_message\"\x7d," ++
    "\"type\":\"item.completed\"\x7d"

def messageValue : Json :=
  .object [("item", .object [("text", .text "done"), ("type", .text "agent_message")]),
    ("type", .text "item.completed")]

def totalValue (total : Nat) : Json :=
  .object [("usage", .object [("total_tokens", .integer total)])]

/-- The values of three lines of a transcript. -/
def lineSerde : Serde where
  render := fun _ => ""
  read := fun line =>
    if line = fullLine then .ok (totalValue u64Max)
    else if line = oneLine then .ok (totalValue 1)
    else if line = messageLine then .ok messageValue
    else .error "expected value"

def keptTranscript (first : String) : List Char := (first ++ "\n" ++ messageLine ++ "\n").toList

def staleTranscript : List Char :=
  (fullLine ++ "\n" ++ oneLine ++ "\n" ++ messageLine ++ "\n").toList

theorem values_keptTranscript {first : String} {value : Json}
    (hlines : textLines (keptTranscript first) = [first.toList, messageLine.toList])
    (htrim : trim first.toList = first.toList) (hread : lineSerde.read first = .ok value) :
    transcriptValues lineSerde (keptTranscript first) = [value, messageValue] := by
  have hmessage : trim messageLine.toList = messageLine.toList := by decide +kernel
  have hfull : messageLine ≠ fullLine := by decide +kernel
  have hone : messageLine ≠ oneLine := by decide +kernel
  have hlast : lineSerde.read messageLine = .ok messageValue := by
    unfold lineSerde
    dsimp only
    rw [if_neg hfull, if_neg hone, if_pos rfl]
  have hfirst' : (lineSerde.read (String.ofList (trim first.toList))).toOption = some value := by
    rw [htrim, String.ofList_toList, hread]
    rfl
  have hlast' : (lineSerde.read (String.ofList (trim messageLine.toList))).toOption =
      some messageValue := by
    rw [hmessage, String.ofList_toList, hlast]
    rfl
  unfold transcriptValues
  rw [hlines]
  simp only [List.filterMap_cons, hfirst', hlast', List.filterMap_nil]

/-- A usage object that leaves room, and two transcripts that differ in it. -/
theorem transcript_verdict_kept :
    Verdict (transcriptValues lineSerde (keptTranscript fullLine))
        (parseJsonTranscript lineSerde (keptTranscript fullLine)) ∧
      (parseJsonTranscript lineSerde (keptTranscript fullLine)).report =
        (parseJsonTranscript lineSerde (keptTranscript oneLine)).report := by
  have hne : oneLine ≠ fullLine := by decide +kernel
  have hone : lineSerde.read oneLine = .ok (totalValue 1) := by
    unfold lineSerde
    dsimp only
    rw [if_neg hne, if_pos rfl]
  have hfull : lineSerde.read fullLine = .ok (totalValue u64Max) := by
    unfold lineSerde
    dsimp only
    rw [if_pos rfl]
  have ha := values_keptTranscript (by decide +kernel) (by decide +kernel) hfull
  have hb := values_keptTranscript (by decide +kernel) (by decide +kernel) hone
  have hkept : NothingBehind (transcriptValues lineSerde (keptTranscript fullLine)) := by
    rw [ha]
    exact nothingBehind_of_not_overflows (by decide)
  have hkept' : NothingBehind (transcriptValues lineSerde (keptTranscript oneLine)) := by
    rw [hb]
    exact nothingBehind_of_not_overflows (by decide)
  have hsame : (transcriptValues lineSerde (keptTranscript fullLine)).map dropUsage =
      (transcriptValues lineSerde (keptTranscript oneLine)).map dropUsage := by
    rw [ha, hb]
    rfl
  exact ⟨((transcript_verdict lineSerde).1 _).2 hkept,
    ((transcript_verdict lineSerde).2 _ _ hsame hkept hkept').1⟩

/-- The message stands behind the line at which the total outgrows 64 bits. -/
theorem transcript_verdict_stale : ¬ ∀ serde transcript,
    Verdict (transcriptValues serde transcript) (parseJsonTranscript serde transcript) := by
  intro h
  have hreport := (h lineSerde staleTranscript).report
  revert hreport
  decide +kernel

end Orchestrail.Codex
