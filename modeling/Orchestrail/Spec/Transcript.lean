import Orchestrail.Spec.Archive

/-!
# Transcripts of the model providers

The usage counters of one provider call (`ProviderUsage` of `telemetry.rs`) and the two readers of a
transcript, `parse_json_transcript` of `codex.rs` and `parse_transcript` of `claude.rs`. Counters
are natural numbers; what the source adds checked is bounded by `u64Max`. `Serde` reads a line.
-/

namespace Orchestrail

open Text

/-- `u64::checked_add`. -/
def checkedSum (a b : Nat) : Option Nat := if a + b ≤ u64Max then some (a + b) else none

namespace Json

/-- `Value::get` with a key. -/
def get : Json → String → Option Json
  | object fields, key => fields.lookup key
  | _, _ => none

def asStr : Json → Option String
  | text value => some value
  | _ => none

def asBool : Json → Option Bool
  | bool value => some value
  | _ => none

def asU64 : Json → Option Nat
  | integer value => if 0 ≤ value ∧ value ≤ u64Max then some value.toNat else none
  | _ => none

def asObject : Json → Option (List (String × Json))
  | object fields => some fields
  | _ => none

end Json

/-! ## Usage -/

structure ProviderUsage where
  inputTokens : Option Nat
  outputTokens : Option Nat
  cacheReadInputTokens : Option Nat
  cacheCreationInputTokens : Option Nat
  totalTokens : Option Nat
  deriving DecidableEq

namespace ProviderUsage

def components (usage : ProviderUsage) : List (Option Nat) :=
  [usage.inputTokens, usage.outputTokens, usage.cacheReadInputTokens,
    usage.cacheCreationInputTokens]

/-- An explicit total wins; otherwise the known components are added. -/
def fromFields (inputTokens outputTokens cacheReadInputTokens cacheCreationInputTokens
    totalTokens : Option Nat) : Option ProviderUsage :=
  let fields := ⟨inputTokens, outputTokens, cacheReadInputTokens, cacheCreationInputTokens,
    totalTokens⟩
  match totalTokens with
  | some _ => some fields
  | none =>
    if fields.components.any (·.isSome) then do
      let computed ← (fields.components.filterMap id).foldlM checkedSum 0
      return { fields with totalTokens := some computed }
    else none

/-- The first of the names whose value is a counter. -/
def counter (usage : List (String × Json)) (names : List String) : Option Nat :=
  names.findSome? fun name => (usage.lookup name).bind Json.asU64

/-- The counters of a usage object. -/
def ofObject (usage : List (String × Json)) : Option ProviderUsage :=
  fromFields (counter usage ["input_tokens", "prompt_tokens", "input"])
    (counter usage ["output_tokens", "completion_tokens", "output"])
    (counter usage ["cache_read_input_tokens", "cached_input_tokens", "cache_read"])
    (counter usage ["cache_creation_input_tokens", "cache_creation_tokens"])
    (counter usage ["total_tokens", "tokens", "token_count"])

end ProviderUsage

/-- The lines of a transcript that are JSON. -/
def transcriptValues (serde : Serde) (transcript : List Char) : List Json :=
  (textLines transcript).filterMap fun line => (serde.read (String.ofList (trim line))).toOption

/-! ## Codex -/

namespace Codex

structure JsonTranscript where
  report : Option String
  usage : Option ProviderUsage
  sessionId : Option String
  deriving DecidableEq

/-- The locals of the loop. -/
structure Tally where
  report : Option String := none
  input : Nat := 0
  output : Nat := 0
  cacheRead : Nat := 0
  cacheCreation : Nat := 0
  total : Nat := 0
  sawUsage : Bool := false
  sessionId : Option String := none

/-- The conversation a value names. -/
def threadId (value : Json) : Option String :=
  ((value.get "thread_id").or (value.get "session_id")).bind Json.asStr

def isAgentMessage (value : Json) : Bool :=
  (value.get "type").bind Json.asStr = some "item.completed" &&
    ((value.get "item").bind (·.get "type")).bind Json.asStr = some "agent_message"

def messageText (value : Json) : Option String :=
  ((value.get "item").bind (·.get "text")).bind Json.asStr

/-- The counters of a value, if it has any. -/
def usageOf (value : Json) : Option ProviderUsage :=
  (((value.get "usage").or (value.get "token_usage")).bind Json.asObject).bind
    ProviderUsage.ofObject

/-- What is read of a value before its usage. -/
def Tally.read (tally : Tally) (value : Json) : Tally :=
  { tally with
    sessionId := (threadId value).or tally.sessionId
    report := if isAgentMessage value then messageText value else tally.report }

/-- The five checked additions. -/
def Tally.charge (tally : Tally) (usage : ProviderUsage) : Option Tally := do
  let input ← checkedSum tally.input (usage.inputTokens.getD 0)
  let output ← checkedSum tally.output (usage.outputTokens.getD 0)
  let cacheRead ← checkedSum tally.cacheRead (usage.cacheReadInputTokens.getD 0)
  let cacheCreation ← checkedSum tally.cacheCreation (usage.cacheCreationInputTokens.getD 0)
  let total ← checkedSum tally.total (usage.totalTokens.getD 0)
  return { tally with input, output, cacheRead, cacheCreation, total, sawUsage := true }

def Tally.finish (tally : Tally) : JsonTranscript where
  report := tally.report
  usage :=
    if tally.sawUsage then
      some ⟨some tally.input, some tally.output, some tally.cacheRead, some tally.cacheCreation,
        some tally.total⟩
    else none
  sessionId := tally.sessionId

/-- The loop: a sum that overflows ends it at once. -/
def scan (tally : Tally) : List Json → JsonTranscript
  | [] => tally.finish
  | value :: values =>
    let tally := tally.read value
    match usageOf value with
    | none => scan tally values
    | some usage =>
      match tally.charge usage with
      | none => ⟨tally.report, none, tally.sessionId⟩
      | some tally => scan tally values

def parseJsonTranscript (serde : Serde) (transcript : List Char) : JsonTranscript :=
  scan {} (transcriptValues serde transcript)

end Codex

end Orchestrail
