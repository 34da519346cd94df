import Orchestrail.Spec.Notification
import Orchestrail.Spec.Transcript

/-!
# Prices of model calls

The transcript of `claude.rs` and the price of the usage counters by the rate cards of
`telemetry.rs`. Rates are natural numbers of millionths of a dollar; what the source multiplies and
adds checked in 128 bits is bounded by `u128Max`.
-/

namespace Orchestrail

open Text

/-- The counters of a usage object as they stand there. -/
def ProviderUsage.countersOf (usage : List (String × Json)) : ProviderUsage where
  inputTokens := counter usage ["input_tokens", "prompt_tokens", "input"]
  outputTokens := counter usage ["output_tokens", "completion_tokens", "output"]
  cacheReadInputTokens :=
    counter usage ["cache_read_input_tokens", "cached_input_tokens", "cache_read"]
  cacheCreationInputTokens := counter usage ["cache_creation_input_tokens", "cache_creation_tokens"]
  totalTokens := counter usage ["total_tokens", "tokens", "token_count"]

/-! ## Claude -/

namespace Claude

def u32Max : Nat := 4294967295

structure StreamResult where
  resultSeen : Bool := false
  subtype : Option String := none
  isError : Option Bool := none
  numTurns : Option Nat := none
  resultText : Option String := none
  usage : Option ProviderUsage := none
  sessionId : Option String := none

def usageFromResult (value : Json) : Option ProviderUsage :=
  ((value.get "usage").bind Json.asObject).bind ProviderUsage.ofObject

def isResult (value : Json) : Bool := (value.get "type").bind Json.asStr = some "result"

/-- What one line changes. -/
def StreamResult.read (out : StreamResult) (value : Json) : StreamResult :=
  let out := { out with
    sessionId := ((value.get "session_id").bind Json.asStr).or out.sessionId }
  if isResult value then
    { out with
      resultSeen := true
      subtype := (value.get "subtype").bind Json.asStr
      isError := (value.get "is_error").bind Json.asBool
      numTurns := ((value.get "num_turns").bind Json.asU64).filter (· ≤ u32Max)
      resultText := (value.get "result").bind Json.asStr
      usage := usageFromResult value }
  else out

def parseTranscript (serde : Serde) (transcript : List Char) : StreamResult :=
  (transcriptValues serde transcript).foldl StreamResult.read {}

end Claude

/-! ## Rate cards -/

inductive UsageSource where
  | claude | codex
  deriving DecidableEq

structure ModelPricing where
  model : String
  input : Nat
  cachedInput : Nat
  cacheCreationInput : Nat
  output : Nat
  effectiveDate : String

structure PricingTable where
  entries : List ModelPricing

/-- `YYYYMMDD` or `YYYY-MM-DD`. -/
def datedModelSuffix (suffix : List Char) : Bool :=
  (suffix.length = 8 && suffix.all isAsciiDigit) ||
    (suffix.length = 10 && suffix[4]? = some '-' && suffix[7]? = some '-' &&
      suffix.zipIdx.all fun (ch, index) => index = 4 || index = 7 || isAsciiDigit ch)

/-- The part of a model's name behind a base and a dash. -/
def datedSuffixOf (model base : List Char) : Option (List Char) :=
  if (base ++ ['-']).isPrefixOf model then some (model.drop (base.length + 1)) else none

/-- An exact entry first, then the longest base with a dated suffix. -/
def PricingTable.resolve (table : PricingTable) (model : String) : Option ModelPricing :=
  if model = "default" then none
  else
    match table.entries.find? (·.model = model) with
    | some exact => some exact
    | none =>
      let dated := table.entries.filter fun pricing =>
        (datedSuffixOf model.toList pricing.model.toList).any datedModelSuffix
      dated.foldl (fun best pricing =>
        match best with
        | none => some pricing
        | some best =>
          if best.model.utf8ByteSize ≤ pricing.model.utf8ByteSize then some pricing else some best)
        none

/-! ## Estimates -/

structure CostEstimate where
  nanoUsd : Nat := 0
  estimated : Bool := false
  unknown : Bool := false
  deriving DecidableEq

def CostEstimate.unknownCost : CostEstimate := ⟨0, true, true⟩

/-- A counter that is missing counts nothing. -/
def ProviderUsage.input (usage : ProviderUsage) : Nat := usage.inputTokens.getD 0
def ProviderUsage.output (usage : ProviderUsage) : Nat := usage.outputTokens.getD 0
def ProviderUsage.cached (usage : ProviderUsage) : Nat := usage.cacheReadInputTokens.getD 0
def ProviderUsage.creation (usage : ProviderUsage) : Nat := usage.cacheCreationInputTokens.getD 0

/-- The cached input of Codex is part of its input, that of Claude is not. -/
def nonCachedInput (usage : ProviderUsage) : UsageSource → Nat
  | .codex => usage.input - usage.cached
  | .claude => usage.input

/-- The checked sum that a total has to reach. -/
def minimumTotal (usage : ProviderUsage) : UsageSource → Option Nat
  | .codex => checkedSum (nonCachedInput usage .codex) usage.output
  | .claude => do
    let total ← checkedSum usage.input usage.output
    let total ← checkedSum total usage.cached
    checkedSum total usage.creation

/-- The tokens of each price. -/
def pricedCounters (usage : ProviderUsage) (source : UsageSource) (rate : ModelPricing) :
    List (Nat × Nat) :=
  [(nonCachedInput usage source, rate.input), (usage.output, rate.output),
    (usage.cached, rate.cachedInput), (usage.creation, rate.cacheCreationInput)]

/-- One checked step of the sum of the prices. -/
def addPrice (total : Nat) (entry : Nat × Nat) : Option Nat :=
  if entry.1 * entry.2 ≤ u128Max ∧ entry.1 * entry.2 * 1000 ≤ u128Max ∧
      total + entry.1 * entry.2 * 1000 ≤ u128Max then
    some (total + entry.1 * entry.2 * 1000)
  else none

def estimateUsageCost (usage : ProviderUsage) (source : UsageSource) (model : String)
    (pricing : PricingTable) : CostEstimate :=
  match pricing.resolve model with
  | none => .unknownCost
  | some rate =>
    if usage.components.all (·.isNone) then .unknownCost
    else
      match minimumTotal usage source with
      | none => .unknownCost
      | some minimum =>
        if usage.totalTokens.all (· < minimum) then .unknownCost
        else
          match (pricedCounters usage source rate).foldlM addPrice 0 with
          | none => .unknownCost
          | some priced =>
            { nanoUsd := min (priced + 500000) u128Max / 1000000
              estimated := true
              unknown := false }

end Orchestrail
