import Orchestrail.Proof.Transcript
import Orchestrail.Spec.Pricing
import Mathlib.Algebra.Order.BigOperators.Group.List
import Mathlib.Tactic.Ring

/-!
# What tokens are counted and priced

The total of a usage object and the price of a transcript are two computations over the same
counters. `Totals` ties a parsed usage to the turns behind it; `CountsOnce` says that no token is
counted or priced twice, and none is left out. For Claude it holds of every transcript; for Codex,
whose input contains the cached input, `Apart` says when.
-/

namespace Orchestrail.Pricing

open Text

/-! ## The turns of a transcript -/

/-- The usage that the counters of one object make. -/
def derive (turn : ProviderUsage) : Option ProviderUsage :=
  ProviderUsage.fromFields turn.inputTokens turn.outputTokens turn.cacheReadInputTokens
    turn.cacheCreationInputTokens turn.totalTokens

/-- An object with any counter is a turn. -/
def counted (turn : ProviderUsage) : Bool :=
  turn.totalTokens.isSome || turn.components.any (·.isSome)

def turnsOf (objects : List (List (String × Json))) : List ProviderUsage :=
  (objects.map ProviderUsage.countersOf).filter counted

/-- Every usage object of a transcript of Codex. -/
def codexTurns (values : List Json) : List ProviderUsage :=
  turnsOf <| values.filterMap fun value =>
    ((value.get "usage").or (value.get "token_usage")).bind Json.asObject

/-- The usage object of the last result of Claude. -/
def claudeTurns (values : List Json) : List ProviderUsage :=
  turnsOf <| ((values.filter Claude.isResult).getLast?.bind fun value =>
    (value.get "usage").bind Json.asObject).toList

/-- The turn carries its total, or its counters add up within 64 bits. -/
def fits (turn : ProviderUsage) : Bool :=
  turn.totalTokens.isSome ||
    decide (turn.input + turn.output + turn.cached + turn.creation ≤ u64Max)

/-- The explicit total, or the sum of the components. -/
def totalOf (turn : ProviderUsage) : Nat :=
  turn.totalTokens.getD (turn.input + turn.output + turn.cached + turn.creation)

/-- The tokens that are counted once: the cached input of Codex is part of its input. -/
def distinct (usage : ProviderUsage) : UsageSource → Nat
  | .codex => max usage.input usage.cached + usage.output + usage.creation
  | .claude => usage.input + usage.cached + usage.output + usage.creation

theorem foldlM_checkedSum {l : List Nat} {acc total : Nat}
    (h : l.foldlM checkedSum acc = some total) :
    total = acc + l.sum ∧ (acc ≤ u64Max → total ≤ u64Max) := by
  induction l generalizing acc with
  | nil =>
    cases h
    exact ⟨rfl, id⟩
  | cons a l ih =>
    rw [List.foldlM_cons] at h
    obtain ⟨next, hnext, hrest⟩ := Option.bind_eq_some_iff.1 h
    unfold checkedSum at hnext
    split at hnext
    · rename_i hle
      cases hnext
      obtain ⟨htotal, hbound⟩ := ih hrest
      refine ⟨?_, fun _ => hbound hle⟩
      rw [htotal, List.sum_cons, Nat.add_assoc]
    · cases hnext

theorem sum_components (turn : ProviderUsage) : (turn.components.filterMap id).sum =
    turn.input + turn.output + turn.cached + turn.creation := by
  obtain ⟨input, output, cached, creation, total⟩ := turn
  cases input <;> cases output <;> cases cached <;> cases creation <;>
    simp [ProviderUsage.components, ProviderUsage.input, ProviderUsage.output,
      ProviderUsage.cached, ProviderUsage.creation, Nat.add_assoc]

/-- A derived usage has the components of its object and its total. -/
theorem derive_some {turn usage : ProviderUsage} (h : derive turn = some usage) :
    usage = { turn with totalTokens := some (totalOf turn) } ∧
      (turn.totalTokens = none → totalOf turn ≤ u64Max) := by
  obtain ⟨input, output, cached, creation, total⟩ := turn
  unfold derive ProviderUsage.fromFields at h
  cases total with
  | some total =>
    cases h
    exact ⟨rfl, nofun⟩
  | none =>
    dsimp only at h
    split at h
    · obtain ⟨computed, hcomputed, hreturn⟩ := Option.bind_eq_some_iff.1 h
      cases hreturn
      obtain ⟨hsum, hbound⟩ := foldlM_checkedSum hcomputed
      rw [Nat.zero_add, sum_components] at hsum
      have htotal : totalOf ⟨input, output, cached, creation, none⟩ = computed := hsum.symm
      rw [htotal]
      exact ⟨rfl, fun _ => hbound (Nat.zero_le _)⟩
    · cases h

theorem foldlM_checkedSum_isSome {l : List Nat} {acc : Nat} (hacc : acc + l.sum ≤ u64Max) :
    (l.foldlM checkedSum acc).isSome := by
  induction l generalizing acc with
  | nil => rfl
  | cons a l ih =>
    rw [List.sum_cons] at hacc
    have hadd : checkedSum acc a = some (acc + a) := if_pos (by omega)
    rw [List.foldlM_cons, hadd]
    exact ih (by omega)

/-- Usage is derived of the turns that fit, and of these alone. -/
theorem isSome_derive (turn : ProviderUsage) :
    (derive turn).isSome = (counted turn && fits turn) := by
  obtain ⟨input, output, cached, creation, total⟩ := turn
  cases total with
  | some total => rfl
  | none =>
    rw [Bool.eq_iff_iff, Bool.and_eq_true]
    constructor
    · intro hsome
      obtain ⟨usage, husage⟩ := Option.isSome_iff_exists.1 hsome
      have hbound := (derive_some husage).2 rfl
      unfold derive ProviderUsage.fromFields at husage
      dsimp only at husage
      split at husage
      · rename_i hany
        exact ⟨hany, decide_eq_true hbound⟩
      · cases husage
    · rintro ⟨hcounted, hfits⟩
      have hany : (⟨input, output, cached, creation, none⟩ : ProviderUsage).components.any
          (·.isSome) = true := hcounted
      have hle : 0 + ((⟨input, output, cached, creation, none⟩ : ProviderUsage).components.filterMap
          id).sum ≤ u64Max := by
        rw [Nat.zero_add, sum_components]
        exact of_decide_eq_true hfits
      unfold derive ProviderUsage.fromFields
      dsimp only
      rw [if_pos hany]
      obtain ⟨computed, hcomputed⟩ := Option.isSome_iff_exists.1 (foldlM_checkedSum_isSome hle)
      rw [hcomputed]
      rfl

/-! ## The sums of a transcript -/

/-- What a parsed usage is to the turns behind it. -/
structure Totals (turns : List ProviderUsage) (usage : ProviderUsage) : Prop where
  input : usage.input = (turns.map (·.input)).sum
  output : usage.output = (turns.map (·.output)).sum
  cached : usage.cached = (turns.map (·.cached)).sum
  creation : usage.creation = (turns.map (·.creation)).sum
  total : usage.totalTokens = some (turns.map totalOf).sum
  fits : usage.input ≤ u64Max ∧ usage.output ≤ u64Max ∧ usage.cached ≤ u64Max ∧
    usage.creation ≤ u64Max ∧ (turns.map totalOf).sum ≤ u64Max

theorem filterMap_turnsOf (objects : List (List (String × Json))) :
    (turnsOf objects).filterMap derive = objects.filterMap ProviderUsage.ofObject := by
  induction objects with
  | nil => rfl
  | cons object objects ih =>
    have hobject : ProviderUsage.ofObject object = derive (ProviderUsage.countersOf object) := rfl
    have hsome := isSome_derive (ProviderUsage.countersOf object)
    unfold turnsOf at ih ⊢
    rw [List.map_cons, List.filter_cons, List.filterMap_cons, hobject]
    cases hcounted : counted (ProviderUsage.countersOf object) with
    | true => rw [if_pos rfl, List.filterMap_cons, ih]
    | false =>
      rw [hcounted, Bool.false_and, Option.isSome_eq_false_iff, Option.isNone_iff_eq_none] at hsome
      rw [if_neg Bool.false_ne_true, hsome]
      exact ih

theorem filterMap_codexTurns (values : List Json) :
    (codexTurns values).filterMap derive = values.filterMap Codex.usageOf := by
  unfold codexTurns
  rw [filterMap_turnsOf, List.filterMap_filterMap]
  rfl

/-- Nothing is derived of a turn that does not fit. -/
theorem filterMap_fits (turns : List ProviderUsage) :
    (turns.filter fits).filterMap derive = turns.filterMap derive := by
  induction turns with
  | nil => rfl
  | cons turn turns ih =>
    have hsome := isSome_derive turn
    rw [List.filter_cons, List.filterMap_cons]
    cases hfits : fits turn with
    | true => rw [if_pos rfl, List.filterMap_cons, ih]
    | false =>
      rw [hfits, Bool.and_false, Option.isSome_eq_false_iff, Option.isNone_iff_eq_none] at hsome
      rw [if_neg Bool.false_ne_true, hsome, ih]

/-- A sum over derived usages is one over their turns. -/
theorem sum_derived {turns : List ProviderUsage} {f g : ProviderUsage → Nat}
    (hsome : ∀ turn ∈ turns, (derive turn).isSome)
    (h : ∀ turn usage, derive turn = some usage → f usage = g turn) :
    ((turns.filterMap derive).map f).sum = (turns.map g).sum := by
  induction turns with
  | nil => rfl
  | cons turn turns ih =>
    obtain ⟨usage, husage⟩ := Option.isSome_iff_exists.1 (hsome turn List.mem_cons_self)
    have hrest := ih fun other hother => hsome other (List.mem_cons_of_mem _ hother)
    rw [List.filterMap_cons_some husage, List.map_cons, List.map_cons, List.sum_cons, List.sum_cons,
      hrest, h turn usage husage]

theorem isSome_of_fits {objects : List (List (String × Json))} :
    ∀ turn ∈ (turnsOf objects).filter fits, (derive turn).isSome := by
  intro turn hturn
  obtain ⟨hmem, hfits⟩ := List.mem_filter.1 hturn
  rw [isSome_derive, hfits, (List.mem_filter.1 hmem).2]
  rfl

theorem totals_codex {serde : Serde} {transcript : List Char} {usage : ProviderUsage}
    (h : (Codex.parseJsonTranscript serde transcript).usage = some usage) :
    Totals ((codexTurns (transcriptValues serde transcript)).filter fits) usage ∧
      usage.components.all (·.isSome) = true := by
  have hempty : ¬ Codex.Overflows [] := by decide
  unfold Codex.parseJsonTranscript at h
  have hstart : ({} : Codex.Tally) = Codex.tallyOf [] := rfl
  generalize transcriptValues serde transcript = values at h
  rw [hstart] at h
  obtain ⟨hfits, hscan⟩ | ⟨read, -, hscan⟩ := Codex.scan_tallyOf [] values hempty
  · rw [List.nil_append] at hfits hscan
    rw [hscan] at h
    have husage : usage = Codex.exactUsage values := by
      unfold Codex.Tally.finish at h
      dsimp only at h
      split at h
      · exact (Option.some.inj h).symm
      · cases h
    subst husage
    have hsum : ∀ (f : ProviderUsage → Option Nat) (g : ProviderUsage → Nat),
        (∀ turn usage, derive turn = some usage → (f usage).getD 0 = g turn) →
          Codex.sumOf f values = (((codexTurns values).filter fits).map g).sum := by
      intro f g hfg
      unfold Codex.sumOf
      rw [← filterMap_codexTurns, ← filterMap_fits]
      exact sum_derived isSome_of_fits hfg
    have hinput := hsum (·.inputTokens) (·.input) fun turn usage hd => by
      rw [(derive_some hd).1]
      rfl
    have houtput := hsum (·.outputTokens) (·.output) fun turn usage hd => by
      rw [(derive_some hd).1]
      rfl
    have hcached := hsum (·.cacheReadInputTokens) (·.cached) fun turn usage hd => by
      rw [(derive_some hd).1]
      rfl
    have hcreation := hsum (·.cacheCreationInputTokens) (·.creation) fun turn usage hd => by
      rw [(derive_some hd).1]
      rfl
    have htotal := hsum (·.totalTokens) totalOf fun turn usage hd => by
      rw [(derive_some hd).1]
      rfl
    unfold Codex.Overflows at hfits
    refine ⟨⟨hinput, houtput, hcached, hcreation, congrArg some htotal, ?_⟩, rfl⟩
    rw [← htotal]
    refine ⟨Nat.not_lt.1 fun hlt => hfits (.inl hlt),
      Nat.not_lt.1 fun hlt => hfits (.inr (.inl hlt)),
      Nat.not_lt.1 fun hlt => hfits (.inr (.inr (.inl hlt))),
      Nat.not_lt.1 fun hlt => hfits (.inr (.inr (.inr (.inl hlt)))),
      Nat.not_lt.1 fun hlt => hfits (.inr (.inr (.inr (.inr hlt))))⟩
  · rw [hscan] at h
    cases h

theorem usage_read (out : Claude.StreamResult) (value : Json) : (out.read value).usage =
    if Claude.isResult value then Claude.usageFromResult value else out.usage := by
  unfold Claude.StreamResult.read
  dsimp only
  split <;> rfl

theorem usage_foldl (values : List Json) :
    (values.foldl Claude.StreamResult.read {}).usage =
      (values.filter Claude.isResult).getLast?.bind Claude.usageFromResult := by
  induction values using List.reverseRecOn with
  | nil => rfl
  | append_singleton values value ih =>
    rw [List.foldl_append, List.foldl_cons, List.foldl_nil, List.filter_append, usage_read, ih]
    by_cases hresult : Claude.isResult value
    · simp [hresult]
    · simp [hresult]

theorem asU64_le {value : Json} {n : Nat} (h : value.asU64 = some n) : n ≤ u64Max := by
  unfold Json.asU64 at h
  split at h
  · rename_i value'
    split at h
    · rename_i hle
      cases h
      have := hle.2
      omega
    · cases h
  · cases h

theorem counter_le {usage : List (String × Json)} {names : List String} :
    (ProviderUsage.counter usage names).getD 0 ≤ u64Max := by
  cases h : ProviderUsage.counter usage names with
  | none => exact Nat.zero_le _
  | some n =>
    unfold ProviderUsage.counter at h
    obtain ⟨name, -, hname⟩ := List.exists_of_findSome?_eq_some h
    obtain ⟨value, -, hvalue⟩ := Option.bind_eq_some_iff.1 hname
    exact asU64_le hvalue

theorem totals_claude {serde : Serde} {transcript : List Char} {usage : ProviderUsage}
    (h : (Claude.parseTranscript serde transcript).usage = some usage) :
    Totals (claudeTurns (transcriptValues serde transcript)) usage ∧
      ∀ turn ∈ claudeTurns (transcriptValues serde transcript), (derive turn).isSome := by
  unfold Claude.parseTranscript at h
  rw [usage_foldl] at h
  generalize transcriptValues serde transcript = values at h
  obtain ⟨value, hlast, hvalue⟩ := Option.bind_eq_some_iff.1 h
  unfold Claude.usageFromResult at hvalue
  obtain ⟨object, hobject, husage⟩ := Option.bind_eq_some_iff.1 hvalue
  have hderive : derive (ProviderUsage.countersOf object) = some usage := husage
  have hturns : claudeTurns values = [ProviderUsage.countersOf object] := by
    have hcounted : counted (ProviderUsage.countersOf object) = true := by
      have hsome := isSome_derive (ProviderUsage.countersOf object)
      rw [hderive] at hsome
      have hboth : (counted _ && fits _) = true := hsome.symm
      exact (Bool.and_eq_true_iff.1 hboth).1
    unfold claudeTurns turnsOf
    rw [hlast, Option.bind_some, hobject]
    simp [hcounted]
  obtain ⟨heq, hbound⟩ := derive_some hderive
  have htotal : totalOf (ProviderUsage.countersOf object) ≤ u64Max := by
    cases hexplicit : (ProviderUsage.countersOf object).totalTokens with
    | none => exact hbound hexplicit
    | some total =>
      have hle : (ProviderUsage.countersOf object).totalTokens.getD 0 ≤ u64Max := counter_le
      unfold totalOf
      rw [hexplicit] at hle ⊢
      exact hle
  rw [hturns]
  refine ⟨?_, fun turn hturn => ?_⟩
  · subst heq
    refine ⟨rfl, rfl, rfl, rfl, rfl, counter_le, counter_le, counter_le, counter_le, ?_⟩
    simpa using htotal
  · rw [List.mem_singleton.1 hturn, hderive]
    rfl

/-! ## Prices -/

/-- To the nearest nano-dollar. -/
def nearest (price : Nat) : Nat := (price + 500000) / 1000000

/-- The price in millionths of a nano-dollar. -/
def exactPrice (usage : ProviderUsage) (source : UsageSource) (rate : ModelPricing) : Nat :=
  1000 * (nonCachedInput usage source * rate.input + usage.output * rate.output +
    usage.cached * rate.cachedInput + usage.creation * rate.cacheCreationInput)

/-- The tokens that are priced. -/
def pricedTokens (usage : ProviderUsage) (source : UsageSource) : Nat :=
  nonCachedInput usage source + usage.output + usage.cached + usage.creation

/-- The total is not below what the estimate asks of it. -/
def Reconciled (usage : ProviderUsage) (source : UsageSource) : Prop :=
  ∃ minimum total, minimumTotal usage source = some minimum ∧ usage.totalTokens = some total ∧
    minimum ≤ total

theorem foldlM_addPrice (l : List (Nat × Nat)) {acc : Nat} (hacc : acc ≤ u128Max) :
    l.foldlM addPrice acc =
      if acc + (l.map fun entry => entry.1 * entry.2 * 1000).sum ≤ u128Max then
        some (acc + (l.map fun entry => entry.1 * entry.2 * 1000).sum)
      else none := by
  induction l generalizing acc with
  | nil =>
    rw [List.map_nil, List.sum_nil, Nat.add_zero, if_pos hacc]
    rfl
  | cons entry l ih =>
    rw [List.foldlM_cons, List.map_cons, List.sum_cons, ← Nat.add_assoc]
    unfold addPrice
    by_cases hfits : acc + entry.1 * entry.2 * 1000 ≤ u128Max
    · rw [if_pos ⟨by omega, by omega, hfits⟩]
      exact ih hfits
    · rw [if_neg fun h => hfits h.2.2, if_neg (by omega)]
      rfl

theorem sum_pricedCounters (usage : ProviderUsage) (source : UsageSource) (rate : ModelPricing) :
    ((pricedCounters usage source rate).map fun entry => entry.1 * entry.2 * 1000).sum =
      exactPrice usage source rate := by
  unfold pricedCounters exactPrice
  simp only [List.map_cons, List.map_nil, List.sum_cons, List.sum_nil]
  ring

/-- The saturating addition does not change the rounding. -/
theorem nearest_saturated {price : Nat} (h : price ≤ u128Max) :
    min (price + 500000) u128Max / 1000000 = nearest price := by
  unfold nearest
  unfold u128Max at *
  omega

/-- When an estimate is known. -/
structure Known (usage : ProviderUsage) (source : UsageSource) (rate : ModelPricing) : Prop where
  component : usage.components.any (·.isSome) = true
  reconciled : Reconciled usage source
  fits : exactPrice usage source rate ≤ u128Max

/-- **The estimate** is the rounded price, or unknown. -/
theorem estimate_of_rate (usage : ProviderUsage) (source : UsageSource) {model : String}
    {pricing : PricingTable} {rate : ModelPricing} (hrate : pricing.resolve model = some rate) :
    (Known usage source rate ∧ estimateUsageCost usage source model pricing =
        ⟨nearest (exactPrice usage source rate), true, false⟩) ∨
      (¬ Known usage source rate ∧
        (estimateUsageCost usage source model pricing).unknown = true) := by
  have hsum := sum_pricedCounters usage source rate
  have hfold := foldlM_addPrice (pricedCounters usage source rate) (Nat.zero_le u128Max)
  rw [Nat.zero_add, hsum] at hfold
  unfold estimateUsageCost
  rw [hrate]
  dsimp only
  by_cases hnone : usage.components.all (·.isNone) = true
  · rw [if_pos hnone]
    refine .inr ⟨fun h => ?_, rfl⟩
    obtain ⟨component, hmem, hsome⟩ := List.any_eq_true.1 h.component
    have hisNone := List.all_eq_true.1 hnone component hmem
    cases component
    · cases hsome
    · cases hisNone
  · rw [if_neg hnone]
    cases hminimum : minimumTotal usage source with
    | none =>
      refine .inr ⟨fun h => ?_, rfl⟩
      obtain ⟨minimum, total, hsome, -⟩ := h.reconciled
      rw [hminimum] at hsome
      cases hsome
    | some minimum =>
      dsimp only
      by_cases hless : usage.totalTokens.all (· < minimum) = true
      · rw [if_pos hless]
        refine .inr ⟨fun h => ?_, rfl⟩
        obtain ⟨minimum', total, hsome, htotal, hle⟩ := h.reconciled
        rw [hminimum] at hsome
        cases hsome
        rw [htotal] at hless
        have hlt := of_decide_eq_true hless
        omega
      · rw [if_neg hless, hfold]
        by_cases hfits : exactPrice usage source rate ≤ u128Max
        · rw [if_pos hfits]
          refine .inl ⟨⟨?_, ?_, hfits⟩, ?_⟩
          · rw [Bool.not_eq_true, List.all_eq_false] at hnone
            obtain ⟨component, hmem, hsome⟩ := hnone
            refine List.any_eq_true.2 ⟨component, hmem, ?_⟩
            cases component
            · exact absurd rfl hsome
            · rfl
          · cases htotal : usage.totalTokens with
            | none =>
              rw [htotal] at hless
              exact absurd rfl hless
            | some total =>
              rw [htotal] at hless
              refine ⟨minimum, total, hminimum, htotal, ?_⟩
              by_contra hlt
              exact hless (decide_eq_true (Nat.not_le.1 hlt))
          · dsimp only
            rw [nearest_saturated hfits]
        · rw [if_neg hfits]
          exact .inr ⟨fun h => hfits h.fits, rfl⟩

theorem known_iff {usage : ProviderUsage} {source : UsageSource} {model : String}
    {pricing : PricingTable} {rate : ModelPricing} (hrate : pricing.resolve model = some rate) :
    (estimateUsageCost usage source model pricing).unknown = false ↔ Known usage source rate := by
  rcases estimate_of_rate usage source hrate with ⟨hknown, heq⟩ | ⟨hnot, heq⟩
  · rw [heq]
    exact iff_of_true rfl hknown
  · rw [heq]
    exact iff_of_false nofun hnot

theorem nano_of_known {usage : ProviderUsage} {source : UsageSource} {model : String}
    {pricing : PricingTable} {rate : ModelPricing} (hrate : pricing.resolve model = some rate)
    (h : Known usage source rate) :
    (estimateUsageCost usage source model pricing).nanoUsd =
      nearest (exactPrice usage source rate) := by
  rcases estimate_of_rate usage source hrate with ⟨-, heq⟩ | ⟨hnot, -⟩
  · rw [heq]
  · exact absurd h hnot

/-! ## Counting once -/

/-- The costs of the turns add up to the cost of the transcript, up to the rounding of each. -/
structure AddsUp (turns : List ProviderUsage) (usage : ProviderUsage) (source : UsageSource)
    (model : String) (pricing : PricingTable) (rate : ModelPricing) : Prop where
  exact : exactPrice usage source rate = (turns.map (exactPrice · source rate)).sum
  below : 2 * (estimateUsageCost usage source model pricing).nanoUsd ≤
    2 * (turns.map fun turn => (estimateUsageCost turn source model pricing).nanoUsd).sum +
      turns.length
  above : 2 * (turns.map fun turn => (estimateUsageCost turn source model pricing).nanoUsd).sum ≤
    2 * (estimateUsageCost usage source model pricing).nanoUsd + turns.length

/-- Every token of a transcript is counted and priced once. -/
structure CountsOnce (source : UsageSource) (turns : List ProviderUsage) (usage : ProviderUsage) :
    Prop where
  total : (∀ turn ∈ turns, turn.totalTokens = none) →
    usage.totalTokens = some (turns.map (distinct · source)).sum
  flat : ∀ pricing model rate price, PricingTable.resolve pricing model = some rate →
    rate.input = price → rate.output = price → rate.cachedInput = price →
    rate.cacheCreationInput = price →
    (estimateUsageCost usage source model pricing).unknown = false →
      (estimateUsageCost usage source model pricing).nanoUsd =
        nearest (1000 * ((turns.map (distinct · source)).sum * price))
  covered : ∀ pricing model, (estimateUsageCost usage source model pricing).unknown = false →
    ∀ total, usage.totalTokens = some total → pricedTokens usage source ≤ total
  perTurn : ∀ pricing model rate, PricingTable.resolve pricing model = some rate →
    (estimateUsageCost usage source model pricing).unknown = false →
    (∀ turn ∈ turns.filterMap derive,
      (estimateUsageCost turn source model pricing).unknown = false) →
        AddsUp (turns.filterMap derive) usage source model pricing rate
  known : ∀ pricing model rate total, PricingTable.resolve pricing model = some rate →
    usage.components.any (·.isSome) = true → usage.totalTokens = some total →
    (turns.map (distinct · source)).sum ≤ total → exactPrice usage source rate ≤ u128Max →
      (estimateUsageCost usage source model pricing).unknown = false

/-- The tokens of the estimate's lower bound for Codex reach up to the total. -/
def Reaches (turns : List ProviderUsage) : Prop :=
  (turns.map (·.input)).sum - (turns.map (·.cached)).sum + (turns.map (·.output)).sum ≤
    (turns.map totalOf).sum

/-- Where totals are derived, every object fits and none has both input and cached input; and where
the total of those that fit reaches the lower bound of the estimate, all fit, the cached input is
within the input in all objects, or in all not below it, and the total covers what is priced. -/
structure Apart (turns : List ProviderUsage) : Prop where
  disjoint : (∀ turn ∈ turns, turn.totalTokens = none) →
    ∀ turn ∈ turns, fits turn = true ∧ (turn.input = 0 ∨ turn.cached = 0)
  whole : Reaches (turns.filter fits) → ∀ turn ∈ turns, fits turn = true
  ordered : Reaches (turns.filter fits) → (∀ turn ∈ turns, turn.cached ≤ turn.input) ∨
    ∀ turn ∈ turns, turn.input ≤ turn.cached
  covered : Reaches (turns.filter fits) → max (turns.map (·.input)).sum (turns.map (·.cached)).sum +
    (turns.map (·.output)).sum + (turns.map (·.creation)).sum ≤ (turns.map totalOf).sum

section Sums

variable {turns : List ProviderUsage} {f g : ProviderUsage → Nat}

theorem sum_le (h : ∀ turn ∈ turns, f turn ≤ g turn) : (turns.map f).sum ≤ (turns.map g).sum :=
  List.sum_le_sum h

theorem sum_eq_iff (h : ∀ turn ∈ turns, f turn ≤ g turn) :
    (turns.map f).sum = (turns.map g).sum ↔ ∀ turn ∈ turns, f turn = g turn := by
  induction turns with
  | nil => exact iff_of_true rfl fun _ hturn => absurd hturn List.not_mem_nil
  | cons turn turns ih =>
    have hfirst := h turn List.mem_cons_self
    have hrest : ∀ other ∈ turns, f other ≤ g other :=
      fun other hother => h other (List.mem_cons_of_mem _ hother)
    have hle := sum_le hrest
    rw [List.map_cons, List.map_cons, List.sum_cons, List.sum_cons, List.forall_mem_cons,
      ← ih hrest]
    omega

/-- **The greater of two sums** is the sum of the greater ones exactly if one list is nowhere below
the other. -/
theorem sum_max_iff : (turns.map fun turn => max (f turn) (g turn)).sum =
      max (turns.map f).sum (turns.map g).sum ↔
    (∀ turn ∈ turns, g turn ≤ f turn) ∨ ∀ turn ∈ turns, f turn ≤ g turn := by
  have hf : (turns.map f).sum = (turns.map fun turn => max (f turn) (g turn)).sum ↔
      ∀ turn ∈ turns, f turn = max (f turn) (g turn) := sum_eq_iff fun _ _ => le_max_left _ _
  have hg : (turns.map g).sum = (turns.map fun turn => max (f turn) (g turn)).sum ↔
      ∀ turn ∈ turns, g turn = max (f turn) (g turn) := sum_eq_iff fun _ _ => le_max_right _ _
  constructor
  · intro h
    rcases max_choice (turns.map f).sum (turns.map g).sum with hmax | hmax
    · rw [hmax] at h
      refine .inl fun turn hturn => ?_
      have heq := hf.1 h.symm turn hturn
      omega
    · rw [hmax] at h
      refine .inr fun turn hturn => ?_
      have heq := hg.1 h.symm turn hturn
      omega
  · rintro (h | h)
    · rw [max_eq_left (sum_le h)]
      exact (hf.2 fun turn hturn => (max_eq_left (h turn hturn)).symm).symm
    · rw [max_eq_right (sum_le h)]
      exact (hg.2 fun turn hturn => (max_eq_right (h turn hturn)).symm).symm

theorem sum_max_codex : (turns.map fun turn => max turn.input turn.cached).sum =
      max (turns.map (·.input)).sum (turns.map (·.cached)).sum ↔
    (∀ turn ∈ turns, turn.cached ≤ turn.input) ∨ ∀ turn ∈ turns, turn.input ≤ turn.cached :=
  sum_max_iff

theorem sum_input_cached : (turns.map fun turn => turn.input + turn.cached).sum =
    (turns.map (·.input)).sum + (turns.map (·.cached)).sum := List.sum_map_add

theorem sum_distinct_codex : (turns.map (distinct · .codex)).sum =
    (turns.map fun turn => max turn.input turn.cached).sum + (turns.map (·.output)).sum +
      (turns.map (·.creation)).sum := by
  unfold distinct
  rw [List.sum_map_add, List.sum_map_add]

theorem sum_distinct_claude : (turns.map (distinct · .claude)).sum =
    (turns.map (·.input)).sum + (turns.map (·.cached)).sum + (turns.map (·.output)).sum +
      (turns.map (·.creation)).sum := by
  unfold distinct
  rw [List.sum_map_add, List.sum_map_add, List.sum_map_add]

/-- Without explicit totals the total is the sum of all components. -/
theorem sum_totalOf (h : ∀ turn ∈ turns, turn.totalTokens = none) :
    (turns.map totalOf).sum = (turns.map (·.input)).sum + (turns.map (·.output)).sum +
      (turns.map (·.cached)).sum + (turns.map (·.creation)).sum := by
  rw [← List.sum_map_add, ← List.sum_map_add, ← List.sum_map_add]
  congr 1
  refine List.map_congr_left fun turn hturn => ?_
  unfold totalOf
  rw [h turn hturn]
  rfl

/-- The rounding of each turn is at most a half. -/
theorem sum_nearest (prices : List Nat) :
    2 * nearest prices.sum ≤ 2 * (prices.map nearest).sum + prices.length ∧
      2 * (prices.map nearest).sum ≤ 2 * nearest prices.sum + prices.length := by
  have hbounds : prices.sum ≤ 1000000 * (prices.map nearest).sum + 499999 * prices.length ∧
      1000000 * (prices.map nearest).sum ≤ prices.sum + 500000 * prices.length := by
    induction prices with
    | nil => exact ⟨le_rfl, le_rfl⟩
    | cons price prices ih =>
      rw [List.map_cons, List.sum_cons, List.sum_cons, List.length_cons]
      unfold nearest at ih ⊢
      omega
  unfold nearest at hbounds ⊢
  omega

end Sums

section Once

variable {turns : List ProviderUsage} {usage : ProviderUsage} (h : Totals turns usage)

include h

theorem minimum_codex : minimumTotal usage .codex =
    checkedSum ((turns.map (·.input)).sum - (turns.map (·.cached)).sum)
      (turns.map (·.output)).sum := by
  unfold minimumTotal nonCachedInput
  rw [h.input, h.cached, h.output]

theorem reconciled_codex : Reconciled usage .codex ↔ Reaches turns := by
  have hfits := h.fits.2.2.2.2
  unfold Reconciled Reaches
  rw [minimum_codex h, h.total]
  unfold checkedSum
  constructor
  · rintro ⟨minimum, total, hminimum, htotal, hle⟩
    split at hminimum
    · rw [Option.some.inj hminimum, Option.some.inj htotal]
      exact hle
    · cases hminimum
  · intro hle
    exact ⟨_, _, if_pos (hle.trans hfits), rfl, hle⟩

/-- The estimate of Claude asks for all components. -/
theorem reconciled_claude : Reconciled usage .claude ↔
    (turns.map (distinct · .claude)).sum ≤ (turns.map totalOf).sum := by
  have hfits := h.fits.2.2.2.2
  have hminimum : ∀ minimum, minimumTotal usage .claude = some minimum ↔
      minimum = (turns.map (distinct · .claude)).sum ∧
        (turns.map (distinct · .claude)).sum ≤ u64Max := by
    intro minimum
    rw [sum_distinct_claude, ← h.input, ← h.cached, ← h.output, ← h.creation]
    unfold minimumTotal checkedSum
    simp only [Option.bind_eq_bind, Option.bind_eq_some_iff, Option.ite_none_right_eq_some,
      Option.some.injEq]
    constructor
    · rintro ⟨a, ⟨-, rfl⟩, b, ⟨-, rfl⟩, hle, rfl⟩
      omega
    · rintro ⟨rfl, hle⟩
      exact ⟨_, ⟨by omega, rfl⟩, _, ⟨by omega, rfl⟩, by omega, by omega⟩
  unfold Reconciled
  constructor
  · rintro ⟨minimum, total, hsome, htotal, hle⟩
    rw [h.total] at htotal
    rw [← ((hminimum minimum).1 hsome).1, Option.some.inj htotal]
    exact hle
  · intro hle
    exact ⟨_, _, (hminimum _).2 ⟨rfl, hle.trans hfits⟩, h.total, hle⟩

omit h in
/-- At one price for all tokens the price is that of the priced tokens. -/
theorem exactPrice_flat {source : UsageSource} {rate : ModelPricing} {price : Nat}
    (hinput : rate.input = price) (houtput : rate.output = price)
    (hcached : rate.cachedInput = price) (hcreation : rate.cacheCreationInput = price) :
    exactPrice usage source rate = 1000 * (pricedTokens usage source * price) := by
  unfold exactPrice pricedTokens
  rw [hinput, houtput, hcached, hcreation]
  ring

theorem pricedTokens_codex : pricedTokens usage .codex =
    max (turns.map (·.input)).sum (turns.map (·.cached)).sum + (turns.map (·.output)).sum +
      (turns.map (·.creation)).sum := by
  unfold pricedTokens nonCachedInput
  dsimp only
  rw [h.input, h.output, h.cached, h.creation]
  omega

theorem pricedTokens_claude : pricedTokens usage .claude =
    (turns.map (distinct · .claude)).sum := by
  unfold pricedTokens nonCachedInput
  dsimp only
  rw [sum_distinct_claude, h.input, h.output, h.cached, h.creation]
  omega

omit h in
theorem exactPrice_congr {a b : ProviderUsage} {source : UsageSource} {rate : ModelPricing}
    (hinput : a.input = b.input) (houtput : a.output = b.output) (hcached : a.cached = b.cached)
    (hcreation : a.creation = b.creation) :
    exactPrice a source rate = exactPrice b source rate := by
  have huncached : nonCachedInput a source = nonCachedInput b source := by
    unfold nonCachedInput
    rw [hinput, hcached]
  unfold exactPrice
  rw [huncached, houtput, hcached, hcreation]

omit h in
/-- The prices of some turns are linear in their tokens. -/
theorem sum_exactPrice {source : UsageSource} {rate : ModelPricing} :
    (turns.map (exactPrice · source rate)).sum =
      1000 * ((turns.map (nonCachedInput · source)).sum * rate.input +
        (turns.map (·.output)).sum * rate.output + (turns.map (·.cached)).sum * rate.cachedInput +
          (turns.map (·.creation)).sum * rate.cacheCreationInput) := by
  induction turns with
  | nil => simp
  | cons turn turns ih =>
    simp only [List.map_cons, List.sum_cons]
    rw [ih]
    unfold exactPrice
    ring

/-- The turns add up where their uncached input does. -/
theorem addsUp {source : UsageSource} {model : String} {pricing : PricingTable}
    {rate : ModelPricing} (husable : ∀ turn ∈ turns, (derive turn).isSome)
    (hrate : pricing.resolve model = some rate)
    (hinput : nonCachedInput usage source = (turns.map (nonCachedInput · source)).sum)
    (hknown : (estimateUsageCost usage source model pricing).unknown = false)
    (hturns : ∀ turn ∈ turns.filterMap derive,
      (estimateUsageCost turn source model pricing).unknown = false) :
    AddsUp (turns.filterMap derive) usage source model pricing rate := by
  have hexact : exactPrice usage source rate =
      ((turns.filterMap derive).map (exactPrice · source rate)).sum := by
    have hderived : ((turns.filterMap derive).map (exactPrice · source rate)).sum =
        (turns.map (exactPrice · source rate)).sum := by
      refine sum_derived husable fun turn usage hd => ?_
      obtain ⟨heq, -⟩ := derive_some hd
      exact exactPrice_congr (by rw [heq]; rfl) (by rw [heq]; rfl) (by rw [heq]; rfl)
        (by rw [heq]; rfl)
    rw [hderived, sum_exactPrice, ← hinput, ← h.output, ← h.cached, ← h.creation, exactPrice]
  have hnano : (turns.filterMap derive).map (fun turn =>
        (estimateUsageCost turn source model pricing).nanoUsd) =
      ((turns.filterMap derive).map (exactPrice · source rate)).map nearest := by
    rw [List.map_map]
    refine List.map_congr_left fun turn hturn => ?_
    rw [Function.comp_apply, nano_of_known hrate ((known_iff hrate).1 (hturns turn hturn))]
  have hbounds := sum_nearest ((turns.filterMap derive).map (exactPrice · source rate))
  rw [← hexact, List.length_map] at hbounds
  refine ⟨hexact, ?_, ?_⟩
  · rw [hnano, nano_of_known hrate ((known_iff hrate).1 hknown)]
    exact hbounds.1
  · rw [hnano, nano_of_known hrate ((known_iff hrate).1 hknown)]
    exact hbounds.2

/-- **Claude**: every token once. -/
theorem countsOnce_claude (husable : ∀ turn ∈ turns, (derive turn).isSome) :
    CountsOnce .claude turns usage where
  total hnone := by
    rw [h.total, sum_totalOf hnone, sum_distinct_claude]
    congr 1
    omega
  flat pricing model rate price hrate hinput houtput hcached hcreation hknown := by
    rw [nano_of_known hrate ((known_iff hrate).1 hknown),
      exactPrice_flat hinput houtput hcached hcreation, pricedTokens_claude h]
  covered pricing model hknown total htotal := by
    cases hrate : pricing.resolve model with
    | none =>
      unfold estimateUsageCost at hknown
      rw [hrate] at hknown
      cases hknown
    | some rate =>
      have hle := (reconciled_claude h).1 ((known_iff hrate).1 hknown).reconciled
      rw [h.total] at htotal
      rw [pricedTokens_claude h, ← Option.some.inj htotal]
      exact hle
  perTurn pricing model rate hrate hknown hturns :=
    addsUp h husable hrate h.input hknown hturns
  known pricing model rate total hrate hcomponent htotal hle hfits := by
    rw [h.total] at htotal
    refine (known_iff hrate).2 ⟨hcomponent, (reconciled_claude h).2 ?_, hfits⟩
    rw [Option.some.inj htotal]
    exact hle

/-- The cached input of Codex is in its place: the distinct tokens are the priced ones. -/
theorem distinct_codex_iff : (turns.map (distinct · .codex)).sum = pricedTokens usage .codex ↔
    (∀ turn ∈ turns, turn.cached ≤ turn.input) ∨ ∀ turn ∈ turns, turn.input ≤ turn.cached := by
  rw [← sum_max_codex, sum_distinct_codex, pricedTokens_codex h]
  omega

theorem nonCached_codex (hordered : (∀ turn ∈ turns, turn.cached ≤ turn.input) ∨
      ∀ turn ∈ turns, turn.input ≤ turn.cached) :
    nonCachedInput usage .codex = (turns.map (nonCachedInput · .codex)).sum := by
  have hmax := sum_max_codex.2 hordered
  have hsplit : (turns.map fun turn => max turn.input turn.cached).sum =
      (turns.map (nonCachedInput · .codex)).sum + (turns.map (·.cached)).sum := by
    rw [← List.sum_map_add]
    congr 1
    refine List.map_congr_left fun turn _ => ?_
    show max turn.input turn.cached = turn.input - turn.cached + turn.cached
    omega
  show usage.input - usage.cached = _
  rw [h.input, h.cached]
  omega

/-- A rate card that every sum of tokens can be priced by. -/
def wholeRate : ModelPricing where
  model := "m"
  input := 1000
  cachedInput := 1000
  cacheCreationInput := 1000
  output := 1000
  effectiveDate := ""

omit h in
theorem wholeRate_input : wholeRate.input = 1000 := rfl

theorem known_wholeRate (hsome : usage.components.all (·.isSome) = true)
    (hreaches : Reaches turns) : Known usage .codex wholeRate := by
  refine ⟨?_, (reconciled_codex h).2 hreaches, ?_⟩
  · have hinput : usage.inputTokens.isSome := List.all_eq_true.1 hsome _ List.mem_cons_self
    exact List.any_eq_true.2 ⟨_, List.mem_cons_self, hinput⟩
  · obtain ⟨hinput, houtput, hcached, hcreation, -⟩ := h.fits
    rw [exactPrice_flat wholeRate_input rfl rfl rfl]
    unfold pricedTokens
    have huncached : nonCachedInput usage .codex ≤ usage.input := Nat.sub_le _ _
    unfold u64Max at *
    unfold u128Max
    omega

omit h in
theorem resolve_wholeRate : (⟨[wholeRate]⟩ : PricingTable).resolve "m" = some wholeRate := by
  unfold PricingTable.resolve
  rw [if_neg (by decide)]
  rfl

omit h in
theorem nearest_whole (tokens : Nat) : nearest (1000 * (tokens * 1000)) = tokens := by
  unfold nearest
  omega

/-- An estimate that is known says that the total reaches its lower bound. -/
theorem reaches_of_known {pricing : PricingTable} {model : String}
    (hknown : (estimateUsageCost usage .codex model pricing).unknown = false) : Reaches turns := by
  cases hrate : pricing.resolve model with
  | none =>
    unfold estimateUsageCost at hknown
    rw [hrate] at hknown
    cases hknown
  | some rate => exact (reconciled_codex h).1 ((known_iff hrate).1 hknown).reconciled

/-- **Codex**, where every object fits: every token once, exactly if the counters keep apart. -/
theorem countsOnce_codex (hfitting : ∀ turn ∈ turns, fits turn = true)
    (husable : ∀ turn ∈ turns, (derive turn).isSome)
    (hsome : usage.components.all (·.isSome) = true) :
    CountsOnce .codex turns usage ↔ Apart turns := by
  have hkeep : turns.filter fits = turns := List.filter_eq_self.2 hfitting
  have hresolve := resolve_wholeRate
  have hle : ∀ turn ∈ turns, max turn.input turn.cached ≤ turn.input + turn.cached :=
    fun _ _ => Nat.max_le.2 ⟨Nat.le_add_right _ _, Nat.le_add_left _ _⟩
  constructor
  · intro honce
    refine ⟨fun hnone => ?_, fun _ => hfitting, fun hreaches => ?_, fun hreaches => ?_⟩ <;>
      try rw [hkeep] at hreaches
    · have htotal := honce.total hnone
      rw [h.total, sum_totalOf hnone, sum_distinct_codex, Option.some.injEq] at htotal
      have hsum : (turns.map fun turn => max turn.input turn.cached).sum =
          (turns.map fun turn => turn.input + turn.cached).sum := by
        rw [sum_input_cached]
        omega
      intro turn hturn
      have heq := (sum_eq_iff hle).1 hsum turn hturn
      exact ⟨hfitting turn hturn, by omega⟩
    · have hknown := known_wholeRate h hsome hreaches
      have hflat := honce.flat _ _ _ 1000 hresolve rfl rfl rfl rfl ((known_iff hresolve).2 hknown)
      rw [nano_of_known hresolve hknown, exactPrice_flat wholeRate_input rfl rfl rfl] at hflat
      rw [nearest_whole, nearest_whole] at hflat
      exact (distinct_codex_iff h).1 hflat.symm
    · have hknown := known_wholeRate h hsome hreaches
      have hcovered := honce.covered _ _ ((known_iff hresolve).2 hknown) _ h.total
      rwa [pricedTokens_codex h] at hcovered
  · rintro ⟨hdisjoint, -, hordered, hcovered⟩
    rw [hkeep] at hordered hcovered
    refine ⟨fun hnone => ?_, ?_, ?_, ?_, ?_⟩
    · have heq := (sum_eq_iff hle).2 fun turn hturn => by
        have hone := (hdisjoint hnone turn hturn).2
        omega
      rw [sum_input_cached] at heq
      rw [h.total, sum_totalOf hnone, sum_distinct_codex, heq]
      congr 1
      omega
    · intro pricing model rate price hrate hinput houtput hcached hcreation hknown
      rw [nano_of_known hrate ((known_iff hrate).1 hknown),
        exactPrice_flat hinput houtput hcached hcreation,
        (distinct_codex_iff h).2 (hordered (reaches_of_known h hknown))]
    · intro pricing model hknown total htotal
      rw [h.total] at htotal
      rw [pricedTokens_codex h, ← Option.some.inj htotal]
      exact hcovered (reaches_of_known h hknown)
    · intro pricing model rate hrate hknown hturns
      exact addsUp h husable hrate (nonCached_codex h (hordered (reaches_of_known h hknown))) hknown
        hturns
    · intro pricing model rate total hrate hcomponent htotal hdistinct hfits
      rw [h.total] at htotal
      refine (known_iff hrate).2 ⟨hcomponent, (reconciled_codex h).2 ?_, hfits⟩
      rw [← Option.some.inj htotal, sum_distinct_codex] at hdistinct
      have hmax : (turns.map (·.input)).sum ≤
          (turns.map fun turn => max turn.input turn.cached).sum :=
        sum_le fun _ _ => le_max_left _ _
      unfold Reaches
      omega

end Once

/-! ## A turn that does not fit -/

section Overflow

variable {turns : List ProviderUsage} {usage : ProviderUsage} {lost : ProviderUsage}

/-- A sum over the turns that fit, and one that does not, is within the sum over all. -/
theorem sum_kept (f : ProviderUsage → Nat) (hlost : lost ∈ turns) (hbig : fits lost = false) :
    ((turns.filter fits).map f).sum + f lost ≤ (turns.map f).sum := by
  induction turns with
  | nil => cases hlost
  | cons turn turns ih =>
    have hrest : ((turns.filter fits).map f).sum ≤ (turns.map f).sum :=
      (List.filter_sublist.map f).sum_le_sum fun _ _ => Nat.zero_le _
    rw [List.filter_cons, List.map_cons, List.sum_cons]
    rcases List.mem_cons.1 hlost with rfl | hlost
    · rw [hbig, if_neg Bool.false_ne_true]
      omega
    · have hmore := ih hlost
      split
      · rw [List.map_cons, List.sum_cons]
        omega
      · omega

theorem fits_eq_false (hbig : fits lost = false) : lost.totalTokens = none ∧
    u64Max < lost.input + lost.output + lost.cached + lost.creation := by
  unfold fits at hbig
  rw [Bool.or_eq_false_iff, decide_eq_false_iff_not, Nat.not_le] at hbig
  exact ⟨by simpa using hbig.1, hbig.2⟩

theorem double_distinct (turn : ProviderUsage) :
    turn.input + turn.output + turn.cached + turn.creation ≤ 2 * distinct turn .codex := by
  change _ ≤ 2 * (max turn.input turn.cached + turn.output + turn.creation)
  omega

/-- The tokens of a turn that does not fit are more than half of what 64 bits count. -/
theorem lost_distinct (hbig : fits lost = false) : u64Max < 2 * distinct lost .codex :=
  lt_of_lt_of_le (fits_eq_false hbig).2 (double_distinct lost)

/-- What is priced of the turns that fit is less than the tokens of all. -/
theorem priced_lt (h : Totals (turns.filter fits) usage) (hlost : lost ∈ turns)
    (hbig : fits lost = false) : pricedTokens usage .codex < (turns.map (distinct · .codex)).sum := by
  have hsum := sum_kept (distinct · .codex) hlost hbig
  have hmore := lost_distinct hbig
  have hmax : ((turns.filter fits).map (·.input)).sum ≤
      ((turns.filter fits).map fun turn => max turn.input turn.cached).sum :=
    sum_le fun _ _ => le_max_left _ _
  have hmax' : ((turns.filter fits).map (·.cached)).sum ≤
      ((turns.filter fits).map fun turn => max turn.input turn.cached).sum :=
    sum_le fun _ _ => le_max_right _ _
  have hpriced := pricedTokens_codex h
  rw [sum_distinct_codex] at hsum
  omega

/-- **Codex**, where an object does not fit: its tokens are lost, unless nothing is said of them. -/
theorem countsOnce_overflow (h : Totals (turns.filter fits) usage) (hlost : lost ∈ turns)
    (hbig : fits lost = false) (hsome : usage.components.all (·.isSome) = true) :
    CountsOnce .codex turns usage ↔ Apart turns := by
  have hpriced := priced_lt h hlost hbig
  have hnot : Apart turns → ¬ Reaches (turns.filter fits) := fun hapart hreaches => by
    cases (hapart.whole hreaches lost hlost).symm.trans hbig
  constructor
  · intro honce
    have hunreached : ¬ Reaches (turns.filter fits) := by
      intro hreaches
      have hknown := known_wholeRate h hsome hreaches
      have hflat := honce.flat _ _ _ 1000 resolve_wholeRate rfl rfl rfl rfl
        ((known_iff resolve_wholeRate).2 hknown)
      rw [nano_of_known resolve_wholeRate hknown, exactPrice_flat wholeRate_input rfl rfl rfl,
        nearest_whole, nearest_whole] at hflat
      omega
    refine ⟨fun hnone => ?_, fun hreaches => absurd hreaches hunreached,
      fun hreaches => absurd hreaches hunreached, fun hreaches => absurd hreaches hunreached⟩
    -- twice the distinct tokens exceed the total that was counted
    have htotal := honce.total hnone
    rw [h.total, Option.some.injEq] at htotal
    have hsum := sum_kept (distinct · .codex) hlost hbig
    have hmore := lost_distinct hbig
    have hbound := h.fits.2.2.2.2
    have htwice : ((turns.filter fits).map totalOf).sum ≤
        ((turns.filter fits).map fun turn => distinct turn .codex + distinct turn .codex).sum := by
      refine sum_le fun turn hturn => ?_
      have hnone' := hnone turn (List.mem_filter.1 hturn).1
      unfold totalOf
      rw [hnone', Option.getD_none]
      have hdouble := double_distinct turn
      omega
    rw [List.sum_map_add] at htwice
    omega
  · intro hapart
    have hunreached := hnot hapart
    refine ⟨fun hnone => ?_, fun pricing model rate price _ _ _ _ _ hknown => ?_,
      fun pricing model hknown => ?_, fun pricing model rate _ hknown => ?_,
      fun pricing model rate total hrate hcomponent htotal hdistinct hfits => ?_⟩
    · cases (hapart.disjoint hnone lost hlost).1.symm.trans hbig
    · exact absurd (reaches_of_known h hknown) hunreached
    · exact absurd (reaches_of_known h hknown) hunreached
    · exact absurd (reaches_of_known h hknown) hunreached
    · refine absurd ?_ hunreached
      rw [h.total] at htotal
      have hle := Option.some.inj htotal
      rw [pricedTokens_codex h] at hpriced
      unfold Reaches
      omega

end Overflow

/-- A turn of Codex whose cached input stands in its input and beside it. -/
def cachedLine : String := "\x7b\"usage\":\x7b\"input_tokens\":2,\"cached_input_tokens\":1\x7d\x7d"

/-- Two turns that carry their totals. -/
def firstLine : String := "\x7b\"usage\":\x7b\"input_tokens\":5,\"cached_input_tokens\":3,\"total_tokens\":7,\"output_tokens\":2\x7d\x7d"

def secondLine : String := "\x7b\"usage\":\x7b\"input_tokens\":4,\"cached_input_tokens\":1,\"total_tokens\":5,\"output_tokens\":1\x7d\x7d"

/-- The result of a call of Claude. -/
def resultLine : String :=
  "\x7b\"type\":\"result\",\"usage\":\x7b\"input_tokens\":2,\"cache_read_input_tokens\":3,\"output_tokens\":1\x7d\x7d"

def codexObject (input cached : Int) (rest : List (String × Json)) : Json :=
  .object [("usage", .object
    (("input_tokens", .integer input) :: ("cached_input_tokens", .integer cached) :: rest))]

/-- The values of the lines. -/
def usageRows : List (String × Json) :=
  [(cachedLine, codexObject 2 1 []),
    (firstLine, codexObject 5 3 [("total_tokens", .integer 7), ("output_tokens", .integer 2)]),
    (secondLine, codexObject 4 1 [("total_tokens", .integer 5), ("output_tokens", .integer 1)]),
    (resultLine, .object [("type", .text "result"), ("usage", .object [("input_tokens", .integer 2),
      ("cache_read_input_tokens", .integer 3), ("output_tokens", .integer 1)])])]

def usageSerde : Serde where
  render := fun _ => ""
  read := fun line => ((usageRows.lookup line).map Except.ok).getD (.error "expected value")

def codexTranscript : List Char := firstLine.toList ++ '\n' :: secondLine.toList

theorem values_cachedLine : transcriptValues usageSerde cachedLine.toList = [codexObject 2 1 []] := by
  have hlines : textLines cachedLine.toList = [cachedLine.toList] := by decide +kernel
  have htrim : trim cachedLine.toList = cachedLine.toList := by decide +kernel
  unfold transcriptValues
  rw [hlines]
  simp only [List.filterMap_cons, List.filterMap_nil, htrim, String.ofList_toList]
  rfl

theorem values_codexTranscript : transcriptValues usageSerde codexTranscript =
    [codexObject 5 3 [("total_tokens", .integer 7), ("output_tokens", .integer 2)],
      codexObject 4 1 [("total_tokens", .integer 5), ("output_tokens", .integer 1)]] := by
  have hlines : textLines codexTranscript = [firstLine.toList, secondLine.toList] := by decide +kernel
  have htrim : trim firstLine.toList = firstLine.toList ∧
      trim secondLine.toList = secondLine.toList := by decide +kernel
  unfold transcriptValues
  rw [hlines]
  simp only [List.filterMap_cons, List.filterMap_nil, htrim, String.ofList_toList]
  rfl

end Orchestrail.Pricing
