import Mathlib.Data.List.DropRight
import Mathlib.Data.List.TakeWhile
import Orchestrail.Proof.Delivery
import Orchestrail.Proof.Once

/-!
# The writer and the reader agree

A journal whose events pass the checks of the reader, on lines shorter than the limit, is never
poisoned: a fresh process scans it and appends to it, and a poll takes every record.

The writer looks neither at the length of a line nor at the envelope: `journal_poisoned`.
-/

namespace Orchestrail

open Records Text Outcome Watch Journal

/-! ## What a scan accepts -/

section Accepted

variable {serde : Serde} {sha256 : Bytes → String}

theorem trimmed_trimmed (s : String) : trimmed (trimmed s) = trimmed s := by
  unfold trimmed
  rw [String.toList_ofList, trim_trim]

theorem parseLine_trimmed (line : String) :
    parseLine serde (trimmed line) = parseLine serde line := by
  unfold parseLine
  rw [trimmed_trimmed]

theorem trimmed_of_isBlank {s : String} (h : isBlank s = true) : trimmed s = "" := by
  have hnone : s.toList.dropWhile isWhiteSpace = [] :=
    List.dropWhile_eq_nil_iff.2 (List.all_eq_true.1 h)
  rw [trimmed, trim, hnone]
  rfl

/-- **A record that the scan accepts** is one of which a reader makes something. -/
theorem told_of_scanRecord {active : Bool} {index i : CachedIndex} {r : Record}
    (h : scanRecord serde sha256 active (r.1 ++ [newline]) index = .ok i) :
    Told serde r.1 ∧ r.1.length ≤ maxEventLineBytes := by
  unfold scanRecord at h
  obtain ⟨_, hframe, h⟩ := bind_eq_ok.1 h
  have hlen := (demand_eq_ok.1 hframe).2
  rw [List.length_append, List.length_singleton, Nat.add_sub_cancel] at hlen
  rw [List.dropLast_concat] at h
  refine ⟨?_, hlen⟩
  cases htext : fromUtf8 r.1 with
  | none =>
    rw [htext] at h
    cases h
  | some line =>
    rw [htext] at h
    refine ⟨line, htext, ?_⟩
    by_cases hblank : isBlank line = true
    · exact .inl (trimmed_of_isBlank hblank)
    right
    simp only [if_neg hblank] at h
    cases hparse : parseLine serde line with
    | error e =>
      rw [hparse] at h
      cases h
    | ok event =>
      rw [eventOf, htext, Option.bind_some, parseLine_trimmed, hparse]
      rfl

end Accepted

/-! ## A poll that takes every record -/

section Polling

variable {serde : Serde} {sha256 : Bytes → String} {j : Journal} {reader : TailReader}
  {D : List Envelope} {rs : List Record} {n : Nat}
  (hhex : ∀ b, Text.isHex 64 (sha256 b) = true) (hj : j.Sound) (hshort : j.Short)
  (htold : ∀ r ∈ j.records, Told serde r.1)

/-- A directory that stands still is calm. -/
theorem calm_steady (hshort : j.Short) (m : Nat) : (steady sha256 j hj).Calm n m :=
  ⟨fun _ _ _ _ _ => .refl, fun _ _ _ => hshort⟩

include hhex hj hshort htold

/-- **A poll succeeds**: it brings some more records, none of them malformed, and nothing only where
nothing is left. -/
theorem poll_yields (hc : Caught serde sha256 reader D rs) (hrs : rs <+: j.records) :
    ∃ events next m,
      reader.poll serde sha256 (fun _ => j.work sha256) n = (.ok (.ok events, next), m) ∧
      next.stats.skippedInvalid = reader.stats.skippedInvalid ∧
      ∃ ss, rs ++ ss <+: j.records ∧ Caught serde sha256 next (D ++ events) (rs ++ ss) ∧
        (ss = [] → j.records = rs) := by
  have hdone := fun last => @poll_done sha256 (fun _ => j.work sha256) last n (steady sha256 j hj)
    reader rs hhex (calm_steady hj hshort last) serde D hc hrs
  unfold Sees at hdone
  revert hdone
  rcases reader.poll serde sha256 (fun _ => j.work sha256) n with ⟨r, m⟩
  intro hdone
  obtain ⟨⟨answer, next⟩, rfl, events, rfl, hss, hstats⟩ := hdone m le_rfl
  exact ⟨events, next, m, rfl, hstats fun _ _ => htold, hss⟩

end Polling

/-! ## A process that remembers nothing -/

section Fresh

open Durable

variable {serde : Serde} {sha256 : Bytes → String} {j t : Journal} {es : List Envelope}
  {event : Envelope} {A : List Chunk} {rs : List Record} {s : Option String}

theorem recovered_torn (j : Journal) : j.recovered.front.torn = j.front.torn := by
  obtain ⟨A, f, s⟩ := j
  cases f <;> rfl

/-- A torn tail is a part of some line. -/
theorem AppendEnds.torn_le {k k' : Option CachedIndex} {record : Record} {bound : Nat}
    {r : Except (Halt OutboxError) AppendOutcome}
    (h : AppendEnds serde sha256 j k event record r t k') (hj : j.front.torn.1.length ≤ bound)
    (hrecord : record.1.length ≤ bound) : t.front.torn.1.length ≤ bound := by
  rw [← recovered_torn] at hj
  cases h with
  | recovering t hkept =>
    rw [hkept.torn, ← recovered_torn]
    exact hj
  | unmeasured | unscanned | collided => exact hj
  | scanned i b t he hi hknows ht =>
    rw [he] at hj
    rcases ht with rfl | rfl | ⟨-, hpart⟩
    · exact hj
    · exact Nat.zero_le _
    · exact hpart.length_le.trans hrecord
  | unconfirmed | uncounted => exact Nat.zero_le _
  | present i r t k' he hi hknows hrot | written i i' r t k' he hi hknows hextend hrot =>
    rw [hrot.records.2]
    exact Nat.zero_le _

variable (hj : Holds serde j.records es) (hes : ∀ e ∈ es, serde.Returns e)
  (hnodup : (es.map Envelope.eventId).Nodup)

include hj hes hnodup

/-- What a scan of the recovered journal needs and finds. -/
theorem refreshIndex_fresh {torn : Record} (he : j.recovered = ⟨A, .flowing rs torn, s⟩) :
    ∃ as bs, es = as ++ bs ∧ Holds serde (A.flatMap Chunk.records) as ∧ Holds serde rs bs ∧ ∀ i,
      refreshIndex serde sha256 j.recovered.layout (j.recovered.work sha256) none
          (lines rs).length = .ok i ↔
        (∀ e ∈ es, Recordable serde e) ∧ i = .over serde sha256 as bs := by
  rw [← recovered_records, he] at hj
  obtain ⟨as, bs, rfl, hA, hrs⟩ := Holds.split hj
  obtain ⟨unread, -, hall, hrefresh⟩ :=
    @refreshIndex_over serde sha256 A rs torn s as bs none hA hrs hes hnodup (by simp [Remembers])
  rw [hall rfl] at hrefresh
  rw [he]
  exact ⟨as, bs, rfl, hA, hrs, hrefresh⟩

/-- **A journal with a record that no scan takes** lets no fresh process append. -/
theorem AppendEnds.poisoned {k' : Option CachedIndex} {record : Record}
    {r : Except (Halt OutboxError) AppendOutcome}
    (h : AppendEnds serde sha256 j none event record r t k')
    (hbad : ∃ e ∈ es, ¬ Recordable serde e) : ∀ a, r ≠ .ok a := by
  obtain ⟨e, hmem, hbad⟩ := hbad
  have hnone : ∀ {A rs torn s i}, j.recovered = ⟨A, .flowing rs torn, s⟩ →
      refreshIndex serde sha256 j.recovered.layout (j.recovered.work sha256) none
        (lines rs).length ≠ .ok i := by
    intro A rs torn s i he hi
    obtain ⟨as, bs, -, -, -, hrefresh⟩ := @refreshIndex_fresh serde sha256 j es A rs s hj hes hnodup
      torn he
    exact hbad (((hrefresh i).1 hi).1 e hmem)
  cases h with
  | present i r t k' he hi | written i i' r t k' he hi => exact absurd hi (hnone he)
  | _ => rintro a ⟨⟩

/-- **A fresh process answers**, on a journal of which it can read every record. -/
theorem AppendEnds.answered {k' : Option CachedIndex} {record : Record}
    {r : Except (Halt OutboxError) AppendOutcome}
    (h : AppendEnds serde sha256 j none event record r t k')
    (hrecord : record.1 = event.record serde) (hr : r ≠ .error .interrupted)
    (hall : ∀ e ∈ es, Recordable serde e) (htorn : j.front.torn.1.length ≤ maxEventLineBytes)
    (hsame : ∀ e ∈ es, e.eventId = event.eventId →
      semanticFingerprint serde sha256 e = semanticFingerprint serde sha256 event)
    (hroom : (lines j.records).length + j.front.torn.1.length + (record.1.length + 1) ≤ u64Max) :
    ∃ a, r = .ok a := by
  have hsplit := fun A rs torn s =>
    @refreshIndex_fresh serde sha256 j es A rs s hj hes hnodup torn
  have hlength : ∀ {A rs torn s}, j.recovered = ⟨A, .flowing rs torn, s⟩ →
      (lines j.records).length = (stream A).length + (lines rs).length ∧
        j.front.torn.1.length = torn.1.length := by
    intro A rs torn s he
    rw [← recovered_records, ← recovered_torn, he]
    refine ⟨?_, rfl⟩
    rw [Journal.records, lines_append, List.length_append, stream_eq_lines]
    rfl
  have hknown : ∀ {as bs}, es = as ++ bs → ∃ b,
      (CachedIndex.over serde sha256 as bs).knows serde sha256 event = .ok b := by
    rintro as bs rfl
    rcases @knows_over serde sha256 as bs event hnodup with ⟨-, hnew⟩ | ⟨e, he, hid, hold⟩
    · exact ⟨false, hnew⟩
    · exact ⟨true, hold.trans (if_pos (hsame e he hid))⟩
  -- a transfer behind the append has room for what it moves
  have hrotated : ∀ {A rs s i} {r : Except (Halt OutboxError) Unit} {t k'},
      RotateEnds A rs s i r t k' → i.archivedLen ≤ (stream A).length →
      (stream A).length + (lines rs).length ≤ u64Max →
      r ≠ .error .interrupted → r = .ok () := by
    intro A rs s i r t k' hrot harchived hfits hnot
    cases hrot with
    | idle | moved => rfl
    | miscounted c s' e hc hover =>
      subst hc
      have hself : c.bytes.length = (lines c.records).length := rfl
      omega
    | interrupted => exact absurd rfl hnot
    | refused e hover => omega
  have hstop : ∀ {r : Except (Halt OutboxError) Unit} {a : AppendOutcome},
      r.map (fun _ => a) ≠ .error .interrupted → r ≠ .error .interrupted := by
    rintro r a hne rfl
    exact hne rfl
  cases h with
  | recovering | scanned | unconfirmed => exact absurd rfl hr
  | unmeasured e he hover =>
    obtain ⟨hrecords, hlen⟩ := hlength he
    have hmore := hover (hlen ▸ htorn)
    rw [recovered_records, List.length_append] at hmore
    omega
  | unscanned e he herror =>
    obtain ⟨as, bs, -, -, -, hrefresh⟩ := hsplit _ _ _ _ he
    have hok := (hrefresh _).2 ⟨hall, rfl⟩
    rw [herror] at hok
    cases hok
  | collided i e he _ hi hknows =>
    obtain ⟨as, bs, hboth, -, -, hrefresh⟩ := hsplit _ _ _ _ he
    obtain rfl := ((hrefresh i).1 hi).2
    obtain ⟨b, hb⟩ := hknown hboth
    rw [hknows] at hb
    cases hb
  | @present A rs torn s i r t k' he hi hknows hrot =>
    obtain ⟨as, bs, -, hA, hrs, hrefresh⟩ := hsplit _ _ _ _ he
    obtain rfl := ((hrefresh i).1 hi).2
    obtain ⟨hrecords, -⟩ := hlength he
    have harchived : (CachedIndex.over serde sha256 as bs).archivedLen ≤ (stream A).length := by
      rw [stream_eq_lines, hA.lines_eq]
      exact le_rfl
    obtain rfl := hrotated hrot harchived (by omega) (hstop hr)
    exact ⟨_, rfl⟩
  | @uncounted A rs torn s i e he hi hknows hextend =>
    obtain ⟨as, bs, -, -, hrs, hrefresh⟩ := hsplit _ _ _ _ he
    obtain rfl := ((hrefresh i).1 hi).2
    obtain ⟨hrecords, -⟩ := hlength he
    have hfits : (CachedIndex.over serde sha256 as bs).committedLen +
        (record.1 ++ [newline]).length ≤ u64Max := by
      have hcommitted : (CachedIndex.over serde sha256 as bs).committedLen = (lines rs).length := by
        rw [hrs.lines_eq]
        rfl
      rw [hcommitted, List.length_append, List.length_singleton]
      omega
    unfold CachedIndex.extend checkedAdd at hextend
    rw [if_pos hfits] at hextend
    cases hextend
  | @written A rs torn s i i' r t k' he hi hknows hextend hrot =>
    obtain ⟨as, bs, -, hA, hrs, hrefresh⟩ := hsplit _ _ _ _ he
    obtain rfl := ((hrefresh i).1 hi).2
    obtain ⟨hrecords, -⟩ := hlength he
    obtain rfl := extend_over (hrecord ▸ hextend)
    have harchived : (CachedIndex.over serde sha256 as (bs ++ [event])).archivedLen ≤
        (stream A).length := by
      rw [stream_eq_lines, hA.lines_eq]
      exact le_rfl
    have hmore : (lines (rs ++ [record])).length = (lines rs).length + (record.1.length + 1) := by
      rw [lines_append, List.length_append, lines_singleton, List.length_append]
      rfl
    obtain rfl := hrotated hrot harchived (by omega) (hstop hr)
    exact ⟨_, rfl⟩

end Fresh

/-! ## Whole runs -/

section Agreement

open Steps Durable

variable {serde : Serde} {sha256 : Bytes → String} {j : Journal} {es : List Envelope}
  {rs : List Record}

/-- The calls of a consumer that only polls. -/
def Consumer.Polls (_ : Consumer) (a : ConsumerAction) : Prop := a = .poll

/-- A consumer that polls the standing directory `work`, from the beginning, takes every record of
`rs`: none is counted malformed, and each poll succeeds and moves on until nothing is left. -/
def TakesAll (serde : Serde) (sha256 : Bytes → String) (work : Work) (rs : List Record) : Prop :=
  ∀ c, Reach (Consumer.next serde sha256 fun _ => work) Consumer.Polls {} c →
    c.reader.stats.skippedInvalid = 0 ∧ ∃ taken, taken <+: rs ∧
      c.reader.offset = (lines taken).length ∧ c.delivered = firstOccurrences (told serde taken) ∧
      ∃ c', c.next serde sha256 (fun _ => work) .poll = some c' ∧
        (taken ≠ rs → c.reader.offset < c'.reader.offset)

theorem length_lines_lt {r : Record} {ss : List Record} :
    (lines rs).length < (lines (rs ++ r :: ss)).length := by
  rw [lines_append, List.length_append, length_lines_cons]
  omega

/-- **Every record is taken**, where each is shorter than the limit and something to a reader. -/
theorem takesAll (hhex : ∀ b, Text.isHex 64 (sha256 b) = true) (hj : j.Sound) (hshort : j.Short)
    (htold : ∀ r ∈ j.records, Told serde r.1) : TakesAll serde sha256 (j.work sha256) j.records := by
  intro c hreach
  have hstands : c.reader.stats.skippedInvalid = 0 ∧ ∃ taken, taken <+: j.records ∧
      Caught serde sha256 c.reader c.delivered taken := by
    refine hreach.invariant (I := fun c => c.reader.stats.skippedInvalid = 0 ∧
      ∃ taken, taken <+: j.records ∧ Caught serde sha256 c.reader c.delivered taken) ?_ ?_
    · exact ⟨rfl, [], List.nil_prefix, rfl, Nat.zero_le _, rfl,
        fun _ h => absurd h List.not_mem_nil, fun _ h => absurd h List.not_mem_nil⟩
    · rintro c _ c' ⟨hzero, taken, htaken, hc⟩ rfl hnext
      obtain ⟨events, next, m, hpoll, hsame, ss, hss, hcaught, -⟩ :=
        poll_yields (n := c.look) hhex hj hshort htold hc htaken
      simp only [Consumer.next, hpoll] at hnext
      obtain rfl := Option.some.inj hnext
      exact ⟨hsame.trans hzero, taken ++ ss, hss, hcaught⟩
  obtain ⟨hzero, taken, htaken, hc⟩ := hstands
  obtain ⟨events, next, m, hpoll, -, ss, -, hcaught, hnone⟩ :=
    poll_yields (n := c.look) hhex hj hshort htold hc htaken
  refine ⟨hzero, taken, htaken, hc.offset, hc.firsts, ⟨next, c.delivered ++ events, m⟩, ?_, ?_⟩
  · simp only [Consumer.next, hpoll]
  · intro hmore
    change c.reader.offset < next.offset
    rw [hc.offset, hcaught.offset]
    cases ss with
    | nil => exact absurd (hnone rfl).symm hmore
    | cons r ss => exact length_lines_lt

/-- A scan accepts its records one by one. -/
theorem scanLines_accepts {active : Bool} {index i : CachedIndex}
    (h : scanLines serde sha256 active rs index = .ok i) :
    ∀ r ∈ rs, Told serde r.1 ∧ r.1.length ≤ maxEventLineBytes := by
  induction rs generalizing index with
  | nil => exact fun _ h => absurd h List.not_mem_nil
  | cons r rs ih =>
    obtain ⟨k, hfirst, hrest⟩ := bind_eq_ok.1 h
    exact List.forall_mem_cons.2 ⟨told_of_scanRecord hfirst, ih hrest⟩

theorem told_of_holds (hj : Holds serde rs es) (hes : ∀ e ∈ es, serde.Returns e)
    (hvalid : ∀ e ∈ es, e.Valid) : told serde rs = es := by
  induction es generalizing rs with
  | nil =>
    obtain rfl := List.map_eq_nil_iff.1 hj
    rfl
  | cons e es ih =>
    obtain ⟨r, rs, rfl, hr, hrest⟩ := List.map_eq_cons_iff.1 hj
    have hevent : eventOf serde r.1 = some e := by
      rw [hr]
      exact DeliverySample.eventOf_record (hes e List.mem_cons_self) (hvalid e List.mem_cons_self)
    rw [told_cons, hevent, ih hrest (fun e he => hes e (List.mem_cons_of_mem _ he))
      fun e he => hvalid e (List.mem_cons_of_mem _ he)]
    rfl

theorem firstOccurrences_of_nodup (h : (ids es).Nodup) : firstOccurrences es = es := by
  induction es using List.reverseRecOn with
  | nil => rfl
  | append_singleton es e ih =>
    rw [ids_append] at h
    obtain ⟨hes, -, hapart⟩ := List.nodup_append.1 h
    have hnew : e.eventId ∉ ids (firstOccurrences es) := by
      rw [ih hes]
      exact fun hin => hapart _ hin _ (List.mem_singleton.2 rfl) rfl
    rw [firstOccurrences_append, ih hes]
    rw [ih hes] at hnew
    exact if_neg hnew

/-- A record of an event that can be read back is something to a reader. -/
theorem told_of_event {event : Envelope} (h : serde.Returns event) (hvalid : event.Valid) :
    Told serde (event.record serde) := by
  refine ⟨event.toJsonLine serde, fromUtf8_utf8 _, .inr ?_⟩
  rw [DeliverySample.eventOf_record h hvalid]
  rfl

theorem torn_le_active (j : Journal) :
    j.front.torn.1.length ≤ (j.work sha256).active.length := by
  obtain ⟨A, f, s⟩ := j
  cases f with
  | flowing rs torn =>
    change torn.1.length ≤ (lines rs ++ torn.1).length
    rw [List.length_append]
    omega
  | copied | counted | emptied => exact Nat.zero_le _

/-- Nothing interrupts a call without faults. -/
theorem call_unhindered {event : Envelope} (hhex : ∀ b, Text.isHex 64 (sha256 b) = true)
    {w : Writer} (h : w.Stores sha256 j) (outbox : Outbox) (hline : newline ∉ event.record serde) :
    (w.call serde sha256 outbox event []).1 ≠ .error .interrupted := by
  obtain ⟨hwork, hsound⟩ := h
  have hruns : Runs (Journal.work sha256) Tick (outbox.appendIdempotent serde sha256 event) j
      w.memory (AppendEnds serde sha256 j w.memory event (Writer.recordOf hline)) :=
    append_runs hhex hsound rfl
  obtain ⟨hne, -⟩ := hruns.unhindered
  rw [← hwork] at hne
  exact hne

variable {E : Envelope → Prop}

/-- What a journal without a poisonous record tells. -/
structure Unspoilt (serde : Serde) (sha256 : Bytes → String) (E : Envelope → Prop) (w : Writer)
    (es : List Envelope) : Prop where
  recounts : w.Recounts serde sha256 es
  stored : ∃ j, w.Stores sha256 j ∧ Holds serde j.records es ∧
    j.front.torn.1.length ≤ maxEventLineBytes
  events : ∀ e ∈ es, E e

/-- Every event the run appended is among `es`. -/
def Told.Appended (serde : Serde) (sha256 : Bytes → String) (tr : List (Writer × WriterStep))
    (es : List Envelope) : Prop :=
  ∀ x ∈ tr, ∀ outbox event faults, x.2 = .append outbox event faults →
    (x.1.call serde sha256 outbox event faults).1 = .ok .appended → event ∈ es

variable (hhex : ∀ b, Text.isHex 64 (sha256 b) = true) (hreturns : ∀ e, E e → serde.Returns e)
  (hvalid : ∀ e, E e → e.Valid) (hshort : ∀ e, E e → (e.record serde).length < maxEventLineBytes)

include hhex hreturns hshort in
theorem unspoilt_of_run {tr : List (Writer × WriterStep)} {w : Writer}
    (h : Run (Writer.next serde sha256) {} tr w) : Writer.About E tr →
    ∃ es, Unspoilt serde sha256 E w es ∧ Told.Appended serde sha256 tr es := by
  refine h.invariant (I := fun tr w => Writer.About E tr →
    ∃ es, Unspoilt serde sha256 E w es ∧ Told.Appended serde sha256 tr es) ?_ ?_
  · intro _
    have hempty : ({} : Writer).Stores sha256 {} := ⟨rfl, ⟨by decide, by decide, by simp⟩⟩
    refine ⟨[], ⟨⟨⟨{}, hempty, rfl⟩, by simp, List.nodup_nil, fun i hi => by cases hi⟩,
      ⟨{}, hempty, rfl, Nat.zero_le _⟩, by simp⟩, by simp [Told.Appended]⟩
  rintro tr w step w' - ih hn hE
  obtain ⟨es, hw, happended⟩ := ih fun x hx => hE x (List.mem_append_left _ hx)
  cases step with
  | forget =>
    obtain rfl := Option.some.inj hn
    refine ⟨es, ⟨⟨hw.recounts.stored, hw.recounts.returns, hw.recounts.nodup,
      fun i hi => by cases hi⟩, hw.stored, hw.events⟩, ?_⟩
    intro x hx outbox event faults hstep
    rcases List.mem_append.1 hx with hx | hx
    · exact happended x hx outbox event faults hstep
    · obtain rfl := List.mem_singleton.1 hx
      cases hstep
  | append outbox event faults =>
    have hevent : E event := hE _ (List.mem_append_right _ List.mem_cons_self) _ _ _ rfl
    have hreturn := hreturns event hevent
    obtain ⟨j, hstores, hj, htorn⟩ := hw.stored
    obtain ⟨t, hdisk, ht, hends⟩ := Writer.call_ends hhex hstores outbox hreturn.oneLine faults
    obtain ⟨es', hrec⟩ := hends.recounted rfl hj hw.recounts.returns hw.recounts.nodup
      hw.recounts.remembers
    obtain rfl := Option.some.inj hn
    refine ⟨es', ⟨⟨⟨t, ⟨hdisk, ht⟩, hrec.holds⟩, hrec.all hw.recounts.returns hreturn,
      hrec.nodup hw.recounts.nodup, hrec.remembers⟩, ⟨t, ⟨hdisk, ht⟩, hrec.holds,
        hends.torn_le htorn (hshort event hevent).le⟩, hrec.all hw.events hevent⟩, ?_⟩
    intro x hx outbox' event' faults' hstep hanswer
    rcases List.mem_append.1 hx with hx | hx
    · exact hrec.keeps _ (happended x hx outbox' event' faults' hstep hanswer)
    · obtain rfl := List.mem_singleton.1 hx
      cases hstep
      rw [hrec.appended hanswer]
      exact List.mem_append_right _ List.mem_cons_self

include hhex hreturns hvalid hshort in
/-- **The writer never poisons its journal.** A poll takes every record a scan accepts, except one
of exactly the limit. Over any run of the writer on events that pass the checks of the reader, with
lines shorter than the limit, whatever the faults: every event appended is told, its line is read
back as the event, a process that remembers nothing appends to the file, and a poll takes every
record. -/
theorem journal_never_poisoned :
    (∀ (j : Journal) (active : Bool) (index i : CachedIndex), j.Sound →
      j.front.torn.1.length ≤ maxEventLineBytes → j.layout.logicalLen ≤ u64Max →
      scanLines serde sha256 active j.records index = .ok i →
      (∀ r ∈ j.records, r.1.length ≠ maxEventLineBytes) →
      TakesAll serde sha256 (j.work sha256) j.records) ∧
    ∀ tr w, Run (Writer.next serde sha256) {} tr w → Writer.About E tr →
      ∃ es, w.work.appended = written serde es ∧ Told.Appended serde sha256 tr es ∧
        (∀ e ∈ es, E e ∧ parseLine serde (e.toJsonLine serde) = .ok e) ∧
        (∀ outbox event, serde.Returns event →
          (∀ e ∈ es, e.eventId = event.eventId → e.semantic = event.semantic) →
          w.work.appended.length + w.work.active.length +
            ((event.record serde).length + 1) ≤ u64Max →
          ∃ answer, (Writer.call serde sha256 ⟨w.work, none⟩ outbox event []).1 = .ok answer) ∧
        (w.work.appended.length + w.work.active.length ≤ u64Max → ∃ rs, Holds serde rs es ∧
          firstOccurrences (told serde rs) = es ∧ TakesAll serde sha256 w.work rs) := by
  refine ⟨fun j active index i hj htorn hfits hscan hnever => ?_, fun tr w h hE => ?_⟩
  · have haccepts := scanLines_accepts hscan
    refine takesAll hhex hj ⟨fun r hr => ?_, htorn, hfits⟩ fun r hr => (haccepts r hr).1
    exact lt_of_le_of_ne (haccepts r hr).2 (hnever r hr)
  obtain ⟨es, hw, happended⟩ := unspoilt_of_run hhex hreturns hshort h hE
  obtain ⟨j, ⟨hwork, hsound⟩, hj, htorn⟩ := hw.stored
  have hwritten : w.work.appended = written serde es := by
    rw [hwork]
    exact hj.lines_eq
  have hlength : (lines j.records).length = w.work.appended.length := by
    rw [hwork]
    rfl
  have hactive : j.front.torn.1.length ≤ w.work.active.length := hwork ▸ torn_le_active j
  have hreturn : ∀ e ∈ es, serde.Returns e := fun e he => hreturns e (hw.events e he)
  have hvalids : ∀ e ∈ es, e.Valid := fun e he => hvalid e (hw.events e he)
  refine ⟨es, hwritten, happended, fun e he => ⟨hw.events e he, ?_⟩, ?_, fun hroom => ?_⟩
  · exact (Envelope.parseLine_toJsonLine (hreturn e he)).2 ⟨rfl, hvalids e he⟩
  · intro outbox event hevent hsame hroom
    have hrecordable : ∀ e ∈ es, Recordable serde e := fun e he =>
      ⟨hvalids e he, (hshort e (hw.events e he)).le⟩
    have hfresh : (⟨w.work, none⟩ : Writer).Stores sha256 j := ⟨hwork, hsound⟩
    have hne := call_unhindered hhex hfresh outbox hevent.oneLine
    obtain ⟨t, -, -, hends⟩ := Writer.call_ends hhex hfresh outbox hevent.oneLine []
    refine hends.answered hj hreturn hw.recounts.nodup rfl hne hrecordable htorn ?_ ?_
    · intro e he hid
      unfold semanticFingerprint
      rw [hsame e he hid]
    · have hsize : (Writer.recordOf hevent.oneLine).1.length = (event.record serde).length := rfl
      omega
  · have htold := told_of_holds hj hreturn hvalids
    have hall : firstOccurrences (told serde j.records) = es := by
      rw [htold]
      exact firstOccurrences_of_nodup hw.recounts.nodup
    refine ⟨j.records, hj, hall, ?_⟩
    have hmem : ∀ r ∈ j.records, ∃ e ∈ es, r.1 = e.record serde := fun r hr => by
      have hin : r.1 ∈ j.records.map Subtype.val := List.mem_map_of_mem hr
      rw [show j.records.map Subtype.val = es.map (·.record serde) from hj] at hin
      obtain ⟨e, he, heq⟩ := List.mem_map.1 hin
      exact ⟨e, he, heq.symm⟩
    rw [hwork]
    refine takesAll hhex hsound ⟨fun r hr => ?_, htorn, ?_⟩ fun r hr => ?_
    · obtain ⟨e, he, heq⟩ := hmem r hr
      rw [heq]
      exact hshort e (hw.events e he)
    · rw [logicalLen_eq]
      omega
    · obtain ⟨e, he, heq⟩ := hmem r hr
      rw [heq]
      exact told_of_event (hreturn e he) (hvalids e he)

end Agreement

/-! ## A sample -/

namespace AgreementSample

open DeliverySample

/-- A batch id of that many letters. -/
def longBatch (n : Nat) : String := String.ofList ('B' :: '-' :: List.replicate n 'x')

theorem validateBatchId_long {n : Nat} (hn : 0 < n) : validateBatchId (longBatch n) = .ok () := by
  have hchars : (longBatch n).toList = 'B' :: '-' :: List.replicate n 'x' := by
    rw [longBatch, String.toList_ofList]
  have hfront : stripFront ['B', '-'] (longBatch n).toList = some (List.replicate n 'x') := by
    rw [hchars]
    simp [stripFront]
  have hsome : (List.replicate n 'x').isEmpty = false := by
    rw [List.isEmpty_replicate]
    exact decide_eq_false (by omega)
  have hblank : (List.replicate n 'x').any isWhiteSpace = false :=
    List.any_eq_false.2 fun ch hch => by
      rw [List.eq_of_mem_replicate hch]
      decide
  have hdash : startsWith (longBatch n) '-' = false := by
    rw [startsWith, hchars, List.head?_cons]
    decide
  have hnul : Text.contains (longBatch n) '\x00' = false := by
    rw [Text.contains, hchars]
    simp [List.mem_replicate]
  have hbatch : isBatchId (longBatch n) = true := by
    unfold isBatchId
    rw [hfront]
    simp only [hsome, hblank, hdash, hnul, Bool.not_false, Bool.and_self]
  exact if_pos hbatch

/-- The opening of a cohort of that batch. -/
def flood (n : Nat) : Envelope := { Sample.opened with batchId := some (longBatch n) }

def front : List Nat :=
  7 :: 8 :: (Tally.ofText "actor" ++ (Tally.encode (.object [("kind", .text "agent"),
    ("name", .text "engine")]) ++ (Tally.ofText "batch_id" ++ [5])))

def back : List Nat :=
  Tally.encodeFields [("event_id", .text Sample.opened.eventId),
    ("occurred_at", .text Sample.opened.occurredAt), ("payload", .object []),
    ("payload_version", .integer 1), ("schema_version", .integer 1),
    ("type", .text "cohort.opened")]

theorem encode_flood (n : Nat) :
    Tally.encode (flood n).toJson = front ++ (Tally.ofText (longBatch n) ++ back) := by
  simp [flood, Envelope.toJson, Tally.encode, Tally.encodeFields, front, back, Sample.opened,
    ActorKind.asStr, EventType.asStr]

theorem sum_longBatch (n : Nat) :
    ((Tally.ofText (longBatch n)).map (· + 1)).sum = n + 3 + (67 + (46 + n * 121)) := by
  unfold Tally.ofText longBatch
  rw [String.toList_ofList]
  simp

theorem length_flood (n : Nat) : n < ((flood n).record Tally.codec).length ∧
    ((flood n).record Tally.codec).length ≤ 122 * n + 3000000 := by
  have hfront : (front.map (· + 1)).sum ≤ 1000000 := by decide +kernel
  have hback : (back.map (· + 1)).sum ≤ 1000000 := by decide +kernel
  have hempty : (utf8 "").length = 0 := by decide
  rw [length_of, encode_flood, List.map_append, List.map_append, List.sum_append, List.sum_append,
    sum_longBatch, hempty]
  omega

/-- **The first append of that event** succeeds, and no process that remembers nothing appends
after it. -/
theorem flood_poisons {n : Nat} (hn : maxEventLineBytes ≤ n) (hsmall : n ≤ 2 * maxEventLineBytes)
    (outbox : Outbox) : ∃ t : Journal,
    (Writer.call Tally.codec Sample.digest {} outbox (flood n) []).1 = .ok .appended ∧
    (Writer.call Tally.codec Sample.digest {} outbox (flood n) []).2.disk = t.work Sample.digest ∧
    t.Sound ∧ Holds Tally.codec t.records [flood n] ∧ ¬ Recordable Tally.codec (flood n) := by
  obtain ⟨hlong, hroom⟩ := length_flood n
  generalize flood n = event at *
  have hempty : ({} : Journal).Sound := ⟨by decide, by decide, by simp⟩
  have hnothing : Holds Tally.codec ({} : Journal).records [] := rfl
  have hne := call_unhindered (w := {}) Sample.digest_hex ⟨rfl, hempty⟩ outbox
    (returns event).oneLine
  obtain ⟨t, hdisk, ht, hends⟩ := Writer.call_ends (w := {}) Sample.digest_hex ⟨rfl, hempty⟩
    outbox (returns event).oneLine []
  have hfits : (Writer.recordOf (returns event).oneLine).1.length + 1 ≤ u64Max := by
    have hsize : (Writer.recordOf (returns event).oneLine).1.length =
      (event.record Tally.codec).length := rfl
    have hlimit : maxEventLineBytes = 1048576 := rfl
    rw [hsize, u64Max]
    omega
  obtain ⟨answer, hanswer⟩ := hends.answered hnothing (by simp) List.nodup_nil rfl hne (by simp)
    (Nat.zero_le _) (by simp) (by
      have hzero : (lines ({} : Journal).records).length + ({} : Journal).front.torn.1.length = 0 :=
        rfl
      omega)
  obtain ⟨es', hrec⟩ := hends.recounted rfl hnothing (by simp) List.nodup_nil
    fun i hi => by cases hi
  have happended : answer = .appended := by
    cases answer with
    | appended => rfl
    | alreadyPresent =>
      obtain ⟨-, e, he, -⟩ := hrec.present hanswer
      cases he
  subst happended
  refine ⟨t, hanswer, hdisk, ht, ?_, fun h => ?_⟩
  · have hall := hrec.appended hanswer
    have hholds := hrec.holds
    rwa [hall, List.nil_append] at hholds
  · have hshort := h.short
    omega

end AgreementSample

theorem work_one (sha256 : Bytes → String) (r : Record) :
    ((⟨[], .flowing [r] noRecord, none⟩ : Journal).work sha256).appended = lines [r] ∧
      ((⟨[], .flowing [r] noRecord, none⟩ : Journal).work sha256).active = lines [r] :=
  ⟨rfl, List.append_nil _⟩

/-- One append: what is said of the file it leaves. -/
theorem journal_never_poisoned_opened :
    let step : WriterStep := .append ⟨⟨false, 0⟩, .standard⟩ Sample.opened []
    ∃ w, Writer.next Sample.codec Sample.digest {} step = some w ∧
      (∃ answer, (Writer.call Sample.codec Sample.digest ⟨w.work, none⟩ ⟨⟨false, 0⟩, .standard⟩
        Sample.opened []).1 = .ok answer) ∧
      ∃ rs, firstOccurrences (told Sample.codec rs) = [Sample.opened] ∧
        TakesAll Sample.codec Sample.digest w.work rs := by
  intro step
  have hrun : Steps.Run (Writer.next Sample.codec Sample.digest) {} [({}, step)]
      ((Writer.next Sample.codec Sample.digest {} step).get rfl) :=
    .snoc .nil (Option.some_get _).symm
  have hone : ((Writer.next Sample.codec Sample.digest {} step).get rfl).work =
      (⟨[], .flowing [Writer.recordOf Sample.returns_opened.oneLine] noRecord, none⟩ :
        Journal).work Sample.digest := by decide +kernel
  obtain ⟨-, hruns⟩ := journal_never_poisoned (E := fun e => e = Sample.opened) Sample.digest_hex
    (by rintro e rfl; exact Sample.returns_opened) (by rintro e rfl; exact Sample.valid_opened)
    (by rintro e rfl; rw [Sample.length_opened]; decide)
  obtain ⟨es, hwritten, happended, hes, hfresh, hreader⟩ := hruns _ _ hrun
    (by simp [Writer.About, step]; rintro - - - - rfl - ; rfl)
  set w := (Writer.next Sample.codec Sample.digest {} step).get rfl
  have hlines : (lines [Writer.recordOf Sample.returns_opened.oneLine]).length = 191 := by
    rw [lines_singleton, List.length_append, Writer.recordOf, Sample.length_opened]
    rfl
  have hsizes : w.work.appended.length = 191 ∧ w.work.active.length = 191 := by
    rw [hone, (work_one _ _).1, (work_one _ _).2]
    exact ⟨hlines, hlines⟩
  have htold : es = [Sample.opened] := by
    cases es with
    | nil =>
      have hnone := congrArg List.length hwritten
      rw [hsizes.1] at hnone
      simp [written, Records.joined] at hnone
    | cons e es =>
      obtain rfl : e = Sample.opened := (hes e List.mem_cons_self).1
      cases es with
      | nil => rfl
      | cons e' es =>
        obtain rfl : e' = Sample.opened :=
          (hes e' (List.mem_cons_of_mem _ List.mem_cons_self)).1
        have htwice := congrArg List.length hwritten
        simp [hsizes.1, written, Records.joined, Sample.length_opened] at htwice
        omega
  subst htold
  have hroom : w.work.appended.length + w.work.active.length +
      ((Sample.opened.record Sample.codec).length + 1) ≤ u64Max := by
    rw [hsizes.1, hsizes.2, Sample.length_opened]
    decide
  have hfresh' := hfresh ⟨⟨false, 0⟩, .standard⟩ Sample.opened Sample.returns_opened
    (by simp) hroom
  obtain ⟨rs, -, hfirst, htakes⟩ := hreader (by omega)
  exact ⟨w, rfl, hfresh', rs, hfirst, htakes⟩

open AgreementSample in
/-- **A poisoned journal**: the engine admits the batch id, the append of the opening of its cohort
succeeds, and from then on no process that starts afresh appends anything. -/
theorem journal_poisoned : ∃ batch, validateBatchId batch = .ok () ∧
    let event : Envelope := { Sample.opened with batchId := some batch }
    let call := Writer.call Tally.codec Sample.digest {} ⟨⟨false, 0⟩, .standard⟩ event []
    call.1 = .ok .appended ∧ ∀ outbox later faults answer,
      (Writer.call Tally.codec Sample.digest ⟨call.2.disk, none⟩ outbox later faults).1 ≠
        .ok answer := by
  obtain ⟨n, hn, hsmall⟩ : ∃ n, maxEventLineBytes ≤ n ∧ n ≤ 2 * maxEventLineBytes :=
    ⟨maxEventLineBytes, le_rfl, by omega⟩
  have hpos : 0 < n := lt_of_lt_of_le (by decide) hn
  obtain ⟨t, hanswer, hdisk, ht, hholds, hbad⟩ := flood_poisons hn hsmall ⟨⟨false, 0⟩, .standard⟩
  refine ⟨longBatch n, validateBatchId_long hpos, ?_⟩
  intro event call
  refine ⟨hanswer, fun outbox later faults answer => ?_⟩
  obtain ⟨t', -, -, hends⟩ := Writer.call_ends (w := ⟨call.2.disk, none⟩) Sample.digest_hex
    ⟨hdisk, ht⟩ outbox (DeliverySample.returns later).oneLine faults
  exact hends.poisoned hholds (by simpa using DeliverySample.returns (flood n)) (by simp)
    ⟨flood n, List.mem_singleton.2 rfl, hbad⟩ answer

end Orchestrail
