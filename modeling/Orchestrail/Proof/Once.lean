import Orchestrail.Lib.Since
import Orchestrail.Proof.Append
import Orchestrail.Proof.Scan

/-!
# Exactly once

The journal of a run of the writer as a list of events. Every call adds its event or nothing, an id
that is there is never written again, and what the process remembers is always the index of a
history the journal has gone through: of the whole one, when the call has answered.

* `call_recounts`: what one call does to it, however it ends.
-/

namespace Orchestrail

open Records Durable Outcome Journal

variable {serde : Serde} {sha256 : Bytes → String} {E : Envelope → Prop} {A : List Chunk}
  {rs : List Record} {s : Option String} {as bs es : List Envelope} {event : Envelope}
  {j t : Journal} {k : Option CachedIndex}

/-! ## The index through an append -/

/-- The index with one more event in the active file. -/
theorem extend_over {i : CachedIndex}
    (h : (CachedIndex.over serde sha256 as bs).extend serde sha256 event
      (event.record serde ++ [newline]) = .ok i) : i = .over serde sha256 as (bs ++ [event]) := by
  obtain ⟨n, hn, hi⟩ := bind_eq_ok.1 h
  have hlen : n = (written serde (bs ++ [event])).length := by
    unfold checkedAdd at hn
    split at hn
    · rw [written_append]
      simpa [CachedIndex.over, written] using (Except.ok.inj hn).symm
    · cases hn
  rw [← Except.ok.inj hi, hlen, CachedIndex.over, CachedIndex.over, List.foldl_concat]
  rfl

/-- What is archived differs from what is active in the active ids alone. -/
theorem foldl_tell_archived {index : CachedIndex} {ids : StringSet} :
    es.foldl (CachedIndex.tell serde sha256 false) { index with activeIds := ids } =
      { es.foldl (CachedIndex.tell serde sha256 true) index with activeIds := ids } := by
  induction es generalizing index with
  | nil => rfl
  | cons e es ih => exact @ih (index.tell serde sha256 true e)

/-- The index behind a transfer. -/
theorem over_moved : { CachedIndex.over serde sha256 as bs with
    archivedLen := (written serde as).length + (written serde bs).length
    committedLen := 0, activeIds := ∅ } = CachedIndex.over serde sha256 (as ++ bs) [] := by
  have hnone : (as.foldl (CachedIndex.tell serde sha256 false) {}).activeIds = ∅ :=
    congrArg CachedIndex.activeIds (@foldl_tell_archived serde sha256 as {} ∅)
  rw [CachedIndex.over, CachedIndex.over, List.foldl_append, written_append, List.length_append]
  generalize as.foldl (CachedIndex.tell serde sha256 false) {} = i at hnone
  have hself : { i with activeIds := ∅ } = i := by
    cases i
    obtain rfl := hnone
    rfl
  have hmoved := @foldl_tell_archived serde sha256 bs i ∅
  rw [hself] at hmoved
  rw [List.foldl_nil, hmoved]
  rfl

/-- **What the index says of an event**: that its id is new, or how its content compares with the
event of that id. -/
theorem knows_over (hnodup : ((as ++ bs).map Envelope.eventId).Nodup) :
    (event.eventId ∉ (as ++ bs).map Envelope.eventId ∧
      (CachedIndex.over serde sha256 as bs).knows serde sha256 event = .ok false) ∨
    ∃ e ∈ as ++ bs, e.eventId = event.eventId ∧
      (CachedIndex.over serde sha256 as bs).knows serde sha256 event =
        if semanticFingerprint serde sha256 e = semanticFingerprint serde sha256 event then .ok true
        else .error (.eventIdCollision event.eventId) := by
  by_cases hmem : event.eventId ∈ (as ++ bs).map Envelope.eventId
  · right
    obtain ⟨e, he, hid⟩ := List.mem_map.1 hmem
    have hfound : (CachedIndex.over serde sha256 as bs).semanticById[e.eventId]? =
        some (semanticFingerprint serde sha256 e) := by
      obtain ⟨has, hbs, hapart⟩ := List.nodup_append.1 (List.map_append ▸ hnodup)
      simp only [CachedIndex.over]
      rcases List.mem_append.1 he with he | he
      · have hnot : e.eventId ∉ bs.map Envelope.eventId := fun hin =>
          hapart _ (List.mem_map_of_mem he) _ hin rfl
        rw [foldl_tell_notMem hnot, foldl_tell_mem has he]
      · exact foldl_tell_mem hbs he
    refine ⟨e, he, hid, ?_⟩
    rw [hid] at hfound
    simp only [CachedIndex.knows, hfound]
  · left
    refine ⟨hmem, ?_⟩
    simp only [CachedIndex.knows, over_fresh hmem]

/-! ## One call -/

/-- Nothing is in flight, the tail can be looked past, and the memory is the index of the whole
history. -/
def Current (serde : Serde) (sha256 : Bytes → String) (t : Journal) (k : Option CachedIndex)
    (es : List Envelope) : Prop :=
  ∃ A rs torn s as bs, t = ⟨A, .flowing rs torn, s⟩ ∧ torn.1.length ≤ maxEventLineBytes ∧
    es = as ++ bs ∧ Holds serde (A.flatMap Chunk.records) as ∧ Holds serde rs bs ∧
    k = some (.over serde sha256 as bs)

theorem RotateEnds.indexed {r : Except (Halt OutboxError) Unit} {k' : Option CachedIndex}
    (hA : Holds serde (A.flatMap Chunk.records) as) (hrs : Holds serde rs bs)
    (h : RotateEnds A rs s (.over serde sha256 as bs) r t k') :
    Remembers serde sha256 k' (as ++ bs) ∧ (r = .ok () → Current serde sha256 t k' (as ++ bs)) ∧
      ∀ id, r ≠ .error (.failed (.eventIdCollision id)) := by
  have hsame : Remembers serde sha256 (some (.over serde sha256 as bs)) (as ++ bs) := by
    intro i hi
    exact ⟨as, bs, List.prefix_rfl, (Option.some.inj hi).symm⟩
  cases h with
  | idle =>
    exact ⟨hsame, fun _ => ⟨A, rs, noRecord, s, as, bs, rfl, Nat.zero_le _, rfl, hA, hrs, rfl⟩,
      by simp⟩
  | moved c s' hc hfits =>
    have hlen : c.bytes.length = (written serde bs).length := by
      rw [← hrs.lines_eq, ← hc]
      rfl
    have harch : (CachedIndex.over serde sha256 as bs).archivedLen = (written serde as).length := rfl
    rw [hlen, harch, over_moved]
    refine ⟨fun i hi => ⟨as ++ bs, [], by simp, (Option.some.inj hi).symm⟩, fun _ =>
      ⟨A ++ [c], [], noRecord, s', as ++ bs, [], rfl, Nat.zero_le _, by simp, ?_, rfl, rfl⟩, by simp⟩
    rw [List.flatMap_append, List.flatMap_singleton, hc]
    exact hA.append hrs
  | miscounted | interrupted | refused => exact ⟨hsame, fun h => (by cases h), by simp⟩

/-- What a call does to a journal that tells `es`. -/
structure Recounted (serde : Serde) (sha256 : Bytes → String) (es : List Envelope) (event : Envelope)
    (r : Except (Halt OutboxError) AppendOutcome) (t : Journal) (k' : Option CachedIndex)
    (es' : List Envelope) : Prop where
  holds : Holds serde t.records es'
  remembers : Remembers serde sha256 k' es'
  grows : es' = es ∨ es' = es ++ [event] ∧ event.eventId ∉ es.map Envelope.eventId
  appended : r = .ok .appended → es' = es ++ [event]
  present : r = .ok .alreadyPresent → es' = es ∧ ∃ e ∈ es, e.eventId = event.eventId ∧
    semanticFingerprint serde sha256 e = semanticFingerprint serde sha256 event
  current : (∃ a, r = .ok a) ∨ r = .error (.failed (.eventIdCollision event.eventId)) →
    k' = none ∨ Current serde sha256 t k' es'

theorem Remembers.mono {es' : List Envelope} (h : Remembers serde sha256 k es) (hes : es <+: es') :
    Remembers serde sha256 k es' := fun i hi => by
  obtain ⟨as, bs, hstart, rfl⟩ := h i hi
  exact ⟨as, bs, hstart.trans hes, rfl⟩

/-- Only a transfer that ended well lets the call answer. -/
theorem answered_ok {r : Except (Halt OutboxError) Unit} {answer : AppendOutcome} {id : String}
    (hnot : ∀ id, r ≠ .error (.failed (.eventIdCollision id)))
    (h : (∃ a, r.map (fun _ => answer) = .ok a) ∨
      r.map (fun _ => answer) = .error (.failed (.eventIdCollision id))) : r = .ok () := by
  cases r with
  | ok => rfl
  | error e =>
    rcases h with ⟨a, ha⟩ | h
    · cases ha
    · exact absurd (congrArg Except.error (Except.error.inj h)) (hnot id)

/-- **One call, however it ends.** -/
theorem AppendEnds.recounted {record : Record} {r : Except (Halt OutboxError) AppendOutcome}
    {k' : Option CachedIndex} (h : AppendEnds serde sha256 j k event record r t k')
    (hrecord : record.1 = event.record serde) (hj : Holds serde j.records es)
    (hes : ∀ e ∈ es, serde.Returns e) (hnodup : (es.map Envelope.eventId).Nodup)
    (hk : Remembers serde sha256 k es) : ∃ es', Recounted serde sha256 es event r t k' es' := by
  have hsplit : ∀ {A rs torn s}, j.recovered = ⟨A, .flowing rs torn, s⟩ →
      ∃ as bs, es = as ++ bs ∧ Holds serde (A.flatMap Chunk.records) as ∧ Holds serde rs bs ∧
        ∀ i, refreshIndex serde sha256 j.recovered.layout (j.recovered.work sha256) k
          (lines rs).length = .ok i → i = .over serde sha256 as bs := by
    intro A rs torn s he
    rw [← recovered_records, he] at hj
    obtain ⟨as, bs, rfl, hA, hrs⟩ := Holds.split hj
    obtain ⟨unread, -, -, hrefresh⟩ := @refreshIndex_over serde sha256 A rs torn s as bs k hA hrs hes
      hnodup hk
    refine ⟨as, bs, rfl, hA, hrs, fun i hi => ((hrefresh i).1 ?_).2⟩
    rw [← he]
    exact hi
  have hmore : ∀ {rs bs}, Holds serde rs bs → Holds serde (rs ++ [record]) (bs ++ [event]) :=
    fun h => h.append (by simp [Holds, hrecord])
  have hself : ∀ {as bs}, Remembers serde sha256 (some (.over serde sha256 as bs)) (as ++ bs) :=
    fun i hi => ⟨_, _, List.prefix_rfl, (Option.some.inj hi).symm⟩
  have hfresh : ∀ {as bs}, es = as ++ bs →
      (CachedIndex.over serde sha256 as bs).knows serde sha256 event = .ok false →
      event.eventId ∉ es.map Envelope.eventId := by
    rintro as bs rfl hknows
    rcases @knows_over serde sha256 as bs event hnodup with ⟨hnew, -⟩ | ⟨e, he, hid, hold⟩
    · exact hnew
    · rw [hknows] at hold
      split at hold <;> cases hold
  cases h with
  | recovering t hkept =>
    exact ⟨es, by rw [hkept.records]; exact hj, hk, .inl rfl, by simp, by simp, by simp⟩
  | unmeasured e he =>
    exact ⟨es, by rw [recovered_records]; exact hj, hk, .inl rfl, by simp, by simp, by simp⟩
  | unscanned e he =>
    exact ⟨es, by rw [recovered_records]; exact hj, by simp [Remembers], .inl rfl, by simp, by simp,
      fun _ => .inl rfl⟩
  | collided i e he hshort hi hknows =>
    obtain ⟨as, bs, rfl, hA, hrs, hindex⟩ := hsplit he
    obtain rfl := hindex i hi
    refine ⟨as ++ bs, by rw [recovered_records]; exact hj, hself, .inl rfl, by simp, by simp, fun _ =>
      .inr ⟨_, _, _, _, as, bs, he, hshort, rfl, hA, hrs, rfl⟩⟩
  | scanned i b torn' he hi hknows htorn =>
    obtain ⟨as, bs, rfl, hA, hrs, hindex⟩ := hsplit he
    obtain rfl := hindex i hi
    exact ⟨as ++ bs, hA.append hrs, hself, .inl rfl, by simp, by simp, by simp⟩
  | present i r t k' he hi hknows hrot =>
    obtain ⟨as, bs, rfl, hA, hrs, hindex⟩ := hsplit he
    obtain rfl := hindex i hi
    obtain ⟨hmem, hcurrent, hnot⟩ := hrot.indexed hA hrs
    have hpresent : ∃ e ∈ as ++ bs, e.eventId = event.eventId ∧
        semanticFingerprint serde sha256 e = semanticFingerprint serde sha256 event := by
      rcases @knows_over serde sha256 as bs event hnodup with ⟨-, hnew⟩ | ⟨e, he, hid, hold⟩
      · rw [hknows] at hnew
        cases hnew
      · rw [hknows] at hold
        split at hold
        · rename_i hsame
          exact ⟨e, he, hid, hsame⟩
        · cases hold
    refine ⟨as ++ bs, by rw [hrot.records.1]; exact hA.append hrs, hmem, .inl rfl, ?_, fun _ =>
      ⟨rfl, hpresent⟩, fun h => .inr (hcurrent (answered_ok hnot h))⟩
    cases r <;> simp [Except.map]
  | unconfirmed i he hi hknows =>
    obtain ⟨as, bs, rfl, hA, hrs, hindex⟩ := hsplit he
    obtain rfl := hindex i hi
    refine ⟨as ++ bs ++ [event], ?_, hself.mono (List.prefix_append _ _),
      .inr ⟨rfl, hfresh rfl hknows⟩, by simp, by simp, by simp⟩
    rw [List.append_assoc]
    exact hA.append (hmore hrs)
  | uncounted i e he hi hknows hextend =>
    obtain ⟨as, bs, rfl, hA, hrs, hindex⟩ := hsplit he
    obtain rfl := hindex i hi
    refine ⟨as ++ bs ++ [event], ?_, hself.mono (List.prefix_append _ _),
      .inr ⟨rfl, hfresh rfl hknows⟩, by simp, by simp, by simp⟩
    rw [List.append_assoc]
    exact hA.append (hmore hrs)
  | written i i' r t k' he hi hknows hextend hrot =>
    obtain ⟨as, bs, rfl, hA, hrs, hindex⟩ := hsplit he
    obtain rfl := hindex i hi
    obtain rfl := extend_over (hrecord ▸ hextend)
    obtain ⟨hmem, hcurrent, hnot⟩ := hrot.indexed hA (hmore hrs)
    rw [← List.append_assoc] at hmem hcurrent
    refine ⟨as ++ bs ++ [event], ?_, hmem, .inr ⟨rfl, hfresh rfl hknows⟩, fun _ => rfl, ?_,
      fun h => .inr (hcurrent (answered_ok hnot h))⟩
    · rw [hrot.records.1, List.append_assoc]
      exact hA.append (hmore hrs)
    · cases r <;> simp [Except.map]

/-- What holds of the events told before and of the new one holds of those told after. -/
theorem Recounted.all {r : Except (Halt OutboxError) AppendOutcome} {k' : Option CachedIndex}
    {es' : List Envelope} {P : Envelope → Prop} (h : Recounted serde sha256 es event r t k' es')
    (hes : ∀ e ∈ es, P e) (hevent : P event) : ∀ e ∈ es', P e := by
  rcases h.grows with rfl | ⟨rfl, -⟩
  · exact hes
  · intro e he
    rcases List.mem_append.1 he with he | he
    · exact hes e he
    · obtain rfl := List.mem_singleton.1 he
      exact hevent

theorem Recounted.nodup {r : Except (Halt OutboxError) AppendOutcome} {k' : Option CachedIndex}
    {es' : List Envelope} (h : Recounted serde sha256 es event r t k' es')
    (hnodup : (es.map Envelope.eventId).Nodup) : (es'.map Envelope.eventId).Nodup := by
  rcases h.grows with rfl | ⟨rfl, hnew⟩
  · exact hnodup
  · rw [List.map_append, List.nodup_append]
    refine ⟨hnodup, by simp, fun x hx y hy hxy => hnew ?_⟩
    obtain rfl := List.mem_singleton.1 (by simpa using hy)
    exact hxy ▸ hx

/-- What was told stays told. -/
theorem Recounted.keeps {r : Except (Halt OutboxError) AppendOutcome} {k' : Option CachedIndex}
    {es' : List Envelope} (h : Recounted serde sha256 es event r t k' es') :
    ∀ e ∈ es, e ∈ es' := by
  rcases h.grows with rfl | ⟨rfl, -⟩
  · exact fun e he => he
  · exact fun e he => List.mem_append_left _ he

/-! ## Whole runs -/

variable (hhex : ∀ b, Text.isHex 64 (sha256 b) = true)

include hhex in
/-- What a scan from nothing needs and does, with nothing in flight. -/
theorem rescan_flowing {torn : Record} (ht : (⟨A, .flowing rs torn, s⟩ : Journal).Sound)
    {i : CachedIndex} : rescan serde sha256 ((⟨A, .flowing rs torn, s⟩ : Journal).work sha256) = .ok i ↔
    torn.1.length ≤ maxEventLineBytes ∧ (stream A).length + (lines rs ++ torn.1).length ≤ u64Max ∧
      scanCommittedHistory serde sha256 (⟨A, .flowing rs torn, s⟩ : Journal).layout
        ((⟨A, .flowing rs torn, s⟩ : Journal).work sha256) {} (lines rs).length = .ok i := by
  have hact : ((⟨A, .flowing rs torn, s⟩ : Journal).work sha256).active = lines rs ++ torn.1 := rfl
  have hlayout := eventStreamLayout_work hhex ht
  have hroom : (stream (⟨A, .flowing rs torn, s⟩ : Journal).counted).length +
      (⟨A, .flowing rs torn, s⟩ : Journal).live.length =
      (stream A).length + (lines rs ++ torn.1).length := by
    simp [counted, live, skipped, Front.pending, Front.active]
  rw [hroom] at hlayout
  unfold rescan
  by_cases hshort : torn.1.length ≤ maxEventLineBytes
  · rw [hact, committedPrefixLen_lines rs torn hshort, hlayout]
    by_cases hfits : (stream A).length + (lines rs ++ torn.1).length ≤ u64Max
    · rw [if_pos hfits]
      exact ⟨fun h => ⟨hshort, hfits, h⟩, fun h => h.2.2⟩
    · rw [if_neg hfits]
      exact ⟨fun h => (by cases h), fun h => absurd h.2.1 hfits⟩
  · obtain ⟨e, he⟩ := committedPrefixLen_long rs torn (by omega)
    rw [hact, he]
    exact ⟨fun h => (by cases h), fun h => absurd h.1 hshort⟩

include hhex in
/-- **A current memory is what a scan from nothing finds.** -/
theorem rescan_current (hcurrent : Current serde sha256 t k es) (ht : t.Sound)
    (hes : ∀ e ∈ es, serde.Returns e) (hnodup : (es.map Envelope.eventId).Nodup) :
    ∃ i, k = some i ∧ (∀ r, rescan serde sha256 (t.work sha256) = .ok r → r = i) ∧
      ((∀ e ∈ es, Recordable serde e) →
        (t.work sha256).appended.length + (t.work sha256).active.length ≤ u64Max →
        rescan serde sha256 (t.work sha256) = .ok i) := by
  obtain ⟨A, rs, torn, s, as, bs, rfl, hshort, rfl, hA, hrs, rfl⟩ := hcurrent
  have hscan := fun i => @scanHistory_all serde sha256 A rs torn s as bs hA hrs hes hnodup i
  refine ⟨_, rfl, fun r hr => ?_, fun hall hfits => ?_⟩
  · obtain ⟨-, -, hr⟩ := (rescan_flowing hhex ht).1 hr
    exact ((hscan r).1 hr).2
  · refine (rescan_flowing hhex ht).2 ⟨hshort, ?_, (hscan _).2 ⟨hall, rfl⟩⟩
    have hbefore : (lines (⟨A, .flowing rs torn, s⟩ : Journal).records).length =
        (stream A).length + (lines rs).length := by
      simp [Journal.records, Front.records, lines_append, stream_eq_lines]
    simp only [work, Front.active, hbefore] at hfits
    omega

namespace Writer

open Steps

/-- The directory tells the events `es`, each of them once, and the memory an earlier part. -/
structure Recounts (serde : Serde) (sha256 : Bytes → String) (w : Writer) (es : List Envelope) :
    Prop where
  stored : ∃ j, w.Stores sha256 j ∧ Holds serde j.records es
  returns : ∀ e ∈ es, serde.Returns e
  nodup : (es.map Envelope.eventId).Nodup
  remembers : Remembers serde sha256 w.memory es

include hhex in
theorem call_recounts {w : Writer} (h : w.Recounts serde sha256 es) (outbox : Outbox)
    (hevent : serde.Returns event) (faults : List (Option Fault)) :
    let (answer, machine) := w.call serde sha256 outbox event faults
    ∃ t es', machine.disk = t.work sha256 ∧ t.Sound ∧
      Recounted serde sha256 es event answer t machine.memory es' ∧
      Recounts serde sha256 ⟨machine.disk, machine.memory⟩ es' := by
  obtain ⟨⟨j, hstores, hj⟩, hes, hnodup, hk⟩ := h
  obtain ⟨t, hdisk, ht, hends⟩ := call_ends hhex hstores outbox hevent.oneLine faults
  obtain ⟨es', hrec⟩ := hends.recounted rfl hj hes hnodup hk
  exact ⟨t, es', hdisk, ht, hrec, ⟨t, ⟨hdisk, ht⟩, hrec.holds⟩, hrec.all hes hevent,
    hrec.nodup hnodup, hrec.remembers⟩

include hhex in
/-- The directory an undisturbed recovery leaves. -/
theorem recover_disk {w : Writer} (h : w.Stores sha256 j) :
    (w.recover sha256).2.disk = j.recovered.work sha256 := by
  obtain ⟨hwork, hsound⟩ := h
  obtain ⟨hne, t, hdisk, hpost⟩ := (recover_runs hhex (k := w.memory) hsound).unhindered
  rw [← hwork] at hne hdisk hpost
  change Transfers j w.memory _ (w.recover sha256).1 t _ at hpost
  match hr : (w.recover sha256).1 with
  | .ok () =>
    rw [hr] at hpost
    obtain ⟨-, -, rfl⟩ := hpost
    exact hdisk
  | .error .interrupted => exact absurd hr hne
  | .error (.failed e) =>
    rw [hr] at hpost
    exact hpost.elim

include hhex in
/-- The call refuses the event, and says why. -/
theorem collides_of_ends {record : Record} {r : Except (Halt OutboxError) AppendOutcome}
    {k' : Option CachedIndex} (hends : AppendEnds serde sha256 j k event record r t k')
    (hj : Holds serde j.records es) (hsound : j.Sound) (hes : ∀ e ∈ es, serde.Returns e)
    (hnodup : (es.map Envelope.eventId).Nodup) (hk : Remembers serde sha256 k es) {e : Envelope}
    (he : e ∈ es) (hid : e.eventId = event.eventId)
    (hother : semanticFingerprint serde sha256 e ≠ semanticFingerprint serde sha256 event)
    (hgoes : r ≠ .error .interrupted) {i : CachedIndex}
    (hscan : rescan serde sha256 (j.recovered.work sha256) = .ok i) :
    r = .error (.failed (.eventIdCollision event.eventId)) := by
  obtain ⟨A, rs, torn, s, hrec⟩ := j.recovered_flowing
  have hsound' := hsound.recovered
  rw [← recovered_records, hrec] at hj
  rw [hrec] at hsound' hscan
  obtain ⟨hshort, hfits, hhistory⟩ := (rescan_flowing hhex hsound').1 hscan
  obtain ⟨as, bs, rfl, hA, hrs⟩ := Holds.split hj
  obtain ⟨hall, -⟩ := (scanHistory_all hA hrs hes hnodup).1 hhistory
  obtain ⟨unread, hunread, -, hrefresh⟩ :=
    @refreshIndex_over serde sha256 A rs torn s as bs k hA hrs hes hnodup hk
  have hfresh := (hrefresh (.over serde sha256 as bs)).2 ⟨fun e he => hall e (hunread.subset he), rfl⟩
  rw [← hrec] at hfresh
  have hknows : (CachedIndex.over serde sha256 as bs).knows serde sha256 event =
      .error (.eventIdCollision event.eventId) := by
    rcases @knows_over serde sha256 as bs event hnodup with ⟨hnew, -⟩ | ⟨e', he', hid', hold⟩
    · exact absurd (hid ▸ List.mem_map_of_mem he) hnew
    · obtain rfl : e = e' := List.inj_on_of_nodup_map hnodup he he' (hid.trans hid'.symm)
      rw [hold, if_neg hother]
  have hbefore : lines j.recovered.records = stream A ++ lines rs := by
    rw [hrec, Journal.records, lines_append, stream_eq_lines]
    rfl
  have hparts : ∀ {A' rs' torn' s'}, j.recovered = ⟨A', .flowing rs' torn', s'⟩ →
      rs' = rs ∧ torn' = torn := by
    intro A' rs' torn' s' hrec'
    have hsame := hrec'.symm.trans hrec
    simp only [Journal.mk.injEq, Front.flowing.injEq] at hsame
    exact hsame.2.1
  have hindex : ∀ {A' rs' torn' s' i'}, j.recovered = ⟨A', .flowing rs' torn', s'⟩ →
      refreshIndex serde sha256 j.recovered.layout (j.recovered.work sha256) k (lines rs').length =
        .ok i' → i' = .over serde sha256 as bs := by
    intro A' rs' torn' s' i' hrec' hi
    obtain ⟨rfl, rfl⟩ := hparts hrec'
    exact Except.ok.inj (hi.symm.trans hfresh)
  cases hends with
  | recovering | scanned | unconfirmed => exact absurd rfl hgoes
  | unmeasured error he' hover =>
    obtain ⟨rfl, rfl⟩ := hparts he'
    have hfull := hover hshort
    rw [hbefore, List.append_assoc, List.length_append] at hfull
    omega
  | unscanned error he' herror =>
    obtain ⟨rfl, rfl⟩ := hparts he'
    rw [hfresh] at herror
    cases herror
  | collided i error he _ hi hcollides =>
    obtain rfl := hindex he hi
    rw [hknows] at hcollides
    obtain rfl := Except.error.inj hcollides
    rfl
  | present i _ _ _ he hi hpresent | uncounted i _ he hi hpresent | written i _ _ _ _ he hi hpresent =>
    obtain rfl := hindex he hi
    rw [hknows] at hpresent
    cases hpresent

include hhex in
/-- **An id with other content** is never acknowledged, and nothing of the call is kept. The call
says so, unless the environment stops it or the history cannot be scanned. -/
theorem call_collides {w : Writer} (h : w.Recounts serde sha256 es) {e : Envelope} (he : e ∈ es)
    (hid : e.eventId = event.eventId)
    (hother : semanticFingerprint serde sha256 e ≠ semanticFingerprint serde sha256 event)
    (outbox : Outbox) (hevent : serde.Returns event) (faults : List (Option Fault)) :
    (∀ a, (w.call serde sha256 outbox event faults).1 ≠ .ok a) ∧
      (w.call serde sha256 outbox event faults).2.disk.appended = w.work.appended ∧
      ((w.call serde sha256 outbox event faults).1 ≠ .error .interrupted →
        ∀ i, rescan serde sha256 (w.recover sha256).2.disk = .ok i →
        (w.call serde sha256 outbox event faults).1 =
          .error (.failed (.eventIdCollision event.eventId))) := by
  obtain ⟨⟨j, hstores, hj⟩, hes, hnodup, hk⟩ := h
  obtain ⟨t, hdisk, ht, hends⟩ := call_ends hhex hstores outbox hevent.oneLine faults
  obtain ⟨es', hrec⟩ := hends.recounted rfl hj hes hnodup hk
  rw [recover_disk hhex hstores]
  obtain rfl : es' = es :=
    hrec.grows.elim id fun h => absurd (hid ▸ List.mem_map_of_mem he) h.2
  refine ⟨fun a ha => ?_, ?_, fun hgoes i hscan => ?_⟩
  · cases a with
    | appended =>
      have hlonger := congrArg List.length (hrec.appended ha)
      simp at hlonger
    | alreadyPresent =>
      obtain ⟨-, e', he', hid', hsame⟩ := hrec.present ha
      obtain rfl : e = e' := List.inj_on_of_nodup_map hnodup he he' (hid.trans hid'.symm)
      exact hother hsame
  · rw [hdisk, hstores.1]
    exact (hrec.holds.lines_eq).trans hj.lines_eq.symm
  · exact collides_of_ends hhex hends hj hstores.2 hes hnodup hk he hid hother hgoes hscan

/-- What is said of the process's memory `k` after a call that answered, with the files of `work`. -/
def AnsweredMemory (serde : Serde) (sha256 : Bytes → String) (work : Work)
    (k : Option CachedIndex) (es : List Envelope) : Prop :=
  ∀ i ∈ k, (∀ r, rescan serde sha256 work = .ok r → r = i) ∧
    ((∀ e ∈ es, Recordable serde e) → work.appended.length + work.active.length ≤ u64Max →
      rescan serde sha256 work = .ok i)

variable {E : Envelope → Prop} (hreturns : ∀ e, E e → serde.Returns e)
  (hdigest : ∀ e e', E e → E e' → semanticFingerprint serde sha256 e =
    semanticFingerprint serde sha256 e' → e.semantic = e'.semantic)

/-- Every event the run acknowledged is among `es`, with the content it was acknowledged with. -/
def Acknowledged (serde : Serde) (sha256 : Bytes → String) (tr : List (Writer × WriterStep))
    (es : List Envelope) : Prop :=
  ∀ x ∈ tr, ∀ outbox event faults answer, x.2 = .append outbox event faults →
    (x.1.call serde sha256 outbox event faults).1 = .ok answer →
    ∃ e ∈ es, e.eventId = event.eventId ∧ e.semantic = event.semantic

/-- Every call of the run is about an event of `E`. -/
def About (E : Envelope → Prop) (tr : List (Writer × WriterStep)) : Prop :=
  ∀ x ∈ tr, ∀ outbox event faults, x.2 = .append outbox event faults → E event

include hhex hreturns hdigest in
/-- What a run has written and acknowledged so far. -/
theorem recounts_of_run {tr : List (Writer × WriterStep)} {w : Writer}
    (h : Run (Writer.next serde sha256) {} tr w) : About E tr →
    ∃ es, w.Recounts serde sha256 es ∧ (∀ e ∈ es, E e) ∧ Acknowledged serde sha256 tr es := by
  refine h.invariant (I := fun tr w => About E tr →
    ∃ es, w.Recounts serde sha256 es ∧ (∀ e ∈ es, E e) ∧ Acknowledged serde sha256 tr es) ?_ ?_
  · intro _
    refine ⟨[], ⟨⟨{}, ⟨rfl, ⟨by decide, by decide, by simp⟩⟩, rfl⟩, by simp, List.nodup_nil, ?_⟩, by simp,
      by simp [Acknowledged]⟩
    intro i hi
    cases hi
  rintro tr w step w' - ih hn hE
  obtain ⟨es, hw, hknown, hacked⟩ := ih fun x hx => hE x (List.mem_append_left _ hx)
  cases step with
  | forget =>
    obtain rfl := Option.some.inj hn
    refine ⟨es, ⟨hw.stored, hw.returns, hw.nodup, fun i hi => by cases hi⟩, hknown, ?_⟩
    intro x hx outbox event faults answer hstep
    rcases List.mem_append.1 hx with hx | hx
    · exact hacked x hx outbox event faults answer hstep
    · obtain rfl := List.mem_singleton.1 hx
      cases hstep
  | append outbox event faults =>
    have hevent : E event := hE _ (List.mem_append_right _ List.mem_cons_self) _ _ _ rfl
    obtain ⟨t, es', hdisk, ht, hrec, hnext⟩ := call_recounts hhex hw outbox (hreturns event hevent) faults
    obtain rfl := Option.some.inj hn
    refine ⟨es', hnext, hrec.all hknown hevent, ?_⟩
    · intro x hx outbox' event' faults' answer hstep hanswer
      rcases List.mem_append.1 hx with hx | hx
      · obtain ⟨e, he, hsame⟩ := hacked x hx outbox' event' faults' answer hstep hanswer
        exact ⟨e, hrec.keeps e he, hsame⟩
      · obtain rfl := List.mem_singleton.1 hx
        cases hstep
        cases answer with
        | appended =>
          refine ⟨event, ?_, rfl, rfl⟩
          rw [hrec.appended hanswer]
          exact List.mem_append_right _ List.mem_cons_self
        | alreadyPresent =>
          obtain ⟨-, e, he, hid, hsame⟩ := hrec.present hanswer
          exact ⟨e, hrec.keeps e he, hid, hdigest e event (hknown e he) hevent hsame⟩

include hhex hreturns hdigest in
/-- **Exactly once.** Over any run of the writer, with torn writes, restarts, evictions and
rotations, the stream tells each event id once, and each id that was ever acknowledged with the
content it was acknowledged with. An id with other content is refused and changes nothing. The
memory is always the index of a part of the history, and after an answer it is what a scan from
nothing finds. -/
theorem appended_once {tr : List (Writer × WriterStep)} {w : Writer}
    (h : Run (Writer.next serde sha256) {} tr w) (hE : About E tr) :
    ∃ es : List Envelope, w.work.appended = written serde es ∧ (es.map Envelope.eventId).Nodup ∧
      (∃ torn, newline ∉ torn ∧ ((written serde es ++ torn).length ≤ u64Max →
        eventStream sha256 w.work = .ok (written serde es ++ torn))) ∧
      Acknowledged serde sha256 tr es ∧ Remembers serde sha256 w.memory es ∧
      ∀ outbox event faults, E event →
        let (answer, machine) := w.call serde sha256 outbox event faults
        ((∃ e ∈ es, e.eventId = event.eventId ∧ e.semantic ≠ event.semantic) →
          (∀ a, answer ≠ .ok a) ∧ machine.disk.appended = w.work.appended ∧
          (answer ≠ .error .interrupted → ∀ i, rescan serde sha256 (w.recover sha256).2.disk = .ok i →
            answer = .error (.failed (.eventIdCollision event.eventId)))) ∧
        ((∃ a, answer = .ok a) ∨ answer = .error (.failed (.eventIdCollision event.eventId)) →
          ∃ es', machine.disk.appended = written serde es' ∧
            AnsweredMemory serde sha256 machine.disk machine.memory es') := by
  obtain ⟨es, hw, hknown, hacked⟩ := recounts_of_run hhex hreturns hdigest h hE
  obtain ⟨j, hstores, hj⟩ := hw.stored
  have happended : w.work.appended = written serde es := by
    rw [hstores.1]
    exact hj.lines_eq
  refine ⟨es, happended, hw.nodup, ⟨j.front.torn.1, j.front.torn.2, fun hlen => ?_⟩, hacked,
    hw.remembers, fun outbox event faults hevent => ⟨?_, fun hanswered => ?_⟩⟩
  · rw [← hj.lines_eq] at hlen ⊢
    rw [hstores.1]
    exact eventStream_work hhex hstores.2 hlen
  · rintro ⟨e, he, hid, hother⟩
    exact call_collides hhex hw he hid (fun hsame => hother (hdigest e event (hknown e he) hevent hsame))
      outbox (hreturns event hevent) faults
  · obtain ⟨t, es', hdisk, ht, hrec, hnext⟩ :=
      call_recounts hhex hw outbox (hreturns event hevent) faults
    refine ⟨es', ?_, fun i hi => ?_⟩
    · rw [hdisk]
      exact hrec.holds.lines_eq
    · rcases hrec.current hanswered with hnone | hcurrent
      · rw [Option.mem_def, hnone] at hi
        cases hi
      · rw [hdisk]
        obtain ⟨i', hi', hscan⟩ := rescan_current hhex hcurrent ht hnext.returns hnext.nodup
        obtain rfl : i' = i := Option.some.inj (hi'.symm.trans hi)
        exact hscan

/-- A torn write, its replay by the next process, the close behind it with the rotation, and a
replay of what is archived by then: each event is told once. -/
theorem appended_once_replayed :
    let outbox : Outbox := ⟨⟨true, 0⟩, .standard⟩
    let steps : List WriterStep := [.append outbox Sample.published [some (.torn 9)], .forget,
      .append outbox Sample.published [], .append outbox Sample.closed [],
      .append outbox Sample.published []]
    ∃ tr w, tr.map Prod.snd = steps ∧
      Run (Writer.next Sample.endingCodec Sample.endingDigest) {} tr w ∧
      (w.work.appended = written Sample.endingCodec [Sample.published, Sample.closed] ∧
        w.work.archive.length = 1 ∧ w.memory.isSome) ∧
      ∃ es, w.work.appended = written Sample.endingCodec es ∧ (es.map Envelope.eventId).Nodup ∧
        Acknowledged Sample.endingCodec Sample.endingDigest tr es ∧
        Remembers Sample.endingCodec Sample.endingDigest w.memory es := by
  intro outbox steps
  obtain ⟨w, hw, htold⟩ := (Option.any_eq_true _ _).1 (show ((Steps.exec
      (Writer.next Sample.endingCodec Sample.endingDigest) {} steps).any fun w =>
      decide (w.work.appended = written Sample.endingCodec [Sample.published, Sample.closed] ∧
        w.work.archive.length = 1 ∧ w.memory.isSome)) = true by decide +kernel)
  obtain ⟨tr, hrun, hsteps⟩ := exec_run hw
  have hdiffer : semanticFingerprint Sample.endingCodec Sample.endingDigest Sample.published ≠
      semanticFingerprint Sample.endingCodec Sample.endingDigest Sample.closed := by decide +kernel
  have habout : About (fun e => e = Sample.published ∨ e = Sample.closed) tr := by
    intro x hx outbox' event faults hstep
    have hmem : x.2 ∈ steps := hsteps ▸ List.mem_map_of_mem hx
    simp only [steps, hstep, List.mem_cons, WriterStep.append.injEq, List.not_mem_nil, or_false,
      reduceCtorEq, false_or] at hmem
    rcases hmem with h | h | h | h
    exacts [.inl h.2.1, .inl h.2.1, .inr h.2.1, .inl h.2.1]
  obtain ⟨es, happended, hnodup, -, hacked, hmemory, -⟩ := appended_once
    (E := fun e => e = Sample.published ∨ e = Sample.closed) Sample.endingDigest_hex
    (by rintro e (rfl | rfl); exacts [Sample.returns_published, Sample.returns_closed])
    (by
      rintro e e' (rfl | rfl) (rfl | rfl) hsame
      exacts [rfl, absurd hsame hdiffer, absurd hsame.symm hdiffer, rfl])
    hrun habout
  exact ⟨tr, w, hsteps, hrun, of_decide_eq_true htold, es, happended, hnodup, hacked, hmemory⟩

include hhex in
/-- What a scan finds in the journal of one event. -/
theorem rescan_one (hevent : serde.Returns event) (hrecordable : Recordable serde event) :
    ∃ r, rescan serde sha256 ((⟨[], .flowing [recordOf hevent.oneLine] noRecord, none⟩ :
      Journal).work sha256) = .ok r ∧ r.committedLen ≠ 0 := by
  have hholds : Holds serde [recordOf hevent.oneLine] [event] := rfl
  have hscan := fun i => @scanHistory_all serde sha256 [] _ noRecord none [] _ rfl hholds
    (by simpa using hevent) (by simp) i
  have hlen : (lines [recordOf hevent.oneLine]).length = (event.record serde).length + 1 := by
    rw [lines_singleton, List.length_append]
    rfl
  have hshort := hrecordable.short
  refine ⟨.over serde sha256 [] [event], (rescan_flowing hhex ⟨Nat.zero_le _, Nat.zero_le _, by simp⟩).2
    ⟨Nat.zero_le _, ?_, (hscan _).2 ⟨by simpa using hrecordable, rfl⟩⟩, ?_⟩
  · rw [List.length_append, hlen]
    simp only [noRecord, stream, List.flatMap_nil, List.length_nil, u64Max, maxEventLineBytes] at hshort ⊢
    omega
  · have hcommitted : (CachedIndex.over serde sha256 [] [event]).committedLen =
        (event.record serde).length + 1 := by
      rw [← hlen, hholds.lines_eq]
      rfl
    omega

/-- A write that reached the disk and was reported as failed: the process remembers less than a scan
from nothing finds. -/
theorem cached_index_behind :
    let machine := (Writer.call Sample.codec Sample.digest {} ⟨⟨false, 0⟩, .standard⟩ Sample.opened
      [some .unconfirmed]).2
    ∃ i r, machine.memory = some i ∧ rescan Sample.codec Sample.digest machine.disk = .ok r ∧
      i.committedLen ≠ r.committedLen := by
  intro machine
  have hdisk : machine.disk = (⟨[], .flowing [recordOf Sample.returns_opened.oneLine] noRecord, none⟩ :
    Journal).work Sample.digest := by decide +kernel
  have hmemory : machine.memory.map CachedIndex.committedLen = some 0 := by decide +kernel
  obtain ⟨i, hi, hzero⟩ := Option.map_eq_some_iff.1 hmemory
  obtain ⟨r, hr, hmore⟩ := rescan_one Sample.digest_hex Sample.returns_opened
    ⟨Sample.valid_opened, Sample.length_opened ▸ by decide⟩
  exact ⟨i, r, hi, hdisk ▸ hr, hzero ▸ hmore.symm⟩

end Writer

end Orchestrail
