import Orchestrail.Lib.Steps
import Orchestrail.Proof.Transfer
import Orchestrail.Proof.Wire

/-!
# What one append can do

`append_runs` says once how `append_idempotent` may end, whatever the environment does to its
durable steps: which journal it leaves, and which index it remembers. Everything said of a run of
the writer is read off `AppendEnds`.
-/

namespace Orchestrail

open Records Durable Outcome Journal

/-- How the transfer behind an append may end, from active records `rs` behind the chunks `A`. -/
inductive RotateEnds (A : List Chunk) (rs : List Record) (s : Option String) (i : CachedIndex) :
    Except (Halt OutboxError) Unit → Journal → Option CachedIndex → Prop
  /-- there is nothing to transfer, or the transfer is declined -/
  | idle : RotateEnds A rs s i (.ok ()) ⟨A, .flowing rs noRecord, s⟩ (some i)
  | moved (c : Chunk) (s' : Option String) : c.records = rs →
    i.archivedLen + c.bytes.length ≤ u64Max →
    RotateEnds A rs s i (.ok ()) ⟨A ++ [c], .flowing [] noRecord, s'⟩
      (some { i with
        archivedLen := i.archivedLen + c.bytes.length, committedLen := 0, activeIds := ∅ })
  /-- the remembered length and the transferred one do not add up to an address -/
  | miscounted (c : Chunk) (s' : Option String) (e : IoError) : c.records = rs →
    u64Max < i.archivedLen + c.bytes.length →
    RotateEnds A rs s i (.error (.failed (.io e))) ⟨A ++ [c], .flowing [] noRecord, s'⟩ (some i)
  | interrupted (t : Journal) : Kept ⟨A, .flowing rs noRecord, s⟩ t →
    RotateEnds A rs s i (.error .interrupted) t (some i)
  /-- the archive would outgrow its addresses -/
  | refused (e : IoError) : u64Max < (stream A).length + (lines rs).length →
    RotateEnds A rs s i (.error (.failed (.io e))) ⟨A, .flowing rs noRecord, s⟩ (some i)

section Ends

variable (serde : Serde) (sha256 : Bytes → String) (j : Journal) (k : Option CachedIndex)
  (event : Envelope) (record : Record)

/-- How an append of `event` may end, from the journal `j` and the memory `k`. -/
inductive AppendEnds :
    Except (Halt OutboxError) AppendOutcome → Journal → Option CachedIndex → Prop
  /-- stopped while it recovers -/
  | recovering (t : Journal) : Kept j t → AppendEnds (.error .interrupted) t k
  /-- the committed part or the layout cannot be told -/
  | unmeasured {A rs torn s} (e : IoError) : j.recovered = ⟨A, .flowing rs torn, s⟩ →
    (torn.1.length ≤ maxEventLineBytes →
      u64Max < (lines j.recovered.records ++ torn.1).length) →
    AppendEnds (.error (.failed (.io e))) j.recovered k
  /-- the history cannot be scanned -/
  | unscanned {A rs torn s} (e : OutboxError) : j.recovered = ⟨A, .flowing rs torn, s⟩ →
    refreshIndex serde sha256 j.recovered.layout (j.recovered.work sha256) k (lines rs).length =
      .error e →
    AppendEnds (.error (.failed e)) j.recovered none
  /-- the id names other content -/
  | collided {A rs torn s} (i : CachedIndex) (e : OutboxError) :
    j.recovered = ⟨A, .flowing rs torn, s⟩ → torn.1.length ≤ maxEventLineBytes →
    refreshIndex serde sha256 j.recovered.layout (j.recovered.work sha256) k (lines rs).length =
      .ok i → i.knows serde sha256 event = .error e →
    AppendEnds (.error (.failed e)) j.recovered (some i)
  /-- stopped before anything of the event is written -/
  | scanned {A rs torn s} (i : CachedIndex) (b : Bool) (t : Record) :
    j.recovered = ⟨A, .flowing rs torn, s⟩ →
    refreshIndex serde sha256 j.recovered.layout (j.recovered.work sha256) k (lines rs).length =
      .ok i → i.knows serde sha256 event = .ok b → (t = torn ∨ t = noRecord ∨ b = false ∧ t.1 <+: record.1) →
    AppendEnds (.error .interrupted) ⟨A, .flowing rs t, s⟩ (some i)
  /-- the event is there already -/
  | present {A rs torn s} (i : CachedIndex) (r : Except (Halt OutboxError) Unit) (t : Journal)
    (k' : Option CachedIndex) : j.recovered = ⟨A, .flowing rs torn, s⟩ →
    refreshIndex serde sha256 j.recovered.layout (j.recovered.work sha256) k (lines rs).length =
      .ok i → i.knows serde sha256 event = .ok true → RotateEnds A rs s i r t k' →
    AppendEnds (r.map fun _ => .alreadyPresent) t k'
  /-- the event is written, and the caller is told that it is not -/
  | unconfirmed {A rs torn s} (i : CachedIndex) : j.recovered = ⟨A, .flowing rs torn, s⟩ →
    refreshIndex serde sha256 j.recovered.layout (j.recovered.work sha256) k (lines rs).length =
      .ok i → i.knows serde sha256 event = .ok false →
    AppendEnds (.error .interrupted) ⟨A, .flowing (rs ++ [record]) noRecord, s⟩ (some i)
  /-- the length of the active file is no address -/
  | uncounted {A rs torn s} (i : CachedIndex) (e : IoError) :
    j.recovered = ⟨A, .flowing rs torn, s⟩ →
    refreshIndex serde sha256 j.recovered.layout (j.recovered.work sha256) k (lines rs).length =
      .ok i → i.knows serde sha256 event = .ok false →
    i.extend serde sha256 event (record.1 ++ [newline]) = .error e →
    AppendEnds (.error (.failed (.io e))) ⟨A, .flowing (rs ++ [record]) noRecord, s⟩ (some i)
  | written {A rs torn s} (i i' : CachedIndex) (r : Except (Halt OutboxError) Unit) (t : Journal)
    (k' : Option CachedIndex) : j.recovered = ⟨A, .flowing rs torn, s⟩ →
    refreshIndex serde sha256 j.recovered.layout (j.recovered.work sha256) k (lines rs).length =
      .ok i → i.knows serde sha256 event = .ok false →
    i.extend serde sha256 event (record.1 ++ [newline]) = .ok i' →
    RotateEnds A (rs ++ [record]) s i' r t k' →
    AppendEnds (r.map fun _ => .appended) t k'

end Ends

variable {serde : Serde} {sha256 : Bytes → String} {A : List Chunk} {rs : List Record}
  {s : Option String} {event : Envelope} {j : Journal} {k : Option CachedIndex}

/-- Nothing is in flight after recovery. -/
theorem Journal.recovered_flowing (j : Journal) :
    ∃ A rs torn s, j.recovered = ⟨A, .flowing rs torn, s⟩ := by
  obtain ⟨A, f, s⟩ := j
  cases f with
  | flowing rs torn => exact ⟨A, rs, torn, s, rfl⟩
  | copied c | counted c | emptied c => exact ⟨A ++ [c], [], noRecord, _, rfl⟩

theorem Journal.recovered_records (j : Journal) : j.recovered.records = j.records := by
  obtain ⟨A, f, s⟩ := j
  cases f <;> simp [Journal.recovered, finished, Journal.records, Front.records]

theorem Journal.Sound.recovered (h : j.Sound) : j.recovered.Sound := by
  obtain ⟨A, f, s⟩ := j
  obtain ⟨h1, h2, h3⟩ := h
  cases f with
  | flowing => exact ⟨h1, h2, h3⟩
  | counted c | emptied c =>
    exact ⟨by simpa [Front.moving, Journal.recovered, finished] using h1,
      by simpa [Front.moving, Journal.recovered, finished] using h2, h3⟩
  | copied c =>
    refine ⟨by simpa [Front.moving, Journal.recovered] using h1,
      by simpa [Front.moving, Journal.recovered] using h2, fun t ht => ?_⟩
    simp only [Journal.recovered, time] at ht
    split at ht
    · cases ht
    · exact h3 t ht

theorem cutTornTail_runs {torn : Record} {i : CachedIndex}
    {Q : Except (Halt OutboxError) Unit → Journal → Option CachedIndex → Prop}
    (hdone : Q (.ok ()) ⟨A, .flowing rs noRecord, s⟩ (some i))
    (hwhole : Q (.error .interrupted) ⟨A, .flowing rs noRecord, s⟩ (some i))
    (hnone : Q (.error .interrupted) ⟨A, .flowing rs torn, s⟩ (some i)) :
    Runs (work sha256) Tick (cutTornTail (lines rs).length) ⟨A, .flowing rs torn, s⟩ (some i) Q := by
  refine runs_onDisk ?_
  have hact : ((⟨A, .flowing rs torn, s⟩ : Journal).work sha256).active = lines rs ++ torn.1 := rfl
  simp only [hact]
  split
  · rename_i hlen
    have htorn : torn = noRecord := by
      refine Subtype.ext (List.eq_nil_of_length_eq_zero ?_)
      rw [List.length_append] at hlen
      omega
    rw [htorn]
    exact runs_pure hdone
  · refine runs_atomically _ ?_ Tick.repair hdone hwhole hnone
    simp [work, Front.active, Front.moving, counted, Front.pending, metadata, time, records,
      Front.records, noRecord]

theorem writeLine_runs {record : Record} {i : CachedIndex}
    {Q : Except (Halt OutboxError) Unit → Journal → Option CachedIndex → Prop}
    (hdone : Q (.ok ()) ⟨A, .flowing (rs ++ [record]) noRecord, s⟩ (some i))
    (hwhole : Q (.error .interrupted) ⟨A, .flowing (rs ++ [record]) noRecord, s⟩ (some i))
    (hpart : ∀ t : Record, t.1 <+: record.1 →
      Q (.error .interrupted) ⟨A, .flowing rs t, s⟩ (some i)) :
    Runs (work sha256) Tick (writeLine (record.1 ++ [newline])) ⟨A, .flowing rs noRecord, s⟩
      (some i) Q := by
  have hcut : ∀ n, newline ∉ record.1.take n := fun n hm => record.2 (List.mem_of_mem_take hm)
  let part (n : Nat) : Journal :=
    if record.1.length < n then ⟨A, .flowing (rs ++ [record]) noRecord, s⟩
    else ⟨A, .flowing rs ⟨record.1.take n, hcut n⟩, s⟩
  have himage : ∀ n, ¬ record.1.length < n →
      (record.1 ++ [newline]).take n = record.1.take n := fun n hn =>
    List.take_append_of_le_length (by omega)
  refine runs_gradually ⟨A, .flowing (rs ++ [record]) noRecord, s⟩ part ?_ (.write record) ?_ hdone
    hwhole ?_ ?_
  · simp [work, Front.active, Front.moving, counted, Front.pending, metadata, time, records,
      Front.records, noRecord, lines_append, lines_singleton]
  · intro n
    by_cases hn : record.1.length < n
    · have hlen : (record.1 ++ [newline]).length ≤ n := by simp; omega
      simp only [part, if_pos hn, if_pos hlen, List.take_of_length_le hlen]
      refine ⟨?_, .write record⟩
      simp [work, Front.active, Front.moving, counted, Front.pending, metadata, time, records,
        Front.records, noRecord, lines_append, lines_singleton]
    · have hlen : ¬ (record.1 ++ [newline]).length ≤ n := by simp; omega
      simp only [part, if_neg hn, if_neg hlen, himage n hn]
      refine ⟨?_, .tear _⟩
      simp [work, Front.active, Front.moving, counted, Front.pending, metadata, time, records,
        Front.records, noRecord]
  · exact hpart noRecord (List.nil_prefix)
  · intro n
    by_cases hn : record.1.length < n
    · simp only [part, if_pos hn]
      exact hwhole
    · simp only [part, if_neg hn]
      exact hpart _ (List.take_prefix n _)

variable (hhex : ∀ b, Text.isHex 64 (sha256 b) = true)

include hhex in
theorem rotateAfterPublishedClose_runs {outbox : Outbox} {i : CachedIndex}
    (hj : (⟨A, .flowing rs noRecord, s⟩ : Journal).Sound) :
    Runs (work sha256) Tick (outbox.rotateAfterPublishedClose sha256 event i)
      ⟨A, .flowing rs noRecord, s⟩ (some i) (RotateEnds A rs s i) := by
  unfold Outbox.rotateAfterPublishedClose
  split
  · exact runs_pure .idle
  refine runs_bind ((rotate_runs hhex hj).mono fun r t k' h => ?_)
  obtain ⟨hkept, h⟩ := h
  match r with
  | .ok 0 =>
    obtain ⟨rfl, rfl⟩ := h
    exact runs_pure .idle
  | .error .interrupted =>
    obtain rfl := h
    exact .interrupted t hkept
  | .error (.failed e) =>
    obtain ⟨rfl, rfl, ⟨error, rfl⟩, hfull⟩ := h
    exact .refused error hfull
  | .ok (n + 1) =>
    obtain ⟨rfl, hn, c, s', rfl, rfl⟩ := h
    simp only [GoesOn]
    rw [if_neg (Nat.succ_ne_zero n), hn]
    have hself : (lines c.records).length = c.bytes.length := rfl
    by_cases hsum : i.archivedLen + c.bytes.length ≤ u64Max
    · refine runs_bind (ofIo_ok (if_pos hsum) ?_)
      exact runs_remember (k := some i) (f := fun _ => pure ()) (runs_pure (.moved c s' rfl hsum))
    · refine runs_bind ?_
      rw [checkedAdd, hself, if_neg hsum]
      exact runs_refuse (.miscounted c s' _ rfl (by omega))

/-- The end of one branch of an append, with its answer. -/
theorem runs_answer {prog : Disk (Option CachedIndex) Unit} {answer : AppendOutcome} {i : CachedIndex}
    {R : Except (Halt OutboxError) Unit → Journal → Option CachedIndex → Prop}
    {Q : Except (Halt OutboxError) AppendOutcome → Journal → Option CachedIndex → Prop}
    (h : Runs (work sha256) Tick prog j (some i) R)
    (hQ : ∀ r t k', R r t k' → Q (r.map fun _ => answer) t k') :
    Runs (work sha256) Tick (do prog; pure answer) j (some i) Q := by
  refine runs_bind (h.mono fun r t k' hr => ?_)
  match r with
  | .ok () => exact runs_pure (hQ _ _ _ hr)
  | .error e => exact hQ _ _ _ hr

include hhex in
/-- **What one append can do.** -/
theorem append_runs {outbox : Outbox} {record : Record} (hj : j.Sound)
    (hrecord : event.record serde = record.1) :
    Runs (work sha256) Tick (outbox.appendIdempotent serde sha256 event) j k
      (AppendEnds serde sha256 j k event record) := by
  refine runs_after (.refl hj) (recover_runs hhex hj) ?_ fun t h => .recovering t h
  rintro - t - rfl
  obtain ⟨A, rs, torn, s, hrec⟩ := j.recovered_flowing
  have hsound := hj.recovered
  have hact : (j.recovered.work sha256).active = lines rs ++ torn.1 := by rw [hrec]; rfl
  have hflat : lines j.recovered.records ++ torn.1 = stream j.recovered.counted ++ j.recovered.live := by
    rw [stream_live, hrec]
    rfl
  refine runs_onDisk (runs_bind ?_)
  simp only [hact]
  by_cases htorn : torn.1.length ≤ maxEventLineBytes
  swap
  · obtain ⟨e, he⟩ := committedPrefixLen_long rs torn (by omega)
    rw [he]
    exact runs_refuse (.unmeasured e hrec fun h => absurd h htorn)
  refine ofIo_ok (committedPrefixLen_lines rs torn htorn) (runs_bind ?_)
  have hlayout := eventStreamLayout_work hhex hsound
  rw [← List.length_append, ← hflat] at hlayout
  by_cases hfits : (lines j.recovered.records ++ torn.1).length ≤ u64Max
  swap
  · rw [hlayout, if_neg hfits]
    exact runs_refuse (.unmeasured _ hrec fun _ => by omega)
  rw [if_pos hfits] at hlayout
  refine ofIo_ok hlayout (runs_remembered ?_)
  cases hscan : refreshIndex serde sha256 j.recovered.layout (j.recovered.work sha256) k
      (lines rs).length with
  | error e =>
    exact runs_remember (runs_refuse (.unscanned e hrec hscan))
  | ok i =>
    refine runs_remember (runs_bind (runs_attempt ?_ fun e he => ?_))
    swap
    · exact .collided i e hrec htorn hscan he
    intro b hb
    rw [hrec] at hsound ⊢
    have hquiet := Tick.repair.sound hsound
    refine runs_bind (cutTornTail_runs ?_ ?_ ?_)
    · cases b with
      | true =>
        exact runs_answer (rotateAfterPublishedClose_runs hhex hquiet)
          fun r t k' h => .present i r t k' hrec hscan hb h
      | false =>
        rw [hrecord]
        refine runs_bind (writeLine_runs ?_ (.unconfirmed i hrec hscan hb)
          fun t ht => .scanned i false t hrec hscan hb (.inr (.inr ⟨rfl, ht⟩)))
        refine runs_bind ?_
        cases hext : i.extend serde sha256 event (record.1 ++ [newline]) with
        | error e => exact runs_refuse (.uncounted i e hrec hscan hb hext)
        | ok i' =>
          refine runs_pure (runs_remember ?_)
          exact runs_answer (rotateAfterPublishedClose_runs hhex ((Tick.write record).sound hquiet))
            fun r t k' h => .written i i' r t k' hrec hscan hb hext h
    · exact .scanned i b noRecord hrec hscan hb (.inr (.inl rfl))
    · exact .scanned i b torn hrec hscan hb (.inl rfl)

/-! ## The writer over whole runs -/

/-- What an append that ended so did to the sequence. -/
theorem RotateEnds.records {r : Except (Halt OutboxError) Unit} {t : Journal} {i : CachedIndex}
    {k' : Option CachedIndex} (h : RotateEnds A rs s i r t k') :
    t.records = A.flatMap Chunk.records ++ rs ∧ t.front.torn = noRecord := by
  cases h with
  | idle | refused => exact ⟨rfl, rfl⟩
  | moved c s' hc | miscounted c s' e hc =>
    subst hc
    exact ⟨by simp [Journal.records, Front.records], rfl⟩
  | interrupted t hkept => exact ⟨hkept.records, hkept.torn⟩

/-- **What a call does to the sequence**: a call that answers `Appended` adds its record, one that
answers `AlreadyPresent` adds nothing, and any other adds its record or nothing. -/
theorem AppendEnds.records {record : Record} {r : Except (Halt OutboxError) AppendOutcome}
    {t : Journal} {k' : Option CachedIndex} (h : AppendEnds serde sha256 j k event record r t k') :
    (r = .ok .appended ∧ t.records = j.records ++ [record]) ∨
      (r = .ok .alreadyPresent ∧ t.records = j.records) ∨
      ((∃ e, r = .error e) ∧ (t.records = j.records ∨ t.records = j.records ++ [record])) := by
  have hrec : ∀ {A rs torn s}, j.recovered = ⟨A, .flowing rs torn, s⟩ →
      A.flatMap Chunk.records ++ rs = j.records := by
    intro A rs torn s he
    rw [← recovered_records, he]
    rfl
  cases h with
  | recovering t hkept => exact .inr (.inr ⟨⟨_, rfl⟩, .inl hkept.records⟩)
  | unmeasured e he | unscanned e he | collided i e he =>
    refine .inr (.inr ⟨⟨_, rfl⟩, .inl ?_⟩)
    rw [he, ← hrec he]
    rfl
  | scanned i b t he => exact .inr (.inr ⟨⟨_, rfl⟩, .inl (hrec he)⟩)
  | present i r t k' he _ _ hrot =>
    have hsame := hrot.records.1.trans (hrec he)
    cases r with
    | ok => exact .inr (.inl ⟨rfl, hsame⟩)
    | error e => exact .inr (.inr ⟨⟨e, rfl⟩, .inl hsame⟩)
  | unconfirmed i he | uncounted i e he =>
    refine .inr (.inr ⟨⟨_, rfl⟩, .inr ?_⟩)
    rw [← hrec he, List.append_assoc]
    rfl
  | written i i' r t k' he _ _ _ hrot =>
    have hmore : t.records = j.records ++ [record] := by
      rw [hrot.records.1, ← hrec he, List.append_assoc]
    cases r with
    | ok => exact .inl ⟨rfl, hmore⟩
    | error e => exact .inr (.inr ⟨⟨e, rfl⟩, .inr hmore⟩)

namespace Writer

open Steps

/-- A writer whose directory is that of a readable journal. -/
def Stores (sha256 : Bytes → String) (w : Writer) (j : Journal) : Prop :=
  w.work = j.work sha256 ∧ j.Sound

/-- The record of an event, if its line has no newline in it. -/
def recordOf (hline : newline ∉ event.record serde) : Record := ⟨event.record serde, hline⟩

include hhex in
/-- A call on a stored journal ends as an append may end, and stores a journal again. -/
theorem call_ends {w : Writer} {j : Journal} (h : w.Stores sha256 j) (outbox : Outbox)
    (hline : newline ∉ event.record serde) (faults : List (Option Fault)) :
    ∃ t, (w.call serde sha256 outbox event faults).2.disk = t.work sha256 ∧ t.Sound ∧
      AppendEnds serde sha256 j w.memory event (recordOf hline)
        (w.call serde sha256 outbox event faults).1 t
        (w.call serde sha256 outbox event faults).2.memory := by
  obtain ⟨hwork, hsound⟩ := h
  have hruns : Runs (Journal.work sha256) Tick (outbox.appendIdempotent serde sha256 event) j w.memory
      (AppendEnds serde sha256 j w.memory event (recordOf hline)) := append_runs hhex hsound rfl
  obtain ⟨⟨passed, t, -, hlinked, hdisk, hpost⟩, -⟩ := hruns faults []
  rw [← hwork] at hdisk hpost
  exact ⟨t, hdisk, (hlinked.invariant hsound fun a b ha hab => hab.sound ha).2, hpost⟩

variable (hline : ∀ v, newline ∉ Text.utf8 (serde.render v))

include hhex hline in
theorem stores_of_reach {w : Writer}
    (h : Reach (Writer.next serde sha256) (fun _ _ => True) {} w) : ∃ j, w.Stores sha256 j := by
  refine h.invariant (I := fun w => ∃ j, w.Stores sha256 j) ?_ ?_
  · exact ⟨{}, rfl, ⟨by decide, by decide, by simp⟩⟩
  rintro w step w' ⟨j, hj⟩ - hn
  cases step with
  | forget =>
    obtain rfl := Option.some.inj hn
    exact ⟨j, hj⟩
  | append outbox event faults =>
    obtain rfl := Option.some.inj hn
    obtain ⟨t, hdisk, ht, -⟩ := call_ends hhex hj outbox (hline event.toJson) faults
    exact ⟨t, hdisk, ht⟩

include hhex hline in
/-- **The logical stream survives.** In every state a run of the writer can reach, with any faults
at any durable step of an append, of a rotation or of a recovery, the stream is the history of the
appends with at most a torn tail behind it, and the recovery of the next call succeeds. The history
is what the calls wrote: their line, exactly once when they answer `Appended` and never when they
answer `AlreadyPresent`. -/
theorem stream_survives {w : Writer}
    (h : Reach (Writer.next serde sha256) (fun _ _ => True) {} w) :
    (∃ torn, newline ∉ torn ∧ ((w.work.appended ++ torn).length ≤ u64Max →
      eventStream sha256 w.work = .ok (w.work.appended ++ torn))) ∧
    (w.recover sha256).1 = .ok () ∧
    ∀ outbox event faults,
      let (answer, machine) := w.call serde sha256 outbox event faults
      let line := event.record serde ++ [newline]
      (answer = .ok .appended ∧ machine.disk.appended = w.work.appended ++ line) ∨
        (answer = .ok .alreadyPresent ∧ machine.disk.appended = w.work.appended) ∨
        (∃ e, answer = .error e) ∧ (machine.disk.appended = w.work.appended ∨
          machine.disk.appended = w.work.appended ++ line) := by
  obtain ⟨j, hwork, hsound⟩ := stores_of_reach hhex hline h
  refine ⟨⟨j.front.torn.1, j.front.torn.2, fun hlen => ?_⟩, ?_, fun outbox event faults => ?_⟩
  · rw [hwork] at hlen ⊢
    exact eventStream_work hhex hsound hlen
  · obtain ⟨hne, t, -, hpost⟩ := (recover_runs hhex (k := w.memory) hsound).unhindered
    rw [← hwork] at hne hpost
    change (w.recover sha256).1 ≠ _ at hne
    match hr : (w.recover sha256).1 with
    | .ok () => rfl
    | .error .interrupted => exact absurd hr hne
    | .error (.failed e) =>
      change Transfers j w.memory _ (w.recover sha256).1 t _ at hpost
      rw [hr] at hpost
      exact hpost.elim
  · obtain ⟨t, hdisk, -, hends⟩ := call_ends hhex ⟨hwork, hsound⟩ outbox (hline event.toJson) faults
    have hbefore : w.work.appended = lines j.records := by rw [hwork]; rfl
    have hafter : (w.call serde sha256 outbox event faults).2.disk.appended = lines t.records := by
      rw [hdisk]; rfl
    have hmore : lines (j.records ++ [recordOf (hline event.toJson)]) =
        lines j.records ++ (event.record serde ++ [newline]) := by
      rw [lines_append, lines_singleton]
      rfl
    simp only [hbefore, hafter, ← hmore]
    rcases hends.records with ⟨hr, ht⟩ | ⟨hr, ht⟩ | ⟨hr, ht⟩
    · exact .inl ⟨hr, congrArg lines ht⟩
    · exact .inr (.inl ⟨hr, congrArg lines ht⟩)
    · exact .inr (.inr ⟨hr, ht.imp (congrArg lines) (congrArg lines)⟩)

/-- A transfer cut twice: the close of a published cohort is written, its segment is copied and the
index is not; a later process counts the segment and is cut before it drops the prefix. Both records
are in the archive and in the active file, and what is said of the stream is said of this state. -/
theorem stream_survives_cut :
    let outbox : Outbox := ⟨⟨true, 0⟩, .standard⟩
    ∃ w, Steps.exec (Writer.next Sample.endingCodec Sample.endingDigest) {}
        [.append outbox Sample.published [], .append outbox Sample.closed [none, none, some .refused],
          .forget, .append outbox Sample.closed [none, some .refused]] = some w ∧
      (w.work.archive.map ArchiveFile.segment = [⟨1, 0, 385, 385⟩] ∧
        w.work.index.map RotationMetadata.activePrefixBytes = some 385 ∧
        w.work.active = w.work.appended ∧ w.work.appended.length = 385) ∧
      (∃ torn, newline ∉ torn ∧ ((w.work.appended ++ torn).length ≤ u64Max →
        eventStream Sample.endingDigest w.work = .ok (w.work.appended ++ torn))) ∧
      (w.recover Sample.endingDigest).1 = .ok () := by
  intro outbox
  obtain ⟨w, hw, hcut⟩ := (Option.any_eq_true _ _).1 (show ((Steps.exec
      (Writer.next Sample.endingCodec Sample.endingDigest) {}
        [.append outbox Sample.published [], .append outbox Sample.closed [none, none, some .refused],
          .forget, .append outbox Sample.closed [none, some .refused]]).any fun w =>
      decide (w.work.archive.map ArchiveFile.segment = [⟨1, 0, 385, 385⟩] ∧
        w.work.index.map RotationMetadata.activePrefixBytes = some 385 ∧
        w.work.active = w.work.appended ∧ w.work.appended.length = 385)) = true by decide +kernel)
  obtain ⟨hstream, hrecover, -⟩ := stream_survives Sample.endingDigest_hex Sample.endingCodec_oneLine
    (exec_reach hw)
  exact ⟨w, hw, of_decide_eq_true hcut, hstream, hrecover⟩

end Writer

end Orchestrail
