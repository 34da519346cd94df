import Mathlib.Data.List.Perm.Subperm
import Mathlib.Data.List.Sort
import Orchestrail.Proof.Lease
import Orchestrail.Spec.QueueInbox

/-!
# A drain commits exactly once

At rest the marker says which of three states the control plane is in: no transaction, one whose
queue is still as it was, or one whose queue is committed (`Rest`). Every step of a drain keeps what
its point knows of this (`Knows`), and recovery leads from any of the three to a listing without a
transaction (`recovers`). Each record that ever arrived is in the inbox or in the log, once
(`InboxKept.account`), and the log's blocks are those of the queue.

The marker is created before its bytes are written: a crash in between leaves a marker that no
drain can read, `drain_exactly_once_broken`.
-/

namespace Orchestrail

open Text Outcome Steps

/-! ## Sources by name -/

section Names

variable {α : Type} {l c : List (String × α)}

theorem lookup_of_mem {name : String} {a : α} (hl : (l.map Prod.fst).Nodup) (h : (name, a) ∈ l) :
    l.lookup name = some a := by
  induction l with
  | nil => cases h
  | cons x xs ih =>
    simp only [List.map_cons, List.nodup_cons] at hl
    rcases List.mem_cons.1 h with rfl | h
    · exact List.lookup_cons_self
    · have hne : name ≠ x.1 := by
        rintro rfl
        exact hl.1 (List.mem_map.2 ⟨(x.1, a), h, rfl⟩)
      rw [List.lookup_cons, beq_false_of_ne hne]
      exact ih hl.2 h

theorem mem_of_lookup {name : String} {a : α} (h : l.lookup name = some a) : (name, a) ∈ l := by
  induction l with
  | nil => cases h
  | cons x xs ih =>
    rw [List.lookup_cons] at h
    by_cases hx : name = x.1
    · subst hx
      rw [beq_self_eq_true] at h
      obtain rfl := Option.some.inj h
      exact List.mem_cons_self
    · rw [beq_false_of_ne hx] at h
      exact List.mem_cons_of_mem _ (ih h)

theorem eq_of_name (hl : (l.map Prod.fst).Nodup) {x y : String × α} (hx : x ∈ l) (hy : y ∈ l)
    (h : x.1 = y.1) : x = y :=
  List.inj_on_of_nodup_map hl hx hy h

/-- What is taken out by name, and what is left. -/
theorem perm_without (hl : (l.map Prod.fst).Nodup) (hc : (c.map Prod.fst).Nodup)
    (hsub : ∀ x ∈ c, x ∈ l) :
    (l.filter fun x => decide (x.1 ∉ c.map Prod.fst)) ++ c |>.Perm l := by
  have htaken : (l.filter fun x => !decide (x.1 ∉ c.map Prod.fst)).Perm c := by
    refine (List.perm_ext_iff_of_nodup (hl.of_map.filter _) hc.of_map).2 fun x => ?_
    simp only [List.mem_filter, decide_not, Bool.not_not, decide_eq_true_eq, List.mem_map]
    constructor
    · rintro ⟨hx, y, hy, hname⟩
      rwa [← eq_of_name hl (hsub y hy) hx hname]
    · exact fun hx => ⟨hsub x hx, x, hx, rfl⟩
  exact (htaken.symm.append_left _).trans (List.filter_append_perm _ l)

end Names

/-! ## Documents that are read back -/

/-- What the drain relies on in the JSON library: its own documents are read back, and the one of
the generation is short. -/
structure DrainSerde (serde : Serde) : Prop where
  transaction : ∀ tx : DrainTransaction, (tx.consumed.map Prod.fst).Nodup →
    serde.read (serde.render tx.toJson) = .ok tx.toJson
  generation : ∀ n ≤ u64Max, serde.read (generationPayload serde n) =
    .ok (.object [("generation", .integer n)])
  short : ∀ n ≤ u64Max, (utf8 (generationPayload serde n)).length ≤ 4096

section Documents

variable {serde : Serde} {sha256 : Bytes → String}

theorem mapM_source (sources : List (String × String)) :
    (sources.map fun s => (s.1, Json.text s.2)).mapM DrainTransaction.source = .ok sources := by
  induction sources with
  | nil => rfl
  | cons s sources ih =>
    rw [List.map_cons, List.mapM_cons, ih]
    rfl

theorem transaction_roundtrip (tx : DrainTransaction) :
    DrainTransaction.fromJson tx.toJson = .ok tx := by
  obtain ⟨before, after, state, stateAfter, consumed⟩ := tx
  have hsources := mapM_source consumed
  cases state <;>
    simp [DrainTransaction.fromJson, DrainTransaction.toJson, LeaseRecord.textField,
      LeaseRecord.optionalField, LeaseRecord.optionalText, List.lookup_cons, hsources, bind, Except.bind]

theorem generationField_payload (h : DrainSerde serde) {n : Nat} (hn : n ≤ u64Max) :
    generationField serde (generationPayload serde n) = .ok n := by
  have hlookup : List.lookup "generation" [("generation", Json.integer n)] = some (.integer n) := by
    exact List.lookup_cons_self
  have hfield : LeaseRecord.numberField u64Max [("generation", .integer n)] "generation" =
      .ok n := by
    unfold LeaseRecord.numberField
    rw [hlookup]
    have hrange : (0 : Int) ≤ n ∧ (n : Int) ≤ u64Max := by omega
    simp only [if_pos hrange, Int.toNat_natCast]
  unfold generationField
  rw [h.generation n hn]
  exact hfield

theorem readText_utf8 {max : Nat} {text : String} (h : (utf8 text).length ≤ max) :
    readText max (utf8 text) = .ok text := by
  unfold readText
  rw [if_neg (by omega), fromUtf8_utf8]

theorem readText_eq {max : Nat} {bytes : Bytes} {text : String}
    (h : readText max bytes = .ok text) : bytes.length ≤ max ∧ fromUtf8 bytes = some text := by
  unfold readText at h
  split at h
  · cases h
  · split at h
    · rename_i heq
      exact ⟨by omega, by rw [heq, Except.ok.inj h]⟩
    · cases h

theorem utf8_fromUtf8 {bytes : Bytes} {text : String} (h : fromUtf8 bytes = some text) :
    utf8 text = bytes := by
  unfold fromUtf8 String.fromUTF8? at h
  split at h
  · obtain rfl := Option.some.inj h
    simp [utf8, String.fromUTF8]
  · cases h

theorem readGeneration_payload (h : DrainSerde serde) {n : Nat} (hn : n ≤ u64Max) :
    readGeneration serde (some (utf8 (generationPayload serde n))) = .ok n := by
  have hbound : (utf8 (generationPayload serde n)).length ≤ maxControlBytes :=
    (h.short n hn).trans (by decide)
  simp only [readGeneration, readText_utf8 hbound, generationField_payload h hn, bind, Except.bind]

end Documents

/-! ## What is known at each point -/

/-- The queue with some blocks more. -/
def queueAfter (queue : Option Bytes) (blocks : List String) : Option Bytes :=
  some (utf8 (appendBlocks ((queue.bind fromUtf8).getD "") blocks))

section Knowledge

variable (serde : Serde) (sha256 : Bytes → String)

namespace Inbox

/-- The generation after `count` insertions. -/
def Advanced (first : Inbox) (state : Option Bytes) (count : Nat) : Prop :=
  readGeneration serde state = (readGeneration serde first.state).map (· + count)

def inserted (d : Inbox) : Nat := d.batches.flatten.length

/-- Nothing is under way, up to the marker. -/
structure Quiet (first d : Inbox) : Prop where
  pending : d.pending = []
  advanced : Advanced serde first d.state d.inserted

structure Clean (first d : Inbox) : Prop extends Quiet serde first d where
  marker : d.marker = none

/-- A transaction whose queue is not committed. -/
structure Begun (first d : Inbox) (tx : DrainTransaction) : Prop extends Quiet serde first d where
  marker : d.marker = some (markerPayload serde tx)
  reads : readMarker serde (markerPayload serde tx) = .ok tx
  before : sha256 (d.queue.getD []) = tx.queueBeforeHash
  stateBefore : d.state.map sha256 = tx.queueStateBeforeHash

/-- What a transaction must be to be told from the state before it, and carried out. -/
structure Sealed (tx : DrainTransaction) : Prop where
  plain : ∀ source ∈ tx.consumed, isPlainInboxName source.1 = true
  queue : tx.queueBeforeHash ≠ tx.queueAfterHash
  state : tx.queueStateBeforeHash ≠ some (sha256 (utf8 tx.queueStateAfter))

/-- A transaction whose queue is committed. -/
structure Committed (first d : Inbox) (tx : DrainTransaction) : Prop where
  isSealed : Sealed sha256 tx
  marker : d.marker = some (markerPayload serde tx)
  reads : readMarker serde (markerPayload serde tx) = .ok tx
  pending : d.pending = tx.consumed.map Prod.fst
  after : sha256 (d.queue.getD []) = tx.queueAfterHash
  advanced : Advanced serde first (some (utf8 tx.queueStateAfter)) d.inserted
  /-- a source that is still there is what was read -/
  source : ∀ record ∈ d.records, ∀ hash, (record.1, hash) ∈ tx.consumed →
    (∃ text, readText maxRecordBytes record.2 = .ok text) ∧ sha256 record.2 = hash

def Stale (d : Inbox) (tx : DrainTransaction) : Prop := d.state.map sha256 = tx.queueStateBeforeHash

def Restated (d : Inbox) (tx : DrainTransaction) : Prop := d.state = some (utf8 tx.queueStateAfter)

/-- What a crash may leave. -/
def Rest (first d : Inbox) : Prop :=
  Clean serde first d ∨ (∃ tx, Begun serde sha256 first d tx) ∨
    ∃ tx, Committed serde sha256 first d tx ∧ (Stale sha256 d tx ∨ Restated d tx)

/-- These records are in the inbox and belong to no transaction. -/
structure Held (d : Inbox) (judged : List Judged) : Prop where
  mem : ∀ j ∈ judged, j.1 ∈ d.records ∧ j.1.1 ∉ d.pending
  names : (judged.map fun j => j.1.1).Nodup

/-- The log ends with these. -/
def Logged (d : Inbox) (judged : List Judged) : Prop := ∃ earlier, d.log = earlier ++ judged

def Readable (judged : List Judged) : Prop :=
  ∀ j ∈ judged, ∃ text, readText maxRecordBytes j.1.2 = .ok text

/-- A transaction that is computed and not begun. -/
structure Intends (first d : Inbox) (tx : DrainTransaction) (updated : String)
    (judged : List Judged) : Prop where
  held : Held d judged
  readable : Readable (consumeOf judged)
  consumed : tx.consumed = sourcesOf sha256 judged
  queue : some (utf8 updated) = queueAfter d.queue (blocksOf judged)
  before : sha256 (d.queue.getD []) = tx.queueBeforeHash
  after : sha256 (utf8 updated) = tx.queueAfterHash
  stateBefore : d.state.map sha256 = tx.queueStateBeforeHash
  advanced : Advanced serde first (some (utf8 tx.queueStateAfter))
    (d.inserted + (blocksOf judged).length)
  reads : (∀ source ∈ tx.consumed, isPlainInboxName source.1 = true) →
    readMarker serde (markerPayload serde tx) = .ok tx

/-- A fresh drain has logged what it consumes, and holds what it rejects. -/
def Fresh (d : Inbox) (fresh : Option (List Judged)) : Prop :=
  ∀ judged, fresh = some judged → Logged d (consumeOf judged) ∧ Held d (quarantineOf judged)

def Knows (first d : Inbox) : DrainPoint → Prop
  | .idle | .recovering => Rest serde sha256 first d
  | .dropping => ∃ tx, Begun serde sha256 first d tx
  | .restating tx => Committed serde sha256 first d tx ∧ Stale sha256 d tx
  | .consuming rest fresh => ∃ tx, Committed serde sha256 first d tx ∧ Restated d tx ∧
      (∀ source ∈ rest, source ∈ tx.consumed) ∧
      (∀ record ∈ d.records, record.1 ∈ d.pending → record.1 ∈ rest.map Prod.fst) ∧ Fresh d fresh
  | .unmarking fresh => ∃ tx, Committed serde sha256 first d tx ∧ Restated d tx ∧
      (∀ record ∈ d.records, record.1 ∉ d.pending) ∧ Fresh d fresh
  | .listing => Clean serde first d
  | .marking tx updated judged => Clean serde first d ∧
      Intends serde sha256 first d tx updated judged
  | .writing tx updated judged => Quiet serde first d ∧ Sealed sha256 tx ∧
      Intends serde sha256 first d tx updated judged
  | .queueing tx updated judged => Begun serde sha256 first d tx ∧ Sealed sha256 tx ∧
      Intends serde sha256 first d tx updated judged
  | .stating tx judged => Committed serde sha256 first d tx ∧ Stale sha256 d tx ∧
      Fresh d (some judged)
  | .skipping rest judged => Clean serde first d ∧ Held d (rest ++ quarantineOf judged) ∧
      Readable rest ∧ blocksOf judged = [] ∧ (∀ j ∈ rest, j ∈ judged) ∧
      ∃ done, consumeOf judged = done ++ rest ∧ Logged d done
  | .quarantining rest judged => Clean serde first d ∧ Held d rest ∧
      (∀ j ∈ rest, j.2.isRejected = true) ∧
      ∃ done, quarantineOf judged = done ++ rest ∧ Logged d (consumeOf judged ++ done)

/-- The account of every record, of the queue and of the quarantine. -/
structure Accounted (first d : Inbox) : Prop where
  names : (d.records.map Prod.fst).Nodup
  account : d.arrived.Perm
    ((d.records.filter fun record => decide (record.1 ∉ d.pending)) ++ d.log.map Prod.fst)
  blocks : d.batches.flatten = d.log.filterMap (·.2.block)
  queue : d.queue = d.batches.foldl queueAfter first.queue
  rejected : d.rejected = first.rejected ++ (d.log.filter (·.2.isRejected)).map Prod.fst

end Inbox

end Knowledge

/-! ## What a drain plans -/

section Planning

variable {serde : Serde} {sha256 : Bytes → String} {c : Classifier} {first d : Inbox}

theorem classify_records (known : c.Known) (records : List InboxRecord) :
    (classify c known records).map Prod.fst = records := by
  induction records generalizing known with
  | nil => rfl
  | cons record records ih => simp only [classify, List.map_cons, ih]

theorem readRecord_readable (known : c.Known) (bytes : Bytes)
    (h : (!(readRecord c known bytes).1.isRejected) = true) :
    ∃ text, readText maxRecordBytes bytes = .ok text := by
  unfold readRecord at h
  split at h
  · cases h
  · split at h
    · rename_i hsize _ text htext
      refine ⟨text, ?_⟩
      unfold readText
      rw [if_neg hsize, htext]
    · cases h

/-- What is not rejected could be read. -/
theorem classify_readable (known : c.Known) (records : List InboxRecord) :
    Inbox.Readable (consumeOf (classify c known records)) := by
  induction records generalizing known with
  | nil =>
    intro j hj
    cases hj
  | cons record records ih =>
    intro j hj
    obtain ⟨hmem, hkept⟩ := List.mem_filter.1 hj
    rw [classify] at hmem
    rcases List.mem_cons.1 hmem with rfl | hrest
    · exact readRecord_readable known record.2 hkept
    · exact ih _ j (List.mem_filter.2 ⟨hrest, hkept⟩)

theorem original_eq {original : String} (h : d.original = .ok original) :
    (d.queue.bind fromUtf8).getD "" = original ∧ utf8 original = d.queue.getD [] := by
  unfold Inbox.original at h
  cases hq : d.queue with
  | none =>
    rw [hq] at h
    obtain rfl := Except.ok.inj h
    exact ⟨rfl, rfl⟩
  | some bytes =>
    rw [hq] at h
    obtain ⟨-, htext⟩ := readText_eq h
    exact ⟨by simp [htext], utf8_fromUtf8 htext⟩

/-- The state a commit writes stands for a generation that is as much further. -/
theorem nextQueueGenerationUpdate_advanced (hserde : DrainSerde serde) {state : Option Bytes}
    {count delta : Nat} {text : String} (hstate : Inbox.Advanced serde first state count)
    (h : nextQueueGenerationUpdate serde state delta = .ok text) :
    Inbox.Advanced serde first (some (utf8 text)) (count + delta) ∧
      (utf8 text).length ≤ 4096 ∧ (generationField serde text).toOption.isSome := by
  obtain ⟨generation, hread, h⟩ := bind_eq_ok.1 h
  obtain ⟨_, hfits, h⟩ := bind_eq_ok.1 h
  have hfits := demand_eq_ok.1 hfits
  obtain rfl := Except.ok.inj h
  refine ⟨?_, hserde.short _ hfits, by rw [generationField_payload hserde hfits]; rfl⟩
  unfold Inbox.Advanced at hstate ⊢
  rw [readGeneration_payload hserde hfits]
  rw [hread] at hstate
  cases hfirst : readGeneration serde first.state with
  | error e =>
    rw [hfirst] at hstate
    cases hstate
  | ok start =>
    rw [hfirst] at hstate
    have hsum : generation = start + count := Except.ok.inj hstate
    rw [hsum, Nat.add_assoc]
    rfl

theorem readMarker_payload (hserde : DrainSerde serde) {tx : DrainTransaction}
    (hfits : (markerPayload serde tx).length ≤ maxTransactionBytes)
    (hnames : (tx.consumed.map Prod.fst).Nodup) (hvalid : validateTransaction serde tx = .ok ()) :
    readMarker serde (markerPayload serde tx) = .ok tx := by
  have htext : readText maxTransactionBytes (markerPayload serde tx) =
      .ok (serde.render tx.toJson) := readText_utf8 hfits
  have hjson : (serde.read (serde.render tx.toJson) >>= DrainTransaction.fromJson) = .ok tx := by
    rw [hserde.transaction tx hnames]
    exact transaction_roundtrip tx
  refine bind_eq_ok.2 ⟨(), demand_true hfits, bind_eq_ok.2 ⟨_, htext, ?_⟩⟩
  simp only [hjson]
  exact bind_eq_ok.2 ⟨(), hvalid, rfl⟩

theorem sources_names {judged : List Judged} (h : (judged.map fun j => j.1.1).Nodup) :
    ((sourcesOf sha256 judged).map Prod.fst).Nodup := by
  have hsub : ((consumeOf judged).map fun j => j.1.1).Sublist (judged.map fun j => j.1.1) :=
    List.filter_sublist.map _
  unfold sourcesOf
  rw [List.map_map]
  exact h.sublist hsub

/-- **What a drain plans**: a verdict on every record, and a transaction if a block is to be
added. -/
theorem plan_spec (hserde : DrainSerde serde) (hsha : ∀ bytes, isSha256Hex (sha256 bytes) = true)
    (hclean : Inbox.Clean serde first d) (hnames : (d.records.map Prod.fst).Nodup) {plan : Planned}
    (h : d.plan serde sha256 c = .ok plan) :
    plan.judged.map Prod.fst = d.entries ∧
      (plan.commit = none → blocksOf plan.judged = []) ∧ Inbox.Readable (consumeOf plan.judged) ∧
      ∀ tx updated, plan.commit = some (tx, updated) →
        Inbox.Intends serde sha256 first d tx updated plan.judged := by
  obtain ⟨_, _, h⟩ := bind_eq_ok.1 h
  by_cases hempty : d.entries = []
  · rw [if_pos hempty] at h
    obtain rfl := Except.ok.inj h
    exact ⟨hempty.symm, fun _ => rfl, (by rintro j ⟨⟩), by rintro tx updated ⟨⟩⟩
  rw [if_neg hempty] at h
  obtain ⟨original, horiginal, h⟩ := bind_eq_ok.1 h
  obtain ⟨known, -, h⟩ := bind_eq_ok.1 h
  have hrecords := classify_records (c := c) known d.entries
  have hreadable := classify_readable (c := c) known d.entries
  set judged := classify c known d.entries with hjudged
  by_cases hblocks : blocksOf judged = []
  · rw [if_pos hblocks] at h
    obtain rfl := Except.ok.inj h
    exact ⟨hrecords, fun _ => hblocks, hreadable, by rintro tx updated ⟨⟩⟩
  rw [if_neg hblocks] at h
  obtain ⟨stateAfter, hstate, h⟩ := bind_eq_ok.1 h
  obtain ⟨_, hfits, h⟩ := bind_eq_ok.1 h
  have hfits := demand_eq_ok.1 hfits
  obtain rfl := Except.ok.inj h
  refine ⟨hrecords, by rintro ⟨⟩, hreadable, ?_⟩
  rintro tx updated heq
  obtain ⟨rfl, rfl⟩ := Prod.mk.inj (Option.some.inj heq)
  obtain ⟨htext, hbytes⟩ := original_eq horiginal
  obtain ⟨hadvanced, hshort, hgeneration⟩ :=
    nextQueueGenerationUpdate_advanced hserde hclean.advanced hstate
  have hperm : d.entries.Perm d.records := List.mergeSort_perm _ _
  have hjudgednames : (judged.map fun j => j.1.1).Nodup := by
    have hmap : (judged.map fun j => j.1.1) = d.entries.map Prod.fst := by
      rw [← hrecords, List.map_map]
      rfl
    rw [hmap]
    exact ((hperm.map Prod.fst).nodup_iff).2 hnames
  refine
    { held := ⟨fun j hj => ⟨?_, by rw [hclean.pending]; exact List.not_mem_nil⟩, hjudgednames⟩
      readable := hreadable
      consumed := rfl
      queue := by rw [queueAfter, htext]
      before := by rw [hbytes]
      after := rfl
      stateBefore := rfl
      advanced := hadvanced
      reads := ?_ }
  · have hentry : j.1 ∈ d.entries := by
      rw [← hrecords]
      exact List.mem_map_of_mem hj
    exact hperm.mem_iff.1 hentry
  · intro hplain
    refine readMarker_payload hserde hfits (sources_names hjudgednames) (demand_true ?_)
    refine ⟨hsha _, hsha _, ?_, hshort, hgeneration, ?_⟩
    · intro hash hhash
      obtain ⟨bytes, -, rfl⟩ := Option.map_eq_some_iff.1 hhash
      exact hsha bytes
    · intro source hsource
      refine ⟨hplain source hsource, ?_⟩
      obtain ⟨j, -, rfl⟩ := List.mem_map.1 hsource
      exact hsha _

end Planning

/-! ## Arrivals and crashes -/

section Disturbances

variable {serde : Serde} {sha256 : Bytes → String} {first d : Inbox} {p : DrainPoint}
  {tx : DrainTransaction} {record : InboxRecord}

namespace Inbox

def received (d : Inbox) (record : InboxRecord) : Inbox :=
  { d with records := d.records ++ [record], arrived := d.arrived ++ [record] }

theorem Held.received {judged : List Judged} (h : Held d judged) :
    Held (d.received record) judged :=
  ⟨fun j hj => ⟨List.mem_append_left _ (h.mem j hj).1, (h.mem j hj).2⟩, h.names⟩

theorem Clean.received (h : Clean serde first d) : Clean serde first (d.received record) :=
  ⟨⟨h.pending, h.advanced⟩, h.marker⟩

theorem Begun.received (h : Begun serde sha256 first d tx) :
    Begun serde sha256 first (d.received record) tx :=
  ⟨⟨h.pending, h.advanced⟩, h.marker, h.reads, h.before, h.stateBefore⟩

theorem Committed.received (h : Committed serde sha256 first d tx) (hnew : record.1 ∉ d.pending) :
    Committed serde sha256 first (d.received record) tx := by
  refine ⟨h.isSealed, h.marker, h.reads, h.pending, h.after, h.advanced, ?_⟩
  intro other hmem hash hsource
  rcases List.mem_append.1 hmem with hmem | hmem
  · exact h.source other hmem hash hsource
  · obtain rfl := List.mem_singleton.1 hmem
    refine absurd ?_ hnew
    rw [h.pending]
    exact List.mem_map.2 ⟨_, hsource, rfl⟩

theorem Intends.received {updated : String} {judged : List Judged}
    (h : Intends serde sha256 first d tx updated judged) :
    Intends serde sha256 first (d.received record) tx updated judged :=
  ⟨h.held.received, h.readable, h.consumed, h.queue, h.before, h.after, h.stateBefore, h.advanced,
    h.reads⟩

/-- The marker is no part of an intent. -/
theorem Intends.marked {updated : String} {judged : List Judged} {marker : Option Bytes}
    (h : Intends serde sha256 first d tx updated judged) :
    Intends serde sha256 first { d with marker } tx updated judged :=
  ⟨⟨h.held.mem, h.held.names⟩, h.readable, h.consumed, h.queue, h.before, h.after, h.stateBefore,
    h.advanced, h.reads⟩

theorem Fresh.received {fresh : Option (List Judged)} (h : Fresh d fresh) :
    Fresh (d.received record) fresh :=
  fun judged hj => ⟨(h judged hj).1, (h judged hj).2.received⟩

/-- A new record has no pending name, and an old one is where it was. -/
theorem received_pending {names : List String}
    (h : ∀ old ∈ d.records, old.1 ∈ d.pending → old.1 ∈ names) (hnew : record.1 ∉ d.pending) :
    ∀ old ∈ (d.received record).records, old.1 ∈ d.pending → old.1 ∈ names := by
  intro old hold hpending
  rcases List.mem_append.1 hold with hold | hold
  · exact h old hold hpending
  · obtain rfl := List.mem_singleton.1 hold
    exact absurd hpending hnew

/-- **An arrival changes nothing that a drain knows.** -/
theorem Knows.received (h : Knows serde sha256 first d p) (hnew : record.1 ∉ d.pending) :
    Knows serde sha256 first (d.received record) p := by
  have hrest : Rest serde sha256 first d → Rest serde sha256 first (d.received record) := by
    rintro (h | ⟨tx, h⟩ | ⟨tx, h, hstate⟩)
    · exact .inl h.received
    · exact .inr (.inl ⟨tx, h.received⟩)
    · exact .inr (.inr ⟨tx, h.received hnew, hstate⟩)
  cases p with
  | idle => exact hrest h
  | recovering => exact hrest h
  | dropping =>
    obtain ⟨tx, h⟩ := h
    exact ⟨tx, h.received⟩
  | restating tx => exact ⟨h.1.received hnew, h.2⟩
  | consuming rest fresh =>
    obtain ⟨tx, h, hstate, hrest, hleft, hfresh⟩ := h
    exact ⟨tx, h.received hnew, hstate, hrest, received_pending hleft hnew, hfresh.received⟩
  | unmarking fresh =>
    obtain ⟨tx, h, hstate, hleft, hfresh⟩ := h
    refine ⟨tx, h.received hnew, hstate, fun old hold => ?_, hfresh.received⟩
    have hnothing : ∀ r ∈ d.records, r.1 ∈ d.pending → r.1 ∈ ([] : List String) :=
      fun r hr hp => absurd hp (hleft r hr)
    exact fun hp => List.not_mem_nil (received_pending hnothing hnew old hold hp)
  | listing => exact Clean.received h
  | marking tx updated judged => exact ⟨h.1.received, h.2.received⟩
  | writing tx updated judged => exact ⟨⟨h.1.pending, h.1.advanced⟩, h.2.1, h.2.2.received⟩
  | queueing tx updated judged => exact ⟨h.1.received, h.2.1, h.2.2.received⟩
  | stating tx judged => exact ⟨h.1.received hnew, h.2.1, h.2.2.received⟩
  | skipping rest judged => exact ⟨h.1.received, h.2.1.received, h.2.2⟩
  | quarantining rest judged => exact ⟨h.1.received, h.2.1.received, h.2.2⟩

theorem Accounted.received (h : Accounted first d) (hfree : record.1 ∉ d.records.map Prod.fst)
    (hnew : record.1 ∉ d.pending) : Accounted first (d.received record) := by
  refine ⟨?_, ?_, h.blocks, h.queue, h.rejected⟩
  · change ((d.records ++ [record]).map Prod.fst).Nodup
    rw [List.map_append]
    refine List.Nodup.append h.names (List.nodup_singleton _) ?_
    intro name hname hrecord
    obtain rfl := List.mem_singleton.1 hrecord
    exact hfree hname
  · change (d.arrived ++ [record]).Perm (((d.records ++ [record]).filter _) ++ d.log.map Prod.fst)
    have hkept : ([record].filter fun r => decide (r.1 ∉ (d.received record).pending)) = [record] :=
      List.filter_eq_self.2 fun r hr => by
        rw [List.mem_singleton.1 hr]
        exact decide_eq_true hnew
    rw [List.filter_append, hkept, List.append_assoc]
    refine (h.account.append_right [record]).trans ?_
    rw [List.append_assoc]
    exact List.perm_append_comm.append_left _

/-- **A crash loses nothing**, unless the marker is being written. -/
theorem Knows.rest (h : Knows serde sha256 first d p)
    (hp : ∀ tx updated judged, p ≠ .writing tx updated judged) : Rest serde sha256 first d := by
  cases p with
  | idle => exact h
  | recovering => exact h
  | dropping => exact .inr (.inl h)
  | restating tx => exact .inr (.inr ⟨tx, h.1, .inl h.2⟩)
  | consuming rest fresh =>
    obtain ⟨tx, h, hstate, -⟩ := h
    exact .inr (.inr ⟨tx, h, .inr hstate⟩)
  | unmarking fresh =>
    obtain ⟨tx, h, hstate, -⟩ := h
    exact .inr (.inr ⟨tx, h, .inr hstate⟩)
  | listing => exact .inl h
  | marking tx updated judged => exact .inl h.1
  | writing tx updated judged => exact absurd rfl (hp tx updated judged)
  | queueing tx updated judged => exact .inr (.inl ⟨tx, h.1⟩)
  | stating tx judged => exact .inr (.inr ⟨tx, h.1, .inl h.2.1⟩)
  | skipping rest judged => exact .inl h.1
  | quarantining rest judged => exact .inl h.1

end Inbox

end Disturbances

/-! ## How records leave -/

section Leaving

variable {first d : Inbox} {name : String}

namespace Inbox

theorem names_without (h : (d.records.map Prod.fst).Nodup) :
    ((d.records.filter fun r => decide (r.1 ≠ name)).map Prod.fst).Nodup :=
  h.sublist (List.filter_sublist.map _)

/-- The removal of a source that is committed. -/
theorem Accounted.consumed (h : Accounted first d) (hname : name ∈ d.pending) :
    Accounted first { d with records := d.records.filter fun r => decide (r.1 ≠ name) } := by
  refine ⟨names_without h.names, ?_, h.blocks, h.queue, h.rejected⟩
  have hsame : ((d.records.filter fun r => decide (r.1 ≠ name)).filter
        fun r => decide (r.1 ∉ d.pending)) =
      d.records.filter fun r => decide (r.1 ∉ d.pending) := by
    rw [List.filter_filter]
    refine List.filter_congr fun r _ => ?_
    have hne : r.1 ∉ d.pending → r.1 ≠ name := fun hr heq => hr (heq ▸ hname)
    by_cases hr : r.1 ∈ d.pending
    · simp [hr]
    · simp [hr, hne hr]
  change d.arrived.Perm (((d.records.filter _).filter _) ++ d.log.map Prod.fst)
  rw [hsame]
  exact h.account

/-- The account when nothing is pending. -/
theorem account_quiet (h : Accounted first d) (hpending : d.pending = []) :
    d.arrived.Perm (d.records ++ d.log.map Prod.fst) := by
  have hall : (d.records.filter fun r => decide (r.1 ∉ d.pending)) = d.records :=
    List.filter_eq_self.2 fun r _ => by simp [hpending]
  have haccount := h.account
  rwa [hall] at haccount

/-- A record leaves for the log. -/
theorem account_take (h : Accounted first d) (hpending : d.pending = []) {j : Judged}
    (hmem : j.1 ∈ d.records) :
    d.arrived.Perm (((d.records.filter fun r => decide (r.1 ≠ j.1.1)).filter
      fun r => decide (r.1 ∉ d.pending)) ++ (d.log ++ [j]).map Prod.fst) := by
  have hall : ((d.records.filter fun r => decide (r.1 ≠ j.1.1)).filter
        fun r => decide (r.1 ∉ d.pending)) = d.records.filter fun r => decide (r.1 ≠ j.1.1) :=
    List.filter_eq_self.2 fun r _ => by simp [hpending]
  have htaken := perm_without (c := [j.1]) h.names (List.nodup_singleton _)
    (by rintro x hx; rwa [List.mem_singleton.1 hx])
  simp only [List.map_cons, List.map_nil, List.mem_singleton] at htaken
  rw [hall, List.map_append, ← List.append_assoc]
  refine (account_quiet h hpending).trans ((htaken.symm.append_right _).trans ?_)
  rw [List.append_assoc, List.append_assoc]
  exact List.perm_append_comm.append_left _

theorem Accounted.skipped (h : Accounted first d) (hpending : d.pending = []) {j : Judged}
    (hmem : j.1 ∈ d.records) (hblock : j.2.block = none) (hkept : j.2.isRejected = false) :
    Accounted first { d with
      records := d.records.filter fun r => decide (r.1 ≠ j.1.1), log := d.log ++ [j] } := by
  refine ⟨names_without h.names, account_take h hpending hmem, ?_, h.queue, ?_⟩
  · simp [h.blocks, hblock]
  · simp [h.rejected, hkept]

theorem Accounted.quarantined (h : Accounted first d) (hpending : d.pending = []) {j : Judged}
    (hmem : j.1 ∈ d.records) (hrejected : j.2.isRejected = true) :
    Accounted first { d with
      records := d.records.filter fun r => decide (r.1 ≠ j.1.1)
      rejected := d.rejected ++ [j.1]
      log := d.log ++ [j] } := by
  have hblock : j.2.block = none := by
    unfold Verdict.isRejected at hrejected
    split at hrejected
    · rename_i heq
      rw [heq]
      rfl
    · cases hrejected
  refine ⟨names_without h.names, account_take h hpending hmem, ?_, h.queue, ?_⟩
  · simp [h.blocks, hblock]
  · simp [h.rejected, hrejected]

/-- What is held stays held when others leave. -/
theorem Held.without {judged : List Judged} (h : Held d judged) (log : List Judged)
    (rejected : List InboxRecord) (hne : ∀ j ∈ judged, j.1.1 ≠ name) :
    Held { d with
      records := d.records.filter fun r => decide (r.1 ≠ name), rejected, log } judged :=
  ⟨fun j hj => ⟨List.mem_filter.2 ⟨(h.mem j hj).1, decide_eq_true (hne j hj)⟩, (h.mem j hj).2⟩,
    h.names⟩

/-- What is held besides the first. -/
theorem Held.tail {j : Judged} {rest : List Judged} (h : Held d (j :: rest)) :
    Held d rest ∧ ∀ other ∈ rest, other.1.1 ≠ j.1.1 := by
  have hnames := h.names
  rw [List.map_cons, List.nodup_cons] at hnames
  refine ⟨⟨fun other hother => h.mem other (List.mem_cons_of_mem _ hother), hnames.2⟩, ?_⟩
  intro other hother heq
  exact hnames.1 (List.mem_map.2 ⟨other, hother, heq⟩)

theorem block_of_rejected {judged : List Judged} :
    (consumeOf judged).filterMap (·.2.block) = blocksOf judged := by
  unfold consumeOf blocksOf
  rw [List.filterMap_filter]
  refine List.filterMap_congr fun j _ => ?_
  cases hj : j.2 <;> simp [Verdict.isRejected, Verdict.block]

theorem rejected_of_consume {judged : List Judged} :
    (consumeOf judged).filter (·.2.isRejected) = [] := by
  refine List.filter_eq_nil_iff.2 fun j hj => ?_
  have hkept := (List.mem_filter.1 hj).2
  simpa using hkept

/-- **The commit**: the sources leave the account of the inbox for that of the log. -/
theorem Accounted.committed (h : Accounted first d) (hpending : d.pending = [])
    {judged : List Judged} {updated : String} (hheld : Held d judged)
    (hqueue : some (utf8 updated) = queueAfter d.queue (blocksOf judged)) {names : List String}
    (hsources : names = (consumeOf judged).map fun j => j.1.1) :
    Accounted first { d with
      queue := some (utf8 updated)
      log := d.log ++ consumeOf judged
      batches := d.batches ++ [blocksOf judged]
      pending := names } := by
  refine ⟨h.names, ?_, ?_, ?_, ?_⟩
  · have hsub : ((consumeOf judged).map fun j => j.1.1).Sublist (judged.map fun j => j.1.1) :=
      List.filter_sublist.map _
    have hnodup : (((consumeOf judged).map Prod.fst).map Prod.fst).Nodup := by
      rw [List.map_map]
      exact hheld.names.sublist hsub
    have hnames : names = ((consumeOf judged).map Prod.fst).map Prod.fst := by
      rw [hsources, List.map_map]
      rfl
    have htaken := perm_without h.names hnodup (by
      rintro record hrecord
      obtain ⟨j, hj, rfl⟩ := List.mem_map.1 hrecord
      exact (hheld.mem j (List.mem_filter.1 hj).1).1)
    rw [← hnames] at htaken
    change d.arrived.Perm ((d.records.filter _) ++ (d.log ++ consumeOf judged).map Prod.fst)
    rw [List.map_append, ← List.append_assoc]
    refine (account_quiet h hpending).trans ((htaken.symm.append_right _).trans ?_)
    rw [List.append_assoc, List.append_assoc]
    exact List.perm_append_comm.append_left _
  · simp [h.blocks, List.filterMap_append, block_of_rejected]
  · rw [hqueue, h.queue, List.foldl_append]
    rfl
  · simp [h.rejected, List.filter_append, rejected_of_consume]

end Inbox

end Leaving

/-! ## One step -/

/-- How far a drain is. -/
def DrainPoint.stage : DrainPoint → Nat
  | .idle => 0
  | .recovering => 12
  | .dropping => 11
  | .restating _ => 10
  | .consuming _ none => 9
  | .unmarking none => 8
  | .listing => 7
  | .marking _ _ _ => 6
  | .writing _ _ _ => 5
  | .queueing _ _ _ => 4
  | .stating _ _ => 3
  | .consuming _ (some _) => 2
  | .unmarking (some _) => 1
  | .skipping _ _ => 2
  | .quarantining _ _ => 0

/-- What is left at this point. -/
def DrainPoint.left : DrainPoint → Nat
  | .consuming rest _ => rest.length
  | .skipping rest _ | .quarantining rest _ => rest.length
  | _ => 0

/-- The verdicts of the listing a drain has made. -/
def DrainPoint.judging : DrainPoint → Option (List Judged)
  | .marking _ _ judged | .writing _ _ judged | .queueing _ _ judged | .stating _ judged
  | .skipping _ judged | .quarantining _ judged => some judged
  | .consuming _ fresh | .unmarking fresh => fresh
  | _ => none

def DrainPoint.Nearer (q p : DrainPoint) : Prop :=
  q.stage < p.stage ∨ q.stage = p.stage ∧ q.left < p.left

section Step

variable (serde : Serde) (sha256 : Bytes → String) (c : Classifier)

namespace InboxWorld

/-- The refusals of the input: the listing, or the size of the new queue. -/
def Refuses (w : InboxWorld) : Prop :=
  (w.point = .listing ∧ ∃ e, w.plan serde sha256 c = .error e) ∨
    ∃ tx updated judged, w.point = .queueing tx updated judged ∧
      maxControlBytes < (utf8 updated).length

/-- A drain's own step: onward, or to its end. -/
def Proceeds (first : Inbox) (w w' : InboxWorld) : Option DrainReport → Prop
  | none => w'.point.Nearer w.point ∧
      (∀ judged, w.point.judging = some judged → w'.point.judging = some judged) ∧
      (w.point = .listing → ∃ judged, w'.point.judging = some judged ∧
        judged.map Prod.fst = w.entries)
  | some (.ok result) => ∃ judged, w.point.judging = some judged ∧ result = resultOf judged ∧
      w'.point = .idle ∧ Inbox.Clean serde first w'.toInbox ∧
      Inbox.Logged w'.toInbox (consumeOf judged ++ quarantineOf judged)
  | some (.error _) => w.Refuses serde sha256 c ∧ w'.point = .idle

/-- A step that was taken, with what is known after it. -/
def Taken (first : Inbox) (w : InboxWorld) (r : Option (InboxWorld × Option DrainReport)) : Prop :=
  ∃ w' report, r = some (w', report) ∧ Inbox.Accounted first w'.toInbox ∧
    Inbox.Knows serde sha256 first w'.toInbox w'.point ∧ w.Proceeds serde sha256 c first w' report

end InboxWorld

variable {serde : Serde} {sha256 : Bytes → String} {c : Classifier} {first d : Inbox}
  {tx : DrainTransaction}

namespace InboxWorld

open Inbox DrainPoint

/-- Recovery starts from what a crash may leave, and finds which of the three it is. -/
theorem recover_taken (ha : Accounted first d) (hk : Rest serde sha256 first d) :
    Taken serde sha256 c first ⟨d, .recovering⟩ (recover serde sha256 ⟨d, .recovering⟩) := by
  have honward : ∀ point : DrainPoint, Knows serde sha256 first d point → point.stage < 12 →
      Taken serde sha256 c first ⟨d, .recovering⟩ (some (⟨d, point⟩, none)) :=
    fun point hknows hstage =>
      ⟨_, _, rfl, ha, hknows, .inl hstage, by rintro judged ⟨⟩, by rintro ⟨⟩⟩
  unfold recover
  rcases hk with hclean | ⟨tx, hbegun⟩ | ⟨tx, hcommitted, hstate⟩
  · simp only [hclean.marker]
    exact honward .listing hclean (by decide)
  · simp only [hbegun.marker, hbegun.reads, hbegun.before, hbegun.stateBefore, if_true, ne_eq,
      not_true_eq_false, if_false]
    exact honward .dropping ⟨tx, hbegun⟩ (by decide)
  · have hqueue := hcommitted.isSealed.queue
    simp only [hcommitted.marker, hcommitted.reads, hcommitted.after, hqueue.symm, if_false, ne_eq,
      not_true_eq_false]
    rcases hstate with hstale | hrestated
    · simp only [show d.state.map sha256 = tx.queueStateBeforeHash from hstale,
        hcommitted.isSealed.state, if_false, if_true]
      exact honward (.restating tx) ⟨hcommitted, hstale⟩ (show 10 < 12 by decide)
    · have hdone : d.state.map sha256 = some (sha256 (utf8 tx.queueStateAfter)) := by
        rw [show d.state = some (utf8 tx.queueStateAfter) from hrestated]
        rfl
      simp only [hdone, if_true]
      refine honward (.consuming tx.consumed none) ⟨tx, hcommitted, hrestated, fun _ h => h, ?_, ?_⟩
        (show 9 < 12 by decide)
      · intro record _ hpending
        rwa [hcommitted.pending] at hpending
      · rintro judged ⟨⟩

/-- A source that is gone is passed over, and one that is there is what was read. -/
theorem consume_taken {name hash : String} {rest : List (String × String)}
    {fresh : Option (List Judged)} (ha : Accounted first d)
    (hk : Knows serde sha256 first d (.consuming ((name, hash) :: rest) fresh)) :
    Taken serde sha256 c first ⟨d, .consuming ((name, hash) :: rest) fresh⟩
      (consume sha256 ⟨d, .consuming ((name, hash) :: rest) fresh⟩ name hash rest fresh) := by
  obtain ⟨tx, hcommitted, hstate, hrest, hleft, hfresh⟩ := hk
  have hsource := hrest _ List.mem_cons_self
  have hplain : ¬ isPlainInboxName name = false := by
    rw [hcommitted.isSealed.plain _ hsource]
    exact Bool.noConfusion
  have hpending : name ∈ d.pending := by
    rw [hcommitted.pending]
    exact List.mem_map.2 ⟨_, hsource, rfl⟩
  have hsub : ∀ source ∈ rest, source ∈ tx.consumed :=
    fun source hs => hrest source (List.mem_cons_of_mem _ hs)
  unfold consume removeSource
  rw [if_neg hplain]
  cases hlookup : d.records.lookup name with
  | none =>
    refine ⟨_, _, rfl, ha, ⟨tx, hcommitted, hstate, hsub, ?_, hfresh⟩, ?_⟩
    · intro record hrecord hp
      rcases List.mem_cons.1 (hleft record hrecord hp) with heq | hin
      · have hfound : d.records.lookup record.1 = some record.2 := lookup_of_mem ha.names hrecord
        rw [heq] at hfound
        cases hlookup.symm.trans hfound
      · exact hin
    · exact ⟨.inr ⟨by cases fresh <;> rfl, Nat.lt_succ_self _⟩, fun _ h => h, by rintro ⟨⟩⟩
  | some bytes =>
    obtain ⟨⟨text, htext⟩, hhash⟩ :=
      hcommitted.source _ (mem_of_lookup hlookup) hash hsource
    simp only [htext, hhash, ne_eq, not_true_eq_false, if_false]
    refine ⟨_, _, rfl, ha.consumed hpending, ⟨tx, ?_, hstate, hsub, ?_, ?_⟩, ?_⟩
    · refine ⟨hcommitted.isSealed, hcommitted.marker, hcommitted.reads, hcommitted.pending,
        hcommitted.after, hcommitted.advanced, fun record hrecord => ?_⟩
      exact hcommitted.source record (List.mem_filter.1 hrecord).1
    · intro record hrecord hp
      obtain ⟨hin, hne⟩ := List.mem_filter.1 hrecord
      rcases List.mem_cons.1 (hleft record hin hp) with heq | hin
      · exact absurd heq (of_decide_eq_true hne)
      · exact hin
    · intro judged hj
      obtain ⟨hlogged, hheld⟩ := hfresh judged hj
      refine ⟨hlogged, hheld.without _ _ fun j hj heq => ?_⟩
      exact (hheld.mem j hj).2 (heq ▸ hpending)
    · exact ⟨.inr ⟨by cases fresh <;> rfl, Nat.lt_succ_self _⟩, fun _ h => h, by rintro ⟨⟩⟩

/-- The marker of a finished transaction goes, and with it the transaction. -/
theorem unmarking_taken {fresh : Option (List Judged)} (ha : Accounted first d)
    (hk : Knows serde sha256 first d (.unmarking fresh)) :
    Taken serde sha256 c first ⟨d, .unmarking fresh⟩
      (proceed serde sha256 c ⟨d, .unmarking fresh⟩) := by
  obtain ⟨tx, hcommitted, hstate, hleft, hfresh⟩ := hk
  have hclean : Clean serde first { d with marker := none, pending := [] } := by
    refine ⟨⟨rfl, ?_⟩, rfl⟩
    change Advanced serde first d.state d.inserted
    rw [show d.state = some (utf8 tx.queueStateAfter) from hstate]
    exact hcommitted.advanced
  have haccounted : Accounted first { d with marker := none, pending := [] } := by
    refine ⟨ha.names, ?_, ha.blocks, ha.queue, ha.rejected⟩
    have hall : (d.records.filter fun r => decide (r.1 ∉ d.pending)) =
        d.records.filter fun r => decide (r.1 ∉ ([] : List String)) := by
      refine List.filter_congr fun r hr => ?_
      simp [hleft r hr]
    have haccount := ha.account
    rwa [hall] at haccount
  cases fresh with
  | none =>
    exact ⟨_, _, rfl, haccounted, hclean, .inl (show 7 < 8 by decide), by rintro judged ⟨⟩,
      by rintro ⟨⟩⟩
  | some judged =>
    obtain ⟨hlogged, hheld⟩ := hfresh judged rfl
    refine ⟨_, _, rfl, haccounted, ⟨hclean, ?_, ?_, [], rfl, ?_⟩, .inl ?_, fun _ h => h,
      by rintro ⟨⟩⟩
    · exact ⟨fun j hj => ⟨(hheld.mem j hj).1, List.not_mem_nil⟩, hheld.names⟩
    · exact fun j hj => (List.mem_filter.1 hj).2
    · rw [List.append_nil]
      exact hlogged
    · exact (show 0 < 1 by decide)

theorem consumeOf_append_quarantineOf {judged : List Judged}
    (hnames : (judged.map fun j => j.1.1).Nodup) :
    ((consumeOf judged ++ quarantineOf judged).map fun j => j.1.1).Nodup := by
  have hperm : (consumeOf judged ++ quarantineOf judged).Perm judged := by
    refine List.perm_append_comm.trans ?_
    exact List.filter_append_perm (fun j : Judged => j.2.isRejected) judged
  exact ((hperm.map _).nodup_iff).2 hnames

/-- A listing ends in a plan that can be carried out, or in a refusal. -/
theorem listing_taken (hserde : DrainSerde serde)
    (hsha : ∀ bytes, isSha256Hex (sha256 bytes) = true) (ha : Accounted first d)
    (hk : Clean serde first d) :
    Taken serde sha256 c first ⟨d, .listing⟩ (proceed serde sha256 c ⟨d, .listing⟩) := by
  unfold proceed
  cases hplan : d.plan serde sha256 c with
  | error e =>
    dsimp only
    exact ⟨_, _, rfl, ha, .inl hk, .inl ⟨rfl, e, hplan⟩, rfl⟩
  | ok plan =>
    obtain ⟨hentries, hnone, hreadable, hintends⟩ := plan_spec hserde hsha hk ha.names hplan
    dsimp only
    unfold afterListing
    cases hcommit : plan.commit with
    | some commit =>
      obtain ⟨tx, updated⟩ := commit
      exact ⟨_, _, rfl, ha, ⟨hk, hintends tx updated hcommit⟩, .inl (show 6 < 7 by decide),
        by rintro judged ⟨⟩, fun _ => ⟨_, rfl, hentries⟩⟩
    | none =>
      have hheld : Held d (consumeOf plan.judged ++ quarantineOf plan.judged) := by
        have hperm : d.entries.Perm d.records := List.mergeSort_perm _ _
        refine ⟨fun j hj => ⟨?_, by rw [hk.pending]; exact List.not_mem_nil⟩, ?_⟩
        · have hjudged : j ∈ plan.judged := by
            rcases List.mem_append.1 hj with hj | hj
            · exact (List.mem_filter.1 hj).1
            · exact (List.mem_filter.1 hj).1
          rw [← hperm.mem_iff, ← hentries]
          exact List.mem_map_of_mem hjudged
        · refine consumeOf_append_quarantineOf ?_
          have hmap : (plan.judged.map fun j => j.1.1) = d.entries.map Prod.fst := by
            rw [← hentries, List.map_map]
            rfl
          rw [hmap]
          exact ((hperm.map Prod.fst).nodup_iff).2 ha.names
      exact ⟨_, _, rfl, ha, ⟨hk, hheld, hreadable, hnone hcommit,
        fun j hj => (List.mem_filter.1 hj).1, [], rfl, d.log, (List.append_nil _).symm⟩,
        .inl (show 2 < 7 by decide), by rintro judged ⟨⟩, fun _ => ⟨_, rfl, hentries⟩⟩

/-- The marker is complete, and the queue is as it was. -/
theorem begun_of_intends {updated : String} {judged : List Judged} (hquiet : Quiet serde first d)
    (hsealed : Sealed sha256 tx) (hintends : Intends serde sha256 first d tx updated judged) :
    Begun serde sha256 first { d with marker := some (markerPayload serde tx) } tx :=
  ⟨⟨hquiet.pending, hquiet.advanced⟩, rfl, hintends.reads hsealed.plain, hintends.before,
    hintends.stateBefore⟩

/-- The queue is replaced: from here on the transaction will be carried out. -/
theorem queueing_taken {updated : String} {judged : List Judged} (ha : Accounted first d)
    (hk : Knows serde sha256 first d (.queueing tx updated judged)) :
    Taken serde sha256 c first ⟨d, .queueing tx updated judged⟩
      (proceed serde sha256 c ⟨d, .queueing tx updated judged⟩) := by
  obtain ⟨hbegun, hsealed, hintends⟩ := hk
  unfold proceed
  by_cases hsize : maxControlBytes < (utf8 updated).length
  · simp only [hsize, if_true]
    exact ⟨_, _, rfl, ha, .inr (.inl ⟨tx, hbegun⟩), .inr ⟨tx, updated, judged, rfl, hsize⟩, rfl⟩
  simp only [hsize, if_false]
  have hnames : tx.consumed.map Prod.fst = (consumeOf judged).map fun j => j.1.1 := by
    rw [hintends.consumed, sourcesOf, List.map_map]
    rfl
  have hheld := hintends.held
  refine ⟨_, _, rfl, ha.committed hbegun.pending hheld hintends.queue hnames,
    ⟨?_, hbegun.stateBefore, ?_⟩, .inl (show 3 < 4 by decide), fun _ h => h, by rintro ⟨⟩⟩
  · refine ⟨hsealed, hbegun.marker, hbegun.reads, rfl, hintends.after, ?_, ?_⟩
    · have hcount : inserted { d with
            queue := some (utf8 updated), log := d.log ++ consumeOf judged
            batches := d.batches ++ [blocksOf judged]
            pending := tx.consumed.map Prod.fst } = d.inserted + (blocksOf judged).length := by
        simp [inserted]
      change Advanced serde first _ (inserted { d with
            queue := some (utf8 updated), log := d.log ++ consumeOf judged
            batches := d.batches ++ [blocksOf judged]
            pending := tx.consumed.map Prod.fst })
      rw [hcount]
      exact hintends.advanced
    · intro record hrecord hash hsource
      rw [hintends.consumed] at hsource
      obtain ⟨j, hj, heq⟩ := List.mem_map.1 hsource
      obtain ⟨hname, rfl⟩ := Prod.mk.inj heq
      have hsame : j.1 = record := eq_of_name ha.names (hheld.mem j (List.mem_filter.1 hj).1).1
        hrecord hname
      subst hsame
      exact ⟨hintends.readable j hj, rfl⟩
  · intro other hother
    obtain rfl := Option.some.inj hother
    refine ⟨⟨d.log, rfl⟩, fun j hj => ⟨(hheld.mem j (List.mem_filter.1 hj).1).1, ?_⟩,
      hheld.names.sublist (List.filter_sublist.map _)⟩
    change j.1.1 ∉ tx.consumed.map Prod.fst
    rw [hnames]
    intro hin
    obtain ⟨other, hother, heq⟩ := List.mem_map.1 hin
    obtain ⟨hmem, hkept⟩ := List.mem_filter.1 hother
    have hsame : other = j :=
      List.inj_on_of_nodup_map hheld.names hmem (List.mem_filter.1 hj).1 heq
    rw [hsame, (List.mem_filter.1 hj).2] at hkept
    cases hkept

/-- A duplicate is removed where nothing else is to be done. -/
theorem skipping_taken {j : Judged} {rest judged : List Judged} (ha : Accounted first d)
    (hk : Knows serde sha256 first d (.skipping (j :: rest) judged)) :
    Taken serde sha256 c first ⟨d, .skipping (j :: rest) judged⟩
      (proceed serde sha256 c ⟨d, .skipping (j :: rest) judged⟩) := by
  obtain ⟨⟨name, bytes⟩, verdict⟩ := j
  obtain ⟨hclean, hheld, hreadable, hblocks, hsub, done, hdone, earlier, hlog⟩ := hk
  have hmem := (hheld.mem _ List.mem_cons_self).1
  obtain ⟨text, htext⟩ := hreadable _ List.mem_cons_self
  have hkept : verdict.isRejected = false := by
    have hin : ((name, bytes), verdict) ∈ consumeOf judged := by
      rw [hdone]
      exact List.mem_append_right _ List.mem_cons_self
    have hnot := (List.mem_filter.1 hin).2
    simpa using hnot
  have hblock : verdict.block = none := by
    have hall := List.filterMap_eq_nil_iff.1 hblocks
    exact hall _ (hsub _ List.mem_cons_self)
  obtain ⟨hrest, hne⟩ := hheld.tail
  unfold proceed
  simp only [removeSource, lookup_of_mem ha.names hmem, htext, ne_eq, not_true_eq_false, if_false]
  refine ⟨_, _, rfl, ha.skipped (j := ((name, bytes), verdict)) hclean.pending hmem hblock hkept,
    ⟨⟨⟨hclean.pending, hclean.advanced⟩, hclean.marker⟩, hrest.without _ _ hne,
      fun j hj => hreadable j (List.mem_cons_of_mem _ hj), hblocks,
      fun j hj => hsub j (List.mem_cons_of_mem _ hj), done ++ [((name, bytes), verdict)],
      by rw [hdone, List.append_assoc]; rfl, earlier, ?_⟩,
    .inr ⟨rfl, Nat.lt_succ_self _⟩, fun _ h => h, by rintro ⟨⟩⟩
  change d.log ++ [((name, bytes), verdict)] = _
  rw [hlog, List.append_assoc]

theorem quarantining_taken {j : Judged} {rest judged : List Judged} (ha : Accounted first d)
    (hk : Knows serde sha256 first d (.quarantining (j :: rest) judged)) :
    Taken serde sha256 c first ⟨d, .quarantining (j :: rest) judged⟩
      (proceed serde sha256 c ⟨d, .quarantining (j :: rest) judged⟩) := by
  obtain ⟨⟨name, bytes⟩, verdict⟩ := j
  obtain ⟨hclean, hheld, hrejected, done, hdone, earlier, hlog⟩ := hk
  have hmem := (hheld.mem _ List.mem_cons_self).1
  obtain ⟨hrest, hne⟩ := hheld.tail
  unfold proceed
  simp only [lookup_of_mem ha.names hmem]
  refine ⟨_, _, rfl, ha.quarantined (j := ((name, bytes), verdict)) hclean.pending hmem
      (hrejected _ List.mem_cons_self),
    ⟨⟨⟨hclean.pending, hclean.advanced⟩, hclean.marker⟩, hrest.without _ _ hne,
      fun j hj => hrejected j (List.mem_cons_of_mem _ hj), done ++ [((name, bytes), verdict)],
      by rw [hdone, List.append_assoc]; rfl, earlier, ?_⟩,
    .inr ⟨rfl, Nat.lt_succ_self _⟩, fun _ h => h, by rintro ⟨⟩⟩
  change d.log ++ [((name, bytes), verdict)] = _
  rw [hlog, List.append_assoc, List.append_assoc]

/-- **One step of a drain** keeps the account, knows what the next point must know, and comes
nearer to the end; an error is a refusal of the input. -/
theorem proceed_taken (hserde : DrainSerde serde)
    (hsha : ∀ bytes, isSha256Hex (sha256 bytes) = true) {p : DrainPoint} (ha : Accounted first d)
    (hk : Knows serde sha256 first d p) (hp : p ≠ .idle)
    (hsealed : ∀ tx updated judged, p = .marking tx updated judged → Sealed sha256 tx) :
    Taken serde sha256 c first ⟨d, p⟩ (proceed serde sha256 c ⟨d, p⟩) := by
  cases p with
  | idle => exact absurd rfl hp
  | recovering => exact recover_taken ha hk
  | dropping =>
    obtain ⟨tx, h⟩ := hk
    exact ⟨_, _, rfl, ⟨ha.names, ha.account, ha.blocks, ha.queue, ha.rejected⟩,
      ⟨⟨h.pending, h.advanced⟩, rfl⟩, .inl (show 7 < 11 by decide), by rintro judged ⟨⟩,
      by rintro ⟨⟩⟩
  | restating tx =>
    obtain ⟨h, -⟩ := hk
    refine ⟨_, _, rfl, ⟨ha.names, ha.account, ha.blocks, ha.queue, ha.rejected⟩,
      ⟨tx, ⟨h.isSealed, h.marker, h.reads, h.pending, h.after, h.advanced, h.source⟩, rfl,
        fun _ h => h, fun record _ hpending => ?_, by rintro judged ⟨⟩⟩,
      .inl (show 9 < 10 by decide), by rintro judged ⟨⟩, by rintro ⟨⟩⟩
    have hin : record.1 ∈ d.pending := hpending
    rwa [h.pending] at hin
  | consuming rest fresh =>
    cases rest with
    | nil =>
      obtain ⟨tx, h, hstate, -, hleft, hfresh⟩ := hk
      refine ⟨_, _, rfl, ha, ⟨tx, h, hstate, fun record hrecord hpending => ?_, hfresh⟩, .inl ?_,
        fun _ h => h, by rintro ⟨⟩⟩
      · exact List.not_mem_nil (hleft record hrecord hpending)
      · cases fresh
        · exact (show 8 < 9 by decide)
        · exact (show 1 < 2 by decide)
    | cons source rest =>
      obtain ⟨name, hash⟩ := source
      exact consume_taken ha hk
  | unmarking fresh => exact unmarking_taken ha hk
  | listing => exact listing_taken hserde hsha ha hk
  | marking tx updated judged =>
    obtain ⟨hclean, hintends⟩ := hk
    have hseal := hsealed tx updated judged rfl
    unfold proceed
    simp only [hclean.marker]
    exact ⟨_, _, rfl, ⟨ha.names, ha.account, ha.blocks, ha.queue, ha.rejected⟩,
      ⟨⟨hclean.pending, hclean.advanced⟩, hseal, hintends.marked⟩,
      .inl (show 5 < 6 by decide), fun _ h => h, by rintro ⟨⟩⟩
  | writing tx updated judged =>
    obtain ⟨hquiet, hseal, hintends⟩ := hk
    exact ⟨_, _, rfl, ⟨ha.names, ha.account, ha.blocks, ha.queue, ha.rejected⟩,
      ⟨begun_of_intends hquiet hseal hintends, hseal, hintends.marked⟩,
      .inl (show 4 < 5 by decide), fun _ h => h, by rintro ⟨⟩⟩
  | queueing tx updated judged => exact queueing_taken ha hk
  | stating tx judged =>
    obtain ⟨h, -, hfresh⟩ := hk
    refine ⟨_, _, rfl, ⟨ha.names, ha.account, ha.blocks, ha.queue, ha.rejected⟩,
      ⟨tx, ⟨h.isSealed, h.marker, h.reads, h.pending, h.after, h.advanced, h.source⟩, rfl,
        fun _ h => h, fun record _ hpending => ?_, fun other hother => ?_⟩,
      .inl (show 2 < 3 by decide), fun _ h => h, by rintro ⟨⟩⟩
    · have hin : record.1 ∈ d.pending := hpending
      rwa [h.pending] at hin
    · obtain ⟨hlogged, hheld⟩ := hfresh other hother
      exact ⟨hlogged, hheld.mem, hheld.names⟩
  | skipping rest judged =>
    cases rest with
    | nil =>
      obtain ⟨hclean, hheld, -, -, -, done, hdone, hlogged⟩ := hk
      refine ⟨_, _, rfl, ha, ⟨hclean, hheld, fun j hj => (List.mem_filter.1 hj).2, [], rfl, ?_⟩,
        .inl (show 0 < 2 by decide), fun _ h => h, by rintro ⟨⟩⟩
      rw [List.append_nil, hdone, List.append_nil]
      exact hlogged
    | cons j rest => exact skipping_taken ha hk
  | quarantining rest judged =>
    cases rest with
    | nil =>
      obtain ⟨hclean, -, -, done, hdone, hlogged⟩ := hk
      refine ⟨_, _, rfl, ha, .inl hclean, judged, rfl, rfl, rfl, hclean, ?_⟩
      rw [hdone, List.append_nil]
      exact hlogged
    | cons j rest => exact quarantining_taken ha hk

end InboxWorld

/-! ## Whole runs -/

/-- Before any drain. -/
structure InboxWorld.Initial (w : InboxWorld) : Prop where
  names : (w.records.map Prod.fst).Nodup
  marker : w.marker = none
  point : w.point = .idle
  arrived : w.arrived = w.records
  log : w.log = []
  batches : w.batches = []
  pending : w.pending = []

variable (serde sha256) in
/-- Producers do not reuse the name of a source that is being consumed, no crash falls between the
creation of the marker and its last byte, and the transaction can be told from the state before it
and names its sources plainly. -/
def InboxWorld.Proper (w : InboxWorld) : InboxAction → Prop
  | .arrive record => record.1 ∉ w.pending
  | .begin | .fail => True
  | .go => ∀ tx updated judged, w.point = .marking tx updated judged → Inbox.Sealed sha256 tx
  | .crash => ∀ tx updated judged, w.point ≠ .writing tx updated judged
  | .tear count => ∀ tx updated judged, w.point = .writing tx updated judged →
      (markerPayload serde tx).length ≤ count

variable (serde sha256) in
def InboxWorld.Kept (first : Inbox) (w : InboxWorld) : Prop :=
  Inbox.Accounted first w.toInbox ∧ Inbox.Knows serde sha256 first w.toInbox w.point

namespace InboxWorld

open Inbox

theorem kept_initial {w : InboxWorld} (h : w.Initial) : Kept serde sha256 w.toInbox w := by
  have hadvanced : Advanced serde w.toInbox w.state w.inserted := by
    unfold Advanced inserted
    rw [h.batches]
    cases readGeneration serde w.state <;> rfl
  refine ⟨⟨h.names, ?_, by rw [h.batches, h.log]; rfl, by rw [h.batches]; rfl,
    by rw [h.log]; exact (List.append_nil _).symm⟩, ?_⟩
  · have hall : (w.records.filter fun r => decide (r.1 ∉ w.pending)) = w.records :=
      List.filter_eq_self.2 fun r _ => by simp [h.pending]
    rw [hall, h.arrived, h.log]
    simp
  · rw [h.point]
    exact .inl ⟨⟨h.pending, hadvanced⟩, h.marker⟩

/-- What a failed call leaves is what a crash leaves; a begun marker is taken back. -/
theorem failing_kept {w w' : InboxWorld} {report : Option DrainReport}
    (hk : Kept serde sha256 first w) (h : w.failing = some (w', report)) :
    Kept serde sha256 first w' := by
  obtain ⟨d, p⟩ := w
  obtain ⟨ha, hk⟩ := hk
  cases p with
  | idle => cases h
  | writing tx updated judged =>
    obtain ⟨rfl, -⟩ := Prod.mk.inj (Option.some.inj h)
    obtain ⟨hquiet, -⟩ := hk
    exact ⟨⟨ha.names, ha.account, ha.blocks, ha.queue, ha.rejected⟩,
      .inl ⟨⟨hquiet.pending, hquiet.advanced⟩, rfl⟩⟩
  | _ =>
    obtain ⟨rfl, -⟩ := Prod.mk.inj (Option.some.inj h)
    exact ⟨ha, Knows.rest hk (by rintro tx updated judged ⟨⟩)⟩

theorem step_kept (hserde : DrainSerde serde) (hsha : ∀ bytes, isSha256Hex (sha256 bytes) = true)
    {w w' : InboxWorld} {a : InboxAction} (hk : Kept serde sha256 first w)
    (hproper : w.Proper serde sha256 a) (h : w.next serde sha256 c a = some w') :
    Kept serde sha256 first w' := by
  obtain ⟨⟨w'', report⟩, hstep, rfl⟩ := Option.map_eq_some_iff.1 h
  obtain ⟨d, p⟩ := w
  obtain ⟨ha, hk⟩ := hk
  cases a with
  | arrive record =>
    by_cases hfree : (d.records.any fun old => old.1 = record.1) = true
    · have hnone : step serde sha256 c ⟨d, p⟩ (.arrive record) = none := if_pos hfree
      cases hnone.symm.trans hstep
    · have hsome : step serde sha256 c ⟨d, p⟩ (.arrive record) =
          some (⟨d.received record, p⟩, none) := if_neg hfree
      obtain ⟨rfl, -⟩ := Prod.mk.inj (Option.some.inj (hsome.symm.trans hstep))
      refine ⟨ha.received (fun hin => ?_) hproper, Knows.received hk hproper⟩
      obtain ⟨old, hold, heq⟩ := List.mem_map.1 hin
      exact hfree (List.any_eq_true.2 ⟨old, hold, decide_eq_true heq⟩)
  | begin =>
    cases p with
    | idle =>
      obtain ⟨rfl, -⟩ := Prod.mk.inj (Option.some.inj hstep)
      exact ⟨ha, hk⟩
    | _ => cases hstep
  | go =>
    have hp : p ≠ .idle := by
      rintro rfl
      cases hstep
    obtain ⟨w₁, report₁, htaken, haccounted, hknows, -⟩ :=
      proceed_taken (c := c) hserde hsha ha hk hp hproper
    obtain ⟨rfl, rfl⟩ := Prod.mk.inj (Option.some.inj (htaken.symm.trans hstep))
    exact ⟨haccounted, hknows⟩
  | fail => exact failing_kept ⟨ha, hk⟩ hstep
  | crash =>
    obtain ⟨rfl, -⟩ := Prod.mk.inj (Option.some.inj hstep)
    exact ⟨ha, hk.rest hproper⟩
  | tear count =>
    cases p with
    | writing tx updated judged =>
      obtain ⟨rfl, -⟩ := Prod.mk.inj (Option.some.inj hstep)
      obtain ⟨hquiet, hsealed, hintends⟩ := hk
      have hwhole : (markerPayload serde tx).take count = markerPayload serde tx :=
        List.take_of_length_le (hproper tx updated judged rfl)
      refine ⟨⟨ha.names, ha.account, ha.blocks, ha.queue, ha.rejected⟩, .inr (.inl ⟨tx, ?_⟩)⟩
      change Begun serde sha256 first
        { d with marker := some ((markerPayload serde tx).take count) } tx
      rw [hwhole]
      exact begun_of_intends hquiet hsealed hintends
    | _ => cases hstep

theorem nearer_wf : WellFounded DrainPoint.Nearer := by
  have hlex : WellFounded (Prod.Lex (· < ·) (· < ·) : Nat × Nat → Nat × Nat → Prop) :=
    WellFounded.prod_lex wellFounded_lt wellFounded_lt
  refine Subrelation.wf ?_ (InvImage.wf (fun p : DrainPoint => (p.stage, p.left)) hlex)
  intro q p h
  exact Prod.lex_def.2 h

end InboxWorld

/-- **A drain commits exactly once**, over all runs whose every step is proper: whatever arrived is
in the inbox or in the log, once; the queue and the quarantine are what the log says; and a drain's
own step always comes nearer to the end, where it has judged the records it listed and left no
marker, unless the input itself is refused. -/
theorem drain_exactly_once (hserde : DrainSerde serde)
    (hsha : ∀ bytes, isSha256Hex (sha256 bytes) = true) {start w : InboxWorld}
    (hstart : start.Initial)
    (h : Reach (InboxWorld.next serde sha256 c) (InboxWorld.Proper serde sha256) start w) :
    Inbox.Accounted start.toInbox w.toInbox ∧ WellFounded DrainPoint.Nearer ∧
      (w.point ≠ .idle → w.Proper serde sha256 .go →
        ∃ w' report, w.step serde sha256 c .go = some (w', report) ∧
          w.Proceeds serde sha256 c start.toInbox w' report) := by
  have hkept : InboxWorld.Kept serde sha256 start.toInbox w :=
    h.invariant (InboxWorld.kept_initial hstart)
      fun _ _ _ hk hproper hnext => InboxWorld.step_kept hserde hsha hk hproper hnext
  refine ⟨hkept.1, InboxWorld.nearer_wf, fun hp hproper => ?_⟩
  obtain ⟨w', report, hstep, -, -, hproceeds⟩ :=
    InboxWorld.proceed_taken (c := c) hserde hsha hkept.1 hkept.2 hp hproper
  exact ⟨w', report, hstep, hproceeds⟩

end Step

/-! ## A torn marker -/

namespace InboxWorld

variable {serde : Serde} {sha256 : Bytes → String} {c : Classifier}

/-- The marker is there, without a byte. -/
def Torn (w : InboxWorld) : Prop :=
  w.marker = some [] ∧ (w.point = .idle ∨ w.point = .recovering)

theorem readMarker_empty {e : String} (hempty : serde.read "" = .error e) :
    ∃ error, readMarker serde [] = .error error := by
  have htext : readText maxTransactionBytes [] = .ok "" :=
    @readText_utf8 maxTransactionBytes "" (by decide)
  have hjson : (serde.read "" >>= DrainTransaction.fromJson) = .error e := by
    rw [hempty]
    rfl
  refine ⟨.invalid ("queue inbox transaction marker is invalid JSON: " ++ e), ?_⟩
  unfold readMarker
  rw [demand_true (by decide : ([] : Bytes).length ≤ maxTransactionBytes), htext]
  simp only [bind, Except.bind] at hjson ⊢
  rw [hjson]

/-- No call brings a torn marker out of the way, and every drain ends in an error. -/
theorem torn_step {e : String} (hempty : serde.read "" = .error e) {w w' : InboxWorld}
    {a : InboxAction} {report : Option DrainReport} (h : w.Torn)
    (hstep : w.step serde sha256 c a = some (w', report)) :
    w'.Torn ∧ ∀ r, report = some r → ∃ error, r = .error error := by
  obtain ⟨error, hmarker⟩ := readMarker_empty hempty
  obtain ⟨hsome, hpoint⟩ := h
  have hidle : ∀ {point : DrainPoint}, w.point = point → point = .idle ∨ point = .recovering :=
    fun heq => heq ▸ hpoint
  cases a with
  | arrive record =>
    by_cases hfree : (w.records.any fun old => old.1 = record.1) = true
    · have hnone : w.step serde sha256 c (.arrive record) = none := if_pos hfree
      cases hnone.symm.trans hstep
    · have hnext : w.step serde sha256 c (.arrive record) =
          some (⟨w.toInbox.received record, w.point⟩, none) := if_neg hfree
      obtain ⟨rfl, rfl⟩ := Prod.mk.inj (Option.some.inj (hnext.symm.trans hstep))
      exact ⟨⟨hsome, hpoint⟩, by rintro r ⟨⟩⟩
  | begin =>
    rcases hpoint with hp | hp <;> simp only [step, hp, goTo] at hstep
    · obtain ⟨rfl, rfl⟩ := Prod.mk.inj (Option.some.inj hstep)
      exact ⟨⟨hsome, .inr rfl⟩, by rintro r ⟨⟩⟩
    · cases hstep
  | go =>
    rcases hpoint with hp | hp <;> simp only [step, proceed, hp] at hstep
    · cases hstep
    · simp only [recover, hsome, hmarker, finish] at hstep
      obtain ⟨rfl, rfl⟩ := Prod.mk.inj (Option.some.inj hstep)
      refine ⟨⟨hsome, .inl rfl⟩, fun r hr => ?_⟩
      obtain rfl := Option.some.inj hr
      exact ⟨_, rfl⟩
  | fail =>
    rcases hpoint with hp | hp <;> simp only [step, failing, hp] at hstep
    · cases hstep
    · obtain ⟨rfl, rfl⟩ := Prod.mk.inj (Option.some.inj hstep)
      refine ⟨⟨hsome, .inl rfl⟩, fun r hr => ?_⟩
      obtain rfl := Option.some.inj hr
      exact ⟨_, rfl⟩
  | crash =>
    obtain ⟨rfl, rfl⟩ := Prod.mk.inj (Option.some.inj hstep)
    exact ⟨⟨hsome, .inl rfl⟩, by rintro r ⟨⟩⟩
  | tear count =>
    rcases hpoint with hp | hp <;> simp only [step, hp] at hstep <;> cases hstep

variable {d : Inbox} {tx : DrainTransaction} {updated : String} {judged : List Judged}

/-- A drain up to the creation of its marker. -/
theorem reach_marking (hmarker : d.marker = none)
    (hplan : d.plan serde sha256 c = .ok ⟨judged, some (tx, updated)⟩) :
    Reach (next serde sha256 c) (Proper serde sha256) ⟨d, .idle⟩
      ⟨d, .marking tx updated judged⟩ := by
  have hbegin : next serde sha256 c ⟨d, .idle⟩ .begin = some ⟨d, .recovering⟩ := rfl
  have hrecover : next serde sha256 c ⟨d, .recovering⟩ .go = some ⟨d, .listing⟩ := by
    simp only [next, step, proceed, recover, hmarker, goTo, Option.map_some]
  have hlisting : next serde sha256 c ⟨d, .listing⟩ .go = some ⟨d, .marking tx updated judged⟩ := by
    simp only [next, step, proceed, hplan, afterListing, goTo, Option.map_some]
  have hlisted : Reach (next serde sha256 c) (Proper serde sha256) ⟨d, .idle⟩ ⟨d, .listing⟩ :=
    (Reach.refl.step trivial hbegin).step (by rintro tx updated judged ⟨⟩) hrecover
  exact hlisted.step (by rintro tx updated judged ⟨⟩) hlisting

theorem reach_torn (hmarker : d.marker = none)
    (hplan : d.plan serde sha256 c = .ok ⟨judged, some (tx, updated)⟩) :
    Reach (next serde sha256 c) (fun _ _ => True) ⟨d, .idle⟩
      ⟨{ d with marker := some [] }, .idle⟩ := by
  have hcreate : next serde sha256 c ⟨d, .marking tx updated judged⟩ .go =
      some ⟨{ d with marker := some [] }, .writing tx updated judged⟩ := by
    simp only [next, step, proceed, hmarker, goTo, Option.map_some]
  have hcrash : next serde sha256 c ⟨{ d with marker := some [] }, .writing tx updated judged⟩
      .crash = some ⟨{ d with marker := some [] }, .idle⟩ := rfl
  have hmarked : Reach (next serde sha256 c) (fun _ _ => True) ⟨d, .idle⟩
      ⟨d, .marking tx updated judged⟩ := (reach_marking hmarker hplan).mono fun _ _ _ => trivial
  exact (hmarked.step trivial hcreate).step trivial hcrash

theorem next_recovering (hmarker : d.marker = some (markerPayload serde tx))
    (hreads : readMarker serde (markerPayload serde tx) = .ok tx) (hsealed : Inbox.Sealed sha256 tx)
    (hqueue : sha256 (d.queue.getD []) = tx.queueAfterHash)
    (hstate : d.state.map sha256 = tx.queueStateBeforeHash) :
    next serde sha256 c ⟨d, .recovering⟩ .go = some ⟨d, .restating tx⟩ := by
  simp only [next, step, proceed, recover, hmarker, hreads, hqueue, hstate,
    if_neg hsealed.queue.symm, if_neg hsealed.state, ne_eq, not_true_eq_false, if_false, if_true,
    goTo, Option.map_some]

theorem next_consuming {name hash text : String} {bytes : Bytes} {rest : List (String × String)}
    {fresh : Option (List Judged)} (hplain : isPlainInboxName name = true)
    (hthere : d.records.lookup name = some bytes) (hread : readText maxRecordBytes bytes = .ok text)
    (hhash : sha256 bytes = hash) :
    next serde sha256 c ⟨d, .consuming ((name, hash) :: rest) fresh⟩ .go =
      some ⟨{ d with records := d.records.filter (·.1 ≠ name) }, .consuming rest fresh⟩ := by
  simp only [next, step, proceed, consume, hplain, removeSource, hthere, hread, hhash, ne_eq,
    not_true_eq_false, if_false, Bool.true_eq_false, goTo, without, Option.map_some]

theorem proper_marking (h : Inbox.Sealed sha256 tx) :
    Proper serde sha256 ⟨d, .marking tx updated judged⟩ .go := by
  rintro tx' updated' judged' heq
  obtain ⟨rfl, -⟩ := DrainPoint.marking.inj heq
  exact h

end InboxWorld

/-! ## A sample -/

namespace InboxSample

/-- The bits of a number, the lowest first. -/
def bits : Nat → Nat → List Char
  | 0, _ => []
  | width + 1, n => (if n % 2 = 1 then '1' else '0') :: bits width (n / 2)

def ofBits : List Char → Nat
  | [] => 0
  | ch :: rest => (if ch = '1' then 1 else 0) + 2 * ofBits rest

theorem ofBits_bits {width n : Nat} (h : n < 2 ^ width) : ofBits (bits width n ++ ['\n']) = n := by
  induction width generalizing n with
  | zero =>
    have hzero : n = 0 := by omega
    subst hzero
    rfl
  | succ width ih =>
    have hhalf : n / 2 < 2 ^ width := by
      rw [Nat.pow_succ] at h
      omega
    rw [bits, List.cons_append, ofBits, ih hhalf]
    by_cases hodd : n % 2 = 1
    · rw [if_pos hodd, if_pos rfl]
      omega
    · rw [if_neg hodd, if_neg (by decide)]
      omega

/-- The number of a generation's document. -/
def generationOf : Json → Option Nat
  | .object [(name, .integer (.ofNat n))] =>
    if name = "generation" ∧ n ≤ u64Max then some n else none
  | _ => none

/-- The tallies, but for generations, which are written in 64 bits. -/
def codec : Serde where
  render value :=
    match generationOf value with
    | some n => String.ofList ('#' :: bits 64 n)
    | none => Tally.codec.render value
  read s :=
    match s.toList with
    | '#' :: rest => .ok (.object [("generation", .integer (ofBits rest))])
    | _ => Tally.codec.read s

theorem render_transaction (tx : DrainTransaction) :
    codec.render tx.toJson = Tally.codec.render tx.toJson := rfl

theorem payload_toList {n : Nat} (hn : n ≤ u64Max) :
    (generationPayload codec n).toList = '#' :: (bits 64 n ++ ['\n']) := by
  have hof : generationOf (.object [("generation", .integer n)]) = some n := if_pos ⟨rfl, hn⟩
  simp [generationPayload, codec, hof]

theorem read_empty : codec.read "" = .error "no value" := rfl

theorem read_bits {s : String} {rest : List Char} (h : s.toList = '#' :: rest) :
    codec.read s = .ok (.object [("generation", .integer (ofBits rest))]) := by
  simp only [codec, h]

theorem codec_reads : DrainSerde codec where
  transaction tx _ := by
    have hopen : ∃ rest, (Tally.codec.render tx.toJson).toList = '\x7b' :: rest :=
      ⟨_, by simp only [Tally.codec, String.toList_ofList, List.cons_append]; rfl⟩
    obtain ⟨rest, hopen⟩ := hopen
    have hread : codec.read (Tally.codec.render tx.toJson) =
        Tally.codec.read (Tally.codec.render tx.toJson) := by
      simp only [codec, hopen]
      rfl
    have hround := Tally.read_render tx.toJson "" (by decide)
    rw [String.append_empty] at hround
    rw [render_transaction, hread, hround]
  generation n hn := by
    have hbits : ofBits (bits 64 n ++ ['\n']) = n := ofBits_bits (by unfold u64Max at hn; omega)
    rw [read_bits (payload_toList hn), hbits]
  short n hn := by
    have hlength : ∀ width n, String.utf8Len (bits width n) = width := by
      intro width
      induction width with
      | zero => intro n; rfl
      | succ width ih =>
        intro n
        have hone : (if n % 2 = 1 then '1' else '0').utf8Size = 1 := by split <;> rfl
        rw [bits, String.utf8Len_cons, ih, hone]
    have hpayload : generationPayload codec n = String.ofList ('#' :: (bits 64 n ++ ['\n'])) := by
      rw [← payload_toList hn, String.ofList_toList]
    have hsize : ∀ s : String, (utf8 s).length = s.utf8ByteSize := fun s => by simp [utf8]
    rw [hsize, hpayload, String.utf8ByteSize_ofList, String.utf8Len_cons, String.utf8Len_append,
      hlength]
    decide

/-- A digest that tells nothing from something. -/
def digest (bytes : Bytes) : String :=
  String.ofList (List.replicate 64 (if bytes = [] then '0' else 'f'))

theorem digest_hex (bytes : Bytes) : isSha256Hex (digest bytes) = true := by
  unfold digest
  split
  · decide +kernel
  · decide +kernel

/-- One title, always accepted. -/
def classifier : Classifier where
  Known := Unit
  start _ := .ok ()
  judge _ _ := (.task "T-1" "## T-1", ())

def inbox : Inbox where
  queue := none
  state := none
  marker := none
  records := [("a.json", [])]
  rejected := []
  arrived := [("a.json", [])]
  log := []
  batches := []
  pending := []

def updated : String := appendBlocks "" ["## T-1"]

def judged : List Judged := [(("a.json", []), .task "T-1" "## T-1")]

def transaction : DrainTransaction where
  queueBeforeHash := digest (utf8 "")
  queueAfterHash := digest (utf8 updated)
  queueStateBeforeHash := none
  queueStateAfter := generationPayload codec 1
  consumed := [("a.json", digest [])]

theorem transaction_short : (markerPayload codec transaction).length ≤ maxTransactionBytes := by
  have hlength := Tally.length_render transaction.toJson ""
  rw [String.append_empty, ← render_transaction] at hlength
  unfold markerPayload
  rw [hlength]
  decide +kernel

theorem judged_eq : classify classifier () [("a.json", [])] = judged := by
  have htext : fromUtf8 [] = some "" := fromUtf8_utf8 ""
  have hread : readRecord classifier () [] = (.task "T-1" "## T-1", ()) := by
    unfold readRecord
    rw [if_neg (by decide), htext]
    rfl
  simp only [classify, hread]
  rfl

/-- The first drain of the sample plans one transaction. -/
theorem plan_eq :
    inbox.plan codec digest classifier = .ok ⟨judged, some (transaction, updated)⟩ := by
  have hentries : inbox.entries = [("a.json", [])] := by
    unfold Inbox.entries inbox
    exact List.mergeSort_singleton _
  have hblocks : blocksOf judged = ["## T-1"] := rfl
  have hsome : ¬ ([("a.json", [])] : List InboxRecord) = [] := List.cons_ne_nil _ _
  have hadded : ¬ (["## T-1"] : List String) = [] := List.cons_ne_nil _ _
  have hstate : nextQueueGenerationUpdate codec inbox.state 1 =
      .ok (generationPayload codec 1) :=
    bind_eq_ok.2 ⟨0, rfl, bind_eq_ok.2 ⟨(), demand_true (by decide), rfl⟩⟩
  unfold Inbox.plan
  refine bind_eq_ok.2 ⟨(), demand_true (by decide), ?_⟩
  rw [hentries, if_neg hsome]
  refine bind_eq_ok.2 ⟨"", rfl, bind_eq_ok.2 ⟨(), rfl, ?_⟩⟩
  dsimp only
  rw [judged_eq, hblocks, if_neg hadded]
  refine bind_eq_ok.2 ⟨_, hstate, bind_eq_ok.2 ⟨(), demand_true transaction_short, rfl⟩⟩

theorem initial : InboxWorld.Initial ⟨inbox, .idle⟩ where
  names := List.nodup_singleton _
  marker := rfl
  point := rfl
  arrived := rfl
  log := rfl
  batches := rfl
  pending := rfl

theorem transaction_sealed : Inbox.Sealed digest transaction := by
  obtain ⟨hplain, hqueue, hstate⟩ : isPlainInboxName "a.json" = true ∧
      transaction.queueBeforeHash ≠ transaction.queueAfterHash ∧
      transaction.queueStateBeforeHash ≠ some (digest (utf8 transaction.queueStateAfter)) := by
    decide +kernel
  exact ⟨fun source hsource => List.mem_singleton.1 hsource ▸ hplain, hqueue, hstate⟩

theorem reads_marker : readMarker codec (markerPayload codec transaction) = .ok transaction := by
  obtain ⟨-, hknown⟩ : InboxWorld.Kept codec digest inbox ⟨inbox, .idle⟩ :=
    InboxWorld.kept_initial initial
  have hclean : Inbox.Clean codec inbox inbox := by
    rcases hknown with hclean | ⟨_, hbegun⟩ | ⟨_, hcommitted, -⟩
    · exact hclean
    · cases hbegun.marker
    · cases hcommitted.marker
  obtain ⟨-, -, -, hintends⟩ := plan_spec codec_reads digest_hex hclean initial.names plan_eq
  exact (hintends _ _ rfl).reads transaction_sealed.plain

/-- The queue is replaced, and the transaction goes no further. -/
def replacedInbox : Inbox :=
  { inbox with
    marker := some (markerPayload codec transaction), queue := some (utf8 updated)
    log := judged, batches := [["## T-1"]], pending := ["a.json"] }

/-- The queue and the generation are replaced and the source is gone. -/
def settledInbox : Inbox :=
  { replacedInbox with
    state := some (utf8 transaction.queueStateAfter), records := [], marker := none, pending := [] }

abbrev Drains : InboxWorld → InboxWorld → Prop :=
  Reach (InboxWorld.next codec digest classifier) (InboxWorld.Proper codec digest)

theorem drains_go {w u v : InboxWorld} (h : Drains w u)
    (hnext : InboxWorld.next codec digest classifier u .go = some v)
    (hpoint : ∀ tx updated judged, u.point ≠ .marking tx updated judged) : Drains w v := by
  have hproper : u.Proper codec digest .go := fun tx updated judged heq =>
    absurd heq (hpoint tx updated judged)
  exact h.step hproper hnext

/-- A drain up to the replacement of the queue, and a crash. -/
theorem drains_crash : Drains ⟨inbox, .idle⟩ ⟨replacedInbox, .idle⟩ := by
  have hmarking : Drains ⟨inbox, .idle⟩ ⟨inbox, .marking transaction updated judged⟩ :=
    InboxWorld.reach_marking rfl plan_eq
  have hwriting : Drains ⟨inbox, .idle⟩
      ⟨{ inbox with marker := some [] }, .writing transaction updated judged⟩ :=
    hmarking.step (InboxWorld.proper_marking transaction_sealed) rfl
  have hqueueing : Drains ⟨inbox, .idle⟩
      ⟨{ inbox with marker := some (markerPayload codec transaction) },
        .queueing transaction updated judged⟩ := drains_go hwriting rfl nofun
  have hsmall : ¬ maxControlBytes < (utf8 updated).length := by decide +kernel
  have hstating : Drains ⟨inbox, .idle⟩ ⟨replacedInbox, .stating transaction judged⟩ :=
    drains_go hqueueing (by
      simp only [InboxWorld.next, InboxWorld.step, InboxWorld.proceed, if_neg hsmall]
      rfl) nofun
  have hproper : InboxWorld.Proper codec digest ⟨replacedInbox, .stating transaction judged⟩ .crash :=
    fun _ _ _ => nofun
  exact hstating.step hproper rfl

/-- The next drain restates the generation, consumes the source and lists an empty inbox. -/
theorem drains_recovered : Drains ⟨replacedInbox, .idle⟩ ⟨settledInbox, .quarantining [] []⟩ := by
  have hbegin : InboxWorld.Proper codec digest ⟨replacedInbox, .idle⟩ .begin := trivial
  have hbegun : Drains ⟨replacedInbox, .idle⟩ ⟨replacedInbox, .recovering⟩ :=
    Reach.refl.step hbegin rfl
  have hrestating : Drains ⟨replacedInbox, .idle⟩ ⟨replacedInbox, .restating transaction⟩ :=
    drains_go hbegun (InboxWorld.next_recovering rfl reads_marker transaction_sealed rfl rfl) nofun
  have hconsuming : Drains ⟨replacedInbox, .idle⟩
      ⟨{ replacedInbox with state := some (utf8 transaction.queueStateAfter) },
        .consuming [("a.json", digest [])] none⟩ := drains_go hrestating rfl nofun
  have hconsumed := drains_go hconsuming (InboxWorld.next_consuming (by decide) rfl
    (@readText_utf8 maxRecordBytes "" (by decide)) rfl) nofun
  have hunmarking := drains_go hconsumed rfl nofun
  have hlisting : Drains ⟨replacedInbox, .idle⟩ ⟨settledInbox, .listing⟩ :=
    drains_go hunmarking rfl nofun
  have hskipping : Drains ⟨replacedInbox, .idle⟩ ⟨settledInbox, .skipping [] []⟩ := by
    have hentries : settledInbox.entries = [] := List.mergeSort_nil
    have hplan : settledInbox.plan codec digest classifier = .ok ⟨[], none⟩ := by
      unfold Inbox.plan
      refine bind_eq_ok.2 ⟨(), demand_true (by decide), ?_⟩
      rw [if_pos hentries]
    refine drains_go hlisting ?_ nofun
    simp only [InboxWorld.next, InboxWorld.step, InboxWorld.proceed, hplan]
    rfl
  exact drains_go hskipping rfl nofun

end InboxSample

section

open InboxSample

/-- A producer's record, a drain that crashes behind the replacement of the queue, and the next drain
up to its end: the record is in the queue once, and nothing of the transaction is left. -/
theorem drain_exactly_once_recovered :
    ∃ w : InboxWorld, Drains ⟨inbox, .idle⟩ w ∧
      (w.records = [] ∧ w.marker = none ∧ w.queue = some (utf8 updated) ∧
        w.batches = [["## T-1"]]) ∧
      Inbox.Accounted inbox w.toInbox ∧
      ∃ w' report, w.step codec digest classifier .go = some (w', some (.ok report)) ∧
        w.Proceeds codec digest classifier inbox w' (some (.ok report)) := by
  obtain ⟨haccounted, -, hstep⟩ := drain_exactly_once codec_reads digest_hex initial
    (drains_crash.trans drains_recovered)
  obtain ⟨w', report, hw', hproceeds⟩ := hstep nofun (fun _ _ _ => nofun)
  obtain ⟨rfl, rfl⟩ := Prod.mk.inj (Option.some.inj hw')
  exact ⟨_, drains_crash.trans drains_recovered, ⟨rfl, rfl, rfl, rfl⟩, haccounted, _, _, rfl, hproceeds⟩

/-- **A crash between the creation of the marker and its bytes**: no later drain succeeds, and the
marker remains. -/
theorem drain_exactly_once_broken :
    ∃ w : InboxWorld,
      Reach (InboxWorld.next codec digest classifier) (fun _ _ => True) ⟨inbox, .idle⟩ w ∧
      ∀ u, Reach (InboxWorld.next codec digest classifier) (fun _ _ => True)
          w u →
        u.marker = some [] ∧
        ∀ a u' report,
          u.step codec digest classifier a = some (u', some report) →
          ∃ error, report = .error error := by
  have htorn : Reach (InboxWorld.next codec digest classifier)
      (fun _ _ => True) ⟨inbox, .idle⟩
      ⟨{ inbox with marker := some [] }, .idle⟩ :=
    InboxWorld.reach_torn rfl plan_eq
  refine ⟨_, htorn, fun u hu => ?_⟩
  have hstuck : u.Torn :=
    hu.invariant ⟨rfl, .inl rfl⟩ fun v a v' hv _ hnext => by
      obtain ⟨⟨v'', report⟩, hstep, rfl⟩ := Option.map_eq_some_iff.1 hnext
      exact (InboxWorld.torn_step read_empty hv hstep).1
  refine ⟨hstuck.1, fun a u' report hstep => ?_⟩
  exact (InboxWorld.torn_step read_empty hstuck hstep).2 report rfl

end

end Orchestrail
