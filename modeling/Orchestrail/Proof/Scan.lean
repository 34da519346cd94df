import Orchestrail.Proof.Journal
import Orchestrail.Proof.Wire

/-!
# Scanning the committed history

What the scan makes of the records of events. `CachedIndex.over` is the index of a history as it
should be: the events of the archive, then those of the active file. A scan that succeeds builds
it, whether it starts from nothing or from the index of an earlier part, and it succeeds when every
event it meets can be read back.
-/

namespace Orchestrail

open Records Outcome Table Text

section Loop

variable (serde : Serde) (sha256 : Bytes → String)

/-- The records of a range, one after the other. -/
def scanLines (active : Bool) (rs : List Record) (index : CachedIndex) :
    Except OutboxError CachedIndex :=
  rs.foldlM (fun index r => scanRecord serde sha256 active (r.1 ++ [newline]) index) index

variable {serde sha256} {active : Bool} {index : CachedIndex} {rs ss : List Record}

theorem scanLines_append : scanLines serde sha256 active (rs ++ ss) index =
    scanLines serde sha256 active rs index >>= scanLines serde sha256 active ss := by
  unfold scanLines
  exact List.foldlM_append

theorem lines_cons {r : Record} : lines (r :: rs) = r.1 ++ newline :: lines rs := by
  simp [lines]

/-- A record that is too long is refused, however much of it the window shows. -/
theorem scanRecord_long {raw : Bytes}
    (h : ¬ (raw.getLast? = some newline ∧ raw.length - 1 ≤ maxEventLineBytes)) :
    scanRecord serde sha256 active raw index =
      .error (.io ⟨.invalidData, "events.jsonl record exceeds 1048576 byte limit"⟩) := by
  simp only [scanRecord, demand, if_neg h, bind, Except.bind]

/-- **The loop is a fold over the records.** -/
theorem scanRecords_lines {t : Bytes} : ∀ {rs : List Record} {fuel : Nat} {index : CachedIndex},
    (lines rs).length ≤ fuel →
    scanRecords serde sha256 active fuel (lines rs ++ t) (lines rs).length index =
      scanLines serde sha256 active rs index := by
  intro rs
  induction rs with
  | nil =>
    intro fuel index _
    cases fuel <;> rfl
  | cons r rs ih =>
    intro fuel index hfuel
    rw [lines_cons] at hfuel ⊢
    have hlen : (r.1 ++ newline :: lines rs).length = r.1.length + 1 + (lines rs).length := by
      simp
      omega
    rw [hlen] at hfuel ⊢
    obtain ⟨fuel, rfl⟩ : ∃ f, fuel = f + 1 := ⟨fuel - 1, by omega⟩
    have hraw : readUntil newline ((r.1 ++ newline :: lines rs ++ t).take
        (min (r.1.length + 1 + (lines rs).length) (maxEventLineBytes + 2))) =
        (r.1 ++ [newline]).take
          (min (r.1.length + 1 + (lines rs).length) (maxEventLineBytes + 2)) := by
      rw [List.append_assoc, List.cons_append]
      exact readUntil_take r.2 _
    rw [scanRecords, if_neg (by omega), hraw]
    by_cases hlong : r.1.length ≤ maxEventLineBytes + 1
    · have hwhole : (r.1 ++ [newline]).take
          (min (r.1.length + 1 + (lines rs).length) (maxEventLineBytes + 2)) =
          r.1 ++ [newline] := List.take_of_length_le (by simp; omega)
      have hdrop : (r.1 ++ newline :: lines rs ++ t).drop (r.1 ++ [newline]).length =
          lines rs ++ t := by simp
      have hrest : r.1.length + 1 + (lines rs).length - (r.1 ++ [newline]).length =
          (lines rs).length := by simp
      simp only [hwhole, hdrop, hrest, demand_true (show r.1 ++ [newline] ≠ [] by simp), bind,
        Except.bind, scanLines, List.foldlM_cons]
      cases scanRecord serde sha256 active (r.1 ++ [newline]) index with
      | error e => rfl
      | ok i => exact ih (by omega)
    · have hcut : (r.1 ++ [newline]).take
          (min (r.1.length + 1 + (lines rs).length) (maxEventLineBytes + 2)) =
          r.1.take (maxEventLineBytes + 2) := by
        rw [Nat.min_eq_right (by omega), List.take_append_of_le_length (by omega)]
      have hne : r.1.take (maxEventLineBytes + 2) ≠ [] := by
        rw [ne_eq, ← List.length_eq_zero_iff, List.length_take]
        omega
      have hlast : (r.1.take (maxEventLineBytes + 2)).getLast? ≠ some newline := fun h =>
        r.2 (List.mem_of_mem_take (List.mem_of_getLast? h))
      have hwhole : ¬ ((r.1 ++ [newline]).getLast? = some newline ∧
          (r.1 ++ [newline]).length - 1 ≤ maxEventLineBytes) := by
        simp
        omega
      simp only [hcut, demand_true hne, bind, Except.bind, scanLines, List.foldlM_cons,
        scanRecord_long (fun h => hlast h.1), scanRecord_long hwhole]

end Loop

/-! ## Events on record -/

section Events

variable (serde : Serde) (sha256 : Bytes → String)

/-- The records of some events, one after the other. -/
def written (es : List Envelope) : Bytes := joined newline (es.map (·.record serde))

/-- The records that hold some events. -/
def Holds (rs : List Record) (es : List Envelope) : Prop :=
  rs.map Subtype.val = es.map (·.record serde)

/-- An event a scan can read back. -/
structure Recordable (event : Envelope) : Prop where
  valid : event.Valid
  short : (event.record serde).length ≤ maxEventLineBytes

/-- The index with one more record. -/
def CachedIndex.tell (active : Bool) (index : CachedIndex) (event : Envelope) : CachedIndex :=
  { index.enter serde sha256 active event with committedLines := index.committedLines + 1 }

/-- The index of a history: what is archived, and what is not. -/
def CachedIndex.over (as bs : List Envelope) : CachedIndex :=
  { bs.foldl (CachedIndex.tell serde sha256 true) (as.foldl (CachedIndex.tell serde sha256 false) {}) with
    archivedLen := (written serde as).length
    committedLen := (written serde bs).length }

variable {serde sha256} {active : Bool} {index : CachedIndex} {event : Envelope}
  {rs ss : List Record} {es as bs : List Envelope}

theorem Holds.lines_eq (h : Holds serde rs es) : lines rs = written serde es := by
  unfold lines written
  rw [h]

theorem Holds.append {fs : List Envelope} (h : Holds serde rs es) (h' : Holds serde ss fs) :
    Holds serde (rs ++ ss) (es ++ fs) := by
  unfold Holds at *
  rw [List.map_append, List.map_append, h, h']

/-- Records in two parts hold events in two parts. -/
theorem Holds.split (h : Holds serde (rs ++ ss) es) :
    ∃ as bs, es = as ++ bs ∧ Holds serde rs as ∧ Holds serde ss bs := by
  unfold Holds at *
  rw [List.map_append, eq_comm, List.map_eq_append_iff] at h
  obtain ⟨as, bs, rfl, has, hbs⟩ := h
  exact ⟨as, bs, rfl, has.symm, hbs.symm⟩

/-- Events in two parts are held by records in two parts. -/
theorem Holds.parts (h : Holds serde rs (as ++ bs)) :
    ∃ rs₁ rs₂, rs = rs₁ ++ rs₂ ∧ Holds serde rs₁ as ∧ Holds serde rs₂ bs := by
  unfold Holds at *
  rw [List.map_append, List.map_eq_append_iff] at h
  exact h

theorem written_append : written serde (as ++ bs) = written serde as ++ written serde bs := by
  simp [written]

/-- Every record takes room. -/
theorem written_eq_nil : written serde es = [] ↔ es = [] := by
  rw [written, joined_eq_nil, List.map_eq_nil_iff]

/-- Of two histories that begin alike, those of one length are one. -/
theorem eq_of_written_length (ha : as <+: es) (hb : bs <+: es)
    (h : (written serde as).length = (written serde bs).length) : as = bs := by
  have hno : ∀ {xs ys : List Envelope}, xs <+: ys →
      (written serde xs).length = (written serde ys).length → xs = ys := by
    rintro xs _ ⟨zs, rfl⟩ hlen
    rw [written_append, List.length_append] at hlen
    have hz : zs = [] := (@written_eq_nil serde zs).1 (List.eq_nil_of_length_eq_zero (by omega))
    rw [hz, List.append_nil]
  rcases List.prefix_or_prefix_of_prefix ha hb with hab | hba
  · exact hno hab h
  · exact (hno hba h.symm).symm

theorem tell_semanticById (id : String) : (index.tell serde sha256 active event).semanticById[id]? =
    if event.eventId = id then some (semanticFingerprint serde sha256 event)
    else index.semanticById[id]? := by
  simp [CachedIndex.tell, CachedIndex.enter, Std.ExtTreeMap.getElem?_insert]

/-- **One record**: it is read back as its event, or the scan stops. -/
theorem scanRecord_event (h : serde.Returns event)
    (hfresh : index.semanticById[event.eventId]? = none) {i : CachedIndex} :
    scanRecord serde sha256 active (event.record serde ++ [newline]) index = .ok i ↔
      Recordable serde event ∧ i = index.tell serde sha256 active event := by
  by_cases hshort : (event.record serde).length ≤ maxEventLineBytes
  swap
  · rw [scanRecord_long (by simpa using hshort)]
    exact ⟨fun h => (by cases h), fun h => absurd h.1.short hshort⟩
  have hframe : (event.record serde ++ [newline]).getLast? = some newline ∧
      (event.record serde ++ [newline]).length - 1 ≤ maxEventLineBytes := by
    simpa using hshort
  have htext : fromUtf8 (event.record serde ++ [newline]).dropLast =
      some (event.toJsonLine serde) := by
    rw [List.dropLast_concat]
    exact fromUtf8_utf8 _
  have hparse := @Envelope.parseLine_toJsonLine event serde h
  simp only [scanRecord, demand_true hframe, htext, h.isBlank, bind, Except.bind]
  cases hp : parseLine serde (event.toJsonLine serde) with
  | error e =>
    refine ⟨fun h => by simp at h, fun h => ?_⟩
    have := (@hparse event).2 ⟨rfl, h.1.valid⟩
    rw [hp] at this
    cases this
  | ok existing =>
    obtain ⟨rfl, hvalid⟩ := hparse.1 hp
    simp only [hfresh, Option.all_none, demand_trivial]
    constructor
    · intro h
      exact ⟨⟨hvalid, hshort⟩, (Except.ok.inj h).symm⟩
    · rintro ⟨-, rfl⟩
      rfl

/-- **Some records**: all of them are read back, or the scan stops. -/
theorem scanLines_events (hrs : Holds serde rs es) (hes : ∀ e ∈ es, serde.Returns e)
    (hnodup : (es.map Envelope.eventId).Nodup)
    (hfresh : ∀ e ∈ es, index.semanticById[e.eventId]? = none) {i : CachedIndex} :
    scanLines serde sha256 active rs index = .ok i ↔
      (∀ e ∈ es, Recordable serde e) ∧ i = es.foldl (CachedIndex.tell serde sha256 active) index := by
  induction es generalizing rs index with
  | nil =>
    obtain rfl := List.map_eq_nil_iff.1 hrs
    simp [scanLines, pure, Except.pure, eq_comm]
  | cons e es ih =>
    obtain ⟨r, rs, rfl, hr, hrs⟩ := List.map_eq_cons_iff.1 hrs
    obtain ⟨hnew, hnodup⟩ := List.nodup_cons.1 hnodup
    have hfirst := @scanRecord_event serde sha256 active index e (hes e List.mem_cons_self)
      (hfresh e List.mem_cons_self)
    have hkept : ∀ f ∈ es,
        (index.tell serde sha256 active e).semanticById[f.eventId]? = none := by
      intro f hf
      have hne : e.eventId ≠ f.eventId := fun he => hnew (he ▸ List.mem_map_of_mem hf)
      rw [tell_semanticById, if_neg hne]
      exact hfresh f (List.mem_cons_of_mem _ hf)
    have hrest := ih hrs (fun f hf => hes f (List.mem_cons_of_mem _ hf)) hnodup hkept
    have hstep : scanLines serde sha256 active (r :: rs) index =
        scanRecord serde sha256 active (e.record serde ++ [newline]) index >>=
          scanLines serde sha256 active rs := by
      rw [show e.record serde = r.1 from hr.symm]
      rfl
    rw [hstep, bind_eq_ok, List.forall_mem_cons, List.foldl_cons]
    constructor
    · rintro ⟨j, hj, hi⟩
      obtain ⟨hrec, rfl⟩ := hfirst.1 hj
      exact ⟨⟨hrec, (hrest.1 hi).1⟩, (hrest.1 hi).2⟩
    · rintro ⟨⟨hrec, hall⟩, hi⟩
      exact ⟨_, hfirst.2 ⟨hrec, rfl⟩, hrest.2 ⟨hall, hi⟩⟩

theorem foldl_tell_lens {a c : Nat} :
    es.foldl (CachedIndex.tell serde sha256 active) { index with archivedLen := a, committedLen := c } =
      { es.foldl (CachedIndex.tell serde sha256 active) index with
        archivedLen := a, committedLen := c } := by
  induction es generalizing index with
  | nil => rfl
  | cons e es ih => exact @ih (index.tell serde sha256 active e)

/-- Other ids are left as they are. -/
theorem foldl_tell_notMem {id : String} (hid : id ∉ es.map Envelope.eventId) :
    (es.foldl (CachedIndex.tell serde sha256 active) index).semanticById[id]? =
      index.semanticById[id]? := by
  induction es generalizing index with
  | nil => rfl
  | cons e es ih =>
    rw [List.map_cons, List.mem_cons, not_or] at hid
    rw [List.foldl_cons, ih hid.2, tell_semanticById, if_neg (Ne.symm hid.1)]

/-- Each event is entered under its id. -/
theorem foldl_tell_mem (hnodup : (es.map Envelope.eventId).Nodup) (he : event ∈ es) :
    (es.foldl (CachedIndex.tell serde sha256 active) index).semanticById[event.eventId]? =
      some (semanticFingerprint serde sha256 event) := by
  induction es generalizing index with
  | nil => cases he
  | cons e es ih =>
    obtain ⟨hnew, hnodup⟩ := List.nodup_cons.1 hnodup
    rcases List.mem_cons.1 he with rfl | he
    · rw [List.foldl_cons, foldl_tell_notMem hnew, tell_semanticById, if_pos rfl]
    · exact ih hnodup he

end Events

/-! ## The files of a journal -/

section Files

variable {serde : Serde} {sha256 : Bytes → String} {index : CachedIndex} {A : List Chunk}
  {rs : List Record} {torn : Record} {s : Option String} {as bs : List Envelope}

/-- The archived segments are scanned in their order. -/
theorem scanArchived_files {j : Journal} {cs : List Chunk} : ∀ {n start : Nat} {index : CachedIndex},
    (∀ f ∈ files n start cs, f ∈ files 1 0 (j.archived ++ j.front.moving)) →
    scanArchived serde sha256 (j.work sha256) ((files n start cs).map fun f =>
      ⟨.segment f.sequence f.startOffset f.endOffset, f.startOffset, f.endOffset, 0, true⟩) index =
    scanLines serde sha256 false (cs.flatMap Chunk.records) index := by
  induction cs with
  | nil => intro n start index _; rfl
  | cons c cs ih =>
    intro n start index hsub
    have hopen : openExisting (j.work sha256) _ = .ok c.bytes :=
      Journal.openExisting_file (hsub _ List.mem_cons_self)
    have hscan := @scanRecords_lines serde sha256 false [] c.records c.bytes.length index le_rfl
    rw [List.append_nil] at hscan
    simp only [files, List.map_cons, scanArchived, hopen, Except.mapError, bind, Except.bind,
      scanCommittedRange, List.drop_zero, Nat.add_sub_cancel_left, List.flatMap_cons,
      scanLines_append]
    rw [show scanRecords serde sha256 false c.bytes.length c.bytes c.bytes.length index = _ from hscan]
    cases scanLines serde sha256 false c.records index with
    | error e => rfl
    | ok i => exact ih fun f hf => hsub f (List.mem_cons_of_mem _ hf)

theorem stream_eq_lines (cs : List Chunk) : stream cs = lines (cs.flatMap Chunk.records) := by
  induction cs with
  | nil => rfl
  | cons c cs ih =>
    rw [List.flatMap_cons, lines_append, ← ih]
    rfl

theorem over_fresh {e : Envelope} (he : e.eventId ∉ (as ++ bs).map Envelope.eventId) :
    (CachedIndex.over serde sha256 as bs).semanticById[e.eventId]? = none := by
  rw [List.map_append, List.mem_append, not_or] at he
  simp only [CachedIndex.over]
  rw [foldl_tell_notMem he.2, foldl_tell_notMem he.1]
  simp

/-- **The records behind an index** are scanned into it. -/
theorem scanRange_over {bs' : List Envelope} {rs' : List Record} {t : Bytes} (hrs : Holds serde rs bs)
    (hrs' : Holds serde rs' bs') (hes : ∀ e ∈ bs', serde.Returns e)
    (hnodup : ((as ++ bs ++ bs').map Envelope.eventId).Nodup) {i : CachedIndex} :
    scanCommittedRange serde sha256 (lines (rs ++ rs') ++ t) (written serde bs).length
      ((lines (rs ++ rs')).length - (written serde bs).length)
      (.over serde sha256 as bs) true = .ok i ↔
    (∀ e ∈ bs', Recordable serde e) ∧ i = { CachedIndex.over serde sha256 as (bs ++ bs') with
      committedLen := (written serde bs).length } := by
  have hdrop : (lines (rs ++ rs') ++ t).drop (written serde bs).length = lines rs' ++ t := by
    rw [← hrs.lines_eq, lines_append, List.append_assoc, List.drop_left]
  have hlen : (lines (rs ++ rs')).length - (written serde bs).length = (lines rs').length := by
    rw [← hrs.lines_eq, lines_append, List.length_append, Nat.add_sub_cancel_left]
  obtain ⟨-, hnew, hapart⟩ := List.nodup_append.1 (List.map_append ▸ hnodup)
  have hfresh : ∀ e ∈ bs', (CachedIndex.over serde sha256 as bs).semanticById[e.eventId]? = none :=
    fun e he => over_fresh fun hin => hapart _ hin _ (List.mem_map_of_mem he) rfl
  rw [scanCommittedRange, hdrop, hlen, scanRecords_lines le_rfl,
    scanLines_events hrs' hes hnew hfresh]
  refine and_congr_right fun _ => ?_
  rw [CachedIndex.over, foldl_tell_lens, CachedIndex.over, List.foldl_append]

/-- The active file goes on being scanned where the index stops. -/
theorem scanHistory_rest {bs' : List Envelope} {rs' : List Record}
    (hA : Holds serde (A.flatMap Chunk.records) as) (hrs : Holds serde rs bs)
    (hrs' : Holds serde rs' bs') (hes : ∀ e ∈ bs', serde.Returns e)
    (hnodup : ((as ++ bs ++ bs').map Envelope.eventId).Nodup) {i : CachedIndex} :
    scanCommittedHistory serde sha256 (⟨A, .flowing (rs ++ rs') torn, s⟩ : Journal).layout
      ((⟨A, .flowing (rs ++ rs') torn, s⟩ : Journal).work sha256) (.over serde sha256 as bs)
      (lines (rs ++ rs')).length = .ok i ↔
    (∀ e ∈ bs', Recordable serde e) ∧ i = .over serde sha256 as (bs ++ bs') := by
  have harch : (⟨A, .flowing (rs ++ rs') torn, s⟩ : Journal).layout.archivedLen =
      (CachedIndex.over serde sha256 as bs).archivedLen := by
    simp [Journal.layout, Journal.counted, Front.pending, CachedIndex.over, stream_eq_lines,
      hA.lines_eq]
  have hwhole : (lines (rs ++ rs')).length = (written serde (bs ++ bs')).length :=
    congrArg List.length (hrs.append hrs').lines_eq
  have hact : ((⟨A, .flowing (rs ++ rs') torn, s⟩ : Journal).work sha256).active =
      lines (rs ++ rs') ++ torn.1 := rfl
  have hcommitted : (CachedIndex.over serde sha256 as bs).committedLen = (written serde bs).length := rfl
  simp only [scanCommittedHistory, harch, hact]
  rw [if_neg (by omega)]
  simp only [bind, Except.bind, hcommitted]
  by_cases hsame : (written serde bs).length = (lines (rs ++ rs')).length
  · rw [if_pos hsame]
    rw [hwhole, written_append, List.length_append] at hsame
    have hnil : bs' = [] :=
      (@written_eq_nil serde bs').1 (List.eq_nil_of_length_eq_zero (by omega))
    simp [hnil, eq_comm]
  · rw [if_neg hsame]
    have hrange := @scanRange_over serde sha256 rs as bs bs' rs' torn.1 hrs hrs' hes hnodup
    constructor
    · intro h
      obtain ⟨j, hj, hi⟩ := bind_eq_ok.1 h
      obtain ⟨hall, rfl⟩ := hrange.1 hj
      refine ⟨hall, ?_⟩
      rw [← Except.ok.inj hi, hwhole]
      rfl
    · rintro ⟨hall, rfl⟩
      refine bind_eq_ok.2 ⟨_, hrange.2 ⟨hall, rfl⟩, ?_⟩
      rw [hwhole]
      rfl

/-- **A scan from nothing** goes through the whole history. -/
theorem scanHistory_all (hA : Holds serde (A.flatMap Chunk.records) as) (hrs : Holds serde rs bs)
    (hes : ∀ e ∈ as ++ bs, serde.Returns e) (hnodup : ((as ++ bs).map Envelope.eventId).Nodup)
    {i : CachedIndex} :
    scanCommittedHistory serde sha256 (⟨A, .flowing rs torn, s⟩ : Journal).layout
      ((⟨A, .flowing rs torn, s⟩ : Journal).work sha256) {} (lines rs).length = .ok i ↔
    (∀ e ∈ as ++ bs, Recordable serde e) ∧ i = .over serde sha256 as bs := by
  have hrest := @scanHistory_rest serde sha256 A [] torn s as [] bs rs hA rfl hrs
    (fun e he => hes e (List.mem_append_right _ he)) (by simpa using hnodup)
  have harch : (⟨A, .flowing rs torn, s⟩ : Journal).layout.archivedLen = (written serde as).length := by
    simp [Journal.layout, Journal.counted, Front.pending, stream_eq_lines, hA.lines_eq]
  simp only [List.nil_append] at hrest
  by_cases hnone : as = []
  · subst hnone
    exact hrest
  have hpos : 0 < (written serde as).length :=
    List.length_pos_iff.2 fun h => hnone (written_eq_nil.1 h)
  have hsources : (⟨A, .flowing rs torn, s⟩ : Journal).layout.sources.filter (·.archived) =
      (files 1 0 A).map fun f =>
        ⟨.segment f.sequence f.startOffset f.endOffset, f.startOffset, f.endOffset, 0, true⟩ := by
    simp only [Journal.layout, Journal.archivedSources, Journal.counted, Front.pending,
      List.append_nil, List.filter_append, List.filter_map]
    split <;> simp [Function.comp_def]
  have hscan := @scanLines_events serde sha256 false {} (A.flatMap Chunk.records) as hA
    (fun e he => hes e (List.mem_append_left _ he))
    (hnodup.sublist ((List.sublist_append_left as bs).map _)) (by simp)
  have hfiles := @scanArchived_files serde sha256 ⟨A, .flowing rs torn, s⟩ A 1 0 {}
    (by simp [Front.moving])
  have hsplit : scanCommittedHistory serde sha256 (⟨A, .flowing rs torn, s⟩ : Journal).layout
      ((⟨A, .flowing rs torn, s⟩ : Journal).work sha256) {} (lines rs).length =
      scanLines serde sha256 false (A.flatMap Chunk.records) {} >>= fun i =>
        scanCommittedHistory serde sha256 (⟨A, .flowing rs torn, s⟩ : Journal).layout
          ((⟨A, .flowing rs torn, s⟩ : Journal).work sha256)
          { i with archivedLen := (written serde as).length } (lines rs).length := by
    simp only [scanCommittedHistory, harch, hsources, hfiles]
    rw [if_pos ⟨trivial, hpos⟩]
    have hzero : ¬ ((written serde as).length = 0 ∧ 0 < (written serde as).length) := by omega
    cases scanLines serde sha256 false (A.flatMap Chunk.records) {} with
    | error e => rfl
    | ok i =>
      simp only [bind, Except.bind, if_neg hzero]
  have hover : { as.foldl (CachedIndex.tell serde sha256 false) {} with
      archivedLen := (written serde as).length } = CachedIndex.over serde sha256 as [] := by
    have hlens := @foldl_tell_lens serde sha256 false {} as 0 0
    have hzero : (as.foldl (CachedIndex.tell serde sha256 false) {}).committedLen = 0 :=
      congrArg CachedIndex.committedLen hlens
    simp [CachedIndex.over, hzero, written]
  rw [hsplit, bind_eq_ok]
  constructor
  · rintro ⟨j, hj, hi⟩
    obtain ⟨hall, rfl⟩ := hscan.1 hj
    rw [hover] at hi
    obtain ⟨hall', rfl⟩ := hrest.1 hi
    exact ⟨fun e he => (List.mem_append.1 he).elim (hall e) (hall' e), rfl⟩
  · rintro ⟨hall, rfl⟩
    refine ⟨_, hscan.2 ⟨fun e he => hall e (List.mem_append_left _ he), rfl⟩, ?_⟩
    rw [hover]
    exact hrest.2 ⟨fun e he => hall e (List.mem_append_right _ he), rfl⟩

/-- What the process remembers is the index of a history the journal has gone through. -/
def Remembers (serde : Serde) (sha256 : Bytes → String) (k : Option CachedIndex)
    (es : List Envelope) : Prop :=
  ∀ i ∈ k, ∃ as bs, as ++ bs <+: es ∧ i = .over serde sha256 as bs

/-- **The cached index brought up to date** is the index of the whole history, if all that is left
to read can be read back. From no index, all is left to read. -/
theorem refreshIndex_over {k : Option CachedIndex} (hA : Holds serde (A.flatMap Chunk.records) as)
    (hrs : Holds serde rs bs) (hes : ∀ e ∈ as ++ bs, serde.Returns e)
    (hnodup : ((as ++ bs).map Envelope.eventId).Nodup) (hk : Remembers serde sha256 k (as ++ bs)) :
    ∃ unread, unread <:+ as ++ bs ∧ (k = none → unread = as ++ bs) ∧ ∀ i,
      refreshIndex serde sha256 (⟨A, .flowing rs torn, s⟩ : Journal).layout
        ((⟨A, .flowing rs torn, s⟩ : Journal).work sha256) k (lines rs).length = .ok i ↔
      (∀ e ∈ unread, Recordable serde e) ∧ i = .over serde sha256 as bs := by
  have hall := fun i => @scanHistory_all serde sha256 A rs torn s as bs hA hrs hes hnodup i
  cases k with
  | none =>
    refine ⟨as ++ bs, List.suffix_rfl, fun _ => rfl, fun i => ?_⟩
    simpa [refreshIndex] using hall i
  | some cached =>
    obtain ⟨as', bs', hprefix, rfl⟩ := hk cached rfl
    have harch : (⟨A, .flowing rs torn, s⟩ : Journal).layout.archivedLen = (written serde as).length := by
      simp [Journal.layout, Journal.counted, Front.pending, stream_eq_lines, hA.lines_eq]
    simp only [refreshIndex, Option.getD_some, harch]
    split
    · exact ⟨as ++ bs, List.suffix_rfl, fun h => (by cases h), hall⟩
    rename_i hsame
    have hlen : (written serde as').length = (written serde as).length :=
      not_not.1 fun h => hsame (.inl h)
    obtain rfl := eq_of_written_length ((List.prefix_append as' bs').trans hprefix)
      (List.prefix_append as bs) hlen
    obtain ⟨bs₂, rfl⟩ := (List.prefix_append_right_inj as').1 hprefix
    obtain ⟨rs₁, rs₂, rfl, hrs₁, hrs₂⟩ := hrs.parts
    rw [← List.append_assoc] at hnodup
    refine ⟨bs₂, ?_, fun h => (by cases h), fun i => ?_⟩
    · rw [← List.append_assoc]
      exact List.suffix_append _ _
    · exact scanHistory_rest hA hrs₁ hrs₂
        (fun e he => hes e (List.mem_append_right _ (List.mem_append_right _ he))) hnodup

end Files

end Orchestrail
