import Orchestrail.Proof.Cursor
import Orchestrail.Proof.Scan
import Orchestrail.Proof.Sight

/-!
# What a poll delivers

A reader that has gone through the first records of a journal and delivered the first occurrence of
every valid event among them goes on in the same way, whatever the writer does meanwhile.
-/

namespace Orchestrail

open Records Text Outcome Watch Journal

section Told

variable (serde : Serde)

/-- The event of a record, if it is a valid one. -/
def eventOf (raw : Bytes) : Option Envelope :=
  (fromUtf8 raw).bind fun text => (parseLine serde (trimmed text)).toOption

/-- The valid events of some records. -/
def told (rs : List Record) : List Envelope := rs.filterMap fun r => eventOf serde r.1

variable {serde}

theorem told_append {rs ss : List Record} :
    told serde (rs ++ ss) = told serde rs ++ told serde ss :=
  List.filterMap_append

end Told

/-- Deliver an event, unless one of its id was delivered. -/
def deliver (delivered : List Envelope) (event : Envelope) : List Envelope :=
  if event.eventId ∈ delivered.map Envelope.eventId then delivered else delivered ++ [event]

/-- The first event of every id, in their order. -/
def firstOccurrences (es : List Envelope) : List Envelope := es.foldl deliver []

theorem mem_ids_foldl_deliver {es D : List Envelope} {id : String} :
    id ∈ (es.foldl deliver D).map Envelope.eventId ↔
      id ∈ D.map Envelope.eventId ∨ id ∈ es.map Envelope.eventId := by
  induction es generalizing D with
  | nil => simp
  | cons e es ih =>
    rw [List.foldl_cons, ih]
    unfold deliver
    by_cases he : e.eventId ∈ D.map Envelope.eventId
    · rw [if_pos he, List.map_cons, List.mem_cons]
      constructor
      · rintro (h | h)
        exacts [.inl h, .inr (.inr h)]
      · rintro (h | rfl | h)
        exacts [.inl h, .inl he, .inr h]
    · rw [if_neg he, List.map_append, List.mem_append, List.map_cons, List.mem_cons, or_assoc]
      simp

theorem mem_ids_firstOccurrences {es : List Envelope} {id : String} :
    id ∈ (firstOccurrences es).map Envelope.eventId ↔ id ∈ es.map Envelope.eventId := by
  simp [firstOccurrences, mem_ids_foldl_deliver]

theorem firstOccurrences_append {es fs : List Envelope} :
    firstOccurrences (es ++ fs) = fs.foldl deliver (firstOccurrences es) :=
  List.foldl_append

/-- The ids of some events. -/
abbrev ids (es : List Envelope) : List String := es.map Envelope.eventId

theorem ids_append {es fs : List Envelope} : ids (es ++ fs) = ids es ++ ids fs := List.map_append

section History

variable {serde : Serde} {id : String}

theorem told_cons {r : Record} {rs : List Record} :
    told serde (r :: rs) = (eventOf serde r.1).toList ++ told serde rs := by
  unfold told
  rw [List.filterMap_cons]
  cases eventOf serde r.1 <;> rfl

theorem length_lines_cons {r : Record} {rs : List Record} :
    (lines (r :: rs)).length = r.1.length + 1 + (lines rs).length := by
  rw [lines_cons, List.length_append, List.length_cons]
  omega

theorem toList_head? {es : List Envelope} (h : es.length ≤ 1) : es.head?.toList = es := by
  cases es with
  | nil => rfl
  | cons e es =>
    obtain rfl := List.eq_nil_of_length_eq_zero (Nat.le_zero.1 (Nat.le_of_succ_le_succ h))
    rfl

/-- **The scan of a range** answers for its records, or refuses. -/
theorem recordsContain_lines (rs : List Record) (t : Bytes) : ∀ fuel, (lines rs).length ≤ fuel →
    Post (recordsContain serde id fuel (lines rs ++ t) (lines rs).length)
      fun b => b = decide (id ∈ ids (told serde rs)) := by
  induction rs with
  | nil =>
    intro fuel _
    have hnil : (lines []).length = 0 := rfl
    rw [hnil]
    cases fuel with
    | zero => exact post_ok.2 rfl
    | succ fuel =>
      rw [recordsContain, if_pos rfl]
      exact post_ok.2 rfl
  | cons r rs ih =>
    intro fuel hfuel
    rw [length_lines_cons] at hfuel ⊢
    cases fuel with
    | zero => omega
    | succ fuel =>
      have hpos : ¬ r.1.length + 1 + (lines rs).length = 0 := by omega
      have hbytes : lines (r :: rs) ++ t = r.1 ++ newline :: (lines rs ++ t) := by
        rw [lines_cons, List.append_assoc, List.cons_append]
      rw [recordsContain, if_neg hpos, hbytes, readUntil_take r.2]
      set window := min (r.1.length + 1 + (lines rs).length) (maxPollBytes + 2)
      rw [post_bind]
      intro _ _
      rw [post_bind]
      intro _ hclosed
      obtain ⟨hlast, -⟩ := demand_eq_ok.1 hclosed
      -- only a window that shows the newline lets the record through
      have hwhole : (r.1 ++ [newline]).take window = r.1 ++ [newline] := by
        by_cases hw : r.1.length + 1 ≤ window
        · exact List.take_of_length_le (by simpa using hw)
        · rw [List.take_append_of_le_length (by omega)] at hlast
          exact absurd (List.mem_of_mem_take (List.mem_of_getLast? hlast)) r.2
      rw [hwhole]
      have hrest : (r.1 ++ newline :: (lines rs ++ t)).drop (r.1 ++ [newline]).length =
          lines rs ++ t := by
        have happend : r.1 ++ newline :: (lines rs ++ t) =
            (r.1 ++ [newline]) ++ (lines rs ++ t) := by simp
        rw [happend, List.drop_left]
      have hcount : r.1.length + 1 + (lines rs).length - (r.1 ++ [newline]).length =
          (lines rs).length := by
        simp
      rw [hrest, hcount, List.dropLast_concat]
      have hgo : ∀ {es : List Envelope}, eventOf serde r.1 = es.head? → es.length ≤ 1 →
          id ∉ ids es → Post (recordsContain serde id fuel (lines rs ++ t) (lines rs).length)
            fun b => b = decide (id ∈ ids (told serde (r :: rs))) := by
        intro es hes hlen hid
        refine (ih fuel (by omega)).mono fun b hb => ?_
        have hlist : (eventOf serde r.1).toList = es := by rw [hes, toList_head? hlen]
        rw [hb, told_cons, hlist, ids_append]
        exact decide_eq_decide.2
          ⟨List.mem_append_right _, fun h => (List.mem_append.1 h).resolve_left hid⟩
      cases htext : fromUtf8 r.1 with
      | none =>
        have hevent : eventOf serde r.1 = none := by
          rw [eventOf, htext]
          rfl
        simp only [Bool.false_eq_true, if_false]
        exact @hgo [] hevent (Nat.zero_le _) List.not_mem_nil
      | some text =>
        cases hparse : parseLine serde (trimmed text) with
        | error e =>
          have hevent : eventOf serde r.1 = none := by
            rw [eventOf, htext, Option.bind_some, hparse]
            rfl
          simp only [hparse, Bool.false_eq_true, if_false]
          exact @hgo [] hevent (Nat.zero_le _) List.not_mem_nil
        | ok event =>
          have hevent : eventOf serde r.1 = some event := by
            rw [eventOf, htext, Option.bind_some, hparse]
            rfl
          by_cases hid : event.eventId = id
          · simp only [hparse, hid, decide_true, if_true, post_ok]
            rw [told_cons, hevent]
            exact (decide_eq_true (List.mem_map.2 ⟨event, List.mem_cons_self, hid⟩)).symm
          · simp only [hparse, hid, decide_false, Bool.false_eq_true, if_false]
            have hother : id ∉ ids [event] := fun h => hid (List.mem_singleton.1 h).symm
            exact @hgo [event] hevent le_rfl hother

end History

/-! ## Looking back -/

section Patience

variable {serde : Serde} {sha256 : Bytes → String} {reader : TailReader}

theorem historyContains_patient {committedEnd : Nat} {id : String}
    (sources : List EventStreamSource) :
    Patient (historyContains serde committedEnd id sources) := by
  induction sources with
  | nil => exact patient_pure
  | cons source sources ih =>
    unfold historyContains
    split
    · refine patient_bind patient_look fun _ => patient_bind patient_give fun _ =>
        patient_bind patient_give fun found => ?_
      cases found
      · exact ih
      · exact patient_pure
    · exact patient_pure

theorem isDuplicate_patient {layout : EventStreamLayout} {lineStart : Nat} {batch : PollBatch}
    {id : String} : Patient (reader.isDuplicate serde sha256 layout lineStart batch id) := by
  unfold TailReader.isDuplicate
  split
  · exact patient_pure
  · split
    · exact historyContains_patient _
    · exact patient_pure

theorem classifyLine_patient {raw : Bytes} {layout : EventStreamLayout} {lineStart : Nat}
    {batch : PollBatch} :
    Patient (reader.classifyLine serde sha256 raw lineStart layout batch) := by
  unfold TailReader.classifyLine
  cases fromUtf8 raw with
  | none => exact patient_pure
  | some text =>
    dsimp only
    split
    · exact patient_pure
    · cases parseLine serde (trimmed text) with
      | error e => exact patient_pure
      | ok event =>
        refine patient_bind isDuplicate_patient fun duplicate => ?_
        cases duplicate <;> exact patient_pure

theorem classifyLines_patient {layout : EventStreamLayout} (raws : List Bytes) :
    ∀ (lineStart : Nat) (batch : PollBatch),
      Patient (reader.classifyLines serde sha256 layout raws lineStart batch) := by
  induction raws with
  | nil => exact fun _ _ => patient_pure
  | cons raw raws ih =>
    exact fun _ _ => patient_bind classifyLine_patient fun batch => ih _ batch

theorem interpret_patient {buf : Bytes} {source : EventStreamSource} {unread readLen : Nat}
    {layout : EventStreamLayout} :
    Patient (reader.interpret serde sha256 buf source unread readLen layout) := by
  unfold TailReader.interpret
  dsimp only
  exact patient_bind (classifyLines_patient _ _ _) fun _ =>
    patient_bind patient_give fun _ => patient_bind patient_give fun _ => patient_pure

end Patience

theorem startOffset_le {k start : Nat} {cs : List Chunk} {f : ArchiveFile}
    (h : f ∈ files k start cs) : start ≤ f.startOffset := by
  induction cs generalizing k start with
  | nil => cases h
  | cons c cs ih =>
    rcases List.mem_cons.1 h with rfl | h
    · exact le_rfl
    · exact (Nat.le_add_right _ _).trans (ih h)

/-- The source of an archived file. -/
def sourceOf (f : ArchiveFile) : EventStreamSource :=
  ⟨.segment f.sequence f.startOffset f.endOffset, f.startOffset, f.endOffset, 0, true⟩

section Back

variable {serde : Serde} {sha256 : Bytes → String} {sight : Nat → Work} {id : String}
  {last n : Nat}

/-- Nothing is looked for beyond the boundary. -/
theorem historyContains_behind {committedEnd : Nat} {sources : List EventStreamSource}
    (h : ∀ source ∈ sources, committedEnd ≤ source.startOffset) :
    Till sight last (historyContains serde committedEnd id sources) n fun b => b = false := by
  cases sources with
  | nil => exact till_pure rfl
  | cons source sources =>
    have hle := h source List.mem_cons_self
    rw [historyContains, if_neg (by omega)]
    exact till_pure rfl

/-- One source: what it has of the records, and then the others. -/
theorem historyContains_source {committedEnd : Nat} {source : EventStreamSource}
    {sources : List EventStreamSource} {rs ss : List Record}
    (hstart : source.startOffset < committedEnd)
    (hlen : min source.endOffset committedEnd - source.startOffset = (lines rs).length)
    (hfile : ∀ m, n ≤ m → m < last → ∃ t, ∀ file, openExisting (sight m) source.path = .ok file →
      file.drop source.physicalStart = lines rs ++ t)
    (hrest : ∀ m, n ≤ m → m ≤ last →
      Till sight last (historyContains serde committedEnd id sources) m
        fun b => b = decide (id ∈ ids (told serde ss))) :
    Till sight last (historyContains serde committedEnd id (source :: sources)) n
      fun b => b = decide (id ∈ ids (told serde (rs ++ ss))) := by
  rw [historyContains, if_pos hstart]
  dsimp only
  refine till_bind (P := fun work => ∃ t, ∀ file, openExisting work source.path = .ok file →
      file.drop source.physicalStart = lines rs ++ t) patient_look ?_ ?_ ?_
  · refine fun _ => patient_bind patient_give fun _ => patient_bind patient_give fun found => ?_
    cases found
    · exact historyContains_patient _
    · exact patient_pure
  · exact till_look fun hn => hfile n le_rfl hn
  rintro work m hnm hm ⟨t, hwork⟩
  refine till_bind (P := fun file => file.drop source.physicalStart = lines rs ++ t) patient_give ?_
    (till_give hwork) ?_
  · refine fun _ => patient_bind patient_give fun found => ?_
    cases found
    · exact historyContains_patient _
    · exact patient_pure
  rintro file m' hmm' hm' hdrop
  refine till_bind (P := fun b => b = decide (id ∈ ids (told serde rs))) patient_give ?_
    (till_give ?_) ?_
  · intro found
    cases found
    · exact historyContains_patient _
    · exact patient_pure
  · rw [hdrop, hlen]
    exact recordsContain_lines rs t _ le_rfl
  rintro found m'' hle hm'' rfl
  by_cases hid : id ∈ ids (told serde rs)
  · simp only [hid, decide_true, if_true]
    refine till_pure ?_
    rw [told_append, ids_append]
    exact (decide_eq_true (List.mem_append_left _ hid)).symm
  · simp only [hid, decide_false, Bool.false_eq_true, if_false]
    have hnext := hrest m'' (by omega) hm''
    have hsame : decide (id ∈ ids (told serde (rs ++ ss))) = decide (id ∈ ids (told serde ss)) := by
      rw [told_append, ids_append]
      exact decide_eq_decide.2
        ⟨fun h => (List.mem_append.1 h).resolve_left hid, List.mem_append_right _⟩
    rw [hsame]
    exact hnext

/-- The archive, source by source, and what stands behind it. -/
theorem historyContains_files {tail : List EventStreamSource} {ahead : List Record} {first : Nat}
    (cs : List Chunk) : ∀ (k start n : Nat) (rs : List Record), first ≤ n →
    (∀ f ∈ files k start cs, ∀ m, first ≤ m → m < last →
      openExisting (sight m) (sourceOf f).path = .ok f.bytes) →
    rs <+: cs.flatMap Chunk.records ++ ahead →
    (∀ source ∈ tail, start + (stream cs).length ≤ source.startOffset) →
    (∀ ss m, first ≤ m → m ≤ last → rs = cs.flatMap Chunk.records ++ ss →
      Till sight last (historyContains serde (start + (lines rs).length) id tail) m
        fun b => b = decide (id ∈ ids (told serde ss))) →
    Till sight last
      (historyContains serde (start + (lines rs).length) id
        ((files k start cs).map sourceOf ++ tail)) n
        fun b => b = decide (id ∈ ids (told serde rs)) := by
  induction cs with
  | nil =>
    intro k start n rs hn _ _ _ htail
    by_cases hlast : n ≤ last
    · exact htail rs n hn hlast rfl
    · exact till_of_late (historyContains_patient _) fun h => absurd h hlast
  | cons c cs ih =>
    intro k start n rs hn hopen hrs htail hgo
    have hbehind : ∀ source ∈ (files (k + 1) (start + c.bytes.length) cs).map sourceOf ++ tail,
        start + c.bytes.length ≤ source.startOffset := by
      intro source hsource
      rcases List.mem_append.1 hsource with hsource | hsource
      · obtain ⟨f, hf, rfl⟩ := List.mem_map.1 hsource
        exact startOffset_le hf
      · have hle := htail source hsource
        rw [stream, List.flatMap_cons, List.length_append] at hle
        omega
    have hfile : ∀ m, n ≤ m → m < last →
        openExisting (sight m) (.segment k start (start + c.bytes.length)) = .ok c.bytes :=
      fun m hm hlast => hopen ⟨k, start, start + c.bytes.length, c.bytes⟩ List.mem_cons_self m
        (hn.trans hm) hlast
    rw [List.flatMap_cons, List.append_assoc] at hrs
    by_cases hnone : rs = []
    · subst hnone
      have hnil : start + (lines []).length = start := Nat.add_zero _
      rw [hnil]
      refine historyContains_behind fun source hsource => ?_
      rcases List.mem_cons.1 hsource with rfl | hsource
      · exact le_rfl
      · have := hbehind source hsource
        omega
    have hpos : 0 < (lines rs).length := List.length_pos_iff.2 fun h => hnone (lines_eq_nil.1 h)
    rcases List.prefix_or_prefix_of_prefix hrs (List.prefix_append c.records _) with hin | hover
    · -- the boundary is in this chunk
      obtain ⟨ss, hss⟩ := hin
      have hbytes : c.bytes = lines rs ++ lines ss := by rw [Chunk.bytes, ← hss, lines_append]
      have hlength : c.bytes.length = (lines rs).length + (lines ss).length := by
        rw [hbytes, List.length_append]
      have hall : rs = rs ++ [] := (List.append_nil _).symm
      rw [hall]
      refine historyContains_source ?_ ?_ ?_ ?_
      · rw [← hall]
        simp only [sourceOf]
        omega
      · rw [← hall]
        simp only [sourceOf]
        omega
      · intro m hm hlast
        refine ⟨lines ss, fun file hfound => ?_⟩
        obtain rfl := Except.ok.inj ((hfile m hm hlast).symm.trans hfound)
        exact hbytes
      · intro m hm hlast
        rw [← hall]
        exact historyContains_behind fun source hsource => (by
          have := hbehind source hsource
          omega)
    · -- the boundary is behind this chunk
      obtain ⟨rs', rfl⟩ := hover
      have hlength : (lines (c.records ++ rs')).length = c.bytes.length + (lines rs').length := by
        rw [lines_append, List.length_append]
        rfl
      refine historyContains_source ?_ ?_ ?_ ?_
      · simp only [sourceOf]
        omega
      · simp only [sourceOf, hlength, Chunk.bytes]
        omega
      · intro m hm hlast
        refine ⟨[], fun file hfound => ?_⟩
        obtain rfl := Except.ok.inj ((hfile m hm hlast).symm.trans hfound)
        rw [List.append_nil]
        rfl
      · intro m hm hlast
        have hmore : start + (lines (c.records ++ rs')).length =
            start + c.bytes.length + (lines rs').length := by omega
        rw [hmore]
        refine ih (k + 1) (start + c.bytes.length) m rs' (hn.trans hm)
          (fun f hf => hopen f (List.mem_cons_of_mem _ hf)) ?_ ?_ ?_
        · exact (List.prefix_append_right_inj _).1 hrs
        · intro source hsource
          have hle := htail source hsource
          rw [stream, List.flatMap_cons, List.length_append] at hle
          rw [stream]
          omega
        · intro ss m' hm' hlast' hss
          rw [← hmore]
          refine hgo ss m' hm' hlast' ?_
          rw [hss, List.flatMap_cons, List.append_assoc]

variable (line : Timeline sha256 sight) {p q : Nat}

open Journal

/-- **The confirmation of a filter hit is exact**, in one archive. -/
theorem historyContains_till {rs : List Record} (hpq : p ≤ q) (hqn : q ≤ n)
    (hgen : (line.journal last).generation = (line.journal p).generation)
    (hrs : rs <+: (line.journal q).records)
    (hend : (lines rs).length ≤ (line.journal p).layout.logicalLen) :
    Till sight last
      (historyContains serde (lines rs).length id (line.journal p).layout.sources) n
      fun b => b = decide (id ∈ ids (told serde rs)) := by
  refine till_of_late (historyContains_patient _) fun hlast => ?_
  have hsame : ∀ m, p ≤ m → m ≤ last → Same (line.journal p) (line.journal m) :=
    fun m hm hle => line.same_between hm hle hgen
  have hq := hsame q hpq (hqn.trans hlast)
  have hstart : (lines rs).length = 0 + (lines rs).length := (Nat.zero_add _).symm
  rw [records_eq, hq.counted] at hrs
  rw [hstart]
  refine historyContains_files (line.journal p).counted 1 0 n rs le_rfl ?_ hrs ?_ ?_
  · intro f hf m hm hlt
    have hm' := hsame m (hpq.trans (hqn.trans hm)) hlt.le
    rw [line.seen m]
    exact openExisting_file (mem_visible (by rw [hm'.counted]; exact hf))
  · intro source hsource
    split at hsource
    · obtain rfl := List.mem_singleton.1 hsource
      simp
    · cases hsource
  · rintro ss m hm hle rfl
    rw [← hstart]
    have hlines : (lines ((line.journal p).counted.flatMap Chunk.records ++ ss)).length =
        (stream (line.journal p).counted).length + (lines ss).length := by
      rw [lines_append, List.length_append, stream_eq_lines]
    have hss : ss <+: (line.journal q).ahead := (List.prefix_append_right_inj _).1 hrs
    have hlogical : (line.journal p).layout.logicalLen =
        (stream (line.journal p).counted).length + (line.journal p).live.length := rfl
    by_cases hempty : ss = []
    · subst hempty
      refine historyContains_behind fun source hsource => ?_
      have hnil : (lines []).length = 0 := rfl
      split at hsource
      · obtain rfl := List.mem_singleton.1 hsource
        simp only
        omega
      · cases hsource
    have hpos : 0 < (lines ss).length := List.length_pos_iff.2 fun h => hempty (lines_eq_nil.1 h)
    have hlive : 0 < (line.journal p).live.length := by omega
    obtain ⟨hskipped, hpending⟩ := active_of_live (List.length_pos_iff.1 hlive)
    rw [if_pos hlive]
    have hall : ss = ss ++ [] := (List.append_nil _).symm
    rw [hall]
    refine historyContains_source ?_ ?_ ?_ ?_
    · rw [← hall]
      simp only
      omega
    · rw [← hall]
      simp only
      omega
    · intro m' hmm' hlt
      have hnow := hsame m' (by omega) hlt.le
      have hahead := hss.trans ((line.later_le (by omega)).ahead
        (hq.symm.trans hnow))
      obtain ⟨more, hmore⟩ := hahead
      refine ⟨lines more ++ (line.journal m').front.torn.1, fun file hfile => ?_⟩
      rw [line.seen m'] at hfile
      obtain rfl := Except.ok.inj hfile
      have hactive : ((line.journal m').work sha256).active = (line.journal m').front.active := rfl
      rw [hskipped, List.drop_zero, hactive, active_eq (hnow.pending.trans hpending), ← hmore,
        lines_append, List.append_assoc]
    · exact fun m' _ _ => till_pure rfl

end Back

/-! ## Going on -/

/-- A reader that has gone through some records and delivered the first events of them. -/
structure Caught (serde : Serde) (sha256 : Bytes → String) (reader : TailReader)
    (delivered : List Envelope) (rs : List Record) : Prop where
  offset : reader.offset = (lines rs).length
  bounded : reader.offset ≤ u64Max
  firsts : delivered = firstOccurrences (told serde rs)
  recent : ∀ id ∈ reader.recent.order, id ∈ ids delivered
  filter : ∀ id ∈ ids delivered, reader.dedupeFilter.maybeContains sha256 id = true

/-- A batch that brings what was delivered up to these records. -/
structure Gathers (serde : Serde) (delivered : List Envelope) (rs : List Record)
    (batch : PollBatch) : Prop where
  events : delivered ++ batch.events = firstOccurrences (told serde rs)
  deliveredIds : batch.deliveredIds = ids batch.events

section Going

variable {serde : Serde} {sha256 : Bytes → String} {sight : Nat → Work} {last n : Nat}
  {line : Timeline sha256 sight} {p q : Nat} {reader : TailReader} {D : List Envelope}
  {rs₀ rs ss : List Record} {batch : PollBatch}

theorem Gathers.mem_ids (h : Gathers serde D rs batch) {id : String} :
    id ∈ ids (told serde rs) ↔ id ∈ ids D ∨ id ∈ batch.deliveredIds := by
  rw [← mem_ids_firstOccurrences, ← h.events, h.deliveredIds, List.map_append, List.mem_append]

/-- **The duplicate check is exact.** -/
theorem isDuplicate_till (hpq : p ≤ q) (hqn : q ≤ n)
    (hgen : (line.journal last).generation = (line.journal p).generation)
    (hrs : rs <+: (line.journal q).records)
    (hend : (lines rs).length ≤ (line.journal p).layout.logicalLen)
    (hc : Caught serde sha256 reader D rs₀) (hb : Gathers serde D rs batch) {id : String} :
    Till sight last
      (reader.isDuplicate serde sha256 (line.journal p).layout (lines rs).length batch id) n
      fun b => b = decide (id ∈ ids (told serde rs)) := by
  unfold TailReader.isDuplicate
  split
  · rename_i hknown
    refine till_pure (decide_eq_true (hb.mem_ids.2 ?_)).symm
    rcases Bool.or_eq_true_iff.1 hknown with hrecent | hbatch
    · exact .inl (hc.recent id (List.contains_iff_mem.1 hrecent))
    · exact .inr (List.contains_iff_mem.1 hbatch)
  · rename_i hunknown
    split
    · exact historyContains_till line hpq hqn hgen hrs hend
    · rename_i hfilter
      refine till_pure (decide_eq_false fun hin => ?_).symm
      rcases hb.mem_ids.1 hin with hold | hbatch
      · exact hfilter (hc.filter id hold)
      · exact hunknown (Bool.or_eq_true_iff.2 (.inr (List.contains_iff_mem.2 hbatch)))

/-- Nothing is delivered of a record without an event. -/
theorem Gathers.silent (h : Gathers serde D rs batch) {r : Record} (hr : eventOf serde r.1 = none)
    {batch' : PollBatch} (hevents : batch'.events = batch.events)
    (hids : batch'.deliveredIds = batch.deliveredIds) : Gathers serde D (rs ++ [r]) batch' := by
  have htold : told serde (rs ++ [r]) = told serde rs := by
    rw [told_append, told_cons, hr]
    exact List.append_nil _
  refine ⟨?_, by rw [hids, hevents, h.deliveredIds]⟩
  rw [htold, hevents, h.events]

theorem firstOccurrences_concat {r : Record} {event : Envelope}
    (hr : eventOf serde r.1 = some event) :
    firstOccurrences (told serde (rs ++ [r])) =
      deliver (firstOccurrences (told serde rs)) event := by
  have htold : told serde (rs ++ [r]) = told serde rs ++ [event] := by
    rw [told_append, told_cons, hr]
    rfl
  rw [htold, firstOccurrences_append]
  rfl

/-- A repeated event is passed over. -/
theorem Gathers.repeated (h : Gathers serde D rs batch) {r : Record} {event : Envelope}
    (hr : eventOf serde r.1 = some event) (hid : event.eventId ∈ ids (told serde rs))
    {batch' : PollBatch} (hevents : batch'.events = batch.events)
    (hids : batch'.deliveredIds = batch.deliveredIds) : Gathers serde D (rs ++ [r]) batch' := by
  refine ⟨?_, by rw [hids, hevents, h.deliveredIds]⟩
  rw [firstOccurrences_concat hr, deliver, if_pos (mem_ids_firstOccurrences.2 hid), hevents,
    h.events]

/-- A new event is delivered. -/
theorem Gathers.fresh (h : Gathers serde D rs batch) {r : Record} {event : Envelope}
    (hr : eventOf serde r.1 = some event) (hid : event.eventId ∉ ids (told serde rs))
    {batch' : PollBatch} (hevents : batch'.events = batch.events ++ [event])
    (hids : batch'.deliveredIds = batch.deliveredIds ++ [event.eventId]) :
    Gathers serde D (rs ++ [r]) batch' := by
  refine ⟨?_, by rw [hids, hevents, h.deliveredIds, ids_append]; rfl⟩
  rw [firstOccurrences_concat hr, deliver, if_neg fun hin => hid (mem_ids_firstOccurrences.1 hin),
    hevents, ← h.events, List.append_assoc]

theorem classifyLine_till (hpq : p ≤ q) (hqn : q ≤ n)
    (hgen : (line.journal last).generation = (line.journal p).generation)
    (hrs : rs <+: (line.journal q).records)
    (hend : (lines rs).length ≤ (line.journal p).layout.logicalLen)
    (hc : Caught serde sha256 reader D rs₀) (hb : Gathers serde D rs batch) (r : Record) :
    Till sight last
      (reader.classifyLine serde sha256 r.1 (lines rs).length (line.journal p).layout batch) n
      (Gathers serde D (rs ++ [r])) := by
  unfold TailReader.classifyLine
  cases htext : fromUtf8 r.1 with
  | none =>
    have hnone : eventOf serde r.1 = none := by
      rw [eventOf, htext]
      rfl
    exact till_pure (hb.silent hnone rfl rfl)
  | some text =>
    dsimp only
    have hevent : eventOf serde r.1 = (parseLine serde (trimmed text)).toOption := by
      rw [eventOf, htext, Option.bind_some]
    split
    · rename_i hblank
      have hempty : trimmed "" = "" := by decide
      have hnone : eventOf serde r.1 = none := by
        rw [hevent, hblank]
        unfold parseLine
        rw [hempty]
        rfl
      exact till_pure (hb.silent hnone rfl rfl)
    · cases hparse : parseLine serde (trimmed text) with
      | error e =>
        have hnone : eventOf serde r.1 = none := by
          rw [hevent, hparse]
          rfl
        exact till_pure (hb.silent hnone rfl rfl)
      | ok event =>
        have hsome : eventOf serde r.1 = some event := by
          rw [hevent, hparse]
          rfl
        refine till_bind isDuplicate_patient ?_
          (isDuplicate_till hpq hqn hgen hrs hend hc hb) ?_
        · intro duplicate
          cases duplicate <;> exact patient_pure
        rintro duplicate m hnm hm rfl
        by_cases hid : event.eventId ∈ ids (told serde rs)
        · simp only [hid, decide_true, if_true]
          exact till_pure (hb.repeated hsome hid rfl rfl)
        · simp only [hid, decide_false, Bool.false_eq_true, if_false]
          exact till_pure (hb.fresh hsome hid rfl rfl)

/-- **The lines of a buffer** bring the delivery up to their records. -/
theorem classifyLines_till (hpq : p ≤ q)
    (hgen : (line.journal last).generation = (line.journal p).generation)
    (hc : Caught serde sha256 reader D rs₀) (ss : List Record) : ∀ (n : Nat) (rs : List Record)
    (batch : PollBatch), q ≤ n → rs ++ ss <+: (line.journal q).records →
    (lines (rs ++ ss)).length ≤ (line.journal p).layout.logicalLen →
    Gathers serde D rs batch →
    Till sight last
      (reader.classifyLines serde sha256 (line.journal p).layout (ss.map Subtype.val)
        (lines rs).length batch) n
      (Gathers serde D (rs ++ ss)) := by
  induction ss with
  | nil =>
    intro n rs batch _ _ _ hb
    rw [List.append_nil]
    exact till_pure hb
  | cons r ss ih =>
    intro n rs batch hqn hrs hend hb
    have hsplit : rs ++ r :: ss = (rs ++ [r]) ++ ss := by simp
    have hrs' : rs <+: (line.journal q).records := (List.prefix_append rs _).trans hrs
    have hend' : (lines rs).length ≤ (line.journal p).layout.logicalLen := by
      rw [lines_append, List.length_append] at hend
      omega
    rw [List.map_cons, TailReader.classifyLines]
    refine till_bind classifyLine_patient (fun batch => classifyLines_patient _ _ batch)
      (classifyLine_till hpq hqn hgen hrs' hend' hc hb r) ?_
    intro batch' m hnm hm hb'
    have hnext : (lines rs).length + r.1.length + 1 = (lines (rs ++ [r])).length := by
      rw [lines_append, List.length_append, lines_singleton, List.length_append]
      rfl
    rw [hnext, hsplit]
    rw [hsplit] at hrs hend
    exact ih m (rs ++ [r]) batch' (hqn.trans hnm) hrs hend hb'

/-! ## One attempt -/

/-- What an attempt brings: some more records, none only where there is none. -/
def Brings (serde : Serde) (D : List Envelope) (now : List Record) (rs : List Record)
    (later : List Record) (batch : PollBatch) : Prop :=
  ∃ ss, rs ++ ss <+: later ∧ batch.consumed = (lines ss).length ∧
    (lines (rs ++ ss)).length ≤ u64Max ∧ Gathers serde D (rs ++ ss) batch ∧ (ss = [] → now = rs)

theorem gathers_nil (hc : Caught serde sha256 reader D rs) : Gathers serde D rs {} :=
  ⟨(List.append_nil D).trans hc.firsts, rfl⟩

/-- A buffer is read up to its last newline. -/
theorem interpret_till {buf : Bytes} {source : EventStreamSource} {unread readLen : Nat}
    {tail : Bytes} (hpq : p ≤ q) (hqn : q ≤ n)
    (hgen : (line.journal last).generation = (line.journal p).generation)
    (hc : Caught serde sha256 reader D rs) (hbuf : buf = lines ss ++ tail) (htail : newline ∉ tail)
    (hrs : rs ++ ss <+: (line.journal q).records)
    (hend : (lines (rs ++ ss)).length ≤ (line.journal p).layout.logicalLen) :
    Till sight last
      (reader.interpret serde sha256 buf source unread readLen (line.journal p).layout) n
      fun batch => batch.consumed = (lines ss).length ∧ Gathers serde D (rs ++ ss) batch ∧
        ¬ ((lines ss).length = 0 ∧ readLen = maxPollBytes ∧ readLen < unread) ∧
        ¬ (source.archived = true ∧ (lines ss).length < buf.length ∧ readLen = unread) := by
  have hcut : cut newline buf = (ss.map Subtype.val, tail) := by
    rw [hbuf]
    refine cut_joined (fun r hr => ?_) htail
    obtain ⟨r, -, rfl⟩ := List.mem_map.1 hr
    exact r.2
  have hconsumed : buf.length - tail.length = (lines ss).length := by
    rw [hbuf, List.length_append]
    omega
  unfold TailReader.interpret
  simp only [hcut, hconsumed]
  refine till_bind (classifyLines_patient _ _ _)
    (fun _ => patient_bind patient_give fun _ => patient_bind patient_give fun _ => patient_pure)
    (P := Gathers serde D (rs ++ ss)) ?_ ?_
  · rw [hc.offset]
    exact classifyLines_till hpq hgen hc ss n rs {} hqn hrs hend (gathers_nil hc)
  intro batch m hnm hm hb
  refine till_bind patient_give (fun _ => patient_bind patient_give fun _ => patient_pure)
    (P := fun _ => ¬ ((lines ss).length = 0 ∧ readLen = maxPollBytes ∧ readLen < unread))
    (till_give fun _ h => demand_eq_ok.1 h) ?_
  intro _ m' _ _ hlong
  refine till_bind patient_give (fun _ => patient_pure)
    (P := fun _ => ¬ (source.archived = true ∧ (lines ss).length < buf.length ∧ readLen = unread))
    (till_give fun _ h => demand_eq_ok.1 h) ?_
  intro _ m'' _ _ hclosed
  exact till_pure ⟨rfl, ⟨hb.events, hb.deliveredIds⟩, hlong, hclosed⟩

theorem mem_files_stream {k start : Nat} {cs : List Chunk} {f : ArchiveFile}
    (h : f ∈ files k start cs) : ∃ before after, stream cs = before ++ (f.bytes ++ after) ∧
      f.startOffset = start + before.length ∧ f.endOffset = f.startOffset + f.bytes.length := by
  induction cs generalizing k start with
  | nil => cases h
  | cons c cs ih =>
    rcases List.mem_cons.1 h with rfl | h
    · exact ⟨[], stream cs, rfl, rfl, rfl⟩
    · obtain ⟨before, after, hstream, hstart, hend⟩ := ih h
      refine ⟨c.bytes ++ before, after, ?_, ?_, hend⟩
      · have hcons : stream (c :: cs) = c.bytes ++ stream cs := by simp [stream]
        rw [hcons, hstream, List.append_assoc]
      · rw [hstart, List.length_append]
        omega

/-- What a source shows is a part of the logical stream. -/
theorem source_shows {j t : Journal} (hsame : j.Same t) {source : EventStreamSource}
    (hsource : source ∈ j.layout.sources) {file : Bytes}
    (hopen : openExisting (t.work sha256) source.path = .ok file) {offset count : Nat}
    (hstart : source.startOffset ≤ offset) (hend : offset + count ≤ source.endOffset) :
    (file.drop (source.physicalStart + (offset - source.startOffset))).take count =
        ((lines t.records ++ t.front.torn.1).drop offset).take count ∧
      source.endOffset ≤ j.layout.logicalLen ∧
      (source.archived = false → source.endOffset = j.layout.logicalLen) := by
  have hlogical : j.layout.logicalLen = (stream j.counted).length + j.live.length := rfl
  rw [← stream_live, hsame.counted]
  rcases List.mem_append.1 hsource with hsource | hsource
  · obtain ⟨f, hf, rfl⟩ := List.mem_map.1 hsource
    have hfile : openExisting (t.work sha256)
        (.segment f.sequence f.startOffset f.endOffset) = .ok f.bytes :=
      openExisting_file (mem_visible (by rw [hsame.counted]; exact hf))
    obtain rfl := Except.ok.inj (hfile.symm.trans hopen)
    obtain ⟨before, after, hstream, hbefore, hafter⟩ := mem_files_stream hf
    have hlen : (stream j.counted).length =
        before.length + (f.bytes.length + after.length) := by
      rw [hstream, List.length_append, List.length_append]
    simp only at hstart hend ⊢
    refine ⟨?_, by omega, by rintro ⟨⟩⟩
    have hoffset : offset = before.length + (offset - f.startOffset) := by omega
    have hshort : offset - f.startOffset ≤ f.bytes.length := by omega
    rw [hstream, Nat.zero_add]
    conv_rhs => rw [hoffset, List.append_assoc, List.drop_append, List.drop_of_length_le (by omega),
      List.nil_append, Nat.add_sub_cancel_left, List.append_assoc,
      List.drop_append_of_le_length hshort,
      List.take_append_of_le_length (by rw [List.length_drop]; omega)]
  · split at hsource
    · rename_i hlive
      obtain rfl := List.mem_singleton.1 hsource
      obtain ⟨hskipped, hpending⟩ := active_of_live (List.length_pos_iff.1 hlive)
      obtain rfl := Except.ok.inj hopen
      have hactive : (t.work sha256).active = t.live := by
        rw [live_eq]
        exact active_eq (hsame.pending.trans hpending)
      simp only at hstart hend ⊢
      refine ⟨?_, by omega, fun _ => by omega⟩
      rw [hskipped, Nat.zero_add, hactive]
      conv_rhs => rw [List.drop_append, List.drop_of_length_le hstart, List.nil_append]
    · cases hsource

theorem sees_patient {prog : Looks PollBatch} {Q : Io PollBatch → Nat → Prop} (hp : Patient prog)
    (h : Sees prog sight n Q) : Sees prog sight n fun r m => n ≤ m ∧ Q r m :=
  ⟨hp sight n, h⟩

theorem sees_of_till {prog : Looks PollBatch} {P : PollBatch → Prop} {ok : Nat → Prop}
    (h : ∀ last, ok last → Till sight last prog n P) :
    Sees prog sight n fun r m => ok m → ∀ a, r = .ok a → P a :=
  fun hm => h _ hm le_rfl

/-- Records that are no longer than others that begin with them are these. -/
theorem eq_of_lines_le {rs ts : List Record} (h : rs <+: ts)
    (hlen : (lines ts).length ≤ (lines rs).length) : ts = rs := by
  obtain ⟨ss, rfl⟩ := h
  rw [lines_append, List.length_append] at hlen
  have hnil : lines ss = [] := List.eq_nil_of_length_eq_zero (by omega)
  rw [lines_eq_nil.1 hnil, List.append_nil]

/-- The interpretation of a window, if the archive stands still till the end of it. -/
theorem window_till {source : EventStreamSource} {file : Bytes} (hnp : n ≤ p) (hpq : p ≤ q)
    (hc : Caught serde sha256 reader D rs) (hrs : rs <+: (line.journal n).records)
    (hcounts : (line.journal p).layout.logicalLen ≤ u64Max)
    (hsource : source ∈ (line.journal p).layout.sources)
    (hstart : source.startOffset ≤ reader.offset) (hbefore : reader.offset < source.endOffset)
    (hopen : openExisting (sight q) source.path = .ok file)
    (hlong : ¬ file.length < source.physicalStart + (reader.offset - source.startOffset) +
      min (source.endOffset - reader.offset) maxPollBytes)
    (hgen : (line.journal last).generation = (line.journal p).generation) :
    Till sight last
      (reader.interpret serde sha256
        ((file.drop (source.physicalStart + (reader.offset - source.startOffset))).take
          (min (source.endOffset - reader.offset) maxPollBytes)) source
        (source.endOffset - reader.offset) (min (source.endOffset - reader.offset) maxPollBytes)
        (line.journal p).layout) (q + 1)
      (Brings serde D (line.journal n).records rs (line.journal q).records) := by
  refine till_of_late interpret_patient fun hlast => ?_
  have hsame : Journal.Same (line.journal p) (line.journal q) :=
    line.same_between hpq (by omega) hgen
  set readLen := min (source.endOffset - reader.offset) maxPollBytes with hreadLen
  have hpositive : 0 < readLen := by
    have : 0 < maxPollBytes := by decide
    omega
  rw [line.seen q] at hopen
  have hfits : reader.offset + readLen ≤ source.endOffset := by omega
  obtain ⟨hshows, hlogical, hactive⟩ := source_shows hsame hsource hopen hstart hfits
  obtain ⟨zs, hzs⟩ := hrs.trans (line.later_le (hnp.trans hpq)).records
  have hdrop : (lines (line.journal q).records ++ (line.journal q).front.torn.1).drop
      reader.offset = lines zs ++ (line.journal q).front.torn.1 := by
    rw [← hzs, lines_append, List.append_assoc, hc.offset, List.drop_left]
  have hclean : ∀ r ∈ zs.map Subtype.val, newline ∉ r := by
    rintro r hr
    obtain ⟨r, -, rfl⟩ := List.mem_map.1 hr
    exact r.2
  obtain ⟨i, tail, hshown, htail, hi, hnext⟩ :=
    take_joined hclean (line.journal q).front.torn.2 readLen
  have hmap : (zs.map Subtype.val).take i = (zs.take i).map Subtype.val := List.map_take.symm
  rw [hmap] at hshown hnext
  have hbuf : (file.drop (source.physicalStart + (reader.offset - source.startOffset))).take
      readLen = lines (zs.take i) ++ tail := by
    rw [hshows, hdrop]
    exact hshown
  have hlength : ((file.drop (source.physicalStart + (reader.offset - source.startOffset))).take
      readLen).length = readLen := by
    rw [List.length_take, List.length_drop]
    omega
  have hwithin : (lines (zs.take i)).length ≤ readLen := by
    rw [← hlength, hbuf, List.length_append]
    omega
  have hprefix : rs ++ zs.take i <+: (line.journal q).records := by
    rw [← hzs]
    exact (List.prefix_append_right_inj rs).2 (List.take_prefix i zs)
  have hend : (lines (rs ++ zs.take i)).length ≤ (line.journal p).layout.logicalLen := by
    rw [lines_append, List.length_append, ← hc.offset]
    omega
  refine Sees.mono (interpret_till hpq (Nat.le_succ q) hgen hc hbuf htail hprefix hend)
    fun r m h hm batch hr => ?_
  obtain ⟨hconsumed, hgathers, hbig, hclosed⟩ := h hm batch hr
  refine ⟨zs.take i, hprefix, hconsumed, hend.trans hcounts, hgathers, fun hnone => ?_⟩
  -- nothing was consumed: the window reaches the end of the stream and shows no newline
  rw [hnone] at hbig hclosed
  have hzero : (lines ([] : List Record)).length = 0 := rfl
  rw [hzero] at hbig hclosed
  have hall : readLen = source.endOffset - reader.offset := by
    by_contra hne
    exact hbig ⟨rfl, by omega, by omega⟩
  have hlive : source.archived = false := by
    by_contra hne
    exact hclosed ⟨by simpa using hne, by omega, hall⟩
  have hreaches := hactive hlive
  obtain ⟨ys, hys⟩ := hrs.trans (line.later_le hnp).records
  have hyz : ys <+: zs := by
    have hlater := (line.later_le hpq).records
    rw [← hys, ← hzs] at hlater
    exact (List.prefix_append_right_inj rs).1 hlater
  have hstream : (lines (line.journal p).records).length ≤
      (line.journal p).layout.logicalLen := by
    have hboth := congrArg List.length (Journal.stream_live (line.journal p))
    rw [List.length_append, List.length_append] at hboth
    have hlayout : (line.journal p).layout.logicalLen =
        (stream (line.journal p).counted).length + (line.journal p).live.length := rfl
    omega
  have hyempty : ys = [] := by
    cases hyscase : ys with
    | nil => rfl
    | cons y ys' =>
      rw [hyscase] at hyz hys
      obtain ⟨more, hmore⟩ := hyz
      have hfirst : i = 0 := by
        rw [← hmore] at hnone
        cases i with
        | zero => rfl
        | succ i => cases hnone
      subst hfirst
      have hbeyond := hnext y.1 (by rw [← hmore]; rfl)
      rw [hnone] at hbeyond
      have hjoined : (joined newline (([] : List Record).map Subtype.val)).length = 0 := rfl
      rw [hjoined] at hbeyond
      rw [← hys, lines_append, List.length_append, length_lines_cons, ← hc.offset] at hstream
      omega
  rw [hyempty, List.append_nil] at hys
  refine eq_of_lines_le hrs ?_
  rw [hys]
  obtain ⟨more, hmore⟩ := (line.later_le hnp).records
  rw [← hmore, lines_append, List.length_append]
  omega

section Attempts

variable (hhex : ∀ b, Text.isHex 64 (sha256 b) = true)

include hhex

/-- **An accepted attempt** goes on through some records; a discarded one says nothing. -/
theorem pollAttempt_sees (hc : Caught serde sha256 reader D rs)
    (hrs : rs <+: (line.journal n).records) :
    Sees (reader.pollAttempt serde sha256) sight n fun r m => n ≤ m ∧
      ∀ batch, r = .ok (some batch) →
        Brings serde D (line.journal n).records rs (line.journal m).records batch := by
  unfold TailReader.pollAttempt
  refine sees_bind ((line.snapshot_sees hhex _ n).mono ?_)
  rintro r m ⟨hnm, hsnapshot⟩
  cases r with
  | error e => exact ⟨hnm, by rintro batch ⟨⟩⟩
  | ok snapshot =>
    obtain ⟨p, hnp, hpm, hlayout, hgeneration, hcounts⟩ := hsnapshot snapshot rfl
    simp only [Onward, hlayout]
    split
    · rename_i hdone
      refine sees_pure ⟨hnm, fun batch hb => ?_⟩
      obtain rfl := Option.some.inj (Except.ok.inj hb)
      have hlater := (line.later_le hnm).records
      have hboth := congrArg List.length (Journal.stream_live (line.journal p))
      have hlogical : (line.journal p).layout.logicalLen =
        (stream (line.journal p).counted).length + (line.journal p).live.length := rfl
      obtain ⟨more, hmore⟩ := (line.later_le hnp).records
      rw [List.length_append, List.length_append, ← hmore, lines_append, List.length_append]
        at hboth
      rw [hc.offset] at hdone
      have hnow : (line.journal n).records = rs := eq_of_lines_le hrs (by omega)
      refine ⟨[], ?_, rfl, ?_, by rw [List.append_nil]; exact gathers_nil hc, fun _ => hnow⟩
      · rw [List.append_nil]
        exact hrs.trans hlater
      · rw [List.append_nil, ← hc.offset]
        exact hc.bounded
    · cases hfind : (line.journal p).layout.sources.find? fun source =>
          decide (source.startOffset ≤ reader.offset ∧ reader.offset < source.endOffset) with
      | none => exact sees_throw ⟨hnm, by rintro batch ⟨⟩⟩
      | some source =>
        have hsource := List.mem_of_find?_eq_some hfind
        have hfound := List.find?_some hfind
        rw [decide_eq_true_iff] at hfound
        obtain ⟨hstart, hbefore⟩ := hfound
        dsimp only
        refine sees_bind (sees_look ?_)
        simp only [Onward]
        refine sees_bind (sees_give ?_)
        cases hopen : openExisting (sight m) source.path with
        | error e => exact ⟨by omega, by rintro batch ⟨⟩⟩
        | ok file =>
          simp only [Onward]
          refine sees_bind (sees_give ?_)
          unfold checkedAdd
          split
          · simp only [Onward]
            split
            · exact sees_pure ⟨by omega, by rintro batch ⟨⟩⟩
            · rename_i hlong
              have hwindow : ∀ last,
                  (line.journal last).generation = (line.journal p).generation → _ :=
                fun last hgen => window_till hnp hpm.le hc hrs hcounts hsource hstart hbefore hopen
                  hlong hgen
              have hsees := sees_patient interpret_patient (sees_of_till hwindow)
              refine sees_bind (sees_capture (hsees.mono ?_))
              rintro interpreted m' ⟨hm', hbrings⟩
              simp only [Onward, EventStreamSnapshot.isStillCurrent]
              refine sees_bind (sees_bind (line.lookMetadata_sees hhex m' ?_))
              simp only [Onward, Journal.generation_metadata, hgeneration]
              refine sees_pure ?_
              by_cases hstill : (line.journal m').generation = (line.journal p).generation
              · simp only [Onward, hstill, decide_true, if_true]
                refine sees_bind (sees_give ?_)
                cases interpreted with
                | error e => exact ⟨by omega, by rintro batch ⟨⟩⟩
                | ok batch =>
                  simp only [Onward]
                  refine sees_pure ⟨by omega, fun batch' hb => ?_⟩
                  obtain rfl := Option.some.inj (Except.ok.inj hb)
                  obtain ⟨ss, hss, hrest⟩ := hbrings hstill batch rfl
                  exact ⟨ss, hss.trans (line.later_le (by omega)).records, hrest⟩
              · simp only [Onward, hstill, decide_false, Bool.false_eq_true, if_false]
                exact sees_pure ⟨by omega, by rintro batch ⟨⟩⟩
          · exact ⟨by omega, by rintro batch ⟨⟩⟩

theorem attempt_sees (hc : Caught serde sha256 reader D rs) : ∀ (attempts n : Nat),
    rs <+: (line.journal n).records →
    Sees (reader.attempt serde sha256 attempts) sight n fun r m => n ≤ m ∧
      ∀ batch, r = .ok batch →
        Brings serde D (line.journal n).records rs (line.journal m).records batch := by
  intro attempts
  induction attempts with
  | zero => exact fun n _ => sees_throw ⟨le_rfl, by rintro batch ⟨⟩⟩
  | succ attempts ih =>
    intro n hrs
    unfold TailReader.attempt
    refine sees_bind ((pollAttempt_sees hhex hc hrs).mono ?_)
    rintro r m ⟨hnm, hbrings⟩
    cases r with
    | error e => exact ⟨hnm, by rintro batch ⟨⟩⟩
    | ok answer =>
      cases answer with
      | some batch =>
        simp only [Onward]
        refine sees_pure ⟨hnm, fun batch' hb => ?_⟩
        obtain rfl := Except.ok.inj hb
        exact hbrings batch rfl
      | none =>
        simp only [Onward]
        have hlater := (line.later_le hnm).records
        refine (ih m (hrs.trans hlater)).mono ?_
        rintro r m' ⟨hm', hnext⟩
        refine ⟨hnm.trans hm', fun batch hb => ?_⟩
        obtain ⟨ss, hss, hconsumed, hcounts, hgathers, hnone⟩ := hnext batch hb
        refine ⟨ss, hss, hconsumed, hcounts, hgathers, fun h => ?_⟩
        -- what is no longer than the records read, later, is no longer now
        have hlast := hnone h
        rw [hlast] at hlater
        obtain ⟨more, hmore⟩ := hlater
        refine eq_of_lines_le hrs ?_
        rw [← hmore, lines_append, List.length_append]
        omega

omit hhex in
/-- A committed batch carries the reader on. -/
theorem Caught.commit (hc : Caught serde sha256 reader D rs)
    (hconsumed : batch.consumed = (lines ss).length) (hcounts : (lines (rs ++ ss)).length ≤ u64Max)
    (hb : Gathers serde D (rs ++ ss) batch) :
    Caught serde sha256 (reader.commit sha256 batch) (D ++ batch.events) (rs ++ ss) := by
  have hoffset : (reader.commit sha256 batch).offset = (lines (rs ++ ss)).length := by
    change reader.offset + batch.consumed = _
    rw [hc.offset, hconsumed, lines_append, List.length_append]
  refine ⟨hoffset, hoffset ▸ hcounts, hb.events, fun id hid => ?_, fun id hid => ?_⟩
  · rw [ids_append, List.mem_append, ← hb.deliveredIds]
    rcases RecentIds.mem_foldl_insert hid with hold | hnew
    · exact .inl (hc.recent id hold)
    · exact .inr hnew
  · rw [ids_append, List.mem_append, ← hb.deliveredIds] at hid
    refine DedupeFilter.maybeContains_foldl_insert ?_
    rcases hid with hold | hnew
    · exact .inr (hc.filter id hold)
    · exact .inl hnew

omit hhex in
theorem Caught.untold (hc : Caught serde sha256 reader D rs) :
    Caught serde sha256 { reader with unterminatedTail := false } D rs :=
  ⟨hc.offset, hc.bounded, hc.firsts, hc.recent, hc.filter⟩

/-- What a poll does: it delivers on, or it leaves the reader as it was. -/
def Polled (serde : Serde) (sha256 : Bytes → String) (reader : TailReader) (D : List Envelope)
    (rs now later : List Record) : Io (List Envelope) → TailReader → Prop
  | .ok events, next => ∃ ss, rs ++ ss <+: later ∧
      Caught serde sha256 next (D ++ events) (rs ++ ss) ∧ (next.offset = reader.offset → now = rs)
  | .error _, next => next = { reader with unterminatedTail := false }

variable (line) in
theorem poll_sees (hc : Caught serde sha256 reader D rs)
    (hrs : rs <+: (line.journal n).records) :
    Sees (reader.poll serde sha256) sight n fun r m => n ≤ m ∧
      ∃ answer next, r = .ok (answer, next) ∧
        Polled serde sha256 reader D rs (line.journal n).records (line.journal m).records answer
          next := by
  unfold TailReader.poll
  refine sees_bind (sees_capture ((attempt_sees hhex hc.untold _ n hrs).mono ?_))
  rintro r m ⟨hnm, hbrings⟩
  simp only [Onward]
  cases r with
  | error e => exact sees_pure ⟨hnm, _, _, rfl, rfl⟩
  | ok batch =>
    refine sees_pure ⟨hnm, _, _, rfl, ?_⟩
    obtain ⟨ss, hss, hconsumed, hcounts, hgathers, hnone⟩ := hbrings batch rfl
    refine ⟨ss, hss, hc.untold.commit hconsumed hcounts hgathers, fun hstays => hnone ?_⟩
    have hzero : reader.offset + batch.consumed = reader.offset := hstays
    exact lines_eq_nil.1 (List.eq_nil_of_length_eq_zero (by omega))

end Attempts

end Going

end Orchestrail
