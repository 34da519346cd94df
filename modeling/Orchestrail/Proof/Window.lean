import Orchestrail.Proof.Tail

/-!
# A reader under a growing journal

While a call of the reader runs, the archive stands still and the live file only grows; every record
is shorter than the limit of a poll. Then the call is not disturbed.
-/

namespace Orchestrail

open Records Text Outcome Watch Journal

/-- A record of which a reader makes something: it is blank, or a valid event. -/
def Told (serde : Serde) (raw : Bytes) : Prop :=
  ∃ text, fromUtf8 raw = some text ∧ (trimmed text = "" ∨ (eventOf serde raw).isSome)

/-! ## Growing journals -/

namespace Journal

/-- The same archive, and no less of the live file. -/
structure Grows (j t : Journal) : Prop where
  same : j.Same t
  live : j.live <+: t.live

theorem Grows.refl {j : Journal} : j.Grows j := ⟨.refl, List.prefix_rfl⟩

/-- No reader chokes on the records, nor on the tail, nor on the length of the stream. -/
structure Short (j : Journal) : Prop where
  records : ∀ r ∈ j.records, r.1.length < maxPollBytes
  torn : j.front.torn.1.length ≤ maxPollBytes
  counts : j.layout.logicalLen ≤ u64Max

end Journal

/-- From the look `n` and before the look `m` the journal only grows, and is short. -/
structure Timeline.Calm {sha256 : Bytes → String} {sight : Nat → Work}
    (line : Timeline sha256 sight) (n m : Nat) : Prop where
  grows : ∀ i k, n ≤ i → i ≤ k → k < m → (line.journal i).Grows (line.journal k)
  short : ∀ i, n ≤ i → i < m → (line.journal i).Short

theorem Timeline.Calm.later {sha256 : Bytes → String} {sight : Nat → Work}
    {line : Timeline sha256 sight} {n k m : Nat} (h : line.Calm n m) (hnk : n ≤ k) :
    line.Calm k m :=
  ⟨fun i l hi => h.grows i l (hnk.trans hi), fun i hi => h.short i (hnk.trans hi)⟩

/-! ## What a source shows -/

section Shown

variable {serde : Serde} {sha256 : Bytes → String} {j u : Journal} {id : String}
  {source : EventStreamSource} {before cs rs : List Record} {t : Bytes}

theorem recordsContain_ok (rs : List Record) (t : Bytes)
    (hrs : ∀ r ∈ rs, r.1.length ≤ maxPollBytes) : ∀ fuel, (lines rs).length ≤ fuel →
      ∃ b, recordsContain serde id fuel (lines rs ++ t) (lines rs).length = .ok b := by
  induction rs with
  | nil =>
    intro fuel _
    cases fuel <;> exact ⟨false, rfl⟩
  | cons r rs ih =>
    intro fuel hfuel
    rw [length_lines_cons] at hfuel ⊢
    obtain ⟨fuel, rfl⟩ : ∃ f, fuel = f + 1 := ⟨fuel - 1, by omega⟩
    have hlen := hrs r List.mem_cons_self
    have hpos : ¬ r.1.length + 1 + (lines rs).length = 0 := by omega
    have hbytes : lines (r :: rs) ++ t = r.1 ++ newline :: (lines rs ++ t) := by
      rw [lines_cons, List.append_assoc, List.cons_append]
    have hwhole : (r.1 ++ [newline]).take
        (min (r.1.length + 1 + (lines rs).length) (maxPollBytes + 2)) = r.1 ++ [newline] :=
      List.take_of_length_le (by simp; omega)
    have hframe : (r.1 ++ [newline]).getLast? = some newline ∧
        (r.1 ++ [newline]).length - 1 ≤ maxPollBytes := by simpa using hlen
    have hrest : (r.1 ++ newline :: (lines rs ++ t)).drop (r.1 ++ [newline]).length =
        lines rs ++ t := by
      have happend : r.1 ++ newline :: (lines rs ++ t) = (r.1 ++ [newline]) ++ (lines rs ++ t) := by
        simp
      rw [happend, List.drop_left]
    have hcount : r.1.length + 1 + (lines rs).length - (r.1 ++ [newline]).length =
        (lines rs).length := by simp
    rw [recordsContain, if_neg hpos, hbytes, readUntil_take r.2, hwhole]
    have hnext := ih (fun s hs => hrs s (List.mem_cons_of_mem _ hs)) fuel (by omega)
    simp only [hrest, hcount, demand_true (show r.1 ++ [newline] ≠ [] by simp), demand_true hframe,
      bind, Except.bind]
    generalize recordsContain serde id fuel (lines rs ++ t) (lines rs).length = rest at hnext
    split_ifs
    · exact ⟨true, rfl⟩
    · exact hnext

/-- A source shows the records `cs` behind the records `before`, and then `t`. -/
structure Shows (sha256 : Bytes → String) (j : Journal) (source : EventStreamSource)
    (before cs : List Record) (t : Bytes) : Prop where
  file : openExisting (j.work sha256) source.path = .ok (lines cs ++ t)
  physicalStart : source.physicalStart = 0
  startOffset : source.startOffset = (lines before).length
  endOffset : source.endOffset = source.startOffset + (lines cs ++ t).length
  within : before ++ cs <+: j.records
  closed : source.archived = true → t = []
  torn : t = [] ∨ t = j.front.torn.1 ∧ before ++ cs = j.records

theorem mem_files_records {k start : Nat} {as : List Chunk} {f : ArchiveFile}
    (h : f ∈ files k start as) : ∃ before, ∃ c : Chunk, ∃ after,
      as.flatMap Chunk.records = before ++ (c.records ++ after) ∧ f.bytes = c.bytes ∧
      f.startOffset = start + (lines before).length ∧
      f.endOffset = f.startOffset + f.bytes.length := by
  induction as generalizing k start with
  | nil => cases h
  | cons c as ih =>
    rcases List.mem_cons.1 h with rfl | h
    · exact ⟨[], c, as.flatMap Chunk.records, rfl, rfl, rfl, rfl⟩
    · obtain ⟨before, c', after, hrecords, hbytes, hstart, hend⟩ := ih h
      refine ⟨c.records ++ before, c', after, ?_, hbytes, ?_, hend⟩
      · rw [List.flatMap_cons, hrecords, List.append_assoc]
      · rw [hstart, lines_append, List.length_append, Chunk.bytes]
        omega

/-- **Every source shows records** of the journal. -/
theorem shows_of_mem (hsource : source ∈ j.layout.sources) :
    ∃ before cs t, Shows sha256 j source before cs t := by
  rcases List.mem_append.1 hsource with hsource | hsource
  · obtain ⟨f, hf, rfl⟩ := List.mem_map.1 hsource
    have hfile : openExisting (j.work sha256)
        (.segment f.sequence f.startOffset f.endOffset) = .ok f.bytes :=
      openExisting_file (mem_visible hf)
    obtain ⟨before, c, after, hrecords, hbytes, hstart, hend⟩ := mem_files_records hf
    refine ⟨before, c.records, [], ?_, rfl, ?_, ?_, ?_, fun _ => rfl, .inl rfl⟩
    · rw [List.append_nil, hfile, hbytes]
      rfl
    · simp only [hstart, Nat.zero_add]
    · rw [List.append_nil]
      simp only [hend, hbytes, Chunk.bytes]
    · rw [records_eq, hrecords, List.append_assoc, List.append_assoc, ← List.append_assoc before]
      exact List.prefix_append _ _
  · split at hsource
    · rename_i hlive
      obtain rfl := List.mem_singleton.1 hsource
      obtain ⟨hskipped, hpending⟩ := active_of_live (List.length_pos_iff.1 hlive)
      have hactive : (j.work sha256).active = lines j.ahead ++ j.front.torn.1 := active_eq hpending
      refine ⟨j.counted.flatMap Chunk.records, j.ahead, j.front.torn.1, ?_, hskipped, ?_, ?_, ?_,
        by rintro ⟨⟩, .inr ⟨rfl, (records_eq j).symm⟩⟩
      · exact congrArg Except.ok hactive
      · simp only [stream_eq_lines]
      · rw [← live_eq]
      · exact (records_eq j) ▸ List.prefix_rfl
    · cases hsource

/-- In front of a boundary between records, a source shows whole records. -/
theorem Shows.range (h : Shows sha256 j source before cs t) (hrs : rs <+: j.records)
    (hstart : source.startOffset < (lines rs).length) : ∃ ss, ss <+: cs ∧
      min source.endOffset (lines rs).length - source.startOffset = (lines ss).length := by
  have hlt := h.startOffset ▸ hstart
  have hend := h.endOffset
  rw [h.startOffset, List.length_append] at hend
  rcases List.prefix_or_prefix_of_prefix hrs ((List.prefix_append before cs).trans h.within) with
    ⟨more, rfl⟩ | ⟨ss, rfl⟩
  · rw [lines_append, List.length_append] at hlt
    omega
  have hlen : (lines (before ++ ss)).length = (lines before).length + (lines ss).length := by
    rw [lines_append, List.length_append]
  rw [h.startOffset, hlen, hend]
  rcases List.prefix_or_prefix_of_prefix hrs h.within with hin | hover
  · have hss : ss <+: cs := (List.prefix_append_right_inj before).1 hin
    obtain ⟨us, rfl⟩ := hss
    refine ⟨ss, List.prefix_append ss us, ?_⟩
    rw [lines_append, List.length_append]
    omega
  · have hcs : cs <+: ss := (List.prefix_append_right_inj before).1 hover
    refine ⟨cs, List.prefix_rfl, ?_⟩
    rcases h.torn with rfl | ⟨-, hall⟩
    · obtain ⟨us, rfl⟩ := hcs
      rw [lines_append, List.length_append, List.length_nil]
      omega
    · have hsame : before ++ cs = before ++ ss := hover.eq_of_length_le (hall ▸ hrs.length_le)
      rw [List.append_cancel_left hsame]
      omega

/-- A boundary within a source divides its records. -/
theorem Shows.divides (h : Shows sha256 j source before cs t) (hrs : rs <+: j.records)
    (hstart : source.startOffset ≤ (lines rs).length)
    (hend : (lines rs).length < source.endOffset) : ∃ ss us, rs = before ++ ss ∧ cs = ss ++ us := by
  have hstop := h.endOffset
  rw [h.startOffset, List.length_append] at hstop
  rw [h.startOffset] at hstart
  have hbefore : before <+: rs := by
    rcases List.prefix_or_prefix_of_prefix hrs ((List.prefix_append before cs).trans h.within) with
      hin | hover
    · exact (eq_of_lines_le hin hstart) ▸ List.prefix_rfl
    · exact hover
  obtain ⟨ss, rfl⟩ := hbefore
  rw [lines_append, List.length_append] at hend
  have hss : ss <+: cs := by
    rcases List.prefix_or_prefix_of_prefix hrs h.within with hin | hover
    · exact (List.prefix_append_right_inj before).1 hin
    · rcases h.torn with rfl | ⟨-, hall⟩
      · obtain ⟨us, rfl⟩ := (List.prefix_append_right_inj before).1 hover
        rw [lines_append, List.length_append] at hend
        rw [List.length_nil] at hstop
        omega
      · have hsame : before ++ cs = before ++ ss := hover.eq_of_length_le (hall ▸ hrs.length_le)
        exact (List.append_cancel_left hsame) ▸ List.prefix_rfl
  obtain ⟨us, rfl⟩ := hss
  exact ⟨ss, us, rfl, rfl⟩

/-- **A source goes on to show** what it shows, while the journal grows. -/
theorem Shows.grows (h : Shows sha256 j source before cs t) (hsource : source ∈ j.layout.sources)
    (hg : j.Grows u) :
    ∃ more, openExisting (u.work sha256) source.path = .ok (lines cs ++ t ++ more) := by
  have hfile := h.file
  rcases List.mem_append.1 hsource with hsource | hsource
  · obtain ⟨f, hf, rfl⟩ := List.mem_map.1 hsource
    have hthen : openExisting (j.work sha256)
        (.segment f.sequence f.startOffset f.endOffset) = .ok f.bytes :=
      openExisting_file (mem_visible hf)
    have hnow : openExisting (u.work sha256)
        (.segment f.sequence f.startOffset f.endOffset) = .ok f.bytes :=
      openExisting_file (mem_visible (by rw [hg.same.counted]; exact hf))
    have hbytes : f.bytes = lines cs ++ t := Except.ok.inj (hthen.symm.trans hfile)
    refine ⟨[], ?_⟩
    rw [List.append_nil, ← hbytes]
    exact hnow
  · split at hsource
    · rename_i hlive
      obtain rfl := List.mem_singleton.1 hsource
      obtain ⟨-, hpending⟩ := active_of_live (List.length_pos_iff.1 hlive)
      have hthen : (j.work sha256).active = j.live := by
        rw [live_eq]
        exact active_eq hpending
      have hnow : (u.work sha256).active = u.live := by
        rw [live_eq]
        exact active_eq (hg.same.pending.trans hpending)
      obtain ⟨more, hmore⟩ := hg.live
      have hbytes : (j.work sha256).active = lines cs ++ t := Except.ok.inj hfile
      refine ⟨more, congrArg Except.ok ?_⟩
      rw [hnow, ← hmore, ← hthen, hbytes]
    · cases hsource

theorem exists_file {k start offset : Nat} {as : List Chunk} (h : start ≤ offset)
    (h' : offset < start + (stream as).length) :
    ∃ f ∈ files k start as, f.startOffset ≤ offset ∧ offset < f.endOffset := by
  induction as generalizing k start with
  | nil => simp [stream] at h'; omega
  | cons c as ih =>
    have hcons : (stream (c :: as)).length = c.bytes.length + (stream as).length := by
      simp [stream]
    by_cases hhere : offset < start + c.bytes.length
    · exact ⟨_, List.mem_cons_self, h, hhere⟩
    · obtain ⟨f, hf, hin⟩ := @ih (k + 1) (start + c.bytes.length) (by omega) (by omega)
      exact ⟨f, List.mem_cons_of_mem _ hf, hin⟩

theorem logicalLen_eq (j : Journal) :
    j.layout.logicalLen = (lines j.records).length + j.front.torn.1.length := by
  have hboth := congrArg List.length (Journal.stream_live j)
  rw [List.length_append, List.length_append] at hboth
  exact hboth

/-- The sources leave no gap. -/
theorem exists_source {offset : Nat} (h : offset < j.layout.logicalLen) :
    ∃ source ∈ j.layout.sources, source.startOffset ≤ offset ∧ offset < source.endOffset := by
  have hlogical : j.layout.logicalLen = (stream j.counted).length + j.live.length := rfl
  by_cases harchived : offset < (stream j.counted).length
  · obtain ⟨f, hf, hin⟩ := @exists_file 1 0 offset j.counted (Nat.zero_le _) (by omega)
    exact ⟨sourceOf f, List.mem_append_left _ (List.mem_map_of_mem hf), hin⟩
  · have hlive : 0 < j.live.length := by omega
    refine ⟨⟨.active, (stream j.counted).length, (stream j.counted).length + j.live.length,
      j.skipped, false⟩, List.mem_append_right _ ?_, ?_, ?_⟩
    · rw [if_pos hlive]
      exact List.mem_cons_self
    · simp only
      omega
    · simp only
      omega

end Shown

/-! ## In time -/

section InTime

variable {serde : Serde} {sha256 : Bytes → String} {sight : Nat → Work} {last n p : Nat}
  {line : Timeline sha256 sight} {reader : TailReader} {batch : PollBatch} {id : String}
  {source : EventStreamSource} {before cs rs : List Record} {t : Bytes}
  (hgrows : ∀ i, p ≤ i → i < last → (line.journal p).Grows (line.journal i))
  (hshort : (line.journal p).Short)

include hgrows hshort

theorem historyContains_done (hrs : rs <+: (line.journal p).records)
    (sources : List EventStreamSource)
    (hsources : ∀ source ∈ sources, source ∈ (line.journal p).layout.sources) :
    ∀ n, p ≤ n → Done sight last (historyContains serde (lines rs).length id sources) n
      fun _ => True := by
  induction sources with
  | nil => exact fun _ _ => done_pure trivial
  | cons source sources ih =>
    intro n hpn
    have hlater := ih fun source hsource => hsources source (List.mem_cons_of_mem _ hsource)
    have hsource := hsources source List.mem_cons_self
    have hrest : ∀ found : Bool, Patient (if found = true then pure true else
        historyContains serde (lines rs).length id sources : Looks Bool) := by
      intro found
      cases found
      · exact historyContains_patient _
      · exact patient_pure
    unfold historyContains
    split
    · rename_i hstart
      obtain ⟨before, cs, t, h⟩ := @shows_of_mem sha256 (line.journal p) source hsource
      obtain ⟨ss, ⟨us, rfl⟩, hlen⟩ := h.range hrs hstart
      have hlong : ∀ r ∈ ss, r.1.length ≤ maxPollBytes := fun r hr =>
        (hshort.records r (h.within.subset (by simp [hr]))).le
      refine done_bind patient_look
        (fun _ => patient_bind patient_give fun _ => patient_bind patient_give hrest)
        (P := fun work => ∃ more,
          openExisting work source.path = .ok (lines (ss ++ us) ++ t ++ more))
        (done_look fun hn => ?_) ?_
      · rw [line.seen]
        exact h.grows hsource (hgrows n hpn hn)
      rintro work m hnm - ⟨more, hopen⟩
      rw [hopen]
      refine done_bind patient_give (fun _ => patient_bind patient_give hrest)
        (P := fun file => file = lines ss ++ (lines us ++ t ++ more)) (done_give ?_) ?_
      · rw [lines_append, List.append_assoc, List.append_assoc, List.append_assoc]
      rintro file m' hm' - rfl
      obtain ⟨found, hfound⟩ := @recordsContain_ok serde id ss (lines us ++ t ++ more) hlong _ le_rfl
      rw [h.physicalStart, List.drop_zero, hlen, hfound]
      refine done_bind patient_give hrest (P := fun _ => True) (done_give trivial) ?_
      intro found m'' hm'' _ _
      cases found
      · exact hlater m'' (by omega)
      · exact done_pure trivial
    · exact done_pure trivial

theorem classifyLine_done (hpn : p ≤ n) (hrs : rs <+: (line.journal p).records) (raw : Bytes) :
    Done sight last
      (reader.classifyLine serde sha256 raw (lines rs).length (line.journal p).layout batch) n
      fun b => Told serde raw → b.stats.skippedInvalid = batch.stats.skippedInvalid := by
  unfold TailReader.classifyLine
  cases htext : fromUtf8 raw with
  | none =>
    refine done_pure ?_
    rintro ⟨text, h, -⟩
    rw [htext] at h
    cases h
  | some text =>
    dsimp only
    split
    · exact done_pure fun _ => rfl
    rename_i hblank
    cases hparse : parseLine serde (trimmed text) with
    | error e =>
      refine done_pure ?_
      rintro ⟨text', h, htold⟩
      obtain rfl := Option.some.inj (htext.symm.trans h)
      have hevent := htold.resolve_left hblank
      rw [eventOf, htext, Option.bind_some, hparse] at hevent
      cases hevent
    | ok event =>
      have hduplicate : Done sight last (reader.isDuplicate serde sha256 (line.journal p).layout
          (lines rs).length batch event.eventId) n fun _ => True := by
        unfold TailReader.isDuplicate
        split
        · exact done_pure trivial
        · split
          · exact historyContains_done hgrows hshort hrs _ (fun _ hsource => hsource) n hpn
          · exact done_pure trivial
      refine done_bind isDuplicate_patient (fun duplicate => ?_) hduplicate
        fun duplicate m _ _ _ => ?_
      · cases duplicate <;> exact patient_pure
      · cases duplicate <;> exact done_pure fun _ => rfl

theorem classifyLines_done (ss : List Record) : ∀ (n : Nat) (rs : List Record) (batch : PollBatch),
    p ≤ n → rs ++ ss <+: (line.journal p).records → Done sight last
      (reader.classifyLines serde sha256 (line.journal p).layout (ss.map Subtype.val)
        (lines rs).length batch) n
      fun b => (∀ r ∈ ss, Told serde r.1) →
        b.stats.skippedInvalid = batch.stats.skippedInvalid := by
  induction ss with
  | nil => exact fun _ _ _ _ _ => done_pure fun _ => rfl
  | cons r ss ih =>
    intro n rs batch hpn hrs
    rw [List.map_cons, TailReader.classifyLines]
    refine done_bind classifyLine_patient (fun _ => classifyLines_patient _ _ _)
      (classifyLine_done hgrows hshort hpn ((List.prefix_append rs _).trans hrs) r.1) ?_
    intro batch' m hnm _ hbatch
    have hnext : (lines rs).length + r.1.length + 1 = (lines (rs ++ [r])).length := by
      rw [lines_append, List.length_append, lines_singleton, List.length_append]
      rfl
    rw [hnext]
    refine (ih m (rs ++ [r]) batch' (hpn.trans hnm) (by simpa using hrs)).mono fun b hb htold => ?_
    rw [hb fun r hr => htold r (List.mem_cons_of_mem _ hr), hbatch (htold r List.mem_cons_self)]

/-- **The window of a source** is read up to its last newline. -/
theorem interpret_done (h : Shows sha256 (line.journal p) source before cs t) (hpn : p ≤ n)
    (hrs : rs <+: (line.journal p).records) (hoffset : reader.offset = (lines rs).length)
    (hstart : source.startOffset ≤ reader.offset) (hend : reader.offset < source.endOffset)
    (more : Bytes) :
    Done sight last
      (reader.interpret serde sha256
        (((lines cs ++ t ++ more).drop
          (source.physicalStart + (reader.offset - source.startOffset))).take
          (min (source.endOffset - reader.offset) maxPollBytes)) source
        (source.endOffset - reader.offset) (min (source.endOffset - reader.offset) maxPollBytes)
        (line.journal p).layout) n
      fun b => (∀ r ∈ (line.journal p).records, Told serde r.1) → b.stats.skippedInvalid = 0 := by
  rw [hoffset] at hstart hend
  obtain ⟨ss, us, rfl, rfl⟩ := h.divides hrs hstart hend
  have hunread : source.endOffset - reader.offset = (lines us).length + t.length := by
    rw [h.endOffset, h.startOffset, hoffset]
    simp only [lines_append, List.length_append]
    omega
  have hskip : source.physicalStart + (reader.offset - source.startOffset) = (lines ss).length := by
    rw [h.physicalStart, h.startOffset, hoffset, lines_append, List.length_append]
    omega
  have hshown : (lines (ss ++ us) ++ t ++ more).drop (lines ss).length = lines us ++ t ++ more := by
    rw [lines_append, List.append_assoc, List.append_assoc, List.drop_left, List.append_assoc]
  have hclean : ∀ r ∈ us.map Subtype.val, newline ∉ r := by
    rintro r hr
    obtain ⟨r, -, rfl⟩ := List.mem_map.1 hr
    exact r.2
  have hopen : newline ∉ t ∧ t.length ≤ maxPollBytes := by
    rcases h.torn with rfl | ⟨rfl, -⟩
    · exact ⟨List.not_mem_nil, Nat.zero_le _⟩
    · exact ⟨(line.journal p).front.torn.2, hshort.torn⟩
  have hfirst : (lines us ++ t ++ more).take (min ((lines us).length + t.length) maxPollBytes) =
      (lines us ++ t).take (min ((lines us).length + t.length) maxPollBytes) := by
    refine List.take_append_of_le_length ?_
    rw [List.length_append]
    exact Nat.min_le_left _ _
  rw [hunread, hskip, hshown, hfirst]
  set readLen := min ((lines us).length + t.length) maxPollBytes with hreadLen
  -- what of the window is records, and that it is not nothing
  obtain ⟨i, tail, hwindow, htail, hsome, hclosed⟩ : ∃ i tail,
      (lines us ++ t).take readLen = lines (us.take i) ++ tail ∧ newline ∉ tail ∧
      ¬ ((lines (us.take i)).length = 0 ∧ readLen = maxPollBytes ∧
        readLen < (lines us).length + t.length) ∧
      ¬ (source.archived = true ∧
        (lines (us.take i)).length < (lines (us.take i) ++ tail).length ∧
        readLen = (lines us).length + t.length) := by
    by_cases hall : readLen = (lines us).length + t.length
    · refine ⟨us.length, t, ?_, hopen.1, fun hless => by omega, fun harchived => ?_⟩
      · rw [List.take_length, List.take_of_length_le (by rw [List.length_append]; omega)]
      · rw [h.closed harchived.1, List.append_nil] at harchived
        exact absurd harchived.2.1 (lt_irrefl _)
    · obtain ⟨i, tail, hshows, htail, -, hnext⟩ := take_joined hclean hopen.1 readLen
      have hmap : (us.map Subtype.val).take i = (us.take i).map Subtype.val := List.map_take.symm
      rw [hmap] at hshows hnext
      refine ⟨i, tail, hshows, htail, fun hnone => ?_, fun harchived => hall harchived.2.2⟩
      have hfew : us.take i = [] := lines_eq_nil.1 (List.eq_nil_of_length_eq_zero hnone.1)
      rw [hfew] at hnext
      have hzero : (joined newline (([] : List Record).map Subtype.val)).length = 0 := rfl
      rw [hzero] at hnext
      cases hus : us with
      | nil =>
        have hnil : (lines []).length = 0 := rfl
        rw [hus, hnil] at hnone
        omega
      | cons u more =>
        have hfirst : i = 0 := by
          rw [hus] at hfew
          cases i with
          | zero => rfl
          | succ i => cases hfew
        have hbeyond := hnext u.1 (by rw [hfirst, hus]; rfl)
        have hmem : u ∈ (line.journal p).records := h.within.subset (by simp [hus])
        have hbound := hshort.records u hmem
        omega
  rw [hwindow]
  have hcut : cut newline (lines (us.take i) ++ tail) = ((us.take i).map Subtype.val, tail) := by
    refine cut_joined (fun r hr => ?_) htail
    obtain ⟨r, -, rfl⟩ := List.mem_map.1 hr
    exact r.2
  have hconsumed : (lines (us.take i) ++ tail).length - tail.length =
      (lines (us.take i)).length := by
    rw [List.length_append]
    omega
  have htaken : before ++ ss ++ us.take i <+: (line.journal p).records := by
    refine List.IsPrefix.trans ?_ h.within
    rw [List.append_assoc, List.prefix_append_right_inj, List.prefix_append_right_inj]
    exact List.take_prefix i us
  unfold TailReader.interpret
  simp only [hcut, hconsumed, hoffset, demand_true hsome, demand_true hclosed]
  refine done_bind (classifyLines_patient _ _ _)
    (fun _ => patient_bind patient_give fun _ => patient_bind patient_give fun _ => patient_pure)
    (classifyLines_done hgrows hshort _ n _ {} hpn htaken) ?_
  intro batch m _ _ hb
  refine done_bind patient_give (fun _ => patient_bind patient_give fun _ => patient_pure)
    (P := fun _ => True) (done_give trivial) fun _ m' _ _ _ => ?_
  refine done_bind patient_give (fun _ => patient_pure) (P := fun _ => True) (done_give trivial)
    fun _ m'' _ _ _ => done_pure fun htold => ?_
  exact hb fun r hr => htold r (htaken.subset (List.mem_append_right _ hr))

end InTime

/-! ## Patience -/

section Patience

variable {serde : Serde} {sha256 : Bytes → String} {reader : TailReader}

theorem lookMetadata_patient : Patient lookMetadata :=
  patient_bind patient_look fun _ => patient_give

theorem resolveLayout_patient {metadata : RotationMetadata} :
    Patient (resolveLayout sha256 metadata) :=
  patient_bind patient_look fun _ => patient_bind patient_give fun _ =>
    patient_bind patient_look fun _ => patient_give

theorem confirm_patient {rest : Looks EventStreamSnapshot} (h : Patient rest)
    (resolved : Io EventStreamLayout) (old again : RotationMetadata) : Patient (do
      if again.generation ≠ old.generation then rest
      else do
        let layout ← give resolved
        pure (⟨layout, old.generation⟩ : EventStreamSnapshot)) := by
  split
  · exact h
  · exact patient_bind patient_give fun _ => patient_pure

theorem snapshot_patient : ∀ attempts, Patient (eventStreamSnapshot sha256 attempts)
  | 0 => patient_throw
  | attempts + 1 => patient_bind lookMetadata_patient fun old =>
      patient_bind (patient_capture resolveLayout_patient) fun resolved =>
        patient_bind lookMetadata_patient (confirm_patient (snapshot_patient attempts) resolved old)

theorem snapshot_eager (attempts : Nat) : Eager (eventStreamSnapshot sha256 (attempts + 1)) :=
  eager_bind (eager_bind eager_look fun _ => patient_give) fun old =>
    patient_bind (patient_capture resolveLayout_patient) fun resolved =>
      patient_bind lookMetadata_patient (confirm_patient (snapshot_patient attempts) resolved old)

theorem accept_patient (snapshot : EventStreamSnapshot) (interpreted : Io PollBatch) :
    Patient (do
      if ← snapshot.isStillCurrent then do
        let batch ← give interpreted
        pure (some batch)
      else pure none : Looks (Option PollBatch)) := by
  refine patient_bind (patient_bind lookMetadata_patient fun _ => patient_pure) fun still => ?_
  cases still
  · exact patient_pure
  · exact patient_bind patient_give fun _ => patient_pure

variable (serde sha256 reader) in
/-- The part of an attempt behind the opening of the file. -/
def TailReader.readFile (snapshot : EventStreamSnapshot) (source : EventStreamSource) (file : Bytes)
    (physicalOffset : Nat) : Looks (Option PollBatch) :=
  let unread := source.endOffset - reader.offset
  let readLen := min unread maxPollBytes
  if file.length < physicalOffset + readLen then pure none
  else do
    let buf := (file.drop physicalOffset).take readLen
    let interpreted ← capture
      (reader.interpret serde sha256 buf source unread readLen snapshot.layout)
    if ← snapshot.isStillCurrent then do
      let batch ← give interpreted
      pure (some batch)
    else pure none

variable (serde sha256 reader) in
/-- The part of an attempt behind its snapshot. -/
def TailReader.readSnapshot (snapshot : EventStreamSnapshot) : Looks (Option PollBatch) :=
  if snapshot.layout.logicalLen ≤ reader.offset then pure (some {})
  else
    match snapshot.layout.sources.find? fun source =>
        source.startOffset ≤ reader.offset ∧ reader.offset < source.endOffset with
    | none =>
      throw ⟨.invalidData, "events cursor does not resolve to an archive or active segment"⟩
    | some source => do
      let file ← give (openExisting (← look) source.path)
      let physicalOffset ← give (checkedAdd source.physicalStart (reader.offset - source.startOffset)
        "event source offset overflowed")
      reader.readFile serde sha256 snapshot source file physicalOffset

theorem pollAttempt_eq : reader.pollAttempt serde sha256 =
    eventStreamSnapshot sha256 maxLayoutSnapshotAttempts >>= reader.readSnapshot serde sha256 := rfl

theorem readFile_patient (snapshot : EventStreamSnapshot) (source : EventStreamSource)
    (file : Bytes) (physicalOffset : Nat) :
    Patient (reader.readFile serde sha256 snapshot source file physicalOffset) := by
  unfold TailReader.readFile
  dsimp only
  split
  · exact patient_pure
  · exact patient_bind (patient_capture interpret_patient) (accept_patient snapshot)

theorem readSnapshot_patient (snapshot : EventStreamSnapshot) :
    Patient (reader.readSnapshot serde sha256 snapshot) := by
  unfold TailReader.readSnapshot
  split
  · exact patient_pure
  · split
    · exact patient_throw
    · exact patient_bind patient_look fun _ => patient_bind patient_give fun _ =>
        patient_bind patient_give fun _ => readFile_patient snapshot _ _ _

theorem pollAttempt_patient : Patient (reader.pollAttempt serde sha256) :=
  pollAttempt_eq ▸ patient_bind (snapshot_patient _) readSnapshot_patient

theorem attempt_patient : ∀ attempts, Patient (reader.attempt serde sha256 attempts)
  | 0 => patient_throw
  | attempts + 1 => by
    unfold TailReader.attempt
    refine patient_bind pollAttempt_patient fun answer => ?_
    cases answer with
    | none => exact attempt_patient attempts
    | some batch => exact patient_pure

theorem attempt_eager (attempts : Nat) : Eager (reader.attempt serde sha256 (attempts + 1)) := by
  unfold TailReader.attempt
  refine eager_bind (pollAttempt_eq ▸ eager_bind (snapshot_eager _) readSnapshot_patient)
    fun answer => ?_
  cases answer with
  | none => exact attempt_patient attempts
  | some batch => exact patient_pure

theorem poll_eager : Eager (reader.poll serde sha256) := by
  unfold TailReader.poll
  refine eager_bind (show Eager (capture _) from attempt_eager _) fun answer => ?_
  cases answer <;> exact patient_pure

theorem poll_patient : Patient (reader.poll serde sha256) := fun sight n =>
  (poll_eager sight n).le

theorem pollAll_patient : ∀ (fuel : Nat) (reader : TailReader) (events : List Envelope),
    Patient (TailReader.pollAll serde sha256 fuel reader events)
  | 0, _, _ => patient_pure
  | fuel + 1, reader, events => by
    unfold TailReader.pollAll
    refine patient_bind poll_patient fun ⟨answer, next⟩ => ?_
    cases answer with
    | error e => exact patient_pure
    | ok batch =>
      dsimp only
      split
      · exact patient_pure
      · exact pollAll_patient fuel next _

end Patience

/-! ## A poll in time -/

section Polling

variable {serde : Serde} {sha256 : Bytes → String} {sight : Nat → Work} {last n m : Nat}
  {line : Timeline sha256 sight} {reader : TailReader} {D events : List Envelope}
  {rs : List Record} (hhex : ∀ b, Text.isHex 64 (sha256 b) = true) (hcalm : line.Calm n last)

include hhex

theorem lookMetadata_done : Done sight last lookMetadata n fun metadata =>
    n < last ∧ metadata = (line.journal n).metadata sha256 := by
  refine done_bind patient_look (fun _ => patient_give)
    (P := fun work => n < last ∧ work = sight n) (done_look fun hn => ⟨hn, rfl⟩) ?_
  rintro work m - - ⟨hn, rfl⟩
  rw [line.seen, load_work hhex (line.sound_at n)]
  exact done_give ⟨hn, rfl⟩

include hcalm

theorem resolveLayout_done (hnm : n ≤ m) :
    Done sight last (resolveLayout sha256 ((line.journal n).metadata sha256)) m
      fun _ => True := by
  refine done_bind patient_look
    (fun _ => patient_bind patient_give fun _ => patient_bind patient_look fun _ => patient_give)
    (P := fun work => m < last ∧ work = sight m) (done_look fun hm => ⟨hm, rfl⟩) ?_
  rintro work m' hm' - ⟨hm, rfl⟩
  have hsame := (hcalm.grows n m le_rfl hnm hm).same
  rw [line.seen, rotationStateFrom_work hhex (line.sound_at m) hsame.counted]
  refine done_bind patient_give (fun _ => patient_bind patient_look fun _ => patient_give)
    (done_give rfl) ?_
  rintro state k hk - rfl
  refine done_bind patient_look (fun _ => patient_give)
    (P := fun work => k < last ∧ work = sight k) (done_look fun hk => ⟨hk, rfl⟩) ?_
  rintro work k' - - ⟨hlast, rfl⟩
  have hnk : n ≤ k := by omega
  have hlater := (hcalm.grows n k le_rfl hnk hlast).same
  have hcounts : (stream (line.journal k).counted).length + (line.journal k).live.length ≤ u64Max :=
    (hcalm.short k hnk hlast).counts
  rw [line.seen, layoutFromState_work hlater.archived hlater.pending, if_pos hcounts]
  exact done_give trivial

/-- **The first snapshot is taken.** -/
theorem snapshot_done (attempts : Nat) :
    Done sight last (eventStreamSnapshot sha256 (attempts + 1)) n fun _ => True := by
  unfold eventStreamSnapshot
  have hclose := @confirm_patient _ (@snapshot_patient sha256 attempts)
  refine done_bind lookMetadata_patient (fun old => patient_bind
    (patient_capture resolveLayout_patient) fun resolved =>
      patient_bind lookMetadata_patient (hclose resolved old))
    (@lookMetadata_done sha256 sight last _ line hhex) ?_
  rintro old m hnm - ⟨hn, rfl⟩
  refine done_bind (patient_capture resolveLayout_patient)
    (fun resolved => patient_bind lookMetadata_patient (hclose resolved _))
    (done_capture (resolveLayout_done hhex hcalm hnm)) ?_
  rintro resolved m' hm' - ⟨layout, rfl, -⟩
  refine done_bind lookMetadata_patient (hclose _ _) (@lookMetadata_done sha256 sight last _ line hhex) ?_
  rintro again m'' hm'' - ⟨hm, rfl⟩
  have hsame := (hcalm.grows n m' le_rfl (by omega) hm).same.generation
  simp only [generation_metadata, hsame, ne_eq, not_true_eq_false, if_false]
  exact done_bind patient_give (fun _ => patient_pure) (P := fun _ => True) (done_give trivial)
    fun _ _ _ _ _ => done_pure trivial

/-- Every record of the journal is something to a reader, at any look before the last. -/
def Timeline.AllTold (serde : Serde) (line : Timeline sha256 sight) (last : Nat) : Prop :=
  ∀ i, i < last → ∀ r ∈ (line.journal i).records, Told serde r.1

variable {serde : Serde} {p : Nat} {snapshot : EventStreamSnapshot}

theorem readFile_done {source : EventStreamSource} {before cs : List Record} {t more : Bytes}
    (hnp : n ≤ p) (hlast : p < last) (hlayout : snapshot.layout = (line.journal p).layout)
    (hgeneration : snapshot.generation = (line.journal p).generation)
    (h : Shows sha256 (line.journal p) source before cs t) (hrs : rs <+: (line.journal p).records)
    (hoffset : reader.offset = (lines rs).length) (hstart : source.startOffset ≤ reader.offset)
    (hend : reader.offset < source.endOffset) (hpm : p ≤ m) :
    Done sight last (reader.readFile serde sha256 snapshot source (lines cs ++ t ++ more)
      (source.physicalStart + (reader.offset - source.startOffset))) m fun answer =>
        ∃ batch, answer = some batch ∧ (line.AllTold serde last → batch.stats.skippedInvalid = 0) := by
  have hstop := h.endOffset
  have hlong : ¬ (lines cs ++ t ++ more).length <
      source.physicalStart + (reader.offset - source.startOffset) +
        min (source.endOffset - reader.offset) maxPollBytes := by
    rw [h.physicalStart, List.length_append]
    omega
  unfold TailReader.readFile
  rw [if_neg hlong, hlayout]
  refine done_bind (patient_capture interpret_patient) (accept_patient snapshot)
    (done_capture (interpret_done (fun i hi hil => hcalm.grows p i hnp hi hil)
      (hcalm.short p hnp hlast) h hpm hrs hoffset hstart hend more)) ?_
  rintro interpreted k hk - ⟨batch, rfl, hb⟩
  refine done_bind (P := fun still => still = true)
    (patient_bind lookMetadata_patient fun _ => patient_pure) (fun still => ?_) ?_ ?_
  · cases still
    · exact patient_pure
    · exact patient_bind patient_give fun _ => patient_pure
  · refine done_bind lookMetadata_patient (fun _ => patient_pure)
      (@lookMetadata_done sha256 sight last _ line hhex) ?_
    rintro metadata k' - - ⟨hkl, rfl⟩
    have hsame := (hcalm.grows p k hnp (by omega) hkl).same.generation
    refine done_pure (decide_eq_true ?_)
    rw [generation_metadata, hsame, hgeneration]
  · rintro still k' hk' - rfl
    refine done_bind patient_give (fun _ => patient_pure) (done_give rfl) ?_
    rintro batch' k'' - - rfl
    exact done_pure ⟨batch, rfl, fun htold => hb (htold p hlast)⟩

theorem pollAttempt_done (hrs : rs <+: (line.journal n).records)
    (hoffset : reader.offset = (lines rs).length) :
    Done sight last (reader.pollAttempt serde sha256) n fun answer =>
      ∃ batch, answer = some batch ∧ (line.AllTold serde last → batch.stats.skippedInvalid = 0) := by
  rw [pollAttempt_eq]
  have hsnapshot : Sees (eventStreamSnapshot sha256 maxLayoutSnapshotAttempts) sight n fun r m =>
      m ≤ last → ∃ snapshot, r = .ok snapshot ∧ ∃ p, n ≤ p ∧ p < m ∧
        snapshot.layout = (line.journal p).layout ∧
        snapshot.generation = (line.journal p).generation := by
    intro hm
    obtain ⟨snapshot, hok, -⟩ := snapshot_done hhex hcalm _ hm
    obtain ⟨p, hnp, hpm, hlayout, hgeneration, -⟩ :=
      (line.snapshot_sees hhex maxLayoutSnapshotAttempts n).2 snapshot hok
    exact ⟨snapshot, hok, p, hnp, hpm, hlayout, hgeneration⟩
  refine done_bind_at (snapshot_patient _) readSnapshot_patient hsnapshot ?_
  rintro snapshot m hnm hml ⟨p, hnp, hpm, hlayout, hgeneration⟩
  have hlast : p < last := by omega
  unfold TailReader.readSnapshot
  rw [hlayout]
  split
  · exact done_pure ⟨{}, rfl, fun _ => rfl⟩
  rename_i hmore
  obtain ⟨found, hmem, hin⟩ := @exists_source (line.journal p) reader.offset (by omega)
  have hsome : ((line.journal p).layout.sources.find? fun source => decide
      (source.startOffset ≤ reader.offset ∧ reader.offset < source.endOffset)).isSome :=
    List.find?_isSome.2 ⟨found, hmem, decide_eq_true hin⟩
  obtain ⟨source, hfind⟩ := Option.isSome_iff_exists.1 hsome
  have hsource := List.mem_of_find?_eq_some hfind
  have hbounds := List.find?_some hfind
  rw [decide_eq_true_iff] at hbounds
  obtain ⟨hstart, hend⟩ := hbounds
  obtain ⟨before, cs, t, h⟩ := @shows_of_mem sha256 (line.journal p) source hsource
  have hlogical := (source_shows .refl hsource h.file hstart
    (show reader.offset + 0 ≤ source.endOffset by omega)).2.1
  have hcounts := (hcalm.short p hnp hlast).counts
  have hfits : source.physicalStart + (reader.offset - source.startOffset) ≤ u64Max := by
    rw [h.physicalStart]
    omega
  rw [hfind]
  dsimp only
  refine done_bind patient_look
    (fun _ => patient_bind patient_give fun _ => patient_bind patient_give fun _ =>
      readFile_patient snapshot _ _ _)
    (P := fun work => ∃ more, openExisting work source.path = .ok (lines cs ++ t ++ more))
    (done_look fun hm => ?_) ?_
  · rw [line.seen]
    exact h.grows hsource (hcalm.grows p m hnp hpm.le hm)
  rintro work k hk - ⟨more, hopen⟩
  rw [hopen]
  refine done_bind patient_give (fun _ => patient_bind patient_give fun _ =>
    readFile_patient snapshot _ _ _) (done_give rfl) ?_
  rintro file k' hk' - rfl
  rw [checkedAdd, if_pos hfits]
  refine done_bind patient_give (fun _ => readFile_patient snapshot _ _ _) (done_give rfl) ?_
  rintro physicalOffset k'' hk'' - rfl
  exact readFile_done hhex hcalm hnp hlast hlayout hgeneration h
    (hrs.trans (line.later_le hnp).records) hoffset hstart hend (by omega)

theorem attempt_done (hrs : rs <+: (line.journal n).records)
    (hoffset : reader.offset = (lines rs).length) (attempts : Nat) :
    Done sight last (reader.attempt serde sha256 (attempts + 1)) n fun batch =>
      line.AllTold serde last → batch.stats.skippedInvalid = 0 := by
  unfold TailReader.attempt
  refine done_bind pollAttempt_patient (fun answer => ?_)
    (pollAttempt_done hhex hcalm hrs hoffset) ?_
  · cases answer with
    | none => exact attempt_patient attempts
    | some batch => exact patient_pure
  · rintro answer m - - ⟨batch, rfl, hb⟩
    exact done_pure hb

variable {D events : List Envelope}

/-- **A poll succeeds**: it goes on through some records, none only where there was none. -/
theorem poll_done (hc : Caught serde sha256 reader D rs) (hrs : rs <+: (line.journal n).records) :
    Sees (reader.poll serde sha256) sight n fun r m => m ≤ last → ∃ x, r = .ok x ∧
      ∃ events, x.1 = .ok events ∧
        (∃ ss, rs ++ ss <+: (line.journal m).records ∧
          Caught serde sha256 x.2 (D ++ events) (rs ++ ss) ∧
          (ss = [] → (line.journal n).records = rs)) ∧
        (line.AllTold serde last → x.2.stats.skippedInvalid = reader.stats.skippedInvalid) := by
  have hdone : Done sight last (reader.poll serde sha256) n fun x => ∃ events, x.1 = .ok events ∧
      (line.AllTold serde last → x.2.stats.skippedInvalid = reader.stats.skippedInvalid) := by
    unfold TailReader.poll
    refine done_bind (patient_capture (attempt_patient _)) (fun answer => ?_)
      (done_capture (attempt_done hhex hcalm hrs hc.untold.offset _)) ?_
    · cases answer <;> exact patient_pure
    · rintro answer m - - ⟨batch, rfl, hb⟩
      refine done_pure ⟨batch.events, rfl, fun htold => ?_⟩
      simp [TailReader.commit, hb htold]
  have hsees := poll_sees line hhex hc hrs
  unfold Done Sees at hdone
  unfold Sees at hsees ⊢
  revert hdone hsees
  rcases reader.poll serde sha256 sight n with ⟨r, m⟩
  rintro hdone ⟨-, answer, next, rfl, hpolled⟩ hm
  obtain ⟨x, hx, events, hevents, hstats⟩ := hdone hm
  obtain rfl := Except.ok.inj hx
  obtain rfl : answer = .ok events := hevents
  obtain ⟨ss, hss, hcaught, hnow⟩ := hpolled
  refine ⟨_, rfl, events, rfl, ⟨ss, hss, hcaught, ?_⟩, hstats⟩
  rintro rfl
  refine hnow ?_
  rw [hcaught.offset, hc.offset, List.append_nil]

omit hcalm in
/-- **Polls succeed until nothing is left**: the answer comes before the polls are used up, unless
the journal has more records than they can take. -/
theorem pollAll_done : ∀ (fuel : Nat) (reader : TailReader) (events : List Envelope) (n : Nat)
    (rs : List Record), line.Calm n last → Caught serde sha256 reader (D ++ events) rs →
    rs <+: (line.journal n).records →
    Done sight last (TailReader.pollAll serde sha256 fuel reader events) n fun answer =>
      (answer = none → rs.length + fuel ≤ (line.journal last).records.length) ∧
      ∀ result next, answer = some (result, next) → ∃ events' rs', result = .ok events' ∧
        Caught serde sha256 next (D ++ events') rs' ∧ (line.journal n).records <+: rs' ∧
        rs' <+: (line.journal last).records := by
  intro fuel
  induction fuel with
  | zero =>
    intro reader events n rs _ _ hrs
    refine done_of_late patient_pure fun hlast => done_pure ⟨fun _ => ?_, by rintro _ _ ⟨⟩⟩
    exact (hrs.trans (line.later_le hlast).records).length_le
  | succ fuel ih =>
    intro reader events n rs hcalm hc hrs
    unfold TailReader.pollAll
    refine done_bind_at poll_patient (fun x => ?_) (poll_done hhex hcalm hc hrs) ?_
    · obtain ⟨answer, next⟩ := x
      cases answer with
      | error e => exact patient_pure
      | ok batch =>
        dsimp only
        split
        · exact patient_pure
        · exact pollAll_patient fuel next _
    rintro ⟨answer, next⟩ m hnm hm ⟨batch, rfl, ⟨ss, hss, hcaught, hnow⟩, -⟩
    rw [List.append_assoc] at hcaught
    have hmoves : next.offset = reader.offset ↔ ss = [] := by
      rw [hcaught.offset, hc.offset, lines_append, List.length_append, ← lines_eq_nil,
        ← List.length_eq_zero_iff]
      omega
    dsimp only
    split
    · rename_i hstays
      refine done_pure ⟨by rintro ⟨⟩, ?_⟩
      rintro result next' ⟨⟩
      refine ⟨_, _, rfl, hcaught, ?_, hss.trans (line.later_le hm).records⟩
      rw [hnow (hmoves.1 hstays)]
      exact List.prefix_append rs ss
    · rename_i hmoved
      refine (ih next (events ++ batch) m (rs ++ ss) (hcalm.later hnm) hcaught hss).mono ?_
      rintro answer ⟨hnone, hsome⟩
      refine ⟨fun h => ?_, fun result next' h => ?_⟩
      · have hpos : ss.length ≠ 0 := fun h => hmoved (hmoves.2 (List.length_eq_zero_iff.1 h))
        have hleft := hnone h
        rw [List.length_append] at hleft
        omega
      · obtain ⟨events', rs', hok, hcaught', hnow', hlater⟩ := hsome result next' h
        exact ⟨events', rs', hok, hcaught', (line.later_le hnm).records.trans hnow', hlater⟩

end Polling

end Orchestrail
