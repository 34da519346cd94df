import Orchestrail.Proof.Journal

/-!
# Rotation and recovery, step by step

Every durable step of a rotation and of its recovery is a tick of the journal, whatever the
environment does to it, so each state a crash leaves is a journal with the same sequence of records.
-/

namespace Orchestrail

open Records Durable Outcome

namespace Journal

variable {sha256 : Bytes → String} {μ : Type} {j t : Journal} {k : μ}

/-- The journal once the transfer its index records is finished. -/
def finished (j : Journal) : Journal :=
  match j.front with
  | .counted c | .emptied c => ⟨j.archived ++ [c], .flowing [] noRecord, j.stamp⟩
  | _ => j

/-- The journal once nothing of a transfer is left. -/
def recovered (j : Journal) : Journal :=
  match j.front with
  | .copied c => ⟨j.archived ++ [c], .flowing [] noRecord, j.time⟩
  | _ => j.finished

/-- The same sequence with the same tail, readable as before. -/
structure Kept (j t : Journal) : Prop where
  sound : t.Sound
  records : t.records = j.records
  torn : t.front.torn = j.front.torn

theorem Kept.refl (h : j.Sound) : Kept j j := ⟨h, rfl, rfl⟩

theorem Kept.trans {u : Journal} (h : Kept j t) (h' : Kept t u) : Kept j u :=
  ⟨h'.sound, h'.records.trans h.records, h'.torn.trans h.torn⟩

/-- How an operation that only transfers may end. -/
def Transfers {α : Type} (j : Journal) (k : μ) (done : α → Journal → Prop) :
    Except (Halt OutboxError) α → Journal → μ → Prop
  | .ok a, t, k' => k' = k ∧ Kept j t ∧ done a t
  | .error .interrupted, t, k' => k' = k ∧ Kept j t
  | .error (.failed _), _, _ => False

/-- A transfer, and what is done after it. -/
theorem runs_after {α β : Type} {G : Journal → Journal → Prop} {prog : Disk μ α} {f : α → Disk μ β}
    {i : Journal} {done : α → Journal → Prop} {Q : Except (Halt OutboxError) β → Journal → μ → Prop}
    (hkept : Kept i j) (h : Runs (work sha256) G prog j k (Transfers j k done))
    (hnext : ∀ a t, Kept i t → done a t → Runs (work sha256) G (f a) t k Q)
    (hstop : ∀ t, Kept i t → Q (.error .interrupted) t k) :
    Runs (work sha256) G (prog >>= f) j k Q := by
  refine runs_bind (h.mono fun r t l ht => ?_)
  match r with
  | .ok a =>
    obtain ⟨rfl, hjt, hdone⟩ := ht
    exact hnext a t (hkept.trans hjt) hdone
  | .error .interrupted =>
    obtain ⟨rfl, hjt⟩ := ht
    exact hstop t (hkept.trans hjt)
  | .error (.failed _) => exact ht.elim

variable (hhex : ∀ b, Text.isHex 64 (sha256 b) = true)

theorem ofIo_ok {α : Type} {a : α} {G : Journal → Journal → Prop}
    {Q : Except (Halt OutboxError) α → Journal → μ → Prop} {x : Io α} (hx : x = .ok a)
    (h : Q (.ok a) j k) : Runs (work sha256) G (ofIo x : Disk μ α) j k Q := by
  subst hx
  exact runs_pure h

/-- The index of a readable journal is written. -/
theorem writeMetadata_runs {m : RotationMetadata} (htick : Tick j t)
    (hwork : { j.work sha256 with index := some m } = t.work sha256)
    {maxBytes : Nat} (hmax : (rotationMetadataPayload m).utf8ByteSize ≤ maxBytes)
    {Q : Except (Halt OutboxError) Unit → Journal → μ → Prop} (hdone : Q (.ok ()) t k)
    (hwhole : Q (.error .interrupted) t k) (hnone : Q (.error .interrupted) j k) :
    Runs (work sha256) Tick (writeRotationMetadata m maxBytes : Disk μ Unit) j k Q := by
  refine runs_bind (ofIo_ok (a := ()) (demand_true hmax) ?_)
  exact runs_atomically t hwork htick hdone hwhole hnone

section Finish

variable {A : List Chunk} {c : Chunk} {s : Option String}

/-- The journal behind a transfer, whose index clears the marker. -/
theorem settle_work (f : Front) (hf : f = .counted c ∨ f = .emptied c) :
    ({ (⟨A, f, s⟩ : Journal).metadata sha256 with
        activePrefixBytes := 0, activePrefixSha256 := none
        generation := ((⟨A, f, s⟩ : Journal).metadata sha256).generation + 1 } : RotationMetadata) =
      (⟨A ++ [c], .flowing [] noRecord, s⟩ : Journal).metadata sha256 := by
  rcases hf with rfl | rfl <;>
    simp [metadata, time, counted, Front.pending, stream] <;> omega

theorem pending_ne_zero {f : Front} (hf : f = .counted c ∨ f = .emptied c) :
    ¬ ((⟨A, f, s⟩ : Journal).metadata sha256).activePrefixBytes = 0 := by
  have hpos := c.length_pos
  have hpre : ((⟨A, f, s⟩ : Journal).metadata sha256).activePrefixBytes = c.bytes.length := by
    rcases hf with rfl | rfl <;> simp [metadata, Front.pending, stream]
  omega

theorem replaceActive_runs {Q : Except (Halt OutboxError) Unit → Journal → μ → Prop}
    (hdone : Q (.ok ()) ⟨A, .emptied c, s⟩ k) (hwhole : Q (.error .interrupted) ⟨A, .emptied c, s⟩ k)
    (hnone : Q (.error .interrupted) ⟨A, .counted c, s⟩ k) :
    Runs (work sha256) Tick (replaceActiveWithoutPrefix sha256
      ((⟨A, .counted c, s⟩ : Journal).metadata sha256) : Disk μ Unit) ⟨A, .counted c, s⟩ k Q := by
  have hpos := c.length_pos
  refine runs_onDisk ?_
  have hact : ((⟨A, .counted c, s⟩ : Journal).work sha256).active = c.bytes := rfl
  have hpre : ((⟨A, .counted c, s⟩ : Journal).metadata sha256).activePrefixBytes = c.bytes.length := by
    simp [metadata, Front.pending, stream]
  have hsha : ((⟨A, .counted c, s⟩ : Journal).metadata sha256).activePrefixSha256 =
      some (sha256 c.bytes) := rfl
  simp only [hact, hpre, hsha]
  rw [if_neg (by omega)]
  refine runs_bind (ofIo_ok (a := ()) (demand_true le_rfl) ?_)
  refine runs_bind (ofIo_ok (a := ()) ?_ ?_)
  · simp [verifyActivePrefix, sha256Stream, bind, Except.bind]
  · refine runs_atomically _ ?_ Tick.empty hdone hwhole hnone
    simp [work, Front.active, Front.moving, counted, Front.pending, metadata, time, records,
      Front.records]

include hhex in
/-- The marker is cleared once the active file is replaced. -/
theorem clearMarker_runs (hj : (⟨A, .emptied c, s⟩ : Journal).Sound) {f : Front}
    (hf : f = .counted c ∨ f = .emptied c) :
    Runs (work sha256) Tick (do
        let m := (⟨A, f, s⟩ : Journal).metadata sha256
        let generation ← ofIo (nextGeneration m.generation)
        let settled := { m with
          activePrefixBytes := 0, activePrefixSha256 := none, generation := generation }
        writeRotationMetadata settled RotationLimits.standard.maxMetadataBytes
        pure settled : Disk μ RotationMetadata) ⟨A, .emptied c, s⟩ k
      (Transfers ⟨A, .emptied c, s⟩ k fun m t =>
        t = ⟨A ++ [c], .flowing [] noRecord, s⟩ ∧ m = t.metadata sha256) := by
  have ht : (⟨A ++ [c], .flowing [] noRecord, s⟩ : Journal).Sound := Tick.settle.sound hj
  have hkept : Kept ⟨A, .emptied c, s⟩ ⟨A ++ [c], .flowing [] noRecord, s⟩ :=
    ⟨ht, by simp [records, Front.records], rfl⟩
  have hlen := hj.listable
  have hgen : nextGeneration ((⟨A, f, s⟩ : Journal).metadata sha256).generation =
      .ok (((⟨A, f, s⟩ : Journal).metadata sha256).generation + 1) := by
    refine if_pos ?_
    rcases hf with rfl | rfl <;>
      simp [metadata, Front.pending, Front.moving, maxControlDirectoryEntries, u64Max] at hlen ⊢ <;>
      omega
  refine runs_bind (ofIo_ok hgen ?_)
  have hwork : { (⟨A, .emptied c, s⟩ : Journal).work sha256 with
      index := some ((⟨A ++ [c], .flowing [] noRecord, s⟩ : Journal).metadata sha256) } =
      (⟨A ++ [c], .flowing [] noRecord, s⟩ : Journal).work sha256 := by
    simp [work, counted, Front.active, Front.moving, Front.pending, records, Front.records, lines,
      noRecord]
  rw [← settle_work f hf] at hwork
  refine runs_bind (writeMetadata_runs Tick.settle hwork ?_ ?_ ⟨rfl, hkept⟩ ⟨rfl, .refl hj⟩)
  · rw [settle_work f hf]
    exact utf8ByteSize_rotationMetadataPayload (metadata_bounded hhex ht)
  · exact runs_pure ⟨rfl, hkept, rfl, settle_work f hf⟩

end Finish

include hhex

/-- **The transfer the index records is finished**, unless the environment interrupts it. -/
theorem completePending_runs (hj : j.Sound) :
    Runs (work sha256) Tick
      (completePendingRotation sha256 (j.metadata sha256) : Disk μ RotationMetadata) j k
      (Transfers j k fun m t => t = j.finished ∧ m = t.metadata sha256) := by
  obtain ⟨A, f, s⟩ := j
  cases f with
  | flowing | copied => exact runs_pure ⟨rfl, .refl hj, rfl, rfl⟩
  | counted c =>
    have hempty : (⟨A, .emptied c, s⟩ : Journal).Sound := Tick.empty.sound hj
    have hkept : Kept ⟨A, .counted c, s⟩ ⟨A, .emptied c, s⟩ := ⟨hempty, rfl, rfl⟩
    rw [completePendingRotation, if_neg (pending_ne_zero (.inl rfl))]
    refine runs_bind (replaceActive_runs ?_ ⟨rfl, hkept⟩ ⟨rfl, .refl hj⟩)
    refine (clearMarker_runs hhex hempty (.inl rfl)).mono fun r u l h => ?_
    match r with
    | .ok m => exact ⟨h.1, hkept.trans h.2.1, h.2.2⟩
    | .error .interrupted => exact ⟨h.1, hkept.trans h.2⟩
    | .error (.failed _) => exact h
  | emptied c =>
    rw [completePendingRotation, if_neg (pending_ne_zero (.inr rfl))]
    refine runs_bind (runs_onDisk ?_)
    rw [if_pos (by simp [work, Front.active])]
    exact runs_pure (clearMarker_runs hhex hj (.inr rfl))

section Adopt

variable {A : List Chunk} {c : Chunk} {s : Option String}

omit hhex

/-- The segment of the orphan. -/
def orphanSegment (A : List Chunk) (c : Chunk) : ArchivedSegment :=
  ⟨A.length + 1, (stream A).length, (stream A).length + c.bytes.length, c.bytes.length⟩

theorem orphanFiles_copied :
    (⟨A, .copied c, s⟩ : Journal).orphanFiles.map ArchiveFile.segment = [orphanSegment A c] := by
  simp [orphanFiles, counted, Front.pending, Front.orphan, files, ArchiveFile.segment, orphanSegment]

theorem openExisting_orphan : openExisting ((⟨A, .copied c, s⟩ : Journal).work sha256)
    (.segment (A.length + 1) (stream A).length ((stream A).length + c.bytes.length)) =
      .ok c.bytes := by
  have hmem : (⟨A.length + 1, (stream A).length, (stream A).length + c.bytes.length, c.bytes⟩ :
      ArchiveFile) ∈ files 1 0 (A ++ [c]) := by
    rw [files_append, Nat.add_comm 1]
    simp [files]
  exact openExisting_file (j := ⟨A, .copied c, s⟩) hmem

/-- The index that counts the orphan. -/
theorem adoptOrphan_work (hj : (⟨A, .copied c, s⟩ : Journal).Sound) :
    adoptOrphan sha256 ((⟨A, .copied c, s⟩ : Journal).work sha256)
        ((⟨A, .copied c, s⟩ : Journal).metadata sha256) (orphanSegment A c) =
      .ok ((⟨A, .counted c, (⟨A, .copied c, s⟩ : Journal).time⟩ : Journal).metadata sha256) := by
  have hlen := hj.listable
  have hpos := c.length_pos
  have hcount : ((⟨A, .copied c, s⟩ : Journal).metadata sha256).segmentCount = A.length := by
    simp [metadata, counted, Front.pending]
  have hend : ((⟨A, .copied c, s⟩ : Journal).metadata sha256).archivedLen = (stream A).length := by
    simp [metadata, counted, Front.pending]
  have hgen : ((⟨A, .copied c, s⟩ : Journal).metadata sha256).generation = 2 * A.length := by
    simp [metadata, Front.pending]
  have hact : ((⟨A, .copied c, s⟩ : Journal).work sha256).active = c.bytes := rfl
  have hsmall : A.length + 1 ≤ u64Max ∧ 2 * A.length + 1 ≤ u64Max := by
    simp [Front.moving, maxControlDirectoryEntries] at hlen
    simp only [u64Max]
    omega
  have hrange : (stream A).length < (stream A).length + c.bytes.length := by omega
  simp only [adoptOrphan, orphanSegment, nextSequence, nextGeneration, checkedAdd, hcount, hend, hgen,
    hact, openExisting_orphan, sha256Stream, if_pos hsmall.1, if_pos hsmall.2, bind, Except.bind,
    hrange, Nat.add_sub_cancel_left, lt_irrefl, if_false, List.take_length, le_refl, and_self,
    demand_trivial]
  simp [metadata, time, counted, Front.pending, stream]

end Adopt

/-- **Recovery** leaves nothing of a transfer, and fails only if the environment interrupts it. -/
theorem recover_runs (hj : j.Sound) :
    Runs (work sha256) Tick (recoverRotation sha256 : Disk μ Unit) j k
      (Transfers j k fun _ t => t = j.recovered) := by
  refine runs_onDisk (runs_bind (ofIo_ok (rotationState_work hhex hj) ?_))
  refine runs_after (.refl hj) (completePending_runs hhex hj) ?_ fun t hkept => ⟨rfl, hkept⟩
  rintro m t hkept ⟨rfl, rfl⟩
  obtain ⟨A, f, s⟩ := j
  cases f with
  | flowing | counted | emptied => exact runs_pure ⟨rfl, hkept, rfl⟩
  | copied c =>
    have htime : ∀ t ∈ (⟨A, .copied c, s⟩ : Journal).time,
        t.utf8ByteSize ≤ maxRotationTimestampBytes := by
      intro t ht
      simp only [time] at ht
      split at ht
      · cases ht
      · exact hj.stamped t ht
    have hcounted := (Tick.count _ htime).sound hj
    have hkept' : Kept (⟨A, .copied c, s⟩ : Journal) ⟨A, .counted c, _⟩ := ⟨hcounted, rfl, rfl⟩
    rw [orphanFiles_copied]
    refine runs_onDisk (runs_bind (ofIo_ok (adoptOrphan_work hj) ?_))
    refine runs_bind (writeMetadata_runs (Tick.count _ htime) ?_ ?_ ?_ ⟨rfl, hkept'⟩ ⟨rfl, hkept⟩)
    · simp [work, counted, Front.active, Front.moving, Front.pending, records, Front.records]
    · exact utf8ByteSize_rotationMetadataPayload (metadata_bounded hhex hcounted)
    · refine runs_after hkept' (completePending_runs hhex hcounted) ?_ fun t h => ⟨rfl, h⟩
      rintro m t h ⟨rfl, -⟩
      exact runs_pure ⟨rfl, h, rfl⟩

section Rotate

variable {A : List Chunk} {rs : List Record} {s : Option String} {occurredAt : String}

omit hhex

theorem boundedRotationTimestamp_le {t : String} (h : t ∈ boundedRotationTimestamp occurredAt) :
    t.utf8ByteSize ≤ maxRotationTimestampBytes := by
  unfold boundedRotationTimestamp at h
  split at h
  · rename_i hb
    obtain rfl := Option.some.inj h
    exact hb.2
  · cases h

include hhex in
/-- What a transfer of the active records plans, unless the archive would outgrow its addresses. -/
theorem planRotation_work (c : Chunk) (hj : (⟨A, .flowing c.records noRecord, s⟩ : Journal).Sound) :
    planRotation ((⟨A, .flowing c.records noRecord, s⟩ : Journal).work sha256) occurredAt =
      if (stream (A ++ [c])).length ≤ u64Max then
        .ok { (⟨A, .counted c, boundedRotationTimestamp occurredAt⟩ : Journal).metadata sha256 with
          activePrefixSha256 := some placeholderSha256 }
      else invalidData "archive offset overflowed" := by
  have hlen := hj.listable
  have hact : ((⟨A, .flowing c.records noRecord, s⟩ : Journal).work sha256).active = c.bytes := by
    simp [work, Front.active, noRecord, Chunk.bytes]
  have hstate := rotationState_work hhex hj
  have horphan : (⟨A, .flowing c.records noRecord, s⟩ : Journal).orphanFiles = [] := rfl
  have hcount : ((⟨A, .flowing c.records noRecord, s⟩ : Journal).metadata sha256).segmentCount =
      A.length := by simp [metadata, counted, Front.pending]
  have hend : ((⟨A, .flowing c.records noRecord, s⟩ : Journal).metadata sha256).archivedLen =
      (stream A).length := by simp [metadata, counted, Front.pending]
  have hgen : ((⟨A, .flowing c.records noRecord, s⟩ : Journal).metadata sha256).generation =
      2 * A.length := by simp [metadata, Front.pending]
  have hpre : ((⟨A, .flowing c.records noRecord, s⟩ : Journal).metadata sha256).activePrefixBytes =
      0 := by simp [metadata, Front.pending, stream]
  have hsmall : A.length + 1 ≤ u64Max ∧ 2 * A.length + 1 ≤ u64Max := by
    simp [Front.moving, maxControlDirectoryEntries] at hlen
    simp only [u64Max]
    omega
  have hsum : (stream (A ++ [c])).length = (stream A).length + c.bytes.length := by
    simp [stream]
  have hcommitted : committedPrefixLen c.bytes = .ok c.bytes.length := by
    simpa [noRecord, Chunk.bytes] using committedPrefixLen_lines c.records noRecord (Nat.zero_le _)
  simp only [planRotation, hact, hcommitted, hstate, horphan, List.map_nil, hcount, hend, hgen, hpre,
    nextSequence, nextGeneration, checkedAdd, if_pos hsmall.1, if_pos hsmall.2, hsum, bind,
    Except.bind, and_self, demand_trivial]
  by_cases hfits : (stream A).length + c.bytes.length ≤ u64Max
  · rw [if_pos hfits, if_pos hfits]
    simp [metadata, time, counted, Front.pending, stream]
  · rw [if_neg hfits, if_neg hfits]
    rfl

/-- How a transfer of the active records may end: declined or done, and otherwise without any
change of its own. It gives up by itself only where the archive would outgrow its addresses. -/
def Rotates (A : List Chunk) (rs : List Record) (s : Option String) (k : μ) :
    Except (Halt OutboxError) Nat → Journal → μ → Prop
  | .ok 0, t, k' => k' = k ∧ t = ⟨A, .flowing rs noRecord, s⟩
  | .ok (n + 1), t, k' => k' = k ∧ n + 1 = (lines rs).length ∧
      ∃ c s', c.records = rs ∧ t = ⟨A ++ [c], .flowing [] noRecord, s'⟩
  | .error .interrupted, _, k' => k' = k
  | .error (.failed e), t, k' =>
    k' = k ∧ t = ⟨A, .flowing rs noRecord, s⟩ ∧ (∃ error, e = .io error) ∧
      u64Max < (stream A).length + (lines rs).length

theorem copySegment_runs {c : Chunk} (hlen : A.length < maxControlDirectoryEntries)
    (hfits : (stream (A ++ [c])).length ≤ u64Max)
    {Q : Except (Halt OutboxError) Unit → Journal → μ → Prop}
    (hdone : Q (.ok ()) ⟨A, .copied c, s⟩ k) (hwhole : Q (.error .interrupted) ⟨A, .copied c, s⟩ k)
    (hnone : Q (.error .interrupted) ⟨A, .flowing c.records noRecord, s⟩ k) :
    Runs (work sha256) Tick (copySegmentAtomically (A.length + 1) (stream A).length
      ((stream A).length + c.bytes.length) : Disk μ Unit) ⟨A, .flowing c.records noRecord, s⟩ k Q := by
  have hfree : (openExisting ((⟨A, .flowing c.records noRecord, s⟩ : Journal).work sha256)
      (.segment (A.length + 1) (stream A).length ((stream A).length + c.bytes.length))).isOk =
      false := by
    have hnone : ((files 1 0 (A ++ [])).find? fun f => f.sequence = A.length + 1 ∧
        f.startOffset = (stream A).length ∧
        f.endOffset = (stream A).length + c.bytes.length) = none := by
      rw [List.find?_eq_none]
      intro f hf
      have := sequence_lt hf
      simp only [List.append_nil] at this
      simp only [decide_eq_true_eq, not_and]
      omega
    simp only [openExisting, work, Front.moving]
    rw [hnone]
    rfl
  refine runs_onDisk (runs_bind (ofIo_ok (a := ()) (demand_true hfree) ?_))
  refine runs_atomically _ ?_ (Tick.copy c hlen hfits) hdone hwhole hnone
  have hself : lines c.records = c.bytes := rfl
  simp [work, Front.active, Front.moving, counted, Front.pending, metadata, time, records,
    Front.records, noRecord, files_append, files, hself, Nat.add_comm 1]

/-- The planned index with the digest of what was copied. -/
theorem planned_eq {c : Chunk} {s' : Option String} :
    ({ (⟨A, .counted c, s'⟩ : Journal).metadata sha256 with
        activePrefixSha256 := some (sha256 (lines c.records)) } : RotationMetadata) =
      (⟨A, .counted c, s'⟩ : Journal).metadata sha256 := rfl

include hhex in
/-- The durable steps of a transfer that was planned. -/
theorem transfer_runs {c : Chunk} {s' : Option String} {maxBytes : Nat}
    (hj : (⟨A, .flowing c.records noRecord, s⟩ : Journal).Sound)
    (hroom : A.length < maxControlDirectoryEntries) (hfits : (stream (A ++ [c])).length ≤ u64Max)
    (hs' : ∀ t ∈ s', t.utf8ByteSize ≤ maxRotationTimestampBytes)
    (hbytes : (rotationMetadataPayload
      ((⟨A, .counted c, s'⟩ : Journal).metadata sha256)).utf8ByteSize ≤ maxBytes) :
    Runs (work sha256) Tick (do
        copySegmentAtomically (A.length + 1) (stream A).length ((stream A).length + c.bytes.length)
        writeRotationMetadata ((⟨A, .counted c, s'⟩ : Journal).metadata sha256) maxBytes
        let _ ← completePendingRotation sha256 ((⟨A, .counted c, s'⟩ : Journal).metadata sha256)
        pure c.bytes.length : Disk μ Nat)
      ⟨A, .flowing c.records noRecord, s⟩ k fun r t k' =>
        Kept ⟨A, .flowing c.records noRecord, s⟩ t ∧ Rotates A c.records s k r t k' := by
  have hcopied := (Tick.copy (s := s) c hroom hfits).sound hj
  have hcounted := (Tick.count s' hs').sound hcopied
  have hkept : Kept ⟨A, .flowing c.records noRecord, s⟩ ⟨A, .copied c, s⟩ := ⟨hcopied, rfl, rfl⟩
  have hkept' : Kept ⟨A, .flowing c.records noRecord, s⟩ ⟨A, .counted c, s'⟩ :=
    ⟨hcounted, rfl, rfl⟩
  refine runs_bind (copySegment_runs hroom hfits ?_ ⟨hkept, rfl⟩ ⟨.refl hj, rfl⟩)
  have hwork : { (⟨A, .copied c, s⟩ : Journal).work sha256 with
      index := some ((⟨A, .counted c, s'⟩ : Journal).metadata sha256) } =
      (⟨A, .counted c, s'⟩ : Journal).work sha256 := by
    simp [work, counted, Front.active, Front.moving, Front.pending, records, Front.records]
  refine runs_bind (writeMetadata_runs (Tick.count s' hs') hwork hbytes ?_ ⟨hkept', rfl⟩
    ⟨hkept, rfl⟩)
  refine runs_after hkept' (completePending_runs hhex hcounted) ?_ fun t h => ⟨h, rfl⟩
  rintro m t h ⟨rfl, -⟩
  have hpos := c.length_pos
  obtain ⟨n, hn⟩ : ∃ n, c.bytes.length = n + 1 := ⟨c.bytes.length - 1, by omega⟩
  rw [hn]
  exact runs_pure ⟨h, rfl, hn.symm, c, _, rfl, rfl⟩

include hhex in
/-- **A transfer** keeps the sequence; only the environment can leave it half done. -/
theorem rotate_runs {policy : RotationPolicy} {limits : RotationLimits}
    (hj : (⟨A, .flowing rs noRecord, s⟩ : Journal).Sound) :
    Runs (work sha256) Tick (rotateActiveSegment sha256 occurredAt policy limits : Disk μ Nat)
      ⟨A, .flowing rs noRecord, s⟩ k fun r t k' =>
        Kept ⟨A, .flowing rs noRecord, s⟩ t ∧ Rotates A rs s k r t k' := by
  refine runs_after (.refl hj) (recover_runs hhex hj) ?_ fun t h => ⟨h, rfl⟩
  rintro - t - rfl
  have hself : (⟨A, .flowing rs noRecord, s⟩ : Journal).recovered = ⟨A, .flowing rs noRecord, s⟩ := rfl
  rw [hself]
  refine runs_onDisk ?_
  have hact : ((⟨A, .flowing rs noRecord, s⟩ : Journal).work sha256).active = lines rs := by
    simp [work, Front.active, noRecord]
  simp only [hact]
  by_cases hmin : (lines rs).length < policy.effectiveMinSegmentBytes
  · rw [if_pos hmin]
    exact runs_pure ⟨.refl hj, rfl, rfl⟩
  rw [if_neg hmin]
  have hpos : 0 < (lines rs).length := by
    unfold RotationPolicy.effectiveMinSegmentBytes at hmin
    omega
  obtain ⟨c, rfl⟩ : ∃ c : Chunk, c.records = rs :=
    ⟨⟨rs, fun h => by simp [h, lines] at hpos⟩, rfl⟩
  by_cases hfits : (stream (A ++ [c])).length ≤ u64Max
  swap
  · refine runs_bind ?_
    rw [planRotation_work hhex c hj, if_neg hfits]
    have hsum : (stream (A ++ [c])).length = (stream A).length + (lines c.records).length := by
      simp [stream, Chunk.bytes]
    exact runs_refuse ⟨.refl hj, rfl, rfl, ⟨_, rfl⟩, by omega⟩
  refine runs_bind (ofIo_ok (by rw [planRotation_work hhex c hj, if_pos hfits]) ?_)
  simp only [GoesOn]
  split
  · exact runs_pure ⟨.refl hj, rfl, rfl⟩
  rename_i hcap
  obtain ⟨hsegments, hbytes⟩ := not_or.1 hcap
  have hcount : ((⟨A, .counted c, boundedRotationTimestamp occurredAt⟩ : Journal).metadata
      sha256).segmentCount = A.length + 1 := by
    simp [metadata, counted, Front.pending]
  have hend : ((⟨A, .counted c, boundedRotationTimestamp occurredAt⟩ : Journal).metadata
      sha256).archivedLen = (stream A).length + c.bytes.length := by
    simp [metadata, counted, Front.pending, stream]
  have hstart : (stream A).length + c.bytes.length - (lines c.records).length =
      (stream A).length := Nat.add_sub_cancel _ _
  have hroom : A.length < maxControlDirectoryEntries := by
    have := limits.listable
    simp only [hcount] at hsegments
    omega
  have hsize := payload_placeholder ((⟨A, .counted c, boundedRotationTimestamp occurredAt⟩ :
    Journal).metadata sha256) (hhex (lines c.records))
  rw [planned_eq] at hsize ⊢
  rw [hcount, hend, hstart]
  exact transfer_runs hhex hj hroom hfits (fun t ht => boundedRotationTimestamp_le ht) (by omega)

end Rotate

end Journal

end Orchestrail
