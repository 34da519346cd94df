import Orchestrail.Proof.IndexFile
import Orchestrail.Spec.Reader

/-!
# What a reader remembers

The membership filter never forgets an id, and a saved cursor brings back the reader it was taken
from, but for its counters.
-/

namespace Orchestrail

open Text Outcome

namespace DedupeFilter

variable {sha256 : Bytes → String} {filter : DedupeFilter} {id id' : String}

theorem mark_ne_zero (bit : Nat) : mark bit ≠ 0 := by
  have hall : ∀ k : Fin 8, (1 : UInt8) <<< UInt8.ofNat k.val ≠ 0 := by decide
  exact hall ⟨bit % 8, Nat.mod_lt _ (by omega)⟩

theorem and_or_right (a b m : UInt8) : (a ||| b) &&& m = (a &&& m) ||| (b &&& m) := by
  rw [← UInt8.toBitVec_inj]
  ext i hi
  simp [Bool.and_or_distrib_right]

theorem getD_setBit {bits : List UInt8} {bit k : Nat} : (setBit bits bit).getD k 0 =
    if bit / 8 = k ∧ k < bits.length then bits.getD k 0 ||| mark bit else bits.getD k 0 := by
  simp only [setBit, List.getD_eq_getElem?_getD, List.getElem?_modify]
  by_cases hk : k < bits.length
  · simp [hk]
  · simp [hk]

/-- A bit that is set stays set. -/
theorem setBit_mono {bits : List UInt8} {bit bit' : Nat}
    (h : bits.getD (bit / 8) 0 &&& mark bit ≠ 0) :
    (setBit bits bit').getD (bit / 8) 0 &&& mark bit ≠ 0 := by
  rw [getD_setBit]
  split
  · rw [and_or_right, ne_eq, UInt8.or_eq_zero_iff]
    exact fun hz => h hz.1
  · exact h

theorem setBit_self {bits : List UInt8} {bit : Nat} (h : bit / 8 < bits.length) :
    (setBit bits bit).getD (bit / 8) 0 &&& mark bit ≠ 0 := by
  rw [getD_setBit, if_pos ⟨rfl, h⟩, and_or_right, ne_eq, UInt8.or_eq_zero_iff, UInt8.and_self]
  exact fun hz => mark_ne_zero bit hz.2

theorem foldl_setBit_mono {bits : List UInt8} {bit : Nat} (places : List Nat)
    (h : bits.getD (bit / 8) 0 &&& mark bit ≠ 0) :
    (places.foldl setBit bits).getD (bit / 8) 0 &&& mark bit ≠ 0 := by
  induction places generalizing bits with
  | nil => exact h
  | cons place places ih => exact ih (setBit_mono h)

theorem foldl_setBit_mem {bits : List UInt8} {places : List Nat} {bit : Nat} (hbit : bit ∈ places)
    (h : bit / 8 < bits.length) :
    (places.foldl setBit bits).getD (bit / 8) 0 &&& mark bit ≠ 0 := by
  induction places generalizing bits with
  | nil => cases hbit
  | cons place places ih =>
    rcases List.mem_cons.1 hbit with rfl | hbit
    · exact foldl_setBit_mono places (setBit_self h)
    · exact ih hbit (by simpa [setBit] using h)

/-- Every place is one of the filter. -/
theorem place_lt {bit : Nat} (h : bit ∈ places sha256 id) : bit / 8 < dedupeFilterBytes := by
  obtain ⟨index, -, rfl⟩ := List.mem_map.1 h
  have := Nat.mod_lt (fromLeBytes (((hexBytes (sha256 (utf8 id)).toList).getD [] |>.drop (index * 8)).take 8))
    (show 0 < dedupeFilterBytes * 8 by decide)
  omega

theorem maybeContains_iff : filter.maybeContains sha256 id = true ↔
    ∀ bit ∈ places sha256 id, filter.bits.getD (bit / 8) 0 &&& mark bit ≠ 0 := by
  simp [maybeContains]

/-- **The filter never forgets.** -/
theorem maybeContains_insert (h : id' = id ∨ filter.maybeContains sha256 id = true) :
    (filter.insert sha256 id').maybeContains sha256 id = true := by
  rw [maybeContains_iff]
  intro bit hbit
  rcases h with rfl | h
  · exact foldl_setBit_mem hbit (by rw [filter.sized]; exact place_lt hbit)
  · exact foldl_setBit_mono _ (maybeContains_iff.1 h bit hbit)

theorem maybeContains_foldl_insert {ids : List String}
    (h : id ∈ ids ∨ filter.maybeContains sha256 id = true) :
    (ids.foldl (insert sha256) filter).maybeContains sha256 id = true := by
  induction ids generalizing filter with
  | nil =>
    rcases h with h | h
    · cases h
    · exact h
  | cons first ids ih =>
    refine ih ?_
    rcases h with h | h
    · rcases List.mem_cons.1 h with rfl | h
      · exact .inr (maybeContains_insert (.inl rfl))
      · exact .inl h
    · exact .inr (maybeContains_insert (.inr h))

/-! ### The filter as text -/

theorem hexDigit_hexChar (byte : UInt8) :
    hexDigit (hexChar (byte >>> 4).toNat) = some (byte >>> 4) ∧
      hexDigit (hexChar (byte &&& 0x0f).toNat) = some (byte &&& 0x0f) ∧
      (byte >>> 4) <<< 4 ||| (byte &&& 0x0f) = byte ∧
      (hexChar (byte >>> 4).toNat).utf8Size = 1 ∧ (hexChar (byte &&& 0x0f).toNat).utf8Size = 1 := by
  have hall : ∀ k : Fin 256, let byte := UInt8.ofNat k.val
      hexDigit (hexChar (byte >>> 4).toNat) = some (byte >>> 4) ∧
      hexDigit (hexChar (byte &&& 0x0f).toNat) = some (byte &&& 0x0f) ∧
      (byte >>> 4) <<< 4 ||| (byte &&& 0x0f) = byte ∧
      (hexChar (byte >>> 4).toNat).utf8Size = 1 ∧ (hexChar (byte &&& 0x0f).toNat).utf8Size = 1 := by
    decide +kernel
  have hbyte := hall ⟨byte.toNat, byte.toNat_lt⟩
  simpa using hbyte

theorem hexBytes_toHex (bits : List UInt8) : hexBytes (bits.flatMap fun byte : UInt8 =>
    [hexChar (byte >>> 4).toNat, hexChar (byte &&& 0x0f).toNat]) = some bits := by
  induction bits with
  | nil => rfl
  | cons byte bits ih =>
    obtain ⟨h1, h2, h3, -⟩ := hexDigit_hexChar byte
    simp only [List.flatMap_cons, List.cons_append, List.nil_append, hexBytes, h1, h2, ih, h3, bind,
      Option.bind]

theorem utf8Len_toHex (bits : List UInt8) : String.utf8Len (bits.flatMap fun byte : UInt8 =>
    [hexChar (byte >>> 4).toNat, hexChar (byte &&& 0x0f).toNat]) = bits.length * 2 := by
  induction bits with
  | nil => rfl
  | cons byte bits ih =>
    obtain ⟨-, -, -, h4, h5⟩ := hexDigit_hexChar byte
    simp only [List.flatMap_cons, List.cons_append, List.nil_append, String.utf8Len_cons, h4, h5, ih,
      List.length_cons]
    omega

/-- **The filter is read back as it was written.** -/
theorem fromHex_toHex (filter : DedupeFilter) : fromHex filter.toHex = .ok filter := by
  have hsize : filter.toHex.utf8ByteSize = dedupeFilterBytes * 2 := by
    rw [toHex, String.utf8ByteSize_ofList, utf8Len_toHex, filter.sized]
  have hbits : hexBytes filter.toHex.toList = some filter.bits := by
    rw [toHex, String.toList_ofList, hexBytes_toHex]
  simp only [fromHex, hsize, ne_eq, not_true, if_false, hbits, filter.sized, dite_true]

end DedupeFilter

/-! ## The recent ids -/

theorem RecentIds.mem_insert {recent : RecentIds} {id id' : String}
    (h : id ∈ (recent.insert id').order) : id ∈ recent.order ∨ id = id' := by
  unfold insert at h
  split at h
  · exact .inl h
  · simp only at h
    split at h
    · simpa using List.mem_of_mem_drop h
    · simpa using h

theorem RecentIds.mem_foldl_insert {ids : List String} {recent : RecentIds} {id : String}
    (h : id ∈ (ids.foldl insert recent).order) : id ∈ recent.order ∨ id ∈ ids := by
  induction ids generalizing recent with
  | nil => exact .inl h
  | cons first ids ih =>
    rcases ih h with h | h
    · rcases mem_insert h with h | rfl
      · exact .inl h
      · exact .inr List.mem_cons_self
    · exact .inr (List.mem_cons_of_mem _ h)

/-! ## Saving and resuming -/

theorem textElements_map (ids : List String) : Cursor.textElements (ids.map .text) = .ok ids := by
  induction ids with
  | nil => rfl
  | cons first ids ih => simp only [List.map_cons, Cursor.textElements, ih, bind, Except.bind]

section Saved

variable (offset : Nat) (filter : String) (ids : List Json)

/-- The object of a cursor. -/
def savedCursor : List (String × Json) :=
  [("byte_offset", .integer offset), ("dedupe_filter", .text filter), ("delivered_ids", .array ids)]

theorem lookup_byteOffset :
    (savedCursor offset filter ids).lookup "byte_offset" = some (.integer offset) := rfl

theorem lookup_dedupeFilter :
    (savedCursor offset filter ids).lookup "dedupe_filter" = some (.text filter) := rfl

theorem lookup_deliveredIds :
    (savedCursor offset filter ids).lookup "delivered_ids" = some (.array ids) := rfl

end Saved

variable {serde : Serde} {sha256 : Bytes → String}

theorem fromValue_savedCursor {offset : Nat} {filter : DedupeFilter} {ids : List String}
    (hoffset : offset ≤ u64Max) :
    Cursor.fromValue sha256 (.object (savedCursor offset filter.toHex (ids.map .text))) =
      .ok
        { byteOffset := offset
          deliveredIds := ids.drop (ids.length - maxRecentIds)
          dedupeFilter := some (ids.foldl (DedupeFilter.insert sha256) filter).toHex } := by
  have hfits : (0 : Int) ≤ offset ∧ (offset : Int) ≤ u64Max := by omega
  simp only [Cursor.fromValue, lookup_byteOffset, lookup_dedupeFilter, lookup_deliveredIds,
    if_pos hfits, textElements_map, Cursor.readFilter, DedupeFilter.fromHex_toHex, bind, Except.bind,
    Int.toNat_natCast]

theorem toValue_cursor (reader : TailReader) :
    reader.cursor.toValue = .object (savedCursor reader.offset reader.dedupeFilter.toHex
      ((reader.recent.order.drop (reader.recent.order.length - maxRecentIds)).map .text)) := by
  simp only [Cursor.toValue, TailReader.cursor, savedCursor, Option.map_some, Option.toList_some,
    List.cons_append, List.nil_append]

theorem withCursor_offset (cursor : Cursor) :
    (TailReader.withCursor sha256 cursor).offset = cursor.byteOffset := rfl

theorem mem_withCursor_recent {offset : Nat} {ids : List String} {filter : Option String}
    {id : String} (h : id ∈ (TailReader.withCursor sha256 ⟨offset, ids, filter⟩).recent.order) :
    id ∈ ids := by
  rcases RecentIds.mem_foldl_insert h with h | h
  · cases h
  · exact h

theorem maybeContains_withCursor {offset : Nat} {ids : List String} {filter : DedupeFilter}
    {id : String} (h : filter.maybeContains sha256 id = true) :
    (TailReader.withCursor sha256 ⟨offset, ids, some filter.toHex⟩).dedupeFilter.maybeContains
      sha256 id = true := by
  simp only [TailReader.withCursor, Option.map_some, DedupeFilter.fromHex_toHex]
  exact DedupeFilter.maybeContains_foldl_insert (.inr h)

/-- **Resuming from a saved cursor** goes on at the same place; no id is forgotten, and none is
remembered that was not. -/
theorem withCursor_fromJson {reader : TailReader}
    (hread : serde.read (reader.cursor.toJson serde) = .ok reader.cursor.toValue)
    (hoffset : reader.offset ≤ u64Max) :
    ∃ cursor, Cursor.fromJson serde sha256 (reader.cursor.toJson serde) = .ok cursor ∧
      (TailReader.withCursor sha256 cursor).offset = reader.offset ∧
      (∀ id ∈ (TailReader.withCursor sha256 cursor).recent.order, id ∈ reader.recent.order) ∧
      ∀ id, reader.dedupeFilter.maybeContains sha256 id = true →
        (TailReader.withCursor sha256 cursor).dedupeFilter.maybeContains sha256 id = true := by
  obtain ⟨ids, hids⟩ : ∃ ids, ids = reader.recent.order.drop
      (reader.recent.order.length - maxRecentIds) := ⟨_, rfl⟩
  have hcursor : Cursor.fromJson serde sha256 (reader.cursor.toJson serde) = .ok
      { byteOffset := reader.offset
        deliveredIds := ids.drop (ids.length - maxRecentIds)
        dedupeFilter := some (ids.foldl (DedupeFilter.insert sha256) reader.dedupeFilter).toHex } := by
    rw [Cursor.fromJson, hread, toValue_cursor, ← hids]
    exact fromValue_savedCursor hoffset
  refine ⟨_, hcursor, withCursor_offset _, fun id hid => ?_, fun id hid => ?_⟩
  · have hmem : id ∈ ids.drop (ids.length - maxRecentIds) := mem_withCursor_recent hid
    rw [hids] at hmem
    exact List.mem_of_mem_drop (List.mem_of_mem_drop hmem)
  · have hfilter : (ids.foldl (DedupeFilter.insert sha256) reader.dedupeFilter).maybeContains
        sha256 id = true := DedupeFilter.maybeContains_foldl_insert (.inr hid)
    exact maybeContains_withCursor hfilter

end Orchestrail
