import Mathlib.Data.List.Basic

/-!
# Records closed by a separator

A text is a run of records, each closed by a separator, and a tail that is not closed yet. `joined`
writes records down, `cut` reads a text back into its records and its tail, `readUntil` reads the
first record of a text and `rposition` finds the last separator.
-/

namespace Orchestrail.Records

variable {α : Type} (sep : α)

/-- The records one after the other, each closed by the separator. -/
def joined (rs : List (List α)) : List α := rs.flatMap (· ++ [sep])

section Joined

variable {sep} {r : List α} {rs ss : List (List α)}

@[simp] theorem joined_nil : joined sep [] = [] := rfl

@[simp] theorem joined_cons : joined sep (r :: rs) = r ++ sep :: joined sep rs := by
  simp [joined]

@[simp] theorem joined_append : joined sep (rs ++ ss) = joined sep rs ++ joined sep ss := by
  simp [joined]

theorem joined_eq_nil : joined sep rs = [] ↔ rs = [] := by
  cases rs <;> simp

/-- A text of at least one record ends with a separator. -/
theorem getLast?_joined (h : rs ≠ []) : (joined sep rs).getLast? = some sep := by
  rw [← List.dropLast_append_getLast h]
  simp

end Joined

variable [DecidableEq α]

/-- The text up to and with its first separator, or all of it. -/
def readUntil : List α → List α
  | [] => []
  | a :: as => if a = sep then [a] else a :: readUntil as

/-- The records of a text, and its tail. -/
def cut : List α → List (List α) × List α
  | [] => ([], [])
  | a :: as =>
    if a = sep then ([] :: (cut as).1, (cut as).2)
    else match cut as with
      | ([], tail) => ([], a :: tail)
      | (r :: rs, tail) => ((a :: r) :: rs, tail)

/-- The place of the last separator. -/
def rposition : List α → Option Nat
  | [] => none
  | a :: as =>
    match rposition as with
    | some i => some (i + 1)
    | none => if a = sep then some 0 else none

variable {sep} {r t : List α} {rs : List (List α)}

theorem readUntil_append (h : sep ∉ r) : readUntil sep (r ++ sep :: t) = r ++ [sep] := by
  induction r with
  | nil => simp [readUntil]
  | cons a r ih =>
    obtain ⟨ha, hr⟩ := not_or.1 (fun hm => h (List.mem_cons.2 hm))
    rw [List.cons_append, readUntil, if_neg (Ne.symm ha), ih hr, List.cons_append]

/-- A text without a separator is read to its end. -/
theorem readUntil_eq_self (h : sep ∉ t) : readUntil sep t = t := by
  induction t with
  | nil => rfl
  | cons a t ih =>
    obtain ⟨ha, ht⟩ := not_or.1 (fun hm => h (List.mem_cons.2 hm))
    rw [readUntil, if_neg (Ne.symm ha), ih ht]

/-- **The first record**, read within a window that may cut it short. -/
theorem readUntil_take (h : sep ∉ r) (n : Nat) :
    readUntil sep ((r ++ sep :: t).take n) = (r ++ [sep]).take n := by
  by_cases hn : n ≤ r.length
  · rw [List.take_append_of_le_length hn, List.take_append_of_le_length hn]
    exact readUntil_eq_self fun hm => h (List.mem_of_mem_take hm)
  · obtain ⟨k, rfl⟩ : ∃ k, n = r.length + (k + 1) := ⟨n - r.length - 1, by omega⟩
    simp only [List.take_length_add_append, List.take_succ_cons, List.take_nil]
    exact readUntil_append h

theorem cut_of_notMem (h : sep ∉ t) : cut sep t = ([], t) := by
  induction t with
  | nil => rfl
  | cons a t ih =>
    obtain ⟨ha, ht⟩ := not_or.1 (fun hm => h (List.mem_cons.2 hm))
    rw [cut, if_neg (Ne.symm ha), ih ht]

theorem cut_record (h : sep ∉ r) :
    cut sep (r ++ sep :: t) = (r :: (cut sep t).1, (cut sep t).2) := by
  induction r with
  | nil => simp [cut]
  | cons a r ih =>
    obtain ⟨ha, hr⟩ := not_or.1 (fun hm => h (List.mem_cons.2 hm))
    rw [List.cons_append, cut, if_neg (Ne.symm ha), ih hr]

/-- **Reading back**: the records and the tail that were written. -/
theorem cut_joined (hrs : ∀ r ∈ rs, sep ∉ r) (ht : sep ∉ t) :
    cut sep (joined sep rs ++ t) = (rs, t) := by
  induction rs with
  | nil => exact cut_of_notMem ht
  | cons r rs ih =>
    have hr : sep ∉ r := hrs r List.mem_cons_self
    have hrest := ih fun s hs => hrs s (List.mem_cons_of_mem _ hs)
    rw [joined_cons, List.append_assoc, List.cons_append, cut_record hr, hrest]

omit [DecidableEq α] in
/-- What a window shows of a text: some whole records, and a part of the next one or of the tail. -/
theorem take_joined (hrs : ∀ r ∈ rs, sep ∉ r) (ht : sep ∉ t) (n : Nat) :
    ∃ i tail, (joined sep rs ++ t).take n = joined sep (rs.take i) ++ tail ∧ sep ∉ tail ∧
      i ≤ rs.length ∧ ∀ r ∈ rs[i]?, n ≤ (joined sep (rs.take i)).length + r.length := by
  induction rs generalizing n with
  | nil =>
    exact ⟨0, t.take n, rfl, fun hm => ht (List.mem_of_mem_take hm), Nat.le_refl _, by simp⟩
  | cons r rs ih =>
    have hr : sep ∉ r := hrs r List.mem_cons_self
    rw [joined_cons, List.append_assoc, List.cons_append]
    by_cases hn : n ≤ r.length
    · refine ⟨0, r.take n, ?_, fun hm => hr (List.mem_of_mem_take hm), Nat.zero_le _, ?_⟩
      · rw [List.take_append_of_le_length hn]
        rfl
      · simpa [joined] using hn
    · obtain ⟨k, rfl⟩ : ∃ k, n = r.length + (k + 1) := ⟨n - r.length - 1, by omega⟩
      obtain ⟨i, tail, hshow, htail, hi, hnext⟩ := ih (fun s hs => hrs s (List.mem_cons_of_mem _ hs)) k
      refine ⟨i + 1, tail, ?_, htail, Nat.succ_le_succ hi, fun s hs => ?_⟩
      · rw [List.take_length_add_append, List.take_succ_cons, hshow]
        simp
      · have := hnext s (by simpa using hs)
        simp only [List.take_succ_cons, joined_cons, List.length_append, List.length_cons]
        omega

theorem rposition_of_notMem (h : sep ∉ t) : rposition sep t = none := by
  induction t with
  | nil => rfl
  | cons a t ih =>
    obtain ⟨ha, ht⟩ := not_or.1 (fun hm => h (List.mem_cons.2 hm))
    rw [rposition, ih ht]
    simp [Ne.symm ha]

/-- **The last separator** stands right before the tail. -/
theorem rposition_tail (h : sep ∉ t) (l : List α) :
    rposition sep (l ++ sep :: t) = some l.length := by
  induction l with
  | nil => simp [rposition, rposition_of_notMem h]
  | cons a l ih => rw [List.cons_append, rposition, ih, List.length_cons]

end Orchestrail.Records
