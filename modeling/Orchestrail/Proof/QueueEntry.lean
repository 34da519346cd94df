import Orchestrail.Proof.Retire
import Orchestrail.Proof.ReviewCycle
import Orchestrail.Spec.QueueEntry
import Mathlib.Logic.Relation

/-!
# The retry counter of a queue entry
-/

namespace Orchestrail.QueueEntry

open Text Outcome

/-! ## White space -/

theorem space_only : ∀ ch ∈ [' '], isWhiteSpace ch = true := by
  intro ch hch
  rw [List.mem_singleton.1 hch]
  decide

theorem return_only : ∀ ch ∈ ['\r'], isWhiteSpace ch = true := by
  intro ch hch
  rw [List.mem_singleton.1 hch]
  decide

/-! ## The fields of a status -/

theorem suffixField_cut (a b key : List Char) :
    suffixField (a ++ '·' :: b) key = (suffixField a key).or (suffixField b key) := by
  unfold suffixField
  rw [pieces_cut _ _ _ (by rfl), List.findSome?_append]

theorem suffixField_single {a : List Char} (ha : '·' ∉ a) (key : List Char) :
    suffixField a key = (stripFront key (trim a)).map trim := by
  have hnone : ∀ ch ∈ a, (ch == '·') = false := by
    intro ch hch
    rw [beq_eq_false_iff_ne]
    rintro rfl
    exact ha hch
  unfold suffixField
  rw [pieces_of_none hnone]
  cases h : (stripFront key (trim a)).map trim <;> simp [h]

theorem space_ne_dot {ch : Char} (h : isWhiteSpace ch = true) : ch ≠ '·' := by
  rintro rfl
  revert h
  decide

theorem suffixField_lead {a : List Char} (ha : ∀ ch ∈ a, isWhiteSpace ch = true)
    (s key : List Char) : suffixField (a ++ s) key = suffixField s key := by
  have hdot : '·' ∉ a := fun h => space_ne_dot (ha _ h) rfl
  by_cases hs : '·' ∈ s
  · obtain ⟨x, y, rfl, hx⟩ := List.eq_append_cons_of_mem hs
    rw [← List.append_assoc, suffixField_cut, suffixField_cut, suffixField_single hx,
      suffixField_single (by simp [hdot, hx]), trim_lead ha]
  · rw [suffixField_single hs, suffixField_single (by simp [hdot, hs]), trim_lead ha]

theorem suffixField_tail {b : List Char} (hb : ∀ ch ∈ b, isWhiteSpace ch = true)
    (s key : List Char) : suffixField (s ++ b) key = suffixField s key := by
  have hdot : '·' ∉ b := fun h => space_ne_dot (hb _ h) rfl
  -- only the last segment is next to the white space: go on behind the first separator
  induction hn : s.length using Nat.strong_induction_on generalizing s with
  | _ n ih =>
    by_cases hs : '·' ∈ s
    · obtain ⟨x, y, rfl, -⟩ := List.eq_append_cons_of_mem hs
      rw [List.append_assoc, List.cons_append, suffixField_cut, suffixField_cut,
        ih y.length (by rw [← hn]; simp; omega) y rfl]
    · rw [suffixField_single hs, suffixField_single (by simp [hdot, hs]), trim_tail hb]

theorem suffixField_trim (s key : List Char) : suffixField (trim s) key = suffixField s key := by
  obtain ⟨a, b, hs, ha, hb⟩ := trim_parts s
  conv_rhs => rw [hs]
  rw [suffixField_tail hb, suffixField_lead ha]

/-- The next segment of a status. -/
theorem suffixField_next (a b key : List Char) : suffixField (a ++ ' ' :: '·' :: b) key =
    (suffixField a key).or (suffixField b key) := by
  rw [show a ++ ' ' :: '·' :: b = (a ++ [' ']) ++ '·' :: b by simp, suffixField_cut,
    suffixField_tail space_only]

/-- No counter stands behind a separator of the value. -/
def Quiet (value : List Char) : Prop :=
  suffixField (value.dropWhile (· ≠ '·')).tail attemptKey = none

instance (value : List Char) : Decidable (Quiet value) := inferInstanceAs (Decidable (_ = _))

/-- A named value that is quiet holds no counter. -/
theorem suffixField_value {c d : Char} {name value : List Char} (hc : isWhiteSpace c = false)
    (hd : isWhiteSpace d = false) (hkey : ¬ (c = 'п' ∧ d = 'о'))
    (hname : '·' ∉ c :: d :: name) (hquiet : Quiet value) :
    suffixField (' ' :: c :: d :: (name ++ value)) attemptKey = none := by
  have hno : ∀ x, stripFront attemptKey (trim (c :: d :: x)) = none := by
    intro x
    obtain ⟨y, hy⟩ := trim_pair hc hd x
    rw [hy]
    refine if_neg fun h => hkey ?_
    have hpre : 'п' :: 'о' :: "пытка=".toList <+: c :: d :: y := List.isPrefixOf_iff_prefix.1 h
    exact ⟨(List.cons_prefix_cons.1 hpre).1.symm,
      (List.cons_prefix_cons.1 (List.cons_prefix_cons.1 hpre).2).1.symm⟩
  have hlead : suffixField (' ' :: c :: d :: (name ++ value)) attemptKey =
      suffixField (c :: d :: (name ++ value)) attemptKey :=
    suffixField_lead space_only _ _
  rw [hlead]
  -- the first segment has the name in front, the others are those `Quiet` speaks of
  by_cases hv : '·' ∈ value
  · obtain ⟨x, y, rfl, hx⟩ := List.eq_append_cons_of_mem hv
    have htail : ((x ++ '·' :: y).dropWhile (· ≠ '·')).tail = y := by
      rw [List.dropWhile_append_of_pos (by
        intro ch hch
        simp only [decide_eq_true_eq]
        rintro rfl
        exact hx hch)]
      simp
    unfold Quiet at hquiet
    rw [htail] at hquiet
    have hlist : c :: d :: (name ++ (x ++ '·' :: y)) = (c :: d :: (name ++ x)) ++ '·' :: y := by
      simp
    rw [hlist, suffixField_cut, hquiet, suffixField_single, hno]
    · rfl
    · simp only [List.mem_cons, List.mem_append, not_or] at hname ⊢
      exact ⟨hname.1, hname.2.1, hname.2.2, hx⟩
  · rw [suffixField_single, hno]
    · rfl
    · simp only [List.mem_cons, List.mem_append, not_or] at hname ⊢
      exact ⟨hname.1, hname.2.1, hname.2.2, hv⟩

/-! ## The counter -/

theorem parseU32_toDigits {n : Nat} (h : n ≤ u32Max) : parseU32 (Nat.toDigits 10 n) = some n :=
  parseU32_digits digit_toDigits Nat.toDigits_ne_nil Nat.ofDigitChars_ten_toDigits h

theorem field_attempt {n : Nat} (rest : List Char)
    (hrest : rest = [] ∨ ∃ r, rest = ' ' :: '·' :: r) :
    suffixField (" попытка=".toList ++ Nat.toDigits 10 n ++ rest) attemptKey =
      some (Nat.toDigits 10 n) := by
  have hspace : trim (Nat.toDigits 10 n) = Nat.toDigits 10 n :=
    trim_of_not_space fun ch hch => digit_not_space (digit_toDigits ch hch)
  have hdot : '·' ∉ attemptKey ++ Nat.toDigits 10 n := by
    intro h
    rcases List.mem_append.1 h with h | h
    · revert h
      decide
    · have := digit_toDigits _ h
      revert this
      decide
  have hone : suffixField (" попытка=".toList ++ Nat.toDigits 10 n) attemptKey =
      some (Nat.toDigits 10 n) := by
    have hlist : " попытка=".toList ++ Nat.toDigits 10 n =
        [' '] ++ (attemptKey ++ Nat.toDigits 10 n) := rfl
    have htrim : trim (attemptKey ++ Nat.toDigits 10 n) = attemptKey ++ Nat.toDigits 10 n := by
      refine trim_of_not_space fun ch hch => ?_
      rcases List.mem_append.1 hch with hch | hch
      · have hkey : attemptKey.all (fun c => isWhiteSpace c == false) = true := by decide
        exact eq_of_beq (List.all_eq_true.1 hkey ch hch)
      · exact digit_not_space (digit_toDigits ch hch)
    rw [hlist, suffixField_lead space_only, suffixField_single hdot, htrim]
    unfold stripFront
    rw [if_pos (List.isPrefixOf_iff_prefix.2 (List.prefix_append ..)), List.drop_left,
      Option.map_some, hspace]
  rcases hrest with rfl | ⟨r, rfl⟩
  · rw [List.append_nil, hone]
  · rw [suffixField_next, hone]
    rfl

theorem attemptSuffix_some (n : Nat) :
    attemptSuffix (some n) = ' ' :: '·' :: (" попытка=".toList ++ Nat.toDigits 10 n) := by
  have hhead : " · попытка=".toList = ' ' :: '·' :: " попытка=".toList := by decide
  show " · попытка=".toList ++ Nat.toDigits 10 n = _
  rw [hhead, List.cons_append, List.cons_append]

/-- A counter behind a text without one is the counter. -/
theorem queueAttempt_suffix {x : List Char} {attempt : Option Nat}
    (hx : suffixField x attemptKey = none) (hmax : ∀ n ∈ attempt, n ≤ u32Max) :
    queueAttempt (x ++ attemptSuffix attempt) = attempt := by
  cases attempt with
  | none =>
    have hnil : attemptSuffix none = [] := rfl
    unfold queueAttempt
    rw [hnil, List.append_nil, hx, Option.bind_none]
  | some n =>
    have hfield := field_attempt (n := n) [] (.inl rfl)
    rw [List.append_nil] at hfield
    unfold queueAttempt
    rw [attemptSuffix_some, suffixField_next, hx, hfield, Option.none_or, Option.bind_some]
    exact parseU32_toDigits (hmax n rfl)

/-- Nothing behind the counter of a returned task is read as its counter. -/
theorem queueAttempt_returned {x : List Char} {n : Nat} (r : List Char)
    (hx : suffixField x attemptKey = none) (hmax : n ≤ u32Max) :
    queueAttempt (x ++ attemptSuffix (some n) ++ ' ' :: '·' :: r) = some n := by
  have hfield := field_attempt (n := n) (' ' :: '·' :: r) (.inr ⟨r, rfl⟩)
  unfold queueAttempt
  rw [attemptSuffix_some, List.append_assoc, List.cons_append, List.cons_append, suffixField_next,
    hx, hfield, Option.none_or, Option.bind_some]
  exact parseU32_toDigits hmax

/-! ## Searching the header -/

theorem afterFirst_here {pattern c : List Char} (hp : pattern ≠ []) :
    afterFirst pattern (pattern ++ c) = some c := by
  cases pattern with
  | nil => exact absurd rfl hp
  | cons d pattern =>
    have hpre : (d :: pattern).isPrefixOf (d :: (pattern ++ c)) = true :=
      List.isPrefixOf_iff_prefix.2 ⟨c, rfl⟩
    rw [List.cons_append, afterFirst, if_pos hpre, ← List.cons_append, List.drop_left]

/-- A match depends on nothing behind it. -/
theorem afterFirst_swap {pattern text b : List Char} (hp : pattern ≠ [])
    (h : afterFirst pattern text = some b) :
    ∃ a, text = a ++ b ∧ pattern <:+ a ∧ ∀ c, afterFirst pattern (a ++ c) = some c := by
  induction text with
  | nil =>
    unfold afterFirst at h
    split at h
    · rename_i hempty
      exact absurd (List.isEmpty_iff.1 hempty) hp
    · cases h
  | cons ch text ih =>
    unfold afterFirst at h
    split at h
    · rename_i hpre
      obtain ⟨b', hb'⟩ := List.isPrefixOf_iff_prefix.1 hpre
      rw [← hb', List.drop_left] at h
      obtain rfl := Option.some.inj h
      exact ⟨pattern, hb'.symm, List.suffix_refl _, fun c => afterFirst_here hp⟩
    · rename_i hpre
      obtain ⟨a, rfl, hsuf, hall⟩ := ih h
      refine ⟨ch :: a, rfl, hsuf.trans (List.suffix_cons ..), fun c => ?_⟩
      rw [List.cons_append, afterFirst, if_neg, hall]
      intro hc
      -- the match in `a` is as long as the pattern, so what stands here is part of `a` too
      have hshort : pattern <+: ch :: a :=
        List.prefix_of_prefix_length_le (List.isPrefixOf_iff_prefix.1 hc)
          (List.prefix_append (ch :: a) c)
          (hsuf.length_le.trans (Nat.le_succ _))
      exact hpre (List.isPrefixOf_iff_prefix.2 (hshort.trans (List.prefix_append ..)))

theorem afterFirst_front {pattern a b : List Char} (hp : pattern ≠ [])
    (h : afterFirst pattern (a ++ b) = none) : afterFirst pattern a = none := by
  cases hfound : afterFirst pattern a with
  | none => rfl
  | some c =>
    obtain ⟨x, rfl, -, hall⟩ := afterFirst_swap hp hfound
    rw [List.append_assoc, hall] at h
    cases h

theorem afterFirst_behind {pattern : List Char} (a : List Char) {b : List Char}
    (h : afterFirst pattern (a ++ b) = none) : afterFirst pattern b = none := by
  induction a with
  | nil => exact h
  | cons ch a ih =>
    rw [List.cons_append, afterFirst] at h
    split at h
    · cases h
    · exact ih h

/-- A character the pattern does not have keeps its matches apart. -/
theorem afterFirst_cut {pattern a b : List Char} {c : Char} (hp : pattern ≠ []) (hc : c ∉ pattern)
    (ha : afterFirst pattern a = none) (hb : afterFirst pattern b = none) :
    afterFirst pattern (a ++ c :: b) = none := by
  induction a with
  | nil =>
    rw [List.nil_append, afterFirst, if_neg, hb]
    intro hpre
    exact hp (List.prefix_nil.1 (Outline.prefix_of_notMem hc
      (show pattern <+: [] ++ c :: b from List.isPrefixOf_iff_prefix.1 hpre)))
  | cons ch a ih =>
    have hno : ¬ pattern.isPrefixOf (ch :: a) = true := by
      intro hpre
      rw [afterFirst, if_pos hpre] at ha
      cases ha
    rw [afterFirst, if_neg hno] at ha
    rw [List.cons_append, afterFirst, if_neg, ih ha]
    intro hpre
    exact hno (List.isPrefixOf_iff_prefix.2 (Outline.prefix_of_notMem hc
      (show pattern <+: (ch :: a) ++ c :: b from List.isPrefixOf_iff_prefix.1 hpre)))

theorem afterFirst_skip {c : Char} {pattern w : List Char} (x : List Char) (hw : c ∉ w) :
    afterFirst (c :: pattern) (w ++ x) = afterFirst (c :: pattern) x := by
  induction w with
  | nil => rfl
  | cons ch w ih =>
    have hne : ¬ (c :: pattern).isPrefixOf (ch :: (w ++ x)) = true := by
      intro hpre
      exact hw (List.mem_cons.2 (.inl (List.cons_prefix_cons.1
        (List.isPrefixOf_iff_prefix.1 hpre)).1))
    rw [List.cons_append, afterFirst, if_neg hne, ih fun h => hw (List.mem_cons_of_mem _ h)]

theorem afterFirst_snoc {pattern : List Char} {c : Char} (x : List Char) (hp : pattern ≠ [])
    (hc : c ∉ pattern) : afterFirst pattern (x ++ [c]) = (afterFirst pattern x).map (· ++ [c]) := by
  cases hx : afterFirst pattern x with
  | none =>
    have hnil : afterFirst pattern [] = none := by
      unfold afterFirst
      rw [if_neg (by simpa using hp)]
    exact afterFirst_cut hp hc hx hnil
  | some b =>
    obtain ⟨a, rfl, -, hall⟩ := afterFirst_swap hp hx
    rw [List.append_assoc, hall]
    rfl

/-- A text without the key has no field of it. -/
theorem suffixField_absent {key : List Char} (hkey : key ≠ []) (s : List Char)
    (h : afterFirst key s = none) : suffixField s key = none := by
  -- a segment that starts with the key is a match of the key in the text
  have hone : ∀ x, '·' ∉ x → afterFirst key x = none → suffixField x key = none := by
    intro x hx hnone
    rw [suffixField_single hx, Option.map_eq_none_iff]
    refine if_neg fun hpre => ?_
    obtain ⟨r, hr⟩ := List.isPrefixOf_iff_prefix.1 hpre
    obtain ⟨a, b, hparts, -, -⟩ := trim_parts x
    rw [hparts, ← hr, List.append_assoc, List.append_assoc] at hnone
    have := afterFirst_behind a hnone
    rw [afterFirst_here hkey] at this
    cases this
  induction hn : s.length using Nat.strong_induction_on generalizing s with
  | _ n ih =>
    by_cases hs : '·' ∈ s
    · obtain ⟨x, y, rfl, hx⟩ := List.eq_append_cons_of_mem hs
      have hy : afterFirst key y = none :=
        afterFirst_behind (x ++ ['·']) (by simpa using h)
      rw [suffixField_cut, hone x hx (afterFirst_front hkey h), Option.none_or]
      exact ih y.length (by rw [← hn]; simp; omega) y hy rfl
    · exact hone s hs h

/-! ## The header and its status -/

def lowerMarker : List Char := "статус:".toList

def upperMarker : List Char := "Статус:".toList

theorem behindMarker_eq (line : List Char) :
    behindMarker line = (afterFirst lowerMarker line).or (afterFirst upperMarker line) := rfl

/-- What is written behind the marker is what is read there. -/
theorem behindMarker_swap {line b status : List Char} (h : behindMarker line = some b)
    (hmarker : afterFirst lowerMarker line = none → afterFirst lowerMarker status = none) :
    ∃ a, line = a ++ b ∧ 'у' ∈ a ∧ behindMarker (a ++ ' ' :: status) = some (' ' :: status) := by
  rw [behindMarker_eq] at h
  cases hlower : afterFirst lowerMarker line with
  | some c =>
    rw [hlower, Option.some_or] at h
    obtain rfl := Option.some.inj h
    obtain ⟨a, rfl, hsuf, hall⟩ := afterFirst_swap (by decide) hlower
    exact ⟨a, rfl, hsuf.subset (by decide), by rw [behindMarker_eq, hall, Option.some_or]⟩
  | none =>
    -- the capitalised marker counts only while the other is nowhere in the line
    rw [hlower, Option.none_or] at h
    obtain ⟨a, rfl, hsuf, hall⟩ := afterFirst_swap (by decide) h
    have hnone : afterFirst lowerMarker (a ++ ' ' :: status) = none :=
      afterFirst_cut (by decide) (by decide) (afterFirst_front (by decide) hlower) (hmarker hlower)
    exact ⟨a, rfl, hsuf.subset (by decide), by rw [behindMarker_eq, hnone, Option.none_or, hall]⟩

theorem headerStatus_eq (text : List Char) :
    headerStatus text = (behindMarker (header text)).map trim := rfl

theorem header_parts (text : List Char) : '\n' ∉ header text ∧
    text = header text ++ text.drop (header text).length ∧
      ∀ x : List Char, '\n' ∉ x → header (x ++ text.drop (header text).length) = x := by
  have hnot : ∀ ch ∈ header text, ch ≠ '\n' := by
    intro ch hch
    simpa using List.mem_takeWhile_imp hch
  have hdrop : text.drop (header text).length = text.dropWhile (· ≠ '\n') := by
    have hparts : text = header text ++ text.dropWhile (· ≠ '\n') :=
      List.takeWhile_append_dropWhile.symm
    exact (congrArg (List.drop (header text).length) hparts).trans List.drop_left
  refine ⟨fun h => hnot _ h rfl, ?_, fun x hx => ?_⟩
  · rw [hdrop]
    exact List.takeWhile_append_dropWhile.symm
  · -- what follows the header is empty or starts with the line break
    have hrest : (text.dropWhile (· ≠ '\n')).takeWhile (· ≠ '\n') = [] := by
      cases hcase : text.dropWhile (· ≠ '\n') with
      | nil => rfl
      | cons ch rest =>
        have hch : ch = '\n' := by
          have hne : text.dropWhile (· ≠ '\n') ≠ [] := by
            rw [hcase]
            exact List.cons_ne_nil _ _
          have hhead := List.head_dropWhile_not _ hne
          simp only [hcase, List.head_cons] at hhead
          simpa using hhead
        simp [hch]
    rw [hdrop]
    unfold header
    rw [List.takeWhile_append_of_pos, hrest, List.append_nil]
    intro ch hch
    simp only [decide_eq_true_eq, ne_eq]
    rintro rfl
    exact hx hch

/-- The entry with its status replaced. -/
theorem replaceStatus_header {text old status : List Char} (hold : headerStatus text = some old)
    (hline : '\n' ∉ status)
    (hmarker : afterFirst lowerMarker (header text) = none → afterFirst lowerMarker status = none) :
    ∃ a b, header text = a ++ b ∧ 'у' ∈ a ∧ '\n' ∉ a ++ ' ' :: status ∧
      replaceStatus text status = (a ++ ' ' :: status) ++ text.drop (header text).length ∧
        headerStatus (replaceStatus text status) = some (trim status) := by
  rw [headerStatus_eq] at hold
  obtain ⟨b, hb, -⟩ := Option.map_eq_some_iff.1 hold
  obtain ⟨a, ha, hmem, hnew⟩ := behindMarker_swap hb hmarker
  obtain ⟨hnewline, -, hheader⟩ := header_parts text
  have htake : (header text).take ((header text).length - b.length) = a := by
    rw [ha]
    simp
  have hbehind : (behindMarker (header text)).getD [] = b := by
    rw [hb, Option.getD_some]
  have hnone : '\n' ∉ a ++ ' ' :: status := by
    intro h
    rcases List.mem_append.1 h with h | h
    · exact hnewline (ha ▸ List.mem_append.2 (.inl h))
    · rcases List.mem_cons.1 h with h | h
      · revert h
        decide
      · exact hline h
  have hreplace : replaceStatus text status =
      (a ++ ' ' :: status) ++ text.drop (header text).length := by
    unfold replaceStatus
    simp only [hbehind, htake]
  refine ⟨a, b, ha, hmem, hnone, hreplace, ?_⟩
  rw [headerStatus_eq, hreplace, hheader _ hnone, hnew, Option.map_some]
  exact congrArg some (trim_lead space_only)

/-! ## What an operation writes -/

/-- What an accepted operation writes into an entry of this status. -/
inductive Written (status : List Char) : Op → List Char → Prop
  | capture {c : Coordinates} (hbatch : '\n' ∉ c.batchId) (hbranch : '\n' ∉ c.branch) :
      Written status (.captureTask c) (captured .working c ++ attemptSuffix (queueAttempt status))
  | patch {state : TaskState} {reason : Option (List Char)} :
      Written status (.patchQueueState state reason) (patched state reason ++
        if state = .escalated then [] else attemptSuffix (queueAttempt status))
  | reanchor : Written status .reanchorMergedTask
      ((TaskState.literal .ready).toList ++ attemptSuffix (queueAttempt status))
  | orphan {attempt : Option Attempt} : Written status (.returnOrphanedQueue attempt)
      ((TaskState.literal .notStarted).toList ++ attemptSuffix (attempt.map Subtype.val))
  | restore {c : Coordinates} {state : TaskState} (hkey : afterFirst attemptKey status = none)
      (hbatch : '\n' ∉ c.batchId) (hbranch : '\n' ∉ c.branch) (hworktree : '\n' ∉ c.worktree) :
      Written status (.restoreQueueCapture c) (captured state c)
  | back {reason : List Char} {attempt : Attempt} : Written status (.returnTask reason attempt)
      ((TaskState.literal .notStarted).toList ++ attemptSuffix (some attempt.val) ++
        " · карантин=".toList ++ sanitizeReason reason)

variable {taskId : String} {descriptor : DescriptorFile} {text text' : List Char}

theorem entryStatus_eq_ok {status : List Char} : entryStatus taskId text = .ok status ↔
    headerStatus text = some status ∧ status ≠ [] := by
  unfold entryStatus
  cases hfound : headerStatus text with
  | none => simp
  | some found =>
    by_cases hempty : found = []
    · simp only [hempty, List.isEmpty_nil, if_true]
      constructor
      · intro h
        cases h
      · rintro ⟨h, hne⟩
        exact absurd (Option.some.inj h).symm hne
    · simp only [List.isEmpty_iff, hempty, if_false, Except.ok.injEq, Option.some.injEq]
      constructor
      · rintro rfl
        exact ⟨rfl, hempty⟩
      · exact And.left

theorem entryStatus_ok {status : List Char} (h : entryStatus taskId text = .ok status) :
    headerStatus text = some status := (entryStatus_eq_ok.1 h).1

/-- What one accepted operation does to the text of an entry. -/
theorem apply_cases {op : Op} (h : apply taskId descriptor text op = .ok text') :
    ∃ status, entryStatus taskId text = .ok status ∧ (op = .reanchorMergedTask ∧ text' = text ∨
      ∃ written, Written status op written ∧ text' = replaceStatus text written) := by
  cases op with
  | captureTask c =>
    simp only [apply, captureTask, bind_eq_ok] at h
    obtain ⟨_, -, _, hbatch, _, hbranch, status, hstatus, current, -, _, -, h⟩ := h
    unfold validateBatchId at hbatch
    unfold validateRef at hbranch
    exact ⟨status, hstatus, .inr ⟨_, .capture (demand_eq_ok.1 hbatch).2.2.2.2
      (demand_eq_ok.1 hbranch).2.2.2.2, (Except.ok.inj h).symm⟩⟩
  | patchQueueState state reason =>
    simp only [apply, patchQueueState, bind_eq_ok] at h
    obtain ⟨_, -, status, hstatus, previous, -, _, -, h⟩ := h
    exact ⟨status, hstatus, .inr ⟨_, .patch, (Except.ok.inj h).symm⟩⟩
  | reanchorMergedTask =>
    simp only [apply, reanchorMergedTask, bind_eq_ok] at h
    obtain ⟨_, -, found, -, state, -, _, -, status, hstatus, current, -, _, -, h⟩ := h
    refine ⟨status, hstatus, ?_⟩
    rw [← Except.ok.inj h]
    split
    · exact .inr ⟨_, .reanchor, rfl⟩
    · exact .inl ⟨rfl, rfl⟩
  | returnOrphanedQueue attempt =>
    simp only [apply, returnOrphanedQueue, bind_eq_ok] at h
    obtain ⟨_, -, _, -, status, hstatus, current, -, _, -, h⟩ := h
    exact ⟨status, hstatus, .inr ⟨_, .orphan, (Except.ok.inj h).symm⟩⟩
  | restoreQueueCapture c =>
    simp only [apply, restoreQueueCapture, bind_eq_ok] at h
    obtain ⟨_, -, _, hbatch, _, hbranch, _, hworktree, found, -, state, -, _, -, _, -, status,
      hstatus, current, -, _, hkey, h⟩ := h
    unfold validateBatchId at hbatch
    unfold validateRef at hbranch
    exact ⟨status, hstatus, .inr ⟨_, .restore (demand_eq_ok.1 hkey).2
      (demand_eq_ok.1 hbatch).2.2.2.2 (demand_eq_ok.1 hbranch).2.2.2.2
      (demand_eq_ok.1 hworktree).2.2.2.2, (Except.ok.inj h).symm⟩⟩
  | returnTask reason attempt =>
    simp only [apply, returnTask, bind_eq_ok] at h
    obtain ⟨_, -, status, hstatus, current, -, _, -, h⟩ := h
    exact ⟨status, hstatus, .inr ⟨_, .back, (Except.ok.inj h).symm⟩⟩

/-! ## Plain operations -/

/-- The counter of an entry. -/
def counter (text : List Char) : Option Nat := (headerStatus text).bind queueAttempt

/-- The reason a label carries. -/
def givenReason (state : TaskState) (reason : Option (List Char)) : List Char :=
  if state = .escalated ∨ state = .conflict then (reason.map sanitizeReason).getD [] else []

/-- The free texts an operation writes where a counter is read, and those behind its own counter. -/
def freeTexts : Op → List (List Char) × List (List Char)
  | .captureTask c => ([c.batchId, c.worktree, c.branch], [])
  | .restoreQueueCapture c => ([c.batchId, c.worktree, c.branch], [])
  | .patchQueueState state reason => ([givenReason state reason], [])
  | .returnTask reason _ => ([], [sanitizeReason reason])
  | _ => ([], [])

/-- The attempt an operation is given is the one its callers compute. -/
def Counts (text : List Char) : Op → Prop
  | .returnOrphanedQueue attempt => attempt.map Subtype.val = counter text
  | .returnTask _ attempt => attempt.val = (counter text).getD 0 + 1
  | _ => True

/-- An operation that leaves the counter what it is for. -/
structure Plain (text : List Char) (op : Op) : Prop where
  counts : Counts text op
  quiet : ∀ value ∈ (freeTexts op).1, Quiet value
  line : ∀ value ∈ (freeTexts op).1, '\n' ∉ value
  marker : afterFirst lowerMarker (header text) = none →
    ∀ value ∈ (freeTexts op).1 ++ (freeTexts op).2, afterFirst lowerMarker value = none

/-! ## The texts that are written -/

/-- What every text of the list and the space have in common, the joined text has. -/
theorem forall_joined {P : Char → Prop} {tokens : List (List Char)} (hspace : P ' ')
    (h : ∀ token ∈ tokens, ∀ ch ∈ token, P ch) : ∀ ch ∈ [' '].intercalate tokens, P ch := by
  induction tokens with
  | nil =>
    intro ch hch
    cases hch
  | cons token tokens ih =>
    have hrest := ih fun t ht => h t (List.mem_cons_of_mem _ ht)
    have htoken := h token List.mem_cons_self
    cases tokens with
    | nil => simpa [List.intercalate] using htoken
    | cons next tokens =>
      have hjoin : [' '].intercalate (token :: next :: tokens) =
          token ++ ' ' :: [' '].intercalate (next :: tokens) := by
        simp [List.intercalate, List.intersperse]
      intro ch hch
      rw [hjoin] at hch
      rcases List.mem_append.1 hch with hch | hch
      · exact htoken ch hch
      · rcases List.mem_cons.1 hch with rfl | hch
        · exact hspace
        · exact hrest ch hch

theorem sanitizeReason_line (reason : List Char) : '\n' ∉ sanitizeReason reason := by
  have hall : ∀ ch ∈ [' '].intercalate (splitWhitespace reason), ch ≠ '\n' := by
    refine forall_joined (by decide) fun token htoken ch hch => ?_
    have hpiece := piece_not_sep (List.mem_filter.1 htoken).1 ch hch
    rintro rfl
    revert hpiece
    decide
  intro h
  exact hall _ (List.mem_of_mem_take h) rfl

theorem literal_line (state : TaskState) : '\n' ∉ state.literal.toList := by
  cases state <;> decide

theorem literal_field (state : TaskState) :
    suffixField state.literal.toList attemptKey = none := by
  refine suffixField_absent (by decide) _ ?_
  cases state <;> decide

theorem literal_marker (state : TaskState) :
    afterFirst lowerMarker state.literal.toList = none := by
  cases state <;> decide

theorem digits_notMem {n : Nat} {ch : Char} (h : isAsciiDigit ch = false) :
    ch ∉ Nat.toDigits 10 n := by
  intro hmem
  rw [digit_toDigits ch hmem] at h
  cases h

theorem attemptSuffix_line (attempt : Option Nat) : '\n' ∉ attemptSuffix attempt := by
  cases attempt with
  | none => exact List.not_mem_nil
  | some n =>
    rw [attemptSuffix_some, ← List.cons_append, ← List.cons_append, List.mem_append, not_or]
    exact ⟨by decide, digits_notMem (by decide)⟩

/-- No marker in the text, nor one that the counter behind it completes. -/
theorem attemptSuffix_marker {x : List Char} (hx : afterFirst lowerMarker x = none)
    (attempt : Option Nat) : afterFirst lowerMarker (x ++ attemptSuffix attempt) = none := by
  cases attempt with
  | none =>
    have hnil : attemptSuffix none = [] := rfl
    rw [hnil, List.append_nil, hx]
  | some n =>
    have hdigits : afterFirst lowerMarker (Nat.toDigits 10 n) = none := by
      have hmarker : lowerMarker = 'с' :: "татус:".toList := by decide
      have hnil : afterFirst ('с' :: "татус:".toList) [] = none := by decide
      rw [hmarker, ← List.append_nil (Nat.toDigits 10 n),
        afterFirst_skip [] (digits_notMem (by decide)), hnil]
    have hlist : '·' :: (" попытка=".toList ++ Nat.toDigits 10 n) =
        "· попытка".toList ++ '=' :: Nat.toDigits 10 n := by
      have hword : '·' :: " попытка=".toList = "· попытка".toList ++ ['='] := by decide
      rw [← List.cons_append, hword, List.append_assoc, List.singleton_append]
    rw [attemptSuffix_some, hlist]
    exact afterFirst_cut (by decide) (by decide) hx
      (afterFirst_cut (by decide) (by decide) (by decide) hdigits)

/-- The segments of the label of a captured task. -/
theorem captured_parts (state : TaskState) (c : Coordinates) : captured state c =
    state.literal.toList ++ ' ' :: '·' :: ((' ' :: 'б' :: 'а' :: ("тч=".toList ++ c.batchId)) ++
      ' ' :: '·' :: ((' ' :: 'w' :: 'o' :: ("rktree=".toList ++ c.worktree)) ++
        ' ' :: '·' :: (' ' :: 'в' :: 'е' :: ("тка=".toList ++ c.branch)))) := by
  have hbatch : " · батч=".toList = ' ' :: '·' :: ' ' :: 'б' :: 'а' :: "тч=".toList := by decide
  have hworktree : " · worktree=".toList =
      ' ' :: '·' :: ' ' :: 'w' :: 'o' :: "rktree=".toList := by decide
  have hbranch : " · ветка=".toList = ' ' :: '·' :: ' ' :: 'в' :: 'е' :: "тка=".toList := by decide
  unfold captured
  rw [hbatch, hworktree, hbranch]
  simp only [List.append_assoc, List.cons_append]

theorem captured_field {c : Coordinates} (state : TaskState) (hbatch : Quiet c.batchId)
    (hworktree : Quiet c.worktree) (hbranch : Quiet c.branch) :
    suffixField (captured state c) attemptKey = none := by
  rw [captured_parts, suffixField_next, suffixField_next, suffixField_next, literal_field,
    suffixField_value (by decide) (by decide) (by decide) (by decide) hbatch,
    suffixField_value (by decide) (by decide) (by decide) (by decide) hworktree,
    suffixField_value (by decide) (by decide) (by decide) (by decide) hbranch]
  rfl

theorem captured_line {c : Coordinates} (state : TaskState) (hbatch : '\n' ∉ c.batchId)
    (hworktree : '\n' ∉ c.worktree) (hbranch : '\n' ∉ c.branch) : '\n' ∉ captured state c := by
  unfold captured
  simp only [List.mem_append, not_or]
  exact ⟨⟨⟨⟨⟨⟨literal_line state, by decide⟩, hbatch⟩, by decide⟩, hworktree⟩, by decide⟩, hbranch⟩

/-- A named value without the marker, behind a text without it. -/
theorem named_marker {x value : List Char} (word : List Char)
    (hword : afterFirst lowerMarker word = none) (hx : afterFirst lowerMarker x = none)
    (hvalue : afterFirst lowerMarker value = none) :
    afterFirst lowerMarker (x ++ ' ' :: (word ++ '=' :: value)) = none :=
  afterFirst_cut (by decide) (by decide) hx (afterFirst_cut (by decide) (by decide) hword hvalue)

theorem captured_marker {c : Coordinates} (state : TaskState)
    (hbatch : afterFirst lowerMarker c.batchId = none)
    (hworktree : afterFirst lowerMarker c.worktree = none)
    (hbranch : afterFirst lowerMarker c.branch = none) :
    afterFirst lowerMarker (captured state c) = none := by
  have hlist : captured state c = ((state.literal.toList ++
      ' ' :: ("· батч".toList ++ '=' :: c.batchId)) ++
        ' ' :: ("· worktree".toList ++ '=' :: c.worktree)) ++
          ' ' :: ("· ветка".toList ++ '=' :: c.branch) := by
    have h1 : " · батч=".toList = ' ' :: ("· батч".toList ++ ['=']) := by decide
    have h2 : " · worktree=".toList = ' ' :: ("· worktree".toList ++ ['=']) := by decide
    have h3 : " · ветка=".toList = ' ' :: ("· ветка".toList ++ ['=']) := by decide
    unfold captured
    rw [h1, h2, h3]
    simp only [List.append_assoc, List.cons_append, List.nil_append]
  rw [hlist]
  exact named_marker _ (by decide) (named_marker _ (by decide)
    (named_marker _ (by decide) (literal_marker state) hbatch) hworktree) hbranch

/-- A label carries its reason, or none. -/
theorem patched_parts (state : TaskState) (reason : Option (List Char)) :
    patched state reason = state.literal.toList ∨
      patched state reason =
        state.literal.toList ++ ' ' :: '·' :: (' ' :: 'п' :: 'р' ::
          ("ичина=".toList ++ givenReason state reason)) := by
  have hhead : " · причина=".toList = ' ' :: '·' :: ' ' :: 'п' :: 'р' :: "ичина=".toList := by
    decide
  unfold patched givenReason
  split
  · rename_i value hvalue
    obtain ⟨hsome, -⟩ := Option.filter_eq_some_iff.1 hvalue
    split
    · right
      rw [hsome, hhead]
      rfl
    · left
      rw [List.append_nil]
  · left
    rw [List.append_nil]

theorem patched_field {state : TaskState} {reason : Option (List Char)}
    (h : Quiet (givenReason state reason)) :
    suffixField (patched state reason) attemptKey = none := by
  rcases patched_parts state reason with hparts | hparts
  · rw [hparts, literal_field]
  · rw [hparts, suffixField_next, literal_field,
      suffixField_value (by decide) (by decide) (by decide) (by decide) h]
    rfl

theorem patched_line {state : TaskState} {reason : Option (List Char)}
    (h : '\n' ∉ givenReason state reason) : '\n' ∉ patched state reason := by
  rcases patched_parts state reason with hparts | hparts
  · rw [hparts]
    exact literal_line state
  · rw [hparts]
    simp only [List.mem_append, List.mem_cons, not_or]
    exact ⟨literal_line state, by decide, by decide, by decide, by decide, by decide, by decide, h⟩

theorem patched_marker {state : TaskState} {reason : Option (List Char)}
    (h : afterFirst lowerMarker (givenReason state reason) = none) :
    afterFirst lowerMarker (patched state reason) = none := by
  rcases patched_parts state reason with hparts | hparts
  · rw [hparts, literal_marker]
  · have hword : '·' :: ' ' :: 'п' :: 'р' :: "ичина=".toList = "· причина".toList ++ ['='] := by
      decide
    have hlist : '·' :: (' ' :: 'п' :: 'р' :: ("ичина=".toList ++ givenReason state reason)) =
        "· причина".toList ++ '=' :: givenReason state reason := by
      rw [← List.cons_append, ← List.cons_append, ← List.cons_append, ← List.cons_append, hword,
        List.append_assoc, List.singleton_append]
    rw [hparts, hlist]
    exact named_marker _ (by decide) (literal_marker state) h

/-! ## One operation -/

variable {op : Op} {status written : List Char}

theorem returned_word : " · карантин=".toList = ' ' :: '·' :: " карантин=".toList := by decide

theorem written_line (h : Written status op written) (hplain : Plain text op) : '\n' ∉ written := by
  have hline := hplain.line
  cases h with
  | capture hbatch hbranch =>
    rw [List.mem_append, not_or]
    exact ⟨captured_line _ hbatch (hline _ (by simp [freeTexts])) hbranch, attemptSuffix_line _⟩
  | @patch state reason =>
    rw [List.mem_append, not_or]
    refine ⟨patched_line (hline _ (by simp [freeTexts])), ?_⟩
    split
    · exact List.not_mem_nil
    · exact attemptSuffix_line _
  | reanchor =>
    rw [List.mem_append, not_or]
    exact ⟨literal_line _, attemptSuffix_line _⟩
  | orphan =>
    rw [List.mem_append, not_or]
    exact ⟨literal_line _, attemptSuffix_line _⟩
  | restore _ hbatch hbranch hworktree => exact captured_line _ hbatch hworktree hbranch
  | @back reason attempt =>
    simp only [List.mem_append, not_or]
    exact ⟨⟨⟨literal_line _, attemptSuffix_line _⟩, by decide⟩, sanitizeReason_line reason⟩

theorem written_marker (h : Written status op written) (hfree : ∀ value ∈ (freeTexts op).1 ++
    (freeTexts op).2, afterFirst lowerMarker value = none) :
    afterFirst lowerMarker written = none := by
  cases h with
  | capture =>
    exact attemptSuffix_marker (captured_marker _ (hfree _ (by simp [freeTexts]))
      (hfree _ (by simp [freeTexts])) (hfree _ (by simp [freeTexts]))) _
  | @patch state reason =>
    have hpatched := patched_marker (hfree (givenReason state reason) (by simp [freeTexts]))
    split
    · rw [List.append_nil, hpatched]
    · exact attemptSuffix_marker hpatched _
  | reanchor => exact attemptSuffix_marker (literal_marker _) _
  | orphan => exact attemptSuffix_marker (literal_marker _) _
  | restore =>
    exact captured_marker _ (hfree _ (by simp [freeTexts])) (hfree _ (by simp [freeTexts]))
      (hfree _ (by simp [freeTexts]))
  | @back reason attempt =>
    have hword : " · карантин=".toList = ' ' :: ("· карантин".toList ++ ['=']) := by decide
    have hlist : (TaskState.literal .notStarted).toList ++ attemptSuffix (some attempt.val) ++
        " · карантин=".toList ++ sanitizeReason reason =
        ((TaskState.literal .notStarted).toList ++ attemptSuffix (some attempt.val)) ++
          ' ' :: ("· карантин".toList ++ '=' :: sanitizeReason reason) := by
      rw [hword]
      simp only [List.append_assoc, List.cons_append, List.nil_append]
    rw [hlist]
    exact named_marker _ (by decide) (attemptSuffix_marker (literal_marker _) _)
      (hfree _ (by simp [freeTexts]))

theorem queueAttempt_le {n : Nat} (h : queueAttempt status = some n) : n ≤ u32Max := by
  unfold queueAttempt at h
  obtain ⟨digits, -, hparse⟩ := Option.bind_eq_some_iff.1 h
  unfold parseU32 at hparse
  simp only [Option.ite_none_right_eq_some] at hparse
  obtain ⟨⟨-, -, hle⟩, hvalue⟩ := hparse
  rw [← Option.some.inj hvalue]
  exact hle

/-- The counter an operation leaves. -/
def nextCounter (text : List Char) : Op → Option Nat
  | .returnTask _ attempt => some attempt.val
  | .patchQueueState .escalated _ => none
  | _ => counter text

theorem written_counter (h : Written status op written) (hplain : Plain text op)
    (hstatus : headerStatus text = some status) : queueAttempt written = nextCounter text op := by
  have hcounter : counter text = queueAttempt status := by
    unfold counter
    rw [hstatus, Option.bind_some]
  have hmax : ∀ n ∈ queueAttempt status, n ≤ u32Max := fun n hn => queueAttempt_le hn
  have hquiet := hplain.quiet
  cases h with
  | capture =>
    rw [queueAttempt_suffix (captured_field _ (hquiet _ (by simp [freeTexts]))
      (hquiet _ (by simp [freeTexts])) (hquiet _ (by simp [freeTexts]))) hmax]
    exact hcounter.symm
  | @patch state reason =>
    have hfield := patched_field (hquiet (givenReason state reason) (by simp [freeTexts]))
    by_cases hescalated : state = .escalated
    · subst hescalated
      rw [if_pos rfl, List.append_nil]
      unfold queueAttempt
      rw [hfield]
      rfl
    · rw [if_neg hescalated, queueAttempt_suffix hfield hmax, ← hcounter]
      unfold nextCounter
      split
      · contradiction
      · rename_i heq
        injection heq with hstate
        exact absurd hstate hescalated
      · rfl
  | reanchor =>
    rw [queueAttempt_suffix (literal_field _) hmax]
    exact hcounter.symm
  | @orphan attempt =>
    have hcounts : attempt.map Subtype.val = counter text := hplain.counts
    rw [hcounts, queueAttempt_suffix (literal_field _) (hcounter ▸ hmax)]
    rfl
  | @restore c state hkey =>
    -- what is restored has no counter, before or after
    have hnone : queueAttempt status = none := by
      unfold queueAttempt
      rw [suffixField_absent (by decide) _ hkey, Option.bind_none]
    have hfield := captured_field state (hquiet c.batchId (by simp [freeTexts]))
      (hquiet c.worktree (by simp [freeTexts])) (hquiet c.branch (by simp [freeTexts]))
    unfold queueAttempt
    rw [hfield, Option.bind_none]
    exact (hcounter.trans hnone).symm
  | @back reason attempt =>
    rw [List.append_assoc, returned_word, List.cons_append, List.cons_append,
      queueAttempt_returned _ (literal_field _) attempt.2]
    rfl

theorem written_literal (h : Written status op written) :
    ∃ (state : TaskState) (x : List Char), written = state.literal.toList ++ x := by
  cases h with
  | capture => exact ⟨_, _, by unfold captured; simp only [List.append_assoc]; rfl⟩
  | patch => exact ⟨_, _, by unfold patched; rw [List.append_assoc]⟩
  | reanchor => exact ⟨_, _, rfl⟩
  | orphan => exact ⟨_, _, rfl⟩
  | restore => exact ⟨_, _, by unfold captured; simp only [List.append_assoc]; rfl⟩
  | back => exact ⟨_, _, by simp only [List.append_assoc]; rfl⟩

theorem written_ne_nil (h : Written status op written) : trim written ≠ [] := by
  obtain ⟨state, x, rfl⟩ := written_literal h
  have hletter : state.literal.toList.any (fun ch => isWhiteSpace ch == false) = true := by
    cases state <;> decide
  obtain ⟨ch, hmem, hch⟩ := List.any_eq_true.1 hletter
  rw [beq_iff_eq] at hch
  intro hnil
  obtain ⟨a, b, hparts, ha, hb⟩ := trim_parts (state.literal.toList ++ x)
  have hin : ch ∈ a ++ trim (state.literal.toList ++ x) ++ b :=
    hparts ▸ List.mem_append.2 (.inl hmem)
  rw [hnil, List.append_nil] at hin
  have hspace : isWhiteSpace ch = true := (List.mem_append.1 hin).elim (ha ch) (hb ch)
  rw [hch] at hspace
  cases hspace

/-- What one accepted plain operation does: the header stays on its line and the task's own, and
its status has the next counter. -/
theorem next_counter (hplain : Plain text op) (hid : isTaskId taskId = true)
    (hown : wantedHeader taskId <+: header text)
    (h : apply taskId descriptor text op = .ok text') :
    ∃ line next, '\n' ∉ line ∧ wantedHeader taskId <+: line ∧
      text' = line ++ text.drop (header text).length ∧ entryStatus taskId text' = .ok next ∧
        queueAttempt next = nextCounter text op := by
  obtain ⟨status, hentry, hcases⟩ := apply_cases h
  have hstatus := entryStatus_ok hentry
  obtain ⟨hnewline, hparts, -⟩ := header_parts text
  rcases hcases with ⟨rfl, rfl⟩ | ⟨written, hwritten, rfl⟩
  · refine ⟨header text', status, hnewline, hown, hparts, hentry, ?_⟩
    unfold nextCounter counter
    rw [hstatus, Option.bind_some]
  · obtain ⟨a, b, ha, hmem, hnone, hreplace, hread⟩ := replaceStatus_header hstatus
      (written_line hwritten hplain) fun hnone => written_marker hwritten (hplain.marker hnone)
    refine ⟨_, trim written, hnone, ?_, hreplace, ?_, ?_⟩
    · -- the marker stands behind the id, so what is rewritten does too
      have hletter : 'у' ∉ wantedHeader taskId := by
        unfold wantedHeader
        rw [String.toList_append, String.toList_append, List.mem_append, List.mem_append, not_or,
          not_or]
        exact ⟨⟨by decide, notMem_taskId hid (by decide) (by decide) (by decide)⟩, by decide⟩
      rw [ha] at hown
      rcases List.prefix_or_prefix_of_prefix hown (List.prefix_append a b) with hpre | hpre
      · exact hpre.trans (List.prefix_append ..)
      · exact absurd (hpre.subset hmem) hletter
    · exact entryStatus_eq_ok.2 ⟨hread, written_ne_nil hwritten⟩
    · rw [← written_counter hwritten hplain hstatus]
      unfold queueAttempt
      rw [suffixField_trim]

/-! ## What `parse_queue` reports -/

/-- A line of the parser is the line of the text, but for a carriage return at its end. -/
theorem stripLineEnding_header {line ending : List Char} (hline : '\n' ∉ line)
    (hending : ending = ['\n'] ∨ ending = []) : stripLineEnding (line ++ ending) = line ∨
      ∃ front, line = front ++ ['\r'] ∧ stripLineEnding (line ++ ending) = front := by
  rcases hending with rfl | rfl
  · unfold stripLineEnding
    rw [List.reverse_append]
    cases hrev : line.reverse with
    | nil =>
      obtain rfl := List.reverse_eq_nil_iff.1 hrev
      exact .inl rfl
    | cons c rest =>
      have hparts : line = rest.reverse ++ [c] := by
        rw [← List.reverse_reverse line, hrev, List.reverse_cons]
      by_cases hc : c = '\r'
      · subst hc
        exact .inr ⟨rest.reverse, hparts, rfl⟩
      · left
        simp [hc, hparts]
  · left
    rw [List.append_nil]
    unfold stripLineEnding
    split
    · rename_i rest hrev
      exact absurd (List.mem_reverse.1 (by rw [hrev]; exact List.mem_cons_self)) hline
    · rename_i rest hrev
      exact absurd (List.mem_reverse.1 (by rw [hrev]; exact List.mem_cons_self)) hline
    · rfl

theorem behindMarker_own (hid : isTaskId taskId = true) (after : List Char) :
    behindMarker (wantedHeader taskId ++ after) = behindMarker after := by
  have hnot : ∀ ch, ch ∉ "### [".toList → ch ∉ "]".toList → isAsciiDigit ch = false → ch ≠ 'T' →
      ch ≠ '-' → ch ∉ wantedHeader taskId := by
    intro ch hfront hback hdigit hT hdash
    unfold wantedHeader
    rw [String.toList_append, String.toList_append, List.mem_append, List.mem_append, not_or,
      not_or]
    exact ⟨⟨hfront, notMem_taskId hid hdigit hT hdash⟩, hback⟩
  have hlower : lowerMarker = 'с' :: "татус:".toList := by decide
  have hupper : upperMarker = 'С' :: "татус:".toList := by decide
  rw [behindMarker_eq, behindMarker_eq, hlower, hupper,
    afterFirst_skip after (hnot 'с' (by decide) (by decide) (by decide) (by decide) (by decide)),
    afterFirst_skip after (hnot 'С' (by decide) (by decide) (by decide) (by decide) (by decide))]

theorem parseHeader_own (hid : isTaskId taskId = true) (after : List Char) :
    parseHeader (wantedHeader taskId ++ after) =
      (behindMarker after).map fun literal => (taskId, trim literal) := by
  have hline : wantedHeader taskId ++ after =
      '#' :: '#' :: '#' :: ' ' :: '[' :: (taskId.toList ++ ']' :: after) := by
    unfold wantedHeader
    rw [String.toList_append, String.toList_append, List.append_assoc, List.append_assoc]
    rfl
  have hclose : ']' ∉ taskId.toList := notMem_taskId hid (by decide) (by decide) (by decide)
  have hhashes : stripFront "###".toList
      ('#' :: '#' :: '#' :: ' ' :: '[' :: (taskId.toList ++ ']' :: after)) =
        some (' ' :: '[' :: (taskId.toList ++ ']' :: after)) := rfl
  have hspace : (' ' :: '[' :: (taskId.toList ++ ']' :: after)).dropWhile isWhiteSpace =
      '[' :: (taskId.toList ++ ']' :: after) := by
    rw [List.dropWhile_cons, if_pos (by decide), List.dropWhile_cons, if_neg (by decide)]
  have hopen : stripFront ['['] ('[' :: (taskId.toList ++ ']' :: after)) =
      some (taskId.toList ++ ']' :: after) := rfl
  have hcut : splitOnce [']'] (taskId.toList ++ ']' :: after) = some (taskId.toList, after) :=
    splitOnce_char.2 ⟨rfl, hclose⟩
  unfold parseHeader
  rw [hline, hhashes]
  simp only [Option.bind_eq_bind, Option.bind_some, hspace, hopen, hcut,
    trim_of_not_space (taskId_not_space hid), String.ofList_toList, hid, if_true]
  cases behindMarker after <;> rfl

/-- The entry the parser makes of a status. -/
def parsed (taskId : String) (literal : List Char) : Parsed :=
  ⟨taskId, TaskState.fromMarkdown literal, literal, queueAttempt literal,
    suffixField literal "карантин=".toList, suffixField literal "причина=".toList⟩

/-- The parser reads the status of the entry. -/
theorem parseEntry_own {line ending literal : List Char} (hid : isTaskId taskId = true)
    (hown : wantedHeader taskId <+: line) (hline : '\n' ∉ line)
    (hending : ending = ['\n'] ∨ ending = [])
    (hliteral : (behindMarker line).map trim = some literal) :
    parseEntry (stripLineEnding (line ++ ending)) = some (parsed taskId literal) := by
  have hread : ∀ after, parseEntry (wantedHeader taskId ++ after) =
      ((behindMarker after).map trim).map (parsed taskId) := by
    intro after
    unfold parseEntry
    rw [parseHeader_own hid]
    cases behindMarker after <;> rfl
  obtain ⟨after, rfl⟩ := hown
  rw [behindMarker_own hid] at hliteral
  rcases stripLineEnding_header hline hending with hstrip | ⟨front, hfront, hstrip⟩
  · rw [hstrip, hread, hliteral, Option.map_some]
  · -- the carriage return is not the bracket of the id: it belongs to the status, and is trimmed
    have hlast : ∃ rest, after = rest ++ ['\r'] := by
      rcases List.eq_nil_or_concat after with rfl | ⟨rest, c, rfl⟩
      · have hend := congrArg List.getLast? hfront
        have hleft : (wantedHeader taskId ++ []).getLast? = some ']' := by
          unfold wantedHeader
          rw [List.append_nil, String.toList_append, List.getLast?_append]
          rfl
        have hright : (front ++ ['\r']).getLast? = some '\r' := by simp
        rw [hleft, hright] at hend
        exact absurd hend (by decide)
      · rw [List.concat_eq_append] at hfront ⊢
        have hend := congrArg List.getLast? hfront
        rw [← List.append_assoc, List.getLast?_append, List.getLast?_append] at hend
        have hc : c = '\r' := by simpa using hend
        exact ⟨rest, by rw [hc]⟩
    obtain ⟨rest, rfl⟩ := hlast
    have hown : front = wantedHeader taskId ++ rest := by
      rw [← List.append_assoc] at hfront
      exact (List.append_inj' hfront rfl).1.symm
    have hsnoc : behindMarker (rest ++ ['\r']) = (behindMarker rest).map (· ++ ['\r']) := by
      rw [behindMarker_eq, behindMarker_eq, afterFirst_snoc _ (by decide) (by decide),
        afterFirst_snoc _ (by decide) (by decide)]
      cases afterFirst lowerMarker rest <;> rfl
    have htrim : ((behindMarker rest).map (· ++ ['\r'])).map trim =
        (behindMarker rest).map trim := by
      cases behindMarker rest with
      | none => rfl
      | some b => exact congrArg some (trim_tail return_only)
    rw [hsnoc, htrim] at hliteral
    rw [hstrip, hown, hread, hliteral, Option.map_some]

/-! ## The block in the queue -/

section Queue

open Outline

theorem cut_replace {b r : List (List Char)} {l m : List Char} (hcut : Cut (b ++ l :: r))
    (hne : m ≠ []) (hmid : '\n' ∉ m.dropLast) (hlast : r ≠ [] → m.getLast? = some '\n') :
    Cut (b ++ m :: r) := by
  intro x k y heq
  -- the line is the new one, one behind it or one in front of it
  rcases List.append_eq_append_iff.1 heq with ⟨as, rfl, has⟩ | ⟨bs, rfl, hbs⟩
  · cases as with
    | nil =>
      obtain ⟨rfl, rfl⟩ := List.cons.inj has
      exact ⟨hne, hmid, hlast⟩
    | cons a as =>
      obtain ⟨rfl, rfl⟩ := List.cons.inj has
      exact hcut (b ++ l :: as) k y (by simp)
  · cases bs with
    | nil =>
      obtain ⟨rfl, rfl⟩ := List.cons.inj hbs
      exact ⟨hne, hmid, hlast⟩
    | cons k' bs =>
      obtain ⟨rfl, rfl⟩ := List.cons.inj hbs
      obtain ⟨hk, hkmid, hklast⟩ := hcut x k (bs ++ l :: r) (by simp)
      exact ⟨hk, hkmid, fun _ => hklast (by simp)⟩

/-- The one block of a task whose header has a status is found. -/
theorem findQueueBlock_of {content status : List Char} {p : Piece Unit (List Char)}
    (hone : (Outline.pieces queueHeading [] (inclusive content)).filter (fun p =>
      (wantedHeader taskId).isPrefixOf (p.lines.flatten ++ p.after.flatten)) = [p])
    (hstatus : headerStatus p.lines.flatten = some status) (hne : status ≠ []) :
    findQueueBlock content taskId =
      .ok ⟨p.before.flatten, p.lines.flatten, p.after.flatten, status⟩ := by
  unfold findQueueBlock
  simp only [hone, hstatus, List.isEmpty_iff, hne, if_false]

/-- What `find_queue_block` finds is an entry of the task. -/
theorem findQueueBlock_entry {content : List Char} {entry : QueueBlock}
    (h : findQueueBlock content taskId = .ok entry) :
    entryStatus taskId entry.text = .ok entry.status := by
  obtain ⟨p, hone, -, htext, -⟩ := findQueueBlock_ok h
  unfold findQueueBlock at h
  rw [hone] at h
  cases hstatus : headerStatus p.lines.flatten with
  | none =>
    simp only [hstatus] at h
    cases h
  | some status =>
    by_cases hne : status = []
    · simp only [hstatus, hne, List.isEmpty_nil, if_true] at h
      cases h
    · simp only [hstatus, List.isEmpty_iff, hne, if_false] at h
      rw [← Except.ok.inj h]
      exact entryStatus_eq_ok.2 ⟨hstatus, hne⟩

/-- The first line of a block and what follows it. -/
theorem header_line {l : List Char} {rest : List (List Char)} (hcut : Cut (l :: rest)) :
    ∃ ending, l = header (l :: rest).flatten ++ ending ∧
      (l :: rest).flatten.drop (header (l :: rest).flatten).length = ending ++ rest.flatten ∧
        (ending = ['\n'] ∨ ending = [] ∧ rest = []) := by
  obtain ⟨hne, hmid, hlast⟩ := hcut [] l rest rfl
  rcases List.eq_nil_or_concat l with rfl | ⟨x, c, rfl⟩
  · exact absurd rfl hne
  · rw [List.concat_eq_append, List.dropLast_concat] at hmid
    rw [List.concat_eq_append] at hlast ⊢
    have hx : ∀ ch ∈ x, decide (ch ≠ '\n') = true := by
      intro ch hch
      simp only [decide_eq_true_eq]
      rintro rfl
      exact hmid hch
    by_cases hc : c = '\n'
    · -- a whole line
      subst hc
      have hheader : header ((x ++ ['\n']) :: rest).flatten = x := by
        unfold header
        rw [List.flatten_cons, List.append_assoc, List.takeWhile_append_of_pos hx]
        simp
      rw [hheader]
      refine ⟨['\n'], rfl, ?_, .inl rfl⟩
      rw [List.flatten_cons, List.append_assoc, List.drop_left]
    · -- the last line of the text
      obtain rfl : rest = [] := by
        by_contra hrest
        have := hlast hrest
        rw [List.getLast?_concat] at this
        exact hc (Option.some.inj this)
      have hheader : header [x ++ [c]].flatten = x ++ [c] := by
        unfold header
        rw [List.flatten_singleton, List.takeWhile_append_of_pos hx]
        simp [hc]
      rw [hheader]
      refine ⟨[], by simp, ?_, .inr ⟨rfl, rfl⟩⟩
      rw [List.flatten_singleton, List.drop_length]
      rfl

/-- A block whose header is rewritten inside its line is found again. -/
theorem findQueueBlock_replaced {content line status : List Char} {entry : QueueBlock}
    (hid : isTaskId taskId = true) (h : findQueueBlock content taskId = .ok entry)
    (hline : '\n' ∉ line) (hown : wantedHeader taskId <+: line)
    (hstatus : entryStatus taskId (line ++ entry.text.drop (header entry.text).length) =
      .ok status) :
    ∃ next, findQueueBlock (entry.before ++
        (line ++ entry.text.drop (header entry.text).length) ++ entry.after) taskId = .ok next ∧
      next.text = line ++ entry.text.drop (header entry.text).length := by
  have hwanted := wanted_line hid
  obtain ⟨p, hone, hbefore, htext, hafter⟩ := findQueueBlock_ok h
  have hp := (List.mem_filter.1 (show p ∈ _ by rw [hone]; simp)).1
  obtain ⟨l, rest, hlines, hl, hrest, hhead, hall⟩ := pieces_spec hp
  rw [List.nil_append] at hall
  have hcut : Cut (p.before ++ (l :: (rest ++ p.after))) := by
    have := cut_inclusive content
    rwa [← hall, hlines, List.append_assoc, List.cons_append] at this
  have hcutLines : Cut (l :: rest) := by
    have : Cut ((l :: rest) ++ p.after) := hcut.right
    exact this.left
  obtain ⟨ending, hl', hdrop, hending⟩ := header_line hcutLines
  rw [htext, hlines, hdrop] at hstatus ⊢
  -- the lines of the new text
  have hne : line ≠ [] := by
    intro hnil
    rw [hnil] at hown
    unfold wantedHeader at hown
    have := congrArg List.length (List.prefix_nil.1 hown)
    simp at this
  have hnewCut : Cut (p.before ++ ((line ++ ending) :: (rest ++ p.after))) := by
    refine cut_replace hcut (by simp [hne]) ?_ ?_
    · rcases hending with rfl | ⟨rfl, -⟩
      · rw [List.dropLast_concat]
        exact hline
      · rw [List.append_nil]
        exact fun hmem => hline (List.dropLast_subset _ hmem)
    · intro hmore
      rcases hending with rfl | ⟨rfl, rfl⟩
      · exact List.getLast?_concat ..
      · exfalso
        obtain ⟨-, -, hlast⟩ := hcut p.before l _ rfl
        have hend := hlast hmore
        rw [hl', List.append_nil] at hend
        exact (header_parts _).1 (List.mem_of_getLast? hend)
  have hinclusive : inclusive (p.before.flatten ++ (line ++ (ending ++ rest.flatten)) ++
      p.after.flatten) = p.before ++ ((line ++ ending) :: rest) ++ p.after := by
    have := inclusive_of_cut hnewCut
    rw [List.flatten_append, List.flatten_cons, List.flatten_append] at this
    simpa only [List.append_assoc, List.cons_append] using this
  have hheading : queueHeading (line ++ ending) = some () := by
    refine if_pos (List.isPrefixOf_iff_prefix.2 ?_)
    have hfront : "### [".toList <+: wantedHeader taskId := by
      unfold wantedHeader
      rw [String.toList_append, String.toList_append, List.append_assoc]
      exact List.prefix_append ..
    exact (hfront.trans hown).trans (List.prefix_append ..)
  -- the blocks of the task before and after
  have hsplit := sections_split p.before hl hrest hhead
  rw [← hlines, hall] at hsplit
  have hsplit' := sections_split p.before hheading hrest hhead
  have hblocks := queueBlocks hwanted content
  have howned : (wantedHeader taskId).isPrefixOf p.lines.flatten = true := by
    have := (List.mem_filter.1 (show p ∈ _ by rw [hone]; simp)).2
    rwa [wanted_block hwanted hp] at this
  rw [hone, hsplit, List.map_append, List.map_cons, List.map_cons, List.filter_append,
    List.filter_cons, if_pos howned] at hblocks
  have hlen := congrArg List.length hblocks
  simp only [List.length_append, List.length_cons, List.length_map, List.length_nil] at hlen
  have hnewOwned : (wantedHeader taskId).isPrefixOf ((line ++ ending) :: rest).flatten = true := by
    rw [List.isPrefixOf_iff_prefix, List.flatten_cons, List.append_assoc]
    exact hown.trans (List.prefix_append ..)
  have hnew := queueBlocks hwanted
    (p.before.flatten ++ (line ++ (ending ++ rest.flatten)) ++ p.after.flatten)
  have hbeforeNone : ((sections queueHeading p.before).map Prod.snd).filter
      (fun ls => (wantedHeader taskId).isPrefixOf ls.flatten) = [] :=
    List.length_eq_zero_iff.1 (by omega)
  have hafterNone : ((sections queueHeading p.after).map Prod.snd).filter
      (fun ls => (wantedHeader taskId).isPrefixOf ls.flatten) = [] :=
    List.length_eq_zero_iff.1 (by omega)
  rw [hinclusive, hsplit', List.map_append, List.map_cons, List.filter_append, List.filter_cons,
    if_pos hnewOwned, hbeforeNone, hafterNone, List.nil_append] at hnew
  obtain ⟨p', hp', hlines'⟩ := List.map_eq_singleton_iff.1 hnew
  have hflat : p'.lines.flatten = line ++ (ending ++ rest.flatten) := by
    rw [hlines', List.flatten_cons, List.append_assoc]
  obtain ⟨hfound, hempty⟩ := entryStatus_eq_ok.1 hstatus
  rw [← hflat] at hfound
  rw [hbefore, hafter]
  exact ⟨_, findQueueBlock_of (hinclusive ▸ hp') hfound hempty, hflat⟩

/-- A block that is found is the task's by its header. -/
theorem findQueueBlock_own {content : List Char} {entry : QueueBlock}
    (hid : isTaskId taskId = true) (h : findQueueBlock content taskId = .ok entry) :
    wantedHeader taskId <+: header entry.text := by
  have hwanted := wanted_line hid
  obtain ⟨p, hone, -, htext, -⟩ := findQueueBlock_ok h
  have hmem := List.mem_filter.1 (show p ∈ _ by rw [hone]; simp)
  have howned := hmem.2
  rw [wanted_block hwanted hmem.1, List.isPrefixOf_iff_prefix, ← htext] at howned
  obtain ⟨z, hz⟩ := howned
  unfold header
  rw [← hz, List.takeWhile_append_of_pos]
  · exact List.prefix_append ..
  · intro ch hch
    simp only [decide_eq_true_eq]
    rintro rfl
    exact hwanted hch

/-- The parser reports the entry of a block that is found. -/
theorem parseQueue_entry {content : List Char} {entry : QueueBlock}
    (hid : isTaskId taskId = true) (h : findQueueBlock content taskId = .ok entry) :
    parsed taskId entry.status ∈ parseQueue content := by
  have hown := findQueueBlock_own hid h
  have hstatus := entryStatus_ok (findQueueBlock_entry h)
  obtain ⟨p, hone, -, htext, -⟩ := findQueueBlock_ok h
  have hp := (List.mem_filter.1 (show p ∈ _ by rw [hone]; simp)).1
  obtain ⟨l, rest, hlines, -, -, -, hall⟩ := pieces_spec hp
  rw [List.nil_append] at hall
  have hcut : Cut (l :: rest) := by
    have := cut_inclusive content
    rw [← hall, hlines] at this
    exact this.left.right
  obtain ⟨ending, hl, -, hending⟩ := header_line hcut
  have hflat : entry.text = (l :: rest).flatten := by rw [htext, hlines]
  rw [← hflat] at hl
  have hmem : l ∈ inclusive content := by
    rw [← hall, hlines]
    simp
  refine List.mem_filterMap.2 ⟨stripLineEnding l, List.mem_map.2 ⟨l, hmem, rfl⟩, ?_⟩
  rw [hl]
  exact parseEntry_own hid hown (header_parts _).1 (hending.imp_right And.left) hstatus

end Queue

/-! ## Runs -/

/-- The counter for a number of returns: none stands for zero. -/
def shown : Nat → Option Nat
  | 0 => none
  | n + 1 => some (n + 1)

/-- An accepted operation that is plain for the entry it finds. -/
def PlainStep (taskId : String) (p q : Place) : Prop :=
  ∃ op entry, findQueueBlock p.queue taskId = .ok entry ∧ Plain entry.text op ∧
    p.Accepts taskId op q

/-- What every place of a run holds: the counter of the task's entry is the returns. -/
def Kept (taskId : String) (p : Place) : Prop :=
  ∃ entry, findQueueBlock p.queue taskId = .ok entry ∧ queueAttempt entry.status = shown p.returned

theorem shown_getD (n : Nat) : (shown n).getD 0 = n := by
  cases n <;> rfl

theorem nextCounter_shown {n : Nat} (hplain : Plain text op) (h : counter text = shown n) :
    nextCounter text op = shown (returns n op) := by
  cases op with
  | returnTask reason attempt =>
    have hcounts : attempt.val = (counter text).getD 0 + 1 := hplain.counts
    rw [h, shown_getD] at hcounts
    show some attempt.val = shown (n + 1)
    rw [hcounts]
    rfl
  | patchQueueState state reason =>
    -- only an escalation starts the count again
    cases state with
    | escalated => rfl
    | _ => exact h
  | _ => exact h

theorem kept_next (hid : isTaskId taskId = true) {p q : Place} (h : PlainStep taskId p q)
    (hp : Kept taskId p) : Kept taskId q := by
  obtain ⟨op, entry, hfind, hplain, descriptor, entry', text, hfind', happly, hqueue,
    hreturned⟩ := h
  obtain ⟨kept, hkept, hcount⟩ := hp
  obtain rfl : entry = entry' := Except.ok.inj (hfind.symm.trans hfind')
  obtain rfl : entry = kept := Except.ok.inj (hfind.symm.trans hkept)
  have hcounter : counter entry.text = shown p.returned := by
    unfold counter
    rw [entryStatus_ok (findQueueBlock_entry hfind), Option.bind_some, hcount]
  obtain ⟨line, status, hline, hown, rfl, hstatus, hnext⟩ :=
    next_counter hplain hid (findQueueBlock_own hid hfind) happly
  obtain ⟨found, hfound, htext⟩ := findQueueBlock_replaced hid hfind hline hown hstatus
  have hsame : found.status = status := by
    have := findQueueBlock_entry hfound
    rw [htext, hstatus] at this
    exact (Except.ok.inj this).symm
  refine ⟨found, hqueue ▸ hfound, ?_⟩
  rw [hsame, hnext, nextCounter_shown hplain hcounter, hreturned]

/-- In every run of plain operations on the entry of a task that starts without a counter, the
counter is the number of returns since the entry was last escalated or created, and the parser of
the queue reports it. -/
theorem retry_counter (hid : isTaskId taskId = true) {p q : Place} {entry : QueueBlock}
    (hfind : findQueueBlock p.queue taskId = .ok entry) (hnone : queueAttempt entry.status = none)
    (hzero : p.returned = 0) (h : Relation.ReflTransGen (PlainStep taskId) p q) :
    ∃ found, findQueueBlock q.queue taskId = .ok found ∧
      queueAttempt found.status = shown q.returned ∧
      ∃ e ∈ parseQueue q.queue, e.id = taskId ∧ e.statusLiteral = found.status ∧
        e.attempt = shown q.returned := by
  have hkept : Kept taskId q := by
    induction h with
    | refl => exact ⟨entry, hfind, by rw [hnone, hzero]; rfl⟩
    | tail _ hstep ih => exact kept_next hid hstep ih
  obtain ⟨found, hfound, hcount⟩ := hkept
  exact ⟨found, hfound, hcount, parsed taskId found.status, parseQueue_entry hid hfound, rfl, rfl,
    hcount⟩

def inConflict : List Char := "### [T-1] Сборка — статус: конфликт\n".toList

def returnedOnce : List Char :=
  "### [T-1] Сборка — статус: не начата · попытка=1 · карантин=merge\n".toList

/-- A task in conflict that is returned for the first time. -/
theorem retry_counter_returned : ∃ found, findQueueBlock returnedOnce "T-1" = .ok found ∧
    queueAttempt found.status = shown 1 ∧ ∃ e ∈ parseQueue returnedOnce, e.id = "T-1" ∧
      e.statusLiteral = found.status ∧ e.attempt = shown 1 := by
  have hfind : findQueueBlock inConflict "T-1" =
      .ok ⟨[], inConflict, [], "конфликт".toList⟩ := by decide +kernel
  have happly : apply "T-1" ⟨"", none⟩ inConflict (.returnTask "merge".toList ⟨1, by decide⟩) =
      .ok returnedOnce := by decide +kernel
  have hplain : Plain inConflict (.returnTask "merge".toList ⟨1, by decide⟩) :=
    ⟨show 1 = (counter inConflict).getD 0 + 1 by decide +kernel, by decide +kernel,
      by decide +kernel, by decide +kernel⟩
  have hwhole : returnedOnce = [] ++ returnedOnce ++ [] := by
    rw [List.append_nil, List.nil_append]
  exact retry_counter (p := ⟨inConflict, 0⟩) (q := ⟨returnedOnce, 1⟩) (by decide) hfind
    (by decide +kernel) rfl
    (.single ⟨_, _, hfind, hplain, _, _, _, hfind, happly, hwhole, rfl⟩)

def atWork : List Char := "### [T-1] Сборка — статус: в работе\n".toList

def raised : List Char := "### [T-1] Сборка — статус: конфликт · причина=сбой · попытка=9\n".toList

/-- A reason may raise the counter: nobody has returned the task, and its counter is nine. -/
theorem retry_counter_raised : ¬ ∀ q : Place, Relation.ReflTransGen
    (fun p q => ∃ op entry, findQueueBlock p.queue "T-1" = .ok entry ∧ Counts entry.text op ∧
      p.Accepts "T-1" op q) ⟨atWork, 0⟩ q →
        ∃ found, findQueueBlock q.queue "T-1" = .ok found ∧
          queueAttempt found.status = shown q.returned := by
  intro hall
  have hfind : findQueueBlock atWork "T-1" = .ok ⟨[], atWork, [], "в работе".toList⟩ := by
    decide +kernel
  have happly : apply "T-1" ⟨"", none⟩ atWork
      (.patchQueueState .conflict (some "сбой · попытка=9".toList)) = .ok raised := by
    decide +kernel
  have hwhole : raised = [] ++ raised ++ [] := by rw [List.append_nil, List.nil_append]
  obtain ⟨found, hfound, hcount⟩ := hall ⟨raised, 0⟩ (.single
    ⟨.patchQueueState .conflict (some "сбой · попытка=9".toList), _, hfind, trivial, _, _, _, hfind,
      happly, hwhole, rfl⟩)
  have hnine : findQueueBlock raised "T-1" =
      .ok ⟨[], raised, [], "конфликт · причина=сбой · попытка=9".toList⟩ := by decide +kernel
  obtain rfl := Except.ok.inj (hfound.symm.trans hnine)
  exact absurd hcount (by decide +kernel)

end Orchestrail.QueueEntry
