import Mathlib.Data.List.Infix
import Orchestrail.Spec.Policy

/-!
# The language of a glob

`glob_matches` against the language that is documented for a pattern: `*` and `?` stay inside one
segment, `**` crosses segments, and at the start of a segment `**/` stands for whole segments.

* `globList_denotes`: the matcher accepts what the pattern denotes where every `**/` starts a
  segment.
-/

namespace Orchestrail.Glob

open Text

/-! ## What a pattern denotes -/

/-- Zero or more whole segments. -/
def Dirs (front : List Char) : Prop := front = [] ∨ front.getLast? = some '/'

/-- The paths of a pattern; `start` tells that the pattern goes on at the start of a segment. -/
def Denotes : Bool → List Char → List Char → Prop
  | _, [], path => path = []
  | true, '*' :: '*' :: '/' :: pattern, path =>
    ∃ front rest, Dirs front ∧ path = front ++ rest ∧ Denotes true pattern rest
  | _, '*' :: '*' :: pattern, path =>
    ∃ front rest, path = front ++ rest ∧ Denotes false pattern rest
  | _, '*' :: pattern, path =>
    ∃ front rest, '/' ∉ front ∧ path = front ++ rest ∧ Denotes false pattern rest
  | _, '?' :: pattern, path => ∃ ch rest, ch ≠ '/' ∧ path = ch :: rest ∧ Denotes false pattern rest
  | _, ch :: pattern, path => ∃ rest, path = ch :: rest ∧ Denotes (ch = '/') pattern rest

/-- Every `**/` starts a segment. -/
def isInitial : Bool → List Char → Bool
  | _, [] => true
  | start, '*' :: '*' :: '/' :: pattern => start && isInitial true pattern
  | _, '*' :: '*' :: pattern => isInitial false pattern
  | _, ch :: pattern => isInitial (ch = '/') pattern

/-! ## What is left of a path -/

theorem mem_afterSlashes {path rest : List Char} :
    rest ∈ afterSlashes path ↔ ∃ front, Dirs front ∧ path = front ++ rest := by
  cases path with
  | nil =>
    unfold afterSlashes
    rw [List.mem_singleton]
    constructor
    · rintro rfl
      exact ⟨[], .inl rfl, rfl⟩
    · rintro ⟨front, -, h⟩
      exact (List.append_eq_nil_iff.1 h.symm).2
  | cons ch path =>
    unfold afterSlashes
    rw [List.mem_cons, List.mem_filter, List.mem_tails, beq_iff_eq]
    constructor
    · rintro (rfl | ⟨⟨front, hfront⟩, hlast⟩)
      · exact ⟨[], .inl rfl, rfl⟩
      · refine ⟨front, .inr ?_, hfront.symm⟩
        rwa [← hfront, List.length_append, Nat.add_sub_cancel, List.take_left] at hlast
    · rintro ⟨front, rfl | hlast, h⟩
      · exact .inl h.symm
      · refine .inr ⟨⟨front, h.symm⟩, ?_⟩
        rwa [h, List.length_append, Nat.add_sub_cancel, List.take_left]

theorem mem_withinSegment {path rest : List Char} :
    rest ∈ withinSegment path ↔ ∃ front, '/' ∉ front ∧ path = front ++ rest := by
  induction path with
  | nil =>
    unfold withinSegment
    rw [List.mem_singleton]
    constructor
    · rintro rfl
      exact ⟨[], List.not_mem_nil, rfl⟩
    · rintro ⟨front, -, h⟩
      exact (List.append_eq_nil_iff.1 h.symm).2
  | cons ch path ih =>
    unfold withinSegment
    split
    · rename_i hch
      rw [List.mem_singleton]
      constructor
      · rintro rfl
        exact ⟨[], List.not_mem_nil, rfl⟩
      · rintro ⟨front, hslash, h⟩
        cases front with
        | nil => exact h.symm
        | cons first front =>
          obtain ⟨rfl, -⟩ := List.cons.inj h
          exact absurd (hch ▸ List.mem_cons_self) hslash
    · rename_i hch
      rw [List.mem_cons, ih]
      constructor
      · rintro (rfl | ⟨front, hslash, rfl⟩)
        · exact ⟨[], List.not_mem_nil, rfl⟩
        · refine ⟨ch :: front, ?_, rfl⟩
          rw [List.mem_cons, not_or]
          exact ⟨fun h => hch h.symm, hslash⟩
      · rintro ⟨front, hslash, h⟩
        cases front with
        | nil => exact .inl h.symm
        | cons first front =>
          obtain ⟨rfl, rfl⟩ := List.cons.inj h
          exact .inr ⟨front, fun hin => hslash (List.mem_cons_of_mem _ hin), rfl⟩

/-! ## The matcher -/

section Equations

variable {start : Bool} {ch : Char} {pattern path : List Char}

theorem globList_stars (h : ∀ p, pattern = '/' :: p → False) :
    globList ('*' :: '*' :: pattern) path = path.tails.any (globList pattern) := by
  rw [globList]
  exact h

theorem globList_star (h : ∀ p, pattern = '*' :: p → False) :
    globList ('*' :: pattern) path = (withinSegment path).any (globList pattern) := by
  rw [globList]
  · exact fun p hp => h _ hp
  · exact h

theorem globList_plain (hstar : ch = '*' → False) (hone : ch = '?' → False) {other : Char} :
    globList (ch :: pattern) (other :: path) = (ch = other && globList pattern path) := by
  rw [globList]
  · exact fun _ h => absurd h hstar
  · exact fun _ h => absurd h hstar
  · exact hstar
  · exact hone

theorem globList_nil : globList (ch :: pattern) [] = true ↔
    ch = '*' ∧ globList (ch :: pattern) [] = true := by
  refine ⟨fun h => ⟨?_, h⟩, And.right⟩
  by_contra hstar
  unfold globList at h
  split at h <;> simp_all

theorem isInitial_dirs : isInitial start ('*' :: '*' :: '/' :: pattern) =
    (start && isInitial true pattern) := by
  rw [isInitial]

theorem isInitial_stars (h : ∀ p, pattern = '/' :: p → False) :
    isInitial start ('*' :: '*' :: pattern) = isInitial false pattern := by
  rw [isInitial]
  exact h

theorem isInitial_plain (h : ∀ p, ch = '*' → pattern = '*' :: p → False) :
    isInitial start (ch :: pattern) = isInitial (ch = '/') pattern := by
  rw [isInitial]
  · exact fun p hch hp => h _ hch hp
  · exact h

end Equations

/-- **The matcher accepts what the pattern denotes.** -/
theorem globList_denotes {start : Bool} {pattern path : List Char}
    (h : isInitial start pattern = true) :
    globList pattern path = true ↔ Denotes start pattern path := by
  fun_induction Denotes start pattern path with
  | case1 start path => simp [globList]
  | case2 pattern path ih =>
    have hrest : isInitial true pattern = true := by simpa [isInitial_dirs] using h
    rw [globList, List.any_eq_true]
    constructor
    · rintro ⟨rest, hmem, hmatch⟩
      obtain ⟨front, hdirs, hpath⟩ := mem_afterSlashes.1 hmem
      exact ⟨front, rest, hdirs, hpath, (ih rest hrest).1 hmatch⟩
    · rintro ⟨front, rest, hdirs, hpath, hdenotes⟩
      exact ⟨rest, mem_afterSlashes.2 ⟨front, hdirs, hpath⟩, (ih rest hrest).2 hdenotes⟩
  | case3 start pattern path hother ih =>
    -- behind a slash, only a `**/` that starts a segment would have come this far
    have hslash : ∀ p, pattern = '/' :: p → False := by
      rintro p rfl
      rw [isInitial_dirs, Bool.and_eq_true] at h
      exact hother p h.1 rfl
    have hrest : isInitial false pattern = true := by rwa [isInitial_stars hslash] at h
    rw [globList_stars hslash, List.any_eq_true]
    constructor
    · rintro ⟨rest, hmem, hmatch⟩
      obtain ⟨front, hpath⟩ := (List.mem_tails _ _).1 hmem
      exact ⟨front, rest, hpath.symm, (ih rest hrest).1 hmatch⟩
    · rintro ⟨front, rest, hpath, hdenotes⟩
      exact ⟨rest, (List.mem_tails _ _).2 ⟨front, hpath.symm⟩, (ih rest hrest).2 hdenotes⟩
  | case4 start pattern path _ hstar ih =>
    have hrest : isInitial false pattern = true := by
      rwa [isInitial_plain fun p _ hp => hstar p hp] at h
    rw [globList_star hstar, List.any_eq_true]
    constructor
    · rintro ⟨rest, hmem, hmatch⟩
      obtain ⟨front, hslash, hpath⟩ := mem_withinSegment.1 hmem
      exact ⟨front, rest, hslash, hpath, (ih rest hrest).1 hmatch⟩
    · rintro ⟨front, rest, hslash, hpath, hdenotes⟩
      exact ⟨rest, mem_withinSegment.2 ⟨front, hslash, hpath⟩, (ih rest hrest).2 hdenotes⟩
  | case5 start pattern path ih =>
    have hrest : isInitial false pattern = true := by
      rwa [isInitial_plain fun _ hch _ => absurd hch (by decide)] at h
    cases path with
    | nil => simp [globList]
    | cons other path =>
      rw [globList, Bool.and_eq_true, decide_eq_true_eq, ih path hrest]
      constructor
      · rintro ⟨hother, hdenotes⟩
        exact ⟨other, path, hother, rfl, hdenotes⟩
      · rintro ⟨ch, rest, hch, heq, hdenotes⟩
        obtain ⟨rfl, rfl⟩ := List.cons.inj heq
        exact ⟨hch, hdenotes⟩
  | case6 start ch pattern path _ _ hstar hone ih =>
    have hrest : isInitial (ch = '/') pattern = true := by
      rwa [isInitial_plain fun _ hch _ => hstar hch] at h
    cases path with
    | nil =>
      rw [globList_nil]
      simpa using fun hch => absurd hch hstar
    | cons other path =>
      rw [globList_plain hstar hone, Bool.and_eq_true, decide_eq_true_eq, ih path hrest]
      constructor
      · rintro ⟨rfl, hdenotes⟩
        exact ⟨path, rfl, hdenotes⟩
      · rintro ⟨rest, heq, hdenotes⟩
        obtain ⟨rfl, rfl⟩ := List.cons.inj heq
        exact ⟨rfl, hdenotes⟩

/-! ## The other patterns -/

/-- How many slashes a path of the pattern has at least. -/
def slashes : Bool → List Char → Nat
  | _, [] => 0
  | true, '*' :: '*' :: '/' :: pattern => slashes true pattern
  | _, '*' :: '*' :: pattern => slashes false pattern
  | _, ch :: pattern => (if ch = '/' then 1 else 0) + slashes (ch = '/') pattern

/-- The shortest path the matcher accepts. -/
def shortest : List Char → List Char
  | [] => []
  | '*' :: '*' :: '/' :: pattern => shortest pattern
  | '*' :: '*' :: pattern => shortest pattern
  | '*' :: pattern => shortest pattern
  | '?' :: pattern => 'x' :: shortest pattern
  | ch :: pattern => ch :: shortest pattern

section Equations

variable {start : Bool} {ch : Char} {pattern : List Char}

theorem slashes_dirs : slashes true ('*' :: '*' :: '/' :: pattern) = slashes true pattern := by
  rw [slashes]

theorem slashes_stars (h : ∀ p, start = true → pattern = '/' :: p → False) :
    slashes start ('*' :: '*' :: pattern) = slashes false pattern := by
  rw [slashes]
  exact h

theorem slashes_plain (h : ∀ p, ch = '*' → pattern = '*' :: p → False) :
    slashes start (ch :: pattern) = (if ch = '/' then 1 else 0) + slashes (ch = '/') pattern := by
  rw [slashes]
  · exact h
  · exact fun p _ hch hp => h _ hch hp

end Equations

theorem globList_shortest (pattern : List Char) : globList pattern (shortest pattern) = true := by
  fun_induction shortest pattern with
  | case1 => rfl
  | case2 pattern ih =>
    rw [globList, List.any_eq_true]
    exact ⟨_, mem_afterSlashes.2 ⟨[], .inl rfl, rfl⟩, ih⟩
  | case3 pattern hslash ih =>
    rw [globList_stars hslash, List.any_eq_true]
    exact ⟨_, (List.mem_tails _ _).2 (List.suffix_refl _), ih⟩
  | case4 pattern _ hstar ih =>
    rw [globList_star hstar, List.any_eq_true]
    exact ⟨_, mem_withinSegment.2 ⟨[], List.not_mem_nil, rfl⟩, ih⟩
  | case5 pattern ih =>
    rw [globList, ih]
    decide
  | case6 ch pattern _ _ hstar hone ih =>
    rw [globList_plain hstar hone, ih]
    simp

theorem slashes_le {start : Bool} {pattern path : List Char} (h : Denotes start pattern path) :
    slashes start pattern ≤ path.count '/' := by
  fun_induction Denotes start pattern path with
  | case1 start path =>
    unfold slashes
    exact Nat.zero_le _
  | case2 pattern path ih =>
    obtain ⟨front, rest, -, rfl, hrest⟩ := h
    rw [slashes_dirs, List.count_append]
    exact (ih rest hrest).trans (Nat.le_add_left _ _)
  | case3 start pattern path hother ih =>
    obtain ⟨front, rest, rfl, hrest⟩ := h
    rw [slashes_stars hother, List.count_append]
    exact (ih rest hrest).trans (Nat.le_add_left _ _)
  | case4 start pattern path _ hstar ih =>
    obtain ⟨front, rest, -, rfl, hrest⟩ := h
    rw [slashes_plain fun p _ hp => hstar p hp, List.count_append, if_neg (by decide), Nat.zero_add]
    exact (ih rest hrest).trans (Nat.le_add_left _ _)
  | case5 start pattern path ih =>
    obtain ⟨ch, rest, -, rfl, hrest⟩ := h
    rw [slashes_plain fun _ hch _ => absurd hch (by decide), List.count_cons, if_neg (by decide),
      Nat.zero_add]
    exact (ih rest hrest).trans (Nat.le_add_right _ _)
  | case6 start ch pattern path _ _ hstar hone ih =>
    obtain ⟨rest, rfl, hrest⟩ := h
    rw [slashes_plain fun _ hch _ => hstar hch, List.count_cons, Nat.add_comm]
    refine Nat.add_le_add (ih rest hrest) ?_
    by_cases hch : ch = '/' <;> simp [hch]

/-- The shortest path has no slash more, and one less if some `**/` does not start a segment. -/
theorem count_shortest (start : Bool) (pattern : List Char) :
    (shortest pattern).count '/' + (if isInitial start pattern = true then 0 else 1) ≤
      slashes start pattern := by
  fun_induction shortest pattern generalizing start with
  | case1 => simp [isInitial]
  | case2 pattern ih =>
    have hrest := ih true
    cases start with
    | true =>
      rw [slashes_dirs, isInitial_dirs, Bool.true_and]
      exact hrest
    | false =>
      have hstars : slashes false ('*' :: '*' :: '/' :: pattern) = 1 + slashes true pattern := by
        rw [slashes_stars fun _ hstart _ => Bool.false_ne_true hstart,
          slashes_plain fun _ hch _ => absurd hch (by decide), if_pos rfl]
        rfl
      rw [hstars, isInitial_dirs, Bool.false_and, if_neg Bool.false_ne_true]
      omega
  | case3 pattern hslash ih =>
    rw [slashes_stars fun p _ hp => hslash p hp, isInitial_stars hslash]
    exact ih false
  | case4 pattern _ hstar ih =>
    rw [slashes_plain fun p _ hp => hstar p hp, isInitial_plain fun p _ hp => hstar p hp,
      if_neg (by decide : ¬ '*' = '/'), Nat.zero_add]
    exact ih _
  | case5 pattern ih =>
    rw [slashes_plain fun _ hch _ => absurd hch (by decide),
      isInitial_plain fun _ hch _ => absurd hch (by decide), List.count_cons,
      if_neg (by decide : ¬ '?' = '/'), Nat.zero_add, if_neg (by decide : ¬ ('x' == '/') = true)]
    exact ih _
  | case6 ch pattern _ _ hstar hone ih =>
    have hrest := ih (ch = '/')
    rw [slashes_plain fun _ hch _ => hstar hch, isInitial_plain fun _ hch _ => hstar hch,
      List.count_cons]
    by_cases hch : ch = '/'
    · simp only [hch, beq_self_eq_true, if_true, decide_true] at hrest ⊢
      omega
    · simp only [hch, beq_iff_eq, if_false, decide_false] at hrest ⊢
      omega

/-- **The matcher accepts what a pattern denotes** if every `**/` of it starts a segment; else it
accepts a path with too few slashes. -/
theorem denotes_iff {pattern : List Char} :
    (∀ path, globList pattern path = true ↔ Denotes true pattern path) ↔
      isInitial true pattern = true := by
  refine ⟨fun h => ?_, fun h path => globList_denotes h⟩
  by_contra hnot
  have hfew := slashes_le ((h _).1 (globList_shortest pattern))
  have hcount := count_shortest true pattern
  rw [if_neg hnot] at hcount
  omega

end Orchestrail.Glob
