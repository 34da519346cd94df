import Mathlib.Data.List.TakeWhile
import Mathlib.Data.List.Infix

/-!
# Texts divided by heading lines

A text is a list of characters, its lines are read with their line endings (`inclusive`), and a
function `h` says which lines are headings and what they name. A heading opens a section, which
runs to the next heading or to the end; what stands in front of the first heading is the lead.
`parts` lists the sections of a text, and the rules say what becomes of them when white space is
added at the end (`parts_blank`), when two texts are joined at a line ending (`parts_join`), and
when one section is cut out or another is put in its place (`pieces_spec`, `sections_split`).
`occurrences` counts a pattern without overlaps.
-/

namespace Orchestrail.Outline

variable {κ α : Type}

/-! ## Sections of a list of lines -/

/-- The sections of a list of lines, each with what its heading names. -/
def sections (h : α → Option κ) : List α → List (κ × List α)
  | [] => []
  | l :: ls =>
    match h l with
    | none => sections h ls
    | some k => (k, l :: ls.takeWhile fun x => (h x).isNone) :: sections h ls

/-- A section with everything in front of it and everything behind it. -/
structure Piece (κ α : Type) where
  key : κ
  before : List α
  lines : List α
  after : List α

/-- The sections of `ls` with what stands on both sides, `front` in front of all. -/
def pieces (h : α → Option κ) (front : List α) : List α → List (Piece κ α)
  | [] => []
  | l :: ls =>
    match h l with
    | none => pieces h (front ++ [l]) ls
    | some k =>
      { key := k
        before := front
        lines := l :: ls.takeWhile fun x => (h x).isNone
        after := ls.dropWhile fun x => (h x).isNone } :: pieces h (front ++ [l]) ls

/-- More lines at the end of the last section. -/
def extendLast (more : List α) : List (κ × List α) → List (κ × List α)
  | [] => []
  | [s] => [(s.1, s.2 ++ more)]
  | s :: t :: ss => s :: extendLast more (t :: ss)

variable {h : α → Option κ}

theorem sections_cons_none {l : α} (hl : h l = none) (ls : List α) :
    sections h (l :: ls) = sections h ls := by
  simp [sections, hl]

theorem sections_cons_some {l : α} {k : κ} (hl : h l = some k) (ls : List α) :
    sections h (l :: ls) =
      (k, l :: ls.takeWhile fun x => (h x).isNone) :: sections h ls := by
  simp [sections, hl]

theorem pieces_sections (front ls : List α) :
    (pieces h front ls).map (fun p => (p.key, p.lines)) = sections h ls := by
  induction ls generalizing front with
  | nil => rfl
  | cons l ls ih =>
    unfold pieces sections
    split
    · exact ih _
    · rw [List.map_cons, ih]

theorem sections_none {ls : List α} (hn : ∀ l ∈ ls, h l = none) : sections h ls = [] := by
  induction ls with
  | nil => rfl
  | cons l ls ih =>
    unfold sections
    rw [hn l (List.mem_cons_self ..)]
    exact ih fun x hx => hn x (List.mem_cons_of_mem _ hx)

theorem sections_eq_nil {ls : List α} (hs : sections h ls = []) : ∀ l ∈ ls, h l = none := by
  induction ls with
  | nil => simp
  | cons l ls ih =>
    unfold sections at hs
    split at hs
    · rename_i hl
      intro x hx
      rcases List.mem_cons.1 hx with rfl | hx
      · exact hl
      · exact ih hs x hx
    · cases hs

theorem sections_keys (ls : List α) : (sections h ls).map Prod.fst = ls.filterMap h := by
  induction ls with
  | nil => rfl
  | cons l ls ih =>
    unfold sections
    split <;> rename_i hl
    · rw [ih, List.filterMap_cons_none hl]
    · rw [List.map_cons, ih, List.filterMap_cons_some hl]

@[simp] theorem extendLast_nil (ss : List (κ × List α)) : extendLast [] ss = ss := by
  induction ss with
  | nil => rfl
  | cons s ss ih =>
    cases ss with
    | nil => simp [extendLast]
    | cons t ss => rw [extendLast, ih]

theorem takeWhile_none {ls : List α} (hn : ∀ l ∈ ls, h l = none) (more : List α) :
    (ls ++ more).takeWhile (fun x => (h x).isNone) =
      ls ++ more.takeWhile fun x => (h x).isNone :=
  List.takeWhile_append_of_pos fun x hx => by simp [hn x hx]

/-- Joining two lists of lines: what the second has in front of its first heading goes to the
last section of the first. -/
theorem sections_append (a b : List α) :
    sections h (a ++ b) =
      extendLast (b.takeWhile fun x => (h x).isNone) (sections h a) ++ sections h b := by
  induction a with
  | nil => rfl
  | cons l a ih =>
    rw [List.cons_append]
    cases hl : h l with
    | none => rw [sections_cons_none hl, sections_cons_none hl, ih]
    | some k =>
      rw [sections_cons_some hl, sections_cons_some hl, ih]
      cases hs : sections h a with
      | nil =>
        have hn := sections_eq_nil hs
        have ht : a.takeWhile (fun x => (h x).isNone) = a := by
          simpa using takeWhile_none hn []
        rw [takeWhile_none hn, ht]
        simp [extendLast]
      | cons s ss =>
        -- the first list has a heading of its own, so its first section ends there
        have ht : (a ++ b).takeWhile (fun x => (h x).isNone) =
            a.takeWhile fun x => (h x).isNone := by
          clear ih
          induction a with
          | nil => cases hs
          | cons x a ih =>
            unfold sections at hs
            split at hs <;> rename_i hx
            · simp [hx, ih hs]
            · simp [hx]
        rw [ht]
        simp [extendLast]

/-- Every line stands in front of the first heading or in a section. -/
theorem sections_flatten (ls : List α) :
    (ls.takeWhile fun x => (h x).isNone) ++ ((sections h ls).map Prod.snd).flatten = ls := by
  induction ls with
  | nil => rfl
  | cons l ls ih =>
    cases hl : h l with
    | none =>
      rw [sections_cons_none hl]
      simpa [hl] using ih
    | some k =>
      rw [sections_cons_some hl]
      simpa [hl] using ih

/-- A heading, lines that are none, and either nothing or the next heading: one section, between
the sections in front and those behind. -/
theorem sections_split (before : List α) {rest after : List α} {l : α} {k : κ} (hl : h l = some k)
    (hr : ∀ x ∈ rest, h x = none) (ha : ∀ x, after.head? = some x → h x ≠ none) :
    sections h (before ++ (l :: rest) ++ after) =
      sections h before ++ (k, l :: rest) :: sections h after := by
  have ht : after.takeWhile (fun x => (h x).isNone) = [] := by
    cases after with
    | nil => rfl
    | cons x after =>
      have hx := ha x rfl
      cases hh : h x with
      | none => exact absurd hh hx
      | some k => simp [hh]
  have hsr : sections h (rest ++ after) = sections h after := by
    rw [sections_append, sections_none hr]
    rfl
  rw [List.append_assoc, sections_append, List.cons_append, sections_cons_some hl,
    takeWhile_none hr, ht, hsr, List.append_nil]
  simp [hl]

/-- What a piece is made of. -/
theorem pieces_spec {front ls : List α} {p : Piece κ α} (hp : p ∈ pieces h front ls) :
    ∃ l rest, p.lines = l :: rest ∧ h l = some p.key ∧ (∀ x ∈ rest, h x = none) ∧
      (∀ x, p.after.head? = some x → h x ≠ none) ∧
      p.before ++ p.lines ++ p.after = front ++ ls := by
  induction ls generalizing front with
  | nil => cases hp
  | cons l ls ih =>
    unfold pieces at hp
    split at hp <;> rename_i hl
    · simpa using ih hp
    · rcases List.mem_cons.1 hp with rfl | hp
      · refine ⟨l, _, rfl, hl, ?_, ?_, ?_⟩
        · intro x hx
          simpa using List.mem_takeWhile_imp hx
        · intro x hx hn
          have := List.head?_dropWhile_not (fun x => (h x).isNone) ls
          simp only at hx
          rw [hx] at this
          simp [hn] at this
        · simp
      · simpa using ih hp

/-! ## Lines -/

/-- The lines of a text, each with its line ending. -/
def inclusive : List Char → List (List Char)
  | [] => []
  | ch :: text =>
    if ch = '\n' then [ch] :: inclusive text
    else match inclusive text with
      | [] => [[ch]]
      | l :: ls => (ch :: l) :: ls

/-- The text is empty or ends a line. -/
def LineEnd (text : List Char) : Prop := ∀ ch, text.getLast? = some ch → ch = '\n'

theorem inclusive_cons {ch : Char} (hch : ch ≠ '\n') (text : List Char) :
    inclusive (ch :: text) =
      (ch :: (inclusive text).headD []) :: (inclusive text).tail := by
  rw [inclusive, if_neg hch]
  split <;> rename_i heq <;> simp [heq]

@[simp] theorem inclusive_newline (text : List Char) :
    inclusive ('\n' :: text) = ['\n'] :: inclusive text := rfl

theorem inclusive_eq_nil {text : List Char} (hnil : inclusive text = []) : text = [] := by
  cases text with
  | nil => rfl
  | cons ch text =>
    by_cases hch : ch = '\n'
    · rw [hch] at hnil
      cases hnil
    · rw [inclusive_cons hch] at hnil
      cases hnil

@[simp] theorem inclusive_flatten (text : List Char) : (inclusive text).flatten = text := by
  induction text with
  | nil => rfl
  | cons ch text ih =>
    by_cases hch : ch = '\n'
    · subst hch
      simp [ih]
    · rw [inclusive_cons hch]
      cases hls : inclusive text with
      | nil => simp [inclusive_eq_nil hls]
      | cons l ls =>
        rw [hls] at ih
        simpa using ih

/-- Two texts joined at a line ending have the lines of both. -/
theorem inclusive_append {a : List Char} (ha : LineEnd a) (b : List Char) :
    inclusive (a ++ b) = inclusive a ++ inclusive b := by
  induction a with
  | nil => rfl
  | cons ch a ih =>
    by_cases hnil : a = []
    · subst hnil
      obtain rfl := ha ch rfl
      rfl
    · have ih := ih fun x hx => ha x (by rw [List.getLast?_cons, hx]; rfl)
      rw [List.cons_append]
      by_cases hch : ch = '\n'
      · subst hch
        simp [ih]
      · rw [inclusive_cons hch, inclusive_cons hch, ih]
        cases hls : inclusive a with
        | nil => exact absurd (inclusive_eq_nil hls) hnil
        | cons l ls => simp

/-- One more character at the end: a line of its own, or the end of the last line. -/
theorem inclusive_snoc (text : List Char) (ch : Char) :
    inclusive (text ++ [ch]) = inclusive text ++ [[ch]] ∨
      ∃ ls l, inclusive text = ls ++ [l] ∧ inclusive (text ++ [ch]) = ls ++ [l ++ [ch]] := by
  induction text with
  | nil =>
    refine .inl ?_
    by_cases hch : ch = '\n'
    · rw [hch]
      rfl
    · simp [inclusive, hch]
  | cons d text ih =>
    rw [List.cons_append]
    by_cases hd : d = '\n'
    · subst hd
      rcases ih with ih | ⟨ls, l, hls, ih⟩
      · exact .inl (by simp [ih])
      · exact .inr ⟨['\n'] :: ls, l, by simp [hls], by simp [ih]⟩
    · rw [inclusive_cons hd, inclusive_cons hd]
      rcases ih with ih | ⟨ls, l, hls, ih⟩
      · rw [ih]
        cases hls : inclusive text with
        | nil => exact .inr ⟨[], [d], by simp, by simp⟩
        | cons l ls => exact .inl (by simp)
      · rw [hls, ih]
        cases ls with
        | nil => exact .inr ⟨[], d :: l, by simp, by simp⟩
        | cons m ls => exact .inr ⟨(d :: m) :: ls, l, by simp, by simp⟩

/-- Lines as `inclusive` cuts them: none is empty, and only the last may lack its line ending. -/
def Cut (ls : List (List Char)) : Prop :=
  ∀ b l r, ls = b ++ l :: r → l ≠ [] ∧ '\n' ∉ l.dropLast ∧ (r ≠ [] → l.getLast? = some '\n')

theorem Cut.left {a b : List (List Char)} (hcut : Cut (a ++ b)) : Cut a := by
  intro x l r heq
  obtain ⟨h₁, h₂, h₃⟩ := hcut x l (r ++ b) (by simp [heq])
  exact ⟨h₁, h₂, fun hr => h₃ (by simp [hr])⟩

theorem Cut.right {a b : List (List Char)} (hcut : Cut (a ++ b)) : Cut b := by
  intro x l r heq
  exact hcut (a ++ x) l r (by simp [heq])

theorem Cut.lineEnd {a b : List (List Char)} (hcut : Cut (a ++ b)) (hb : b ≠ []) :
    LineEnd a.flatten := by
  intro ch hch
  rcases List.eq_nil_or_concat a with rfl | ⟨a, l, rfl⟩
  · cases hch
  · obtain ⟨hne, -, hlast⟩ := hcut a l b (by simp)
    have := hlast hb
    rw [List.concat_eq_append, List.flatten_append, List.flatten_singleton, List.getLast?_append,
      this] at hch
    exact (Option.some.inj hch).symm

theorem cut_inclusive (text : List Char) : Cut (inclusive text) := by
  induction text with
  | nil =>
    intro b l r heq
    cases b <;> cases heq
  | cons ch text ih =>
    by_cases hch : ch = '\n'
    · subst hch
      intro b l r heq
      rw [inclusive_newline] at heq
      cases b with
      | nil =>
        obtain ⟨rfl, rfl⟩ := List.cons.inj heq
        simp
      | cons m b => exact ih b l r (List.cons.inj heq).2
    · intro b l r heq
      rw [inclusive_cons hch] at heq
      cases hls : inclusive text with
      | nil =>
        rw [hls] at heq
        cases b with
        | nil =>
          obtain ⟨rfl, rfl⟩ := List.cons.inj heq
          simp
        | cons m b => cases b <;> cases (List.cons.inj heq).2
      | cons m ls =>
        rw [hls] at heq ih
        cases b with
        | nil =>
          obtain ⟨rfl, rfl⟩ := List.cons.inj heq
          obtain ⟨h₁, h₂, h₃⟩ := ih [] m ls rfl
          refine ⟨by simp, ?_, ?_⟩
          · rw [List.headD_cons, List.dropLast_cons_of_ne_nil h₁, List.mem_cons]
            rintro (rfl | hmem)
            · exact hch rfl
            · exact h₂ hmem
          · intro hr
            rw [List.headD_cons, List.getLast?_cons, h₃ hr]
            rfl
        | cons x b => exact ih (m :: b) l r (congrArg (m :: ·) (List.cons.inj heq).2)

theorem inclusive_line {l : List Char} (hne : l ≠ []) (hl : '\n' ∉ l.dropLast) :
    inclusive l = [l] := by
  induction l with
  | nil => exact absurd rfl hne
  | cons ch l ih =>
    by_cases hnil : l = []
    · subst hnil
      by_cases hch : ch = '\n' <;> simp [inclusive, hch]
    · rw [List.dropLast_cons_of_ne_nil hnil, List.mem_cons, not_or] at hl
      rw [inclusive_cons (fun heq => hl.1 heq.symm), ih hnil hl.2]
      rfl

/-- Lines so cut are the lines of their text. -/
theorem inclusive_of_cut {ls : List (List Char)} (hcut : Cut ls) : inclusive ls.flatten = ls := by
  induction ls with
  | nil => rfl
  | cons l ls ih =>
    obtain ⟨hne, hmid, hlast⟩ := hcut [] l ls rfl
    have hls : inclusive ls.flatten = ls := ih (hcut.right (a := [l]))
    rw [List.flatten_cons]
    by_cases hnil : ls = []
    · subst hnil
      simpa using inclusive_line hne hmid
    · have hend : LineEnd l := by
        intro ch hch
        rw [hlast hnil] at hch
        exact (Option.some.inj hch).symm
      rw [inclusive_append hend, inclusive_line hne hmid, hls]
      rfl

/-! ## Sections of a text -/

/-- The sections of a text, in order, each with what its heading names. -/
def parts (h : List Char → Option κ) (text : List Char) : List (κ × List Char) :=
  (sections h (inclusive text)).map fun s => (s.1, s.2.flatten)

/-- What stands in front of the first heading. -/
def lead (h : List Char → Option κ) (text : List Char) : List Char :=
  ((inclusive text).takeWhile fun l => (h l).isNone).flatten

/-- White space at the end of the last section. -/
def padLast (w : List Char) : List (κ × List Char) → List (κ × List Char)
  | [] => []
  | [s] => [(s.1, s.2 ++ w)]
  | s :: t :: ss => s :: padLast w (t :: ss)

@[simp] theorem padLast_nil (ss : List (κ × List Char)) : padLast [] ss = ss := by
  induction ss with
  | nil => rfl
  | cons s ss ih =>
    cases ss with
    | nil => simp [padLast]
    | cons t ss => rw [padLast, ih]

theorem padLast_padLast (v w : List Char) (ss : List (κ × List Char)) :
    padLast w (padLast v ss) = padLast (v ++ w) ss := by
  induction ss with
  | nil => rfl
  | cons s ss ih =>
    cases ss with
    | nil => simp [padLast]
    | cons t ss =>
      rw [padLast, padLast, ← ih]
      cases hss : padLast v (t :: ss) with
      | nil => cases ss <;> cases hss
      | cons u us => rfl

@[simp] theorem padLast_keys (w : List Char) (ss : List (κ × List Char)) :
    (padLast w ss).map Prod.fst = ss.map Prod.fst := by
  induction ss with
  | nil => rfl
  | cons s ss ih =>
    cases ss with
    | nil => rfl
    | cons t ss => exact congrArg (s.1 :: ·) ih

theorem padLast_concat (w : List Char) (ss : List (κ × List Char)) (s : κ × List Char) :
    padLast w (ss ++ [s]) = ss ++ [(s.1, s.2 ++ w)] := by
  induction ss with
  | nil => rfl
  | cons t ss ih =>
    cases ss with
    | nil => rfl
    | cons u ss => exact congrArg (t :: ·) ih

theorem map_extendLast (more : List (List Char)) (ss : List (κ × List (List Char))) :
    (extendLast more ss).map (fun s => (s.1, s.2.flatten)) =
      padLast more.flatten (ss.map fun s => (s.1, s.2.flatten)) := by
  induction ss with
  | nil => rfl
  | cons s ss ih =>
    cases ss with
    | nil => simp [extendLast, padLast]
    | cons t ss => exact congrArg ((s.1, s.2.flatten) :: ·) ih

variable {h : List Char → Option κ}

theorem parts_keys (text : List Char) :
    (parts h text).map Prod.fst = (inclusive text).filterMap h := by
  rw [← sections_keys, parts, List.map_map]
  rfl

theorem parts_none {text : List Char} (hn : ∀ l ∈ inclusive text, h l = none) :
    parts h text = [] := by
  rw [parts, sections_none hn]
  rfl

/-- Every character stands in front of the first heading or in a section. -/
theorem lead_parts (text : List Char) :
    lead h text ++ ((parts h text).map Prod.snd).flatten = text := by
  have hlines := congrArg List.flatten (sections_flatten (h := h) (inclusive text))
  rw [inclusive_flatten, List.flatten_append] at hlines
  conv_rhs => rw [← hlines]
  unfold lead parts
  congr 1
  induction sections h (inclusive text) with
  | nil => rfl
  | cons s ss ih => simpa using ih

/-- A text with a section keeps its lead when another is joined to it. -/
theorem lead_join {a : List Char} (ha : LineEnd a) (hparts : parts h a ≠ []) (b : List Char) :
    lead h (a ++ b) = lead h a := by
  unfold lead
  rw [inclusive_append ha, List.takeWhile_append]
  split
  · rename_i hlen
    refine absurd (parts_none fun l hl => ?_) hparts
    have := List.mem_takeWhile_imp ((List.takeWhile_prefix _).eq_of_length hlen ▸ hl)
    simpa using this
  · rfl

/-- **Joining two texts at a line ending.** -/
theorem parts_join {a : List Char} (ha : LineEnd a) (b : List Char) :
    parts h (a ++ b) = padLast (lead h b) (parts h a) ++ parts h b := by
  unfold parts lead
  rw [inclusive_append ha, sections_append, List.map_append, map_extendLast]

/-- The headings do not depend on white space behind them, and an empty line is none. -/
structure Forgiving (blank : Char → Bool) (h : List Char → Option κ) : Prop where
  snoc : ∀ l ch, blank ch = true → h (l ++ [ch]) = h l
  nil : h [] = none

section Blank

variable {blank : Char → Bool} (hb : Forgiving blank h)
include hb

theorem Forgiving.append {l w : List Char} (hw : ∀ ch ∈ w, blank ch = true) :
    h (l ++ w) = h l := by
  induction w using List.reverseRecOn with
  | nil => rw [List.append_nil]
  | append_singleton w ch ih =>
    rw [← List.append_assoc, hb.snoc _ _ (hw ch (by simp))]
    exact ih fun x hx => hw x (by simp [hx])

theorem Forgiving.onBlank {w : List Char} (hw : ∀ ch ∈ w, blank ch = true) : h w = none := by
  rw [← hb.nil]
  exact hb.append (l := []) hw

theorem parts_snoc (text : List Char) {ch : Char} (hch : blank ch = true) :
    parts h (text ++ [ch]) = padLast [ch] (parts h text) := by
  have hone : h [ch] = none := hb.onBlank (by simpa using hch)
  unfold parts
  rcases inclusive_snoc text ch with hinc | ⟨ls, l, htext, hinc⟩
  · rw [hinc, sections_append, List.map_append, map_extendLast]
    simp [hone, sections]
  · rw [hinc, htext, sections_append, sections_append]
    have hl := hb.snoc l ch hch
    cases hk : h l with
    | none =>
      rw [hk] at hl
      simp only [List.takeWhile_cons, hk, hl, Option.isNone_none, if_true, List.takeWhile_nil,
        sections_cons_none, List.map_append, map_extendLast]
      simp [sections, padLast_padLast]
    | some k =>
      rw [hk] at hl
      simp only [List.takeWhile_cons, hk, hl, Option.isNone_some, Bool.false_eq_true, if_false,
        extendLast_nil, List.map_append]
      rw [sections_cons_some hk, sections_cons_some hl]
      simp [sections, padLast_concat]

/-- **White space at the end of a text** goes to its last section. -/
theorem parts_blank (text : List Char) {w : List Char} (hw : ∀ ch ∈ w, blank ch = true) :
    parts h (text ++ w) = padLast w (parts h text) := by
  induction w using List.reverseRecOn with
  | nil => simp
  | append_singleton w ch ih =>
    rw [← List.append_assoc, parts_snoc hb _ (hw ch (by simp)),
      ih fun x hx => hw x (by simp [hx]), padLast_padLast]

theorem lead_snoc {text : List Char} {ch : Char} (hch : blank ch = true)
    (hparts : parts h text ≠ []) : lead h (text ++ [ch]) = lead h text := by
  have hmem : ∃ l ∈ inclusive text, h l ≠ none := by
    by_contra hnone
    push Not at hnone
    exact hparts (parts_none hnone)
  unfold lead
  rcases inclusive_snoc text ch with hinc | ⟨ls, l, htext, hinc⟩
  · rw [hinc, List.takeWhile_append]
    split
    · rename_i hlen
      obtain ⟨l, hl, hne⟩ := hmem
      have := List.mem_takeWhile_imp
        ((List.takeWhile_prefix _).eq_of_length hlen ▸ hl)
      exact absurd (by simpa using this) hne
    · rfl
  · have hl := hb.snoc l ch hch
    rw [hinc, htext, List.takeWhile_append, List.takeWhile_append]
    split
    · rename_i hlen
      have hls : ∀ x ∈ ls, h x = none := by
        intro x hx
        have := List.mem_takeWhile_imp ((List.takeWhile_prefix _).eq_of_length hlen ▸ hx)
        simpa using this
      obtain ⟨x, hx, hne⟩ := hmem
      rw [htext, List.mem_append, List.mem_singleton] at hx
      rcases hx with hx | rfl
      · exact absurd (hls x hx) hne
      · cases hk : h x with
        | none => exact absurd hk hne
        | some k => simp [hl, hk]
    · rfl

/-- White space at the end leaves the lead of a text with sections alone. -/
theorem lead_blank {text w : List Char} (hw : ∀ ch ∈ w, blank ch = true)
    (hparts : parts h text ≠ []) : lead h (text ++ w) = lead h text := by
  induction w using List.reverseRecOn with
  | nil => simp
  | append_singleton w ch ih =>
    have hne : parts h (text ++ w) ≠ [] := by
      rw [parts_blank hb _ fun x hx => hw x (by simp [hx])]
      intro hnil
      have := congrArg (List.map Prod.fst) hnil
      rw [padLast_keys] at this
      exact hparts (by simpa using this)
    rw [← List.append_assoc, lead_snoc hb (hw ch (by simp)) hne,
      ih fun x hx => hw x (by simp [hx])]

end Blank

/-! ## Counting a pattern -/

/-- The number of non-overlapping matches of `m`, with `skip` characters still to pass. -/
def occurrences (m : List Char) : Nat → List Char → Nat
  | _, [] => 0
  | skip + 1, _ :: text => occurrences m skip text
  | 0, ch :: text =>
    if m.isPrefixOf (ch :: text) then 1 + occurrences m (m.length - 1) text
    else occurrences m 0 text

/-- A text that is cut where no match can lie across the cut. -/
theorem occurrences_append {m a b : List Char} (skip : Nat) (hskip : skip ≤ a.length)
    (hcut : ∀ x y, a = x ++ y → y ≠ [] → m <+: y ++ b → m <+: y) :
    occurrences m skip (a ++ b) = occurrences m skip a + occurrences m 0 b := by
  induction a generalizing skip with
  | nil =>
    obtain rfl : skip = 0 := by simpa using hskip
    simp [occurrences]
  | cons ch a ih =>
    have hrest : ∀ x y, a = x ++ y → y ≠ [] → m <+: y ++ b → m <+: y :=
      fun x y heq => hcut (ch :: x) y (by rw [heq]; rfl)
    rw [List.cons_append]
    cases skip with
    | succ skip =>
      rw [occurrences, occurrences]
      exact ih _ (by simpa using hskip) hrest
    | zero =>
      have hiff : m.isPrefixOf (ch :: (a ++ b)) = m.isPrefixOf (ch :: a) := by
        rw [Bool.eq_iff_iff, List.isPrefixOf_iff_prefix, List.isPrefixOf_iff_prefix]
        refine ⟨fun hp => hcut [] (ch :: a) rfl (by simp) hp, fun hp => ?_⟩
        exact hp.trans (List.prefix_append (ch :: a) b)
      rw [occurrences, occurrences, hiff]
      split
      · rename_i hp
        have hlen := (List.isPrefixOf_iff_prefix.1 hp).length_le
        rw [List.length_cons] at hlen
        rw [ih _ (by omega) hrest]
        omega
      · exact ih 0 (by simp) hrest

/-- No match lies across a cut in front of which no match can begin. -/
theorem occurrences_front {m a : List Char} (b : List Char)
    (ha : ∀ x y, a = x ++ y → y ≠ [] → ¬ m <+: y ++ b) :
    occurrences m 0 (a ++ b) = occurrences m 0 b := by
  induction a with
  | nil => rfl
  | cons ch a ih =>
    have hno : m.isPrefixOf (ch :: (a ++ b)) = false := by
      rw [Bool.eq_false_iff, Ne, List.isPrefixOf_iff_prefix]
      exact ha [] (ch :: a) rfl (by simp)
    rw [List.cons_append, occurrences, if_neg (by simp [hno])]
    exact ih fun x y heq => ha (ch :: x) y (by rw [heq]; rfl)

/-- A match does not lie across a character it does not have. -/
theorem prefix_of_notMem {m y b : List Char} {ch : Char} (hm : ch ∉ m)
    (hp : m <+: y ++ ch :: b) : m <+: y := by
  by_cases hlen : m.length ≤ y.length
  · exact List.prefix_of_prefix_length_le hp (List.prefix_append ..) hlen
  · have hy : y ++ [ch] <+: y ++ ch :: b := ⟨b, by simp⟩
    have := List.prefix_of_prefix_length_le hy hp (by simp; omega)
    exact absurd (this.subset (by simp)) hm

/-- A match ends in front of a text without its last character. -/
theorem prefix_of_last {m y w : List Char} {ch : Char} (hm : m.getLast? = some ch) (hw : ch ∉ w)
    (hp : m <+: y ++ w) : m <+: y := by
  by_cases hlen : m.length ≤ y.length
  · exact List.prefix_of_prefix_length_le hp (List.prefix_append ..) hlen
  · obtain ⟨v, rfl⟩ := List.prefix_of_prefix_length_le (List.prefix_append y w) hp (by omega)
    have hv : v <+: w := (List.prefix_append_right_inj y).1 hp
    cases v with
    | nil => simp at hlen
    | cons x v =>
      rw [List.getLast?_append, List.getLast?_cons] at hm
      have hmem : ch ∈ x :: v := List.mem_of_getLast? (by simpa [List.getLast?_cons] using hm)
      exact absurd (hv.subset hmem) hw

end Orchestrail.Outline
