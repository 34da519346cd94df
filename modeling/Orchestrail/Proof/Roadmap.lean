import Orchestrail.Spec.Roadmap

/-!
# What the roadmap writer owns

* `locate_iff`: what it means for a roadmap to be well formed, in terms of its lines.
* `summary_lines`: the lines of the signal; none of them is a heading.
-/

namespace Orchestrail.Roadmap

open Text Outcome Durable

/-! ## Lines -/

theorem lineText_front (l : List Char) : lineText l <+: l := List.rdropWhile_prefix _ _

theorem lineText_head {l : List Char} {ch : Char} (h : (lineText l).head? = some ch) :
    l.head? = some ch := by
  obtain ⟨t, ht⟩ := lineText_front l
  rw [← ht, List.head?_append, h]
  rfl

/-- A heading starts with a hash. -/
theorem heading_hash {level : Nat} {l : List Char} (hlevel : level ≠ 0)
    (h : heading level l = true) : l.head? = some '#' := by
  obtain ⟨level, rfl⟩ := Nat.exists_eq_succ_of_ne_zero hlevel
  refine lineText_head ?_
  obtain ⟨t, ht⟩ := List.isPrefixOf_iff_prefix.1 h
  rw [← ht, List.replicate_succ]
  rfl

theorem newline_lineText {l : List Char} (h : '\n' ∉ l.dropLast) : '\n' ∉ lineText l := by
  rcases List.eq_nil_or_concat l with rfl | ⟨init, last, rfl⟩
  · simp [lineText]
  · rw [List.concat_eq_append, List.dropLast_concat] at h
    rw [List.concat_eq_append]
    by_cases hb : (last = '\r' ∨ last = '\n')
    · have hcut : lineText (init ++ [last]) = lineText init :=
        List.rdropWhile_concat_pos _ _ _ (by simpa using hb)
      rw [hcut]
      exact fun hmem => h ((lineText_front init).subset hmem)
    · have hkeep : lineText (init ++ [last]) = init ++ [last] :=
        List.rdropWhile_concat_neg _ _ _ (by simpa using hb)
      rw [hkeep, List.mem_append, List.mem_singleton]
      rintro (hmem | heq)
      · exact h hmem
      · exact hb (.inr heq.symm)

theorem lines_of_ne {text : List Char} (h : text ≠ []) : lines text = Outline.inclusive text := by
  rw [lines, if_neg (by simpa using h)]

/-- A text with two lines or more is not empty. -/
theorem lines_of_two {text a b : List Char} {front tail : List (List Char)}
    (h : lines text = front ++ a :: b :: tail) : lines text = Outline.inclusive text := by
  refine lines_of_ne fun hnil => ?_
  rw [hnil] at h
  have hlen := congrArg List.length h
  simp [lines] at hlen
  omega

/-! ## Headings -/

/-- The line numbers, counted from `n`, of the lines with this text. -/
theorem matches_iff {title : List Char} {ls : List (List Char)} {n i : Nat} :
    ((ls.zipIdx n).filter fun e => lineText e.1 = title).map Prod.snd = [i] ↔
      ∃ a l b, ls = a ++ l :: b ∧ n + a.length = i ∧ lineText l = title ∧
        (∀ x ∈ a, lineText x ≠ title) ∧ ∀ x ∈ b, lineText x ≠ title := by
  have hnone : ∀ (ls : List (List Char)) (n : Nat),
      ((ls.zipIdx n).filter fun e => lineText e.1 = title).map Prod.snd = [] ↔
        ∀ x ∈ ls, lineText x ≠ title := by
    intro ls
    induction ls with
    | nil => simp
    | cons l ls ih =>
      intro n
      by_cases hl : lineText l = title
      · simp [List.zipIdx_cons, hl]
      · simp only [List.zipIdx_cons, List.filter_cons, hl, decide_false, Bool.false_eq_true,
          if_false, ih, List.forall_mem_cons, ne_eq, not_false_iff, true_and]
  induction ls generalizing n with
  | nil => simp
  | cons l ls ih =>
    by_cases hl : lineText l = title
    · simp only [List.zipIdx_cons, List.filter_cons, hl, decide_true, if_true, List.map_cons,
        List.cons.injEq, hnone]
      constructor
      · rintro ⟨rfl, hrest⟩
        exact ⟨[], l, ls, rfl, rfl, hl, by simp, hrest⟩
      · rintro ⟨a, l', b, heq, hi, hl', ha, hb⟩
        cases a with
        | nil =>
          obtain ⟨rfl, rfl⟩ := List.cons.inj heq
          exact ⟨by simpa using hi, hb⟩
        | cons x a =>
          obtain ⟨rfl, -⟩ := List.cons.inj heq
          exact absurd hl (ha _ List.mem_cons_self)
    · simp only [List.zipIdx_cons, List.filter_cons, hl, decide_false, Bool.false_eq_true,
        if_false, ih]
      constructor
      · rintro ⟨a, l', b, rfl, hi, h⟩
        refine ⟨l :: a, l', b, rfl, by simp only [List.length_cons]; omega, h.1, ?_, h.2.2⟩
        exact List.forall_mem_cons.2 ⟨hl, h.2.1⟩
      · rintro ⟨a, l', b, heq, hi, hl', ha, hb⟩
        cases a with
        | nil =>
          obtain ⟨rfl, -⟩ := List.cons.inj heq
          exact absurd hl' hl
        | cons x a =>
          obtain ⟨rfl, rfl⟩ := List.cons.inj heq
          simp only [List.length_cons] at hi
          exact ⟨a, l', b, rfl, by omega, hl', (List.forall_mem_cons.1 ha).2, hb⟩

theorem uniqueHeading_eq_ok {title : List Char} {ls : List (List Char)} {i : Nat} :
    uniqueHeading ls title = .ok i ↔
      ∃ a l b, ls = a ++ l :: b ∧ a.length = i ∧ lineText l = title ∧
        (∀ x ∈ a, lineText x ≠ title) ∧ ∀ x ∈ b, lineText x ≠ title := by
  have h := @matches_iff title ls 0 i
  simp only [Nat.zero_add] at h
  rw [← h, uniqueHeading]
  generalize (ls.zipIdx.filter fun e => lineText e.1 = title).map Prod.snd = found
  rcases found with _ | ⟨j, _ | ⟨k, found⟩⟩ <;> simp [malformed]

/-! ## Well-formed roadmaps -/

/-- The line is neither of the two headings that stand alone. -/
def Plain (l : List Char) : Prop :=
  lineText l ≠ currentStateHeading ∧ lineText l ≠ milestonesHeading

/-- The parts of a well-formed roadmap. -/
structure Located (text : List Char) (place : Place) : Prop where
  lines_eq : lines text = place.front ++ place.between ++ place.tail
  front_eq : ∃ a c, place.front = a ++ [c] ∧ lineText c = currentStateHeading ∧ ∀ x ∈ a, Plain x
  plain : ∀ x ∈ place.between, Plain x
  tail_eq : ∃ m d, place.tail = m :: d ∧ lineText m = milestonesHeading ∧ (∀ x ∈ d, Plain x) ∧
    currentHeaders d = .ok [(place.id, place.title, place.rest)]

/-- The place with other lines between its two headings. -/
def Place.withBody (place : Place) (body : List (List Char)) : Place :=
  { place with between := body }

@[simp] theorem Place.withBody_front (place : Place) (body : List (List Char)) :
    (place.withBody body).front = place.front := rfl

@[simp] theorem Place.withBody_between (place : Place) (body : List (List Char)) :
    (place.withBody body).between = body := rfl

@[simp] theorem Place.withBody_tail (place : Place) (body : List (List Char)) :
    (place.withBody body).tail = place.tail := rfl

/-- The document with another body. -/
def Document.withBody (document : Document) (body : List Char) : Document :=
  { document with currentStateBody := body }

@[simp] theorem Document.withBody_body (document : Document) (body : List Char) :
    (document.withBody body).currentStateBody = body := rfl

@[simp] theorem Document.withBody_current (document : Document) (body : List Char) :
    (document.withBody body).current = document.current := rfl

theorem headings_ne : currentStateHeading ≠ milestonesHeading := by decide +kernel

section Parts

variable {ls a b d : List (List Char)} {c m : List Char} (h : ls = a ++ c :: b ++ m :: d)
include h

theorem take_front : ls.take (a.length + 1) = a ++ [c] := by
  rw [h, show a ++ c :: b ++ m :: d = (a ++ [c]) ++ (b ++ m :: d) by simp]
  exact List.take_left' (by simp)

theorem take_between : (ls.take (a ++ c :: b).length).drop (a.length + 1) = b := by
  rw [h, List.take_left' rfl, show a ++ c :: b = (a ++ [c]) ++ b by simp]
  exact List.drop_left' (by simp)

theorem drop_tail : ls.drop (a ++ c :: b).length = m :: d := by
  rw [h]
  exact List.drop_left' rfl

theorem drop_behind : ls.drop ((a ++ c :: b).length + 1) = d := by
  rw [h, show a ++ c :: b ++ m :: d = (a ++ c :: b ++ [m]) ++ d by simp]
  exact List.drop_left' (List.length_append ..)

theorem endsLine_of_cut (hcut : Outline.Cut ls) : endsLine ls a.length := by
  obtain ⟨hne, -, hlast⟩ := hcut a c (b ++ m :: d) (by simp [h])
  have hget : ls.getD a.length [] = c := by simp [h]
  exact ⟨hget ▸ hne, .inr (hget ▸ hlast (by simp))⟩

end Parts

theorem locate_iff {text : List Char} {place : Place} :
    locate text = .ok place ↔ Located text place := by
  constructor
  · intro h
    simp only [locate, bind_eq_ok, demand_eq_ok] at h
    obtain ⟨i, hi, j, hj, -, hlt, -, -, headers, hheaders, h⟩ := h
    split at h
    · rename_i id title rest
      obtain ⟨a, c, e, heq, rfl, hc, hca, hce⟩ := uniqueHeading_eq_ok.1 hi
      obtain ⟨f, m, d, heq', rfl, hm, hmf, hmd⟩ := uniqueHeading_eq_ok.1 hj
      obtain ⟨b, rfl, rfl⟩ : ∃ b, f = a ++ c :: b ∧ e = b ++ m :: d := by
        rcases List.append_eq_append_iff.1 (heq.symm.trans heq') with ⟨k, hf, hk⟩ | ⟨k, ha, hk⟩
        · cases k with
          | nil => simp [hf] at hlt
          | cons x b =>
            obtain ⟨rfl, rfl⟩ := List.cons.inj hk
            exact ⟨b, hf, rfl⟩
        · rw [ha, List.length_append] at hlt
          omega
      rw [drop_behind heq'] at hheaders
      cases h
      refine ⟨?_, ⟨a, c, take_front heq', hc, fun x hx => ?_⟩, fun x hx => ?_,
        ⟨m, d, drop_tail heq', hm, fun x hx => ?_, hheaders⟩⟩
      · simp only [take_front heq', take_between heq', drop_tail heq']
        simp [heq']
      · exact ⟨hca x hx, hmf x (by simp [hx])⟩
      · simp only [take_between heq'] at hx
        exact ⟨hce x (by simp [hx]), hmf x (by simp [hx])⟩
      · exact ⟨hce x (by simp [hx]), hmd x hx⟩
    · cases h
  · rintro ⟨hlines, ⟨a, c, hfront, hc, hca⟩, hplain, ⟨m, d, htail, hm, hmd, hheaders⟩⟩
    obtain ⟨front, b, tail, id, title, rest⟩ := place
    obtain rfl : front = a ++ [c] := hfront
    obtain rfl : tail = m :: d := htail
    have heq : lines text = a ++ c :: b ++ m :: d := by simp [hlines]
    have hcut : Outline.Cut (lines text) := by
      have hinclusive : lines text = Outline.inclusive text := by
        cases b with
        | nil => exact lines_of_two (by simpa using heq)
        | cons x b => exact lines_of_two (by simpa using heq)
      rw [hinclusive]
      exact Outline.cut_inclusive text
    have hi : uniqueHeading (lines text) currentStateHeading = .ok a.length := by
      refine uniqueHeading_eq_ok.2
        ⟨a, c, b ++ m :: d, by simp [heq], rfl, hc, fun x hx => (hca x hx).1, ?_⟩
      intro x hx
      rcases List.mem_append.1 hx with hx | hx
      · exact (hplain x hx).1
      · rcases List.mem_cons.1 hx with rfl | hx
        · rw [hm]
          exact headings_ne.symm
        · exact (hmd x hx).1
    have hj : uniqueHeading (lines text) milestonesHeading = .ok (a ++ c :: b).length := by
      refine uniqueHeading_eq_ok.2 ⟨a ++ c :: b, m, d, heq, rfl, hm, ?_, fun x hx => (hmd x hx).2⟩
      intro x hx
      rcases List.mem_append.1 hx with hx | hx
      · exact (hca x hx).2
      · rcases List.mem_cons.1 hx with rfl | hx
        · rw [hc]
          exact headings_ne
        · exact (hplain x hx).2
    have hlt : a.length < (a ++ c :: b).length := by simp
    simp only [locate, bind_eq_ok, demand_eq_ok]
    refine ⟨_, hi, _, hj, (), hlt, (), endsLine_of_cut heq hcut, [(id, title, rest)], ?_, ?_⟩
    · rw [drop_behind heq]
      exact hheaders
    · simp only [take_front heq, take_between heq, drop_tail heq]
      rfl

/-! ## Ids and titles -/

theorem afterFirst_suffix {pattern text behind : List Char}
    (h : afterFirst pattern text = some behind) : behind <:+ text := by
  induction text with
  | nil =>
    unfold afterFirst at h
    split at h
    · obtain rfl := Option.some.inj h
      exact List.suffix_refl _
    · cases h
  | cons ch text ih =>
    unfold afterFirst at h
    split at h
    · obtain rfl := Option.some.inj h
      exact List.drop_suffix _ _
    · exact (ih h).trans (List.suffix_cons _ _)

theorem rsplitOnce_fst {pattern text front behind : List Char}
    (h : rsplitOnce pattern text = some (front, behind)) : front <+: text := by
  obtain ⟨⟨a, b⟩, hsplit, heq⟩ := Option.map_eq_some_iff.1 h
  obtain ⟨c, hafter, hc⟩ := Option.map_eq_some_iff.1 hsplit
  obtain ⟨rfl, -⟩ := Prod.mk.inj heq
  obtain ⟨-, rfl⟩ := Prod.mk.inj hc
  have := List.reverse_prefix.2 (afterFirst_suffix hafter)
  rwa [List.reverse_reverse] at this

/-- The id and the title of a header are taken from its line. -/
theorem parseCurrentHeader_within {line id title : List Char}
    (h : parseCurrentHeader line = .ok (some (id, title))) : id ⊆ line ∧ title ⊆ line := by
  unfold parseCurrentHeader at h
  split at h
  swap
  · cases h
  split at h
  · cases h
  · rename_i id' behind hsplit
    obtain ⟨hline, -⟩ := splitOnce_char.1 hsplit
    have hdrop : line.drop 5 ⊆ line := (List.drop_suffix _ _).subset
    split at h
    swap
    · cases h
    split at h
    · cases h
    · rename_i tail hstrip
      split at h
      · cases h
      · rename_i title' status hlast
        split at h
        · cases h
        · obtain ⟨rfl, rfl⟩ := Prod.mk.inj (Option.some.inj (Except.ok.inj h))
          refine ⟨fun ch hch => hdrop (by simp [hline, hch]), fun ch hch => hdrop ?_⟩
          have htail : tail <:+ behind := by
            unfold stripFront at hstrip
            split at hstrip
            · obtain rfl := Option.some.inj hstrip
              exact List.drop_suffix _ _
            · cases hstrip
          have hmem : ch ∈ behind := htail.subset ((rsplitOnce_fst hlast).subset hch)
          simp [hline, hmem]

theorem currentHeaders_line {ls : List (List Char)}
    {headers : List (List Char × List Char × List (List Char))}
    (h : currentHeaders ls = .ok headers) : ∀ e ∈ headers, ∃ line ∈ ls,
      parseCurrentHeader (lineText line) = .ok (some (e.1, e.2.1)) := by
  induction ls generalizing headers with
  | nil =>
    obtain rfl := Except.ok.inj h
    simp
  | cons line ls ih =>
    unfold currentHeaders at h
    split at h
    · obtain rfl := Except.ok.inj h
      simp
    · obtain ⟨found, hfound, h⟩ := bind_eq_ok.1 h
      split at h
      · obtain ⟨more, hmore, h⟩ := bind_eq_ok.1 h
        obtain rfl := Except.ok.inj h
        intro e he
        rcases List.mem_cons.1 he with rfl | he
        · exact ⟨line, List.mem_cons_self, hfound⟩
        · obtain ⟨l, hl, hparse⟩ := ih hmore e he
          exact ⟨l, List.mem_cons_of_mem _ hl, hparse⟩
      · intro e he
        obtain ⟨l, hl, hparse⟩ := ih h e he
        exact ⟨l, List.mem_cons_of_mem _ hl, hparse⟩

/-- A well-formed roadmap has two lines or more. -/
theorem Located.inclusive {text : List Char} {place : Place} (h : Located text place) :
    Outline.inclusive text = place.front ++ place.between ++ place.tail := by
  obtain ⟨a, c, hfront, -⟩ := h.front_eq
  obtain ⟨m, d, htail, -⟩ := h.tail_eq
  rw [← h.lines_eq]
  have heq := h.lines_eq
  rw [hfront, htail] at heq
  cases hb : place.between with
  | nil =>
    have htwo : lines text = a ++ c :: m :: d := by simpa [hb] using heq
    exact (lines_of_two htwo).symm
  | cons x b =>
    have htwo : lines text = a ++ c :: x :: (b ++ m :: d) := by simpa [hb] using heq
    exact (lines_of_two htwo).symm

theorem Located.cut {text : List Char} {place : Place} (h : Located text place) :
    Outline.Cut (place.front ++ place.between ++ place.tail) := by
  rw [← h.inclusive]
  exact Outline.cut_inclusive text

theorem Located.oneLine {text : List Char} {place : Place} (h : Located text place) :
    '\n' ∉ place.id ∧ '\n' ∉ place.title := by
  obtain ⟨m, d, htail, -, -, hheaders⟩ := h.tail_eq
  obtain ⟨line, hline, hparse⟩ := currentHeaders_line hheaders _ List.mem_cons_self
  obtain ⟨before, after, rfl⟩ := List.append_of_mem hline
  have hcut := h.cut
  rw [htail] at hcut
  obtain ⟨-, hnewline, -⟩ :=
    hcut (place.front ++ place.between ++ m :: before) line after (by simp)
  have hline := newline_lineText hnewline
  obtain ⟨hid, htitle⟩ := parseCurrentHeader_within hparse
  exact ⟨fun hmem => hline (hid hmem), fun hmem => hline (htitle hmem)⟩

/-! ## The signal -/

/-- The two line endings that are written. -/
def Eol (eol : List Char) : Prop := eol = ['\n'] ∨ eol = ['\r', '\n']

theorem eolOf_eol (text : List Char) : Eol (eolOf text) := by
  unfold eolOf
  split
  · exact .inr rfl
  · exact .inl rfl

theorem inclusive_eol {l eol : List Char} (hl : '\n' ∉ l) (heol : Eol eol) (rest : List Char) :
    Outline.inclusive (l ++ eol ++ rest) = (l ++ eol) :: Outline.inclusive rest := by
  have hend : Outline.LineEnd (l ++ eol) := by
    intro ch hch
    rcases heol with rfl | rfl <;> simpa using hch.symm
  have hline : Outline.inclusive (l ++ eol) = [l ++ eol] := by
    refine Outline.inclusive_line ?_ ?_
    · rcases heol with rfl | rfl <;> simp
    · rcases heol with rfl | rfl
      · simpa using hl
      · rw [List.dropLast_append_of_ne_nil (by simp)]
        simpa using hl
  rw [Outline.inclusive_append hend, hline]
  rfl

def announced (milestone : CurrentMilestone) : List Char :=
  "Текущая веха: ".toList ++ milestone.id ++ " — ".toList ++ milestone.title

def awaited (milestone : CurrentMilestone) : List Char :=
  "По ".toList ++ milestone.id ++
    (" все поставленные задачи находятся в Tasks_Done.md; " ++
      "критерий Достижение ждёт подтверждения оператором.").toList

theorem summary_eq (milestone : CurrentMilestone) (eol : List Char) :
    completionSummary milestone eol =
      announced milestone ++ eol ++ (eol ++ (awaited milestone ++ eol ++ eol)) := by
  delta completionSummary announced awaited
  simp only [List.append_assoc]

def Breakless (milestone : CurrentMilestone) : Prop :=
  '\n' ∉ milestone.id ∧ '\n' ∉ milestone.title

theorem summary_lines {milestone : CurrentMilestone} (h : Breakless milestone) {eol : List Char}
    (heol : Eol eol) : Outline.inclusive (completionSummary milestone eol) =
      [announced milestone ++ eol, eol, awaited milestone ++ eol, eol] := by
  have hannounced : '\n' ∉ announced milestone := by
    have h1 : '\n' ∉ "Текущая веха: ".toList := by decide +kernel
    have h2 : '\n' ∉ " — ".toList := by decide +kernel
    delta announced
    rw [List.mem_append, List.mem_append, List.mem_append]
    rintro (((hmem | hmem) | hmem) | hmem)
    exacts [h1 hmem, h.1 hmem, h2 hmem, h.2 hmem]
  have hawaited : '\n' ∉ awaited milestone := by
    have h1 : '\n' ∉ "По ".toList := by decide +kernel
    have h2 : '\n' ∉ (" все поставленные задачи находятся в Tasks_Done.md; " ++
      "критерий Достижение ждёт подтверждения оператором.").toList := by decide +kernel
    delta awaited
    rw [List.mem_append, List.mem_append]
    rintro ((hmem | hmem) | hmem)
    exacts [h1 hmem, h.1 hmem, h2 hmem]
  have hempty : ∀ rest, Outline.inclusive (eol ++ rest) = eol :: Outline.inclusive rest :=
    inclusive_eol (l := []) (by simp) heol
  have hlast : Outline.inclusive eol = [eol] := by
    have := hempty []
    rwa [List.append_nil] at this
  rw [summary_eq, inclusive_eol hannounced heol, hempty, inclusive_eol hawaited heol, hlast]

/-- No line of the signal is a heading. -/
theorem summary_hash {milestone : CurrentMilestone} (h : Breakless milestone) {eol : List Char}
    (heol : Eol eol) :
    ∀ l ∈ Outline.inclusive (completionSummary milestone eol), l.head? ≠ some '#' := by
  have hannounced : (announced milestone ++ eol).head? = some 'Т' := rfl
  have hawaited : (awaited milestone ++ eol).head? = some 'П' := rfl
  have hempty : eol.head? ≠ some '#' := by
    rcases heol with rfl | rfl <;> decide
  rw [summary_lines h heol]
  simp only [List.forall_mem_cons, hannounced, hawaited]
  exact ⟨by decide, hempty, by decide, hempty, by simp⟩

/-! ## The written text -/

theorem plain_of_hash {l : List Char} (h : l.head? ≠ some '#') : Plain l := by
  have hcurrent : currentStateHeading.head? = some '#' := rfl
  have hmilestones : milestonesHeading.head? = some '#' := rfl
  exact ⟨fun heq => h (lineText_head (heq ▸ hcurrent)),
    fun heq => h (lineText_head (heq ▸ hmilestones))⟩

/-- The text of a place whose body is replaced by the signal. -/
def signalled (place : Place) (milestone : CurrentMilestone) (eol : List Char) : List Char :=
  place.front.flatten ++ completionSummary milestone eol ++ place.tail.flatten

section Update

variable {text : List Char} {place : Place} {milestone : CurrentMilestone} {eol : List Char}

theorem signalled_inclusive (h : Located text place) (heol : Eol eol) :
    Outline.inclusive (signalled place milestone eol) =
      place.front ++ Outline.inclusive (completionSummary milestone eol) ++ place.tail := by
  obtain ⟨m, d, htail, -⟩ := h.tail_eq
  have hcut := h.cut
  have hfront : Outline.LineEnd place.front.flatten := by
    rw [List.append_assoc] at hcut
    exact hcut.lineEnd (by simp [htail])
  have hsummary : Outline.LineEnd (completionSummary milestone eol) := by
    intro ch hch
    have hne : eol ≠ [] := by rcases heol with rfl | rfl <;> simp
    rw [summary_eq, ← List.append_assoc, ← List.append_assoc, ← List.append_assoc,
      List.getLast?_append_of_ne_nil _ hne] at hch
    rcases heol with rfl | rfl <;> simpa using hch.symm
  rw [signalled, List.append_assoc, Outline.inclusive_append hfront,
    Outline.inclusive_append hsummary, Outline.inclusive_of_cut hcut.left.left,
    Outline.inclusive_of_cut hcut.right, List.append_assoc]

/-- **The written text is well formed**, with the same milestone in the same place. -/
theorem located_update (h : Located text place) (hm : Breakless milestone) (heol : Eol eol) :
    Located (signalled place milestone eol)
      (place.withBody (Outline.inclusive (completionSummary milestone eol))) := by
  have hlines := @signalled_inclusive text place milestone eol h heol
  have hhash := summary_hash hm heol
  generalize Outline.inclusive (completionSummary milestone eol) = signal at hlines hhash ⊢
  have hne : signalled place milestone eol ≠ [] := by
    intro hnil
    obtain ⟨m, d, htail, -⟩ := h.tail_eq
    rw [hnil, htail] at hlines
    exact List.append_ne_nil_of_right_ne_nil _ (List.cons_ne_nil m d) hlines.symm
  exact ⟨(lines_of_ne hne).trans hlines, h.front_eq,
    fun l hl => plain_of_hash (hhash l hl), h.tail_eq⟩

end Update

/-! ## Line endings -/

/-- A carriage return in front of a line feed ends a line. -/
theorem crlf_iff {text : List Char} :
    ['\r', '\n'] <:+: text ↔ ∃ l ∈ Outline.inclusive text, ['\r', '\n'] <:+ l := by
  induction text with
  | nil => simp [Outline.inclusive]
  | cons ch text ih =>
    rw [List.infix_cons_iff, ih]
    by_cases hch : ch = '\n'
    · subst hch
      have hstart : ¬ ['\r', '\n'] <+: '\n' :: text := by
        rw [List.cons_prefix_cons]
        exact fun h => absurd h.1 (by decide)
      have hend : ¬ ['\r', '\n'] <:+ ['\n'] := by decide
      simp [hstart, hend]
    · rw [Outline.inclusive_cons hch]
      cases hls : Outline.inclusive text with
      | nil =>
        obtain rfl := Outline.inclusive_eq_nil hls
        have hstart : ¬ ['\r', '\n'] <+: [ch] := fun h => by simpa using h.length_le
        have hend : ¬ ['\r', '\n'] <:+ [ch] := fun h => by simpa using h.length_le
        simp [hstart, hend]
      | cons l ls =>
        -- the first line is a line feed alone exactly if the text starts with it
        have hfirst : ['\r', '\n'] <+: ch :: text ↔ ['\r', '\n'] = ch :: l := by
          rw [List.cons_prefix_cons, List.cons.injEq]
          refine and_congr_right fun _ => ?_
          cases text with
          | nil => simp [Outline.inclusive] at hls
          | cons c text =>
            by_cases hc : c = '\n'
            · subst hc
              obtain ⟨rfl, -⟩ := List.cons.inj hls
              simp
            · rw [Outline.inclusive_cons hc] at hls
              obtain ⟨rfl, -⟩ := List.cons.inj hls
              simp [List.cons_prefix_cons, Ne.symm hc]
        simp only [List.headD_cons, List.tail_cons, List.exists_mem_cons_iff, List.suffix_cons_iff,
          hfirst, or_assoc]

theorem eolOf_crlf {text : List Char} :
    eolOf text = ['\r', '\n'] ↔ ['\r', '\n'] <:+: text := by
  by_cases hc : ['\r', '\n'] <:+: text
  · exact iff_of_true (if_pos hc) hc
  · have heol : eolOf text = ['\n'] := if_neg hc
    exact iff_of_false (by simp [heol]) hc

theorem eolOf_newline {text : List Char} :
    eolOf text = ['\n'] ↔ ¬ ['\r', '\n'] <:+: text := by
  rw [← eolOf_crlf]
  rcases eolOf_eol text with heol | heol <;> simp [heol]

/-! ## Documents -/

theorem parseDocument_eq_ok {text : List Char} {document : Document} :
    parseDocument text = .ok document ↔ ∃ place tasks, Located text place ∧
      milestoneTasks (milestoneBody place.rest) = .ok tasks ∧
      document = ⟨place.front.flatten, place.between.flatten, place.tail.flatten,
        place.id, place.title, tasks⟩ := by
  simp only [parseDocument, bind_eq_ok, locate_iff]
  constructor
  · rintro ⟨place, hplace, tasks, htasks, h⟩
    exact ⟨place, tasks, hplace, htasks, (Except.ok.inj h).symm⟩
  · rintro ⟨place, tasks, hplace, htasks, rfl⟩
    exact ⟨place, hplace, tasks, htasks, rfl⟩

theorem locate_unique {text : List Char} {place place' : Place} (h : Located text place)
    (h' : Located text place') : place = place' :=
  Except.ok.inj ((locate_iff.2 h).symm.trans (locate_iff.2 h'))

/-- A document with its place in the text. -/
structure Parses (text : List Char) (place : Place) (document : Document) : Prop where
  located : Located text place
  tasks : milestoneTasks (milestoneBody place.rest) = .ok document.current.tasks
  before : document.before = place.front.flatten
  body : document.currentStateBody = place.between.flatten
  after : document.after = place.tail.flatten
  id : document.current.id = place.id
  title : document.current.title = place.title

theorem parses_iff {text : List Char} {place : Place} {document : Document} :
    Parses text place document ↔ locate text = .ok place ∧ parseDocument text = .ok document := by
  rw [locate_iff, parseDocument_eq_ok]
  constructor
  · rintro ⟨hplace, htasks, h1, h2, h3, h4, h5⟩
    refine ⟨hplace, place, document.current.tasks, hplace, htasks, ?_⟩
    rw [← h1, ← h2, ← h3, ← h4, ← h5]
  · rintro ⟨hplace, place', tasks, hplace', htasks, rfl⟩
    obtain rfl := locate_unique hplace hplace'
    exact ⟨hplace, htasks, rfl, rfl, rfl, rfl, rfl⟩

theorem parses_of_ok {text : List Char} {document : Document}
    (h : parseDocument text = .ok document) : ∃ place, Parses text place document := by
  obtain ⟨place, -, hplace, -⟩ := parseDocument_eq_ok.1 h
  exact ⟨place, parses_iff.2 ⟨locate_iff.2 hplace, h⟩⟩

namespace Parses

variable {text : List Char} {place : Place} {document : Document}

theorem breakless (h : Parses text place document) : Breakless document.current := by
  rw [Breakless, h.id, h.title]
  exact h.located.oneLine

theorem updated_eq (h : Parses text place document) :
    updatedText text document = signalled place document.current (eolOf text) := by
  rw [updatedText, signalled, h.before, h.after]

/-- **What is written is parsed again**, with the signal as its body and the same milestone. -/
theorem update (h : Parses text place document) :
    Parses (updatedText text document)
      (place.withBody (Outline.inclusive (completionSummary document.current (eolOf text))))
      (document.withBody (completionSummary document.current (eolOf text))) := by
  have hlocated := located_update h.located h.breakless (eolOf_eol text)
  rw [h.updated_eq]
  have hflatten := Outline.inclusive_flatten (completionSummary document.current (eolOf text))
  generalize completionSummary document.current (eolOf text) = signal at hlocated hflatten ⊢
  exact ⟨hlocated, h.tasks, h.before, hflatten.symm, h.after, h.id, h.title⟩

theorem updated_lines (h : Parses text place document) :
    lines (updatedText text document) = place.front ++
      Outline.inclusive (completionSummary document.current (eolOf text)) ++ place.tail := by
  have hlines := h.update.located.lines_eq
  rwa [Place.withBody_front, Place.withBody_between, Place.withBody_tail] at hlines

end Parses

/-! ## Runs -/

section Runs

variable {alphanumeric : Char → Bool}

section Steps

variable {β γ : Type} {m : Machine RoadmapFiles Unit}

theorem run_onDisk {f : RoadmapFiles → RoadmapProg β} :
    (onDisk >>= f).run m = (f m.disk).run m := rfl

theorem run_attempt_ok {a : β} {f : β → RoadmapProg γ} :
    (attempt (.ok a) >>= f).run m = (f a).run m := rfl

theorem run_attempt_error {e : RoadmapError} {f : β → RoadmapProg γ} :
    (attempt (.error e) >>= f).run m = (.error (.failed e), m) := rfl

theorem run_then_pure {x : RoadmapProg Unit} {b : β} :
    (x >>= fun _ => pure b : RoadmapProg β).run m =
      match x.run m with
      | (.ok (), m') => (.ok b, m')
      | (.error e, m') => (.error e, m') := by
  simp only [bind, ExceptT.run, ExceptT.bind, ExceptT.mk, StateT.bind, ExceptT.bindCont]
  rcases x m with ⟨r | r, m'⟩ <;> rfl

end Steps

/-- How a run ends, by its decision. -/
theorem run_write (m : Machine RoadmapFiles Unit) :
    (writeCompletionProgress alphanumeric).run m =
      match completionDecision alphanumeric m.disk with
      | .error e => (.error (.failed e), m)
      | .ok (answer, update) =>
        match (replaceRoadmap m.disk update).run m with
        | (.ok (), m') => (.ok answer, m')
        | (.error e, m') => (.error e, m') := by
  rw [writeCompletionProgress, run_onDisk]
  generalize completionDecision alphanumeric m.disk = decision
  cases decision with
  | error e => rw [run_attempt_error]
  | ok decision =>
    obtain ⟨answer, update⟩ := decision
    rw [run_attempt_ok, run_then_pure]

theorem run_atomically {f : RoadmapFiles → RoadmapFiles} {m m' : Machine RoadmapFiles Unit}
    (h : (atomically f : RoadmapProg Unit).run m = (.ok (), m')) : m'.disk = f m.disk := by
  obtain ⟨disk, memory, faults, trail⟩ := m
  match faults, h with
  | [], h => exact congrArg (fun out => out.2.disk) h.symm
  | none :: faults, h => exact congrArg (fun out => out.2.disk) h.symm
  | some .unconfirmed :: faults, h => cases congrArg Prod.fst h
  | some .refused :: faults, h => cases congrArg Prod.fst h
  | some (.torn n) :: faults, h => cases congrArg Prod.fst h

/-- A decision to write nothing is the answer. -/
theorem run_idle {m : Machine RoadmapFiles Unit} {answer : ProgressWrite}
    (h : completionDecision alphanumeric m.disk = .ok (answer, none)) :
    (writeCompletionProgress alphanumeric).run m = (.ok answer, m) := by
  rw [run_write, h]
  rfl

theorem run_refused {m : Machine RoadmapFiles Unit} {error : RoadmapError}
    (h : completionDecision alphanumeric m.disk = .error error) :
    (writeCompletionProgress alphanumeric).run m = (.error (.failed error), m) := by
  rw [run_write, h]

/-- An answer is the decision, carried out. -/
theorem run_answered {m m' : Machine RoadmapFiles Unit} {answer : ProgressWrite}
    (h : (writeCompletionProgress alphanumeric).run m = (.ok answer, m')) :
    ∃ update, completionDecision alphanumeric m.disk = .ok (answer, update) ∧
      ∀ text, update = some text →
        textBytes text ≤ maxControlBytes ∧ m'.disk = m.disk.setRoadmap text := by
  rw [run_write] at h
  split at h
  · cases congrArg Prod.fst h
  · rename_i answer' update hdecision
    split at h
    · rename_i m'' hreplace
      obtain ⟨hanswer, rfl⟩ := Prod.mk.inj h
      obtain rfl := Except.ok.inj hanswer
      refine ⟨update, hdecision, fun text hupdate => ?_⟩
      rw [hupdate, replaceRoadmap] at hreplace
      split at hreplace
      · rename_i hroom
        exact ⟨hroom, run_atomically hreplace⟩
      · cases congrArg Prod.fst hreplace
    · cases congrArg Prod.fst h

/-- Without faults, what fits is written. -/
theorem run_unhindered {s : RoadmapFiles} {answer : ProgressWrite} {text : List Char}
    (h : completionDecision alphanumeric s = .ok (answer, some text))
    (hroom : textBytes text ≤ maxControlBytes) :
    (writeCompletionProgress alphanumeric).run ⟨s, (), [], []⟩ =
      (.ok answer, ⟨s.setRoadmap text, (), [], [s.setRoadmap text]⟩) := by
  rw [run_write, h]
  simp only [replaceRoadmap, if_pos hroom]
  rfl

end Runs

/-! ## When it writes -/

section Decision

variable (alphanumeric : Char → Bool)

/-- The current milestone has tasks, and all of them are archived. -/
structure Ready (s : RoadmapFiles) (text : List Char) (document : Document) : Prop where
  roadmap : s.roadmap = some text
  fits : textBytes text ≤ maxControlBytes
  parsed : parseDocument text = .ok document
  tasks : document.current.tasks ≠ ∅
  archived : ∃ completed, completedIds alphanumeric s = .ok completed ∧
    document.current.tasks ⊆ completed

/-- The signal is due: it does not stand there yet, and the text with it fits. -/
structure Due (s : RoadmapFiles) (text : List Char) (document : Document) : Prop
    extends Ready alphanumeric s text document where
  stale : document.currentStateBody ≠ completionSummary document.current (eolOf text)
  room : textBytes (updatedText text document) ≤ maxControlBytes

variable {alphanumeric} {s : RoadmapFiles} {text : List Char} {document : Document}

theorem bind_ok {β γ : Type} {b : β} {f : β → Parsed γ} : (Except.ok b >>= f) = f b := rfl

theorem progressFor_complete {completed : Finset String} {milestone : CurrentMilestone} :
    progressFor document completed = .complete milestone ↔
      milestone = document.current ∧ document.current.tasks ≠ ∅ ∧
        document.current.tasks ⊆ completed := by
  have hfilter : document.current.tasks.filter (· ∉ completed) = ∅ ↔
      document.current.tasks ⊆ completed := by
    rw [Finset.filter_eq_empty_iff]
    simp only [not_not]
    exact Iff.rfl
  unfold progressFor
  by_cases htasks : document.current.tasks = ∅
  · simp [htasks]
  · simp only [if_neg htasks, hfilter]
    split <;> rename_i hsub
    · simp [htasks, hsub, eq_comm]
    · simp [hsub]

theorem loadDocument_eq {s : RoadmapFiles} (hroadmap : s.roadmap = some text)
    (hfits : textBytes text ≤ maxControlBytes) :
    loadDocument s = (parseDocument text >>= fun document => pure (some (text, document))) := by
  rw [loadDocument, hroadmap, readOptional, if_pos hfits]
  rfl

theorem loadDocument_some (h : loadDocument s = .ok (some (text, document))) :
    s.roadmap = some text ∧ textBytes text ≤ maxControlBytes ∧
      parseDocument text = .ok document := by
  obtain ⟨file, hfile, h⟩ := bind_eq_ok.1 h
  cases hroadmap : s.roadmap with
  | none =>
    rw [hroadmap] at hfile
    obtain rfl := Except.ok.inj hfile
    cases Except.ok.inj h
  | some content =>
    rw [hroadmap, readOptional] at hfile
    split at hfile
    · rename_i hfits
      obtain rfl := Except.ok.inj hfile
      obtain ⟨document', hparse, h⟩ := bind_eq_ok.1 h
      obtain ⟨rfl, rfl⟩ := Prod.mk.inj (Option.some.inj (Except.ok.inj h))
      exact ⟨rfl, hfits, hparse⟩
    · cases hfile

theorem decision_ready (h : Ready alphanumeric s text document) :
    completionDecision alphanumeric s =
      if document.currentStateBody = completionSummary document.current (eolOf text) then
        .ok (.unchanged, none)
      else .ok (.updated, some (updatedText text document)) := by
  obtain ⟨completed, hcompleted, hsub⟩ := h.archived
  have hload : loadDocument s = .ok (some (text, document)) := by
    rw [loadDocument_eq h.roadmap h.fits, h.parsed]
    rfl
  have hprogress := progressFor_complete.2 ⟨rfl, h.tasks, hsub⟩
  rw [completionDecision, hload, bind_ok]
  simp only []
  rw [hcompleted, bind_ok, hprogress]
  rfl

theorem ready_of_decision {answer : ProgressWrite} {update : Option (List Char)}
    (h : completionDecision alphanumeric s = .ok (answer, update))
    (hanswer : answer = .updated ∨ answer = .unchanged) :
    ∃ text document, Ready alphanumeric s text document := by
  obtain ⟨loaded, hload, h⟩ := bind_eq_ok.1 h
  cases loaded with
  | none =>
    obtain ⟨rfl, -⟩ := Prod.mk.inj (Except.ok.inj h)
    simp at hanswer
  | some loaded =>
    obtain ⟨text, document⟩ := loaded
    obtain ⟨completed, hcompleted, h⟩ := bind_eq_ok.1 h
    obtain ⟨hroadmap, hfits, hparsed⟩ := loadDocument_some hload
    cases hprogress : progressFor document completed with
    | complete milestone =>
      obtain ⟨-, htasks, hsub⟩ := progressFor_complete.1 hprogress
      exact ⟨text, document, hroadmap, hfits, hparsed, htasks, completed, hcompleted, hsub⟩
    | noTasks milestone =>
      rw [hprogress] at h
      obtain ⟨rfl, -⟩ := Prod.mk.inj (Except.ok.inj h)
      simp at hanswer
    | incomplete milestone remaining =>
      rw [hprogress] at h
      obtain ⟨rfl, -⟩ := Prod.mk.inj (Except.ok.inj h)
      simp at hanswer

theorem Due.decision (h : Due alphanumeric s text document) :
    completionDecision alphanumeric s = .ok (.updated, some (updatedText text document)) := by
  rw [decision_ready h.toReady, if_neg h.stale]

/-- What an update wrote was due. -/
theorem due_of_run {m m' : Machine RoadmapFiles Unit}
    (h : (writeCompletionProgress alphanumeric).run m = (.ok .updated, m')) :
    ∃ text document, Due alphanumeric m.disk text document ∧
      m'.disk = m.disk.setRoadmap (updatedText text document) := by
  obtain ⟨update, hdecision, hwritten⟩ := run_answered h
  obtain ⟨text, document, hready⟩ := ready_of_decision hdecision (.inl rfl)
  rw [decision_ready hready] at hdecision
  split at hdecision
  · cases hdecision
  · rename_i hstale
    obtain ⟨-, rfl⟩ := Prod.mk.inj (Except.ok.inj hdecision)
    obtain ⟨hroom, hdisk⟩ := hwritten _ rfl
    exact ⟨text, document, ⟨hready, hstale, hroom⟩, hdisk⟩

/-- **Behind an update** the writer's decision turns on the line ending alone. -/
theorem Due.again (h : Due alphanumeric s text document) :
    completionDecision alphanumeric (s.setRoadmap (updatedText text document)) =
      if eolOf (updatedText text document) = eolOf text then .ok (.unchanged, none)
      else .ok (.updated, some (updatedText (updatedText text document)
        (document.withBody (completionSummary document.current (eolOf text))))) := by
  obtain ⟨place, hplace⟩ := parses_of_ok h.parsed
  have hparsed := (parses_iff.1 hplace.update).2
  have hready : Ready alphanumeric (s.setRoadmap (updatedText text document))
      (updatedText text document)
      (document.withBody (completionSummary document.current (eolOf text))) :=
    ⟨rfl, h.room, hparsed, h.tasks, h.archived⟩
  rw [decision_ready hready, Document.withBody_body, Document.withBody_current]
  by_cases heol : eolOf (updatedText text document) = eolOf text
  · rw [heol, if_pos rfl, if_pos rfl]
  · have hne : completionSummary document.current (eolOf text) ≠
        completionSummary document.current (eolOf (updatedText text document)) := by
      intro heq
      have hlen := congrArg List.length heq
      rw [summary_eq, summary_eq] at hlen
      simp only [List.length_append] at hlen
      rcases eolOf_eol text with h1 | h1 <;>
        rcases eolOf_eol (updatedText text document) with h2 | h2
      · exact heol (h2.trans h1.symm)
      · simp only [h1, h2, List.length_cons, List.length_nil] at hlen
        omega
      · simp only [h1, h2, List.length_cons, List.length_nil] at hlen
        omega
      · exact heol (h2.trans h1.symm)
    rw [if_neg hne, if_neg heol]

end Decision

/-! ## Line endings of the written text -/

theorem crlf_suffix {l : List Char} : ['\r', '\n'] <:+ l ++ ['\n'] ↔ l.getLast? = some '\r' := by
  rw [← List.reverse_prefix, List.reverse_append, List.getLast?_eq_head?_reverse]
  have hrev : ['\r', '\n'].reverse = ['\n', '\r'] := rfl
  rw [hrev, List.reverse_singleton, List.singleton_append, List.cons_prefix_cons]
  cases l.reverse with
  | nil => simp
  | cons ch l => simp [List.cons_prefix_cons, eq_comm]

theorem announced_last (milestone : CurrentMilestone) :
    (announced milestone).getLast? = some '\r' ↔ milestone.title.getLast? = some '\r' := by
  delta announced
  rw [List.getLast?_append]
  cases htitle : milestone.title.getLast? with
  | none =>
    have hdash : ∀ l : List Char, (l ++ " — ".toList).getLast? = some ' ' := fun l => by
      rw [List.getLast?_append]
      rfl
    rw [Option.none_or, hdash]
    decide
  | some ch => rfl

theorem awaited_last (milestone : CurrentMilestone) :
    (awaited milestone).getLast? = some '.' := by
  delta awaited
  have hlast : (" все поставленные задачи находятся в Tasks_Done.md; " ++
      "критерий Достижение ждёт подтверждения оператором.").toList.getLast? = some '.' := by
    decide +kernel
  rw [List.getLast?_append, hlast]
  rfl

/-- A title that ends with a carriage return brings in a line ending of the other kind. -/
theorem Parses.eolOf_update {text : List Char} {place : Place} {document : Document}
    (h : Parses text place document) :
    eolOf (updatedText text document) = eolOf text ↔
      (document.current.title.getLast? = some '\r' → ['\r', '\n'] <:+: text) := by
  have hlines := h.update.located.inclusive
  rw [Place.withBody_front, Place.withBody_between, Place.withBody_tail,
    summary_lines h.breakless (eolOf_eol text)] at hlines
  rw [← announced_last]
  by_cases hcrlf : ['\r', '\n'] <:+: text
  · refine iff_of_true ?_ fun _ => hcrlf
    have heol : eolOf text = ['\r', '\n'] := eolOf_crlf.2 hcrlf
    rw [heol] at hlines
    rw [heol, eolOf_crlf, crlf_iff]
    exact ⟨['\r', '\n'], by simp [hlines], List.suffix_refl _⟩
  · have heol : eolOf text = ['\n'] := eolOf_newline.2 hcrlf
    rw [heol] at hlines
    rw [heol, eolOf_newline, crlf_iff, hlines]
    have hold : ∀ l ∈ place.front ++ place.between ++ place.tail, ¬ ['\r', '\n'] <:+ l := by
      intro l hl hend
      exact hcrlf (crlf_iff.2 ⟨l, by rwa [h.located.inclusive], hend⟩)
    have hempty : ¬ ['\r', '\n'] <:+ ['\n'] := by decide
    have hawaited : ¬ ['\r', '\n'] <:+ awaited document.current ++ ['\n'] := by
      rw [crlf_suffix, awaited_last]
      decide
    constructor
    · intro hnone hlast
      exact absurd ⟨_, by simp, crlf_suffix.2 hlast⟩ hnone
    · rintro hlast ⟨l, hl, hend⟩
      simp only [List.mem_append, List.mem_cons, List.not_mem_nil, or_false] at hl
      rcases hl with (hl | rfl | rfl | rfl | rfl) | hl
      · exact hold l (by simp [hl]) hend
      · exact hcrlf (hlast (crlf_suffix.1 hend))
      · exact hempty hend
      · exact hawaited hend
      · exact hempty hend
      · exact hold l (by simp [hl]) hend

/-! ## The section of the current state -/

/-- A heading of the first or the second level closes the section. -/
def closing (l : List Char) : Bool := heading 1 l || heading 2 l

/-- What follows the section of the current state. -/
def Place.behindSection (place : Place) : List (List Char) :=
  (place.between ++ place.tail).dropWhile fun l => !closing l

/-- The text has the lines of the place, but for the body of the current state. -/
def OnlySection (place : Place) (text : List Char) : Prop :=
  ∃ body, lines text = place.front ++ body ++ place.behindSection ∧ ∀ l ∈ body, closing l = false

theorem closing_hash {l : List Char} (h : closing l = true) : l.head? = some '#' := by
  rcases Bool.or_eq_true _ _ ▸ h with h | h
  · exact heading_hash (by decide) h
  · exact heading_hash (by decide) h

theorem closing_milestones {l : List Char} (h : lineText l = milestonesHeading) :
    closing l = true := by
  have hstart : (List.replicate 2 '#' ++ [' ']).isPrefixOf milestonesHeading = true := by
    decide +kernel
  have hheading : heading 2 l = true := by
    rw [heading, h]
    exact hstart
  simp [closing, hheading]

/-- **The update keeps to the section** exactly if no other section stands in front of «Вехи». -/
theorem Parses.onlySection_iff {text : List Char} {place : Place} {document : Document}
    (h : Parses text place document) :
    OnlySection place (updatedText text document) ↔ ∀ l ∈ place.between, closing l = false := by
  have hlines := h.updated_lines
  have hhash := summary_hash h.breakless (eolOf_eol text)
  generalize Outline.inclusive (completionSummary document.current (eolOf text)) = signal
    at hlines hhash
  obtain ⟨m, d, htail, hm, -⟩ := h.located.tail_eq
  have hquiet : ∀ l ∈ signal, closing l = false := by
    intro l hl
    cases hc : closing l with
    | false => rfl
    | true => exact absurd (closing_hash hc) (hhash l hl)
  rw [OnlySection, hlines, Place.behindSection]
  constructor
  · rintro ⟨body, heq, -⟩ l hl
    -- a heading between the two would be a line of the signal
    by_contra hclosing
    rw [List.append_assoc, List.append_assoc, List.append_cancel_left_eq,
      List.dropWhile_append] at heq
    cases hdrop : place.between.dropWhile fun l => !closing l with
    | nil =>
      rw [List.dropWhile_eq_nil_iff] at hdrop
      exact hclosing (by simpa using hdrop l hl)
    | cons x behind =>
      have hx := List.head?_dropWhile_not (fun l => !closing l) place.between
      rw [hdrop] at hx heq
      simp only [List.head?_cons, Bool.not_eq_false'] at hx
      rw [if_neg (by simp), ← List.append_assoc, List.append_cancel_right_eq] at heq
      rw [hquiet x (by simp [heq])] at hx
      cases hx
  · intro hall
    refine ⟨signal, ?_, hquiet⟩
    have hdrop : place.between.dropWhile (fun l => !closing l) = [] := by
      rw [List.dropWhile_eq_nil_iff]
      intro l hl
      simp [hall l hl]
    rw [List.dropWhile_append, hdrop, List.isEmpty_nil, if_pos rfl, htail, List.dropWhile_cons,
      if_neg (by simp [closing_milestones hm])]

/-! ## The tasks of the milestone -/

/-- The lines between the header of the milestone and the next heading of level two or three. -/
def ownLines (rest : List (List Char)) : List (List Char) :=
  rest.takeWhile fun l => !(heading 2 l || heading 3 l)

/-- What the scan for tasks reads beyond them: a section behind the milestones, up to the first
header in it that looks like a milestone's. -/
def overrun (rest : List (List Char)) : List (List Char) :=
  (milestoneBody rest).dropWhile fun l => !heading 2 l

theorem takeWhile_agree {p q : List Char → Bool} {ls : List (List Char)}
    (h : ∀ l ∈ ls, p l = q l) : ls.takeWhile p = ls.takeWhile q := by
  induction ls with
  | nil => rfl
  | cons l ls ih =>
    rw [List.takeWhile_cons, List.takeWhile_cons, h l List.mem_cons_self,
      ih fun x hx => h x (List.mem_cons_of_mem _ hx)]

theorem milestoneBody_split (rest : List (List Char)) :
    milestoneBody rest = ownLines rest ++ overrun rest := by
  have hown : ownLines rest = (milestoneBody rest).takeWhile fun l => !heading 2 l := by
    unfold ownLines milestoneBody
    split <;> rename_i hany
    · rw [List.takeWhile_takeWhile]
      congr 1
      funext l
      cases heading 2 l <;> cases heading 3 l <;> rfl
    · rw [List.takeWhile_idem]
      rw [Bool.not_eq_true, List.any_eq_false] at hany
      refine takeWhile_agree fun l hl => ?_
      rw [Bool.eq_false_iff.2 (hany l hl), Bool.or_false]
  rw [hown]
  exact List.takeWhile_append_dropWhile.symm

theorem milestoneTasks_one {ls : List (List Char)} {tasks : Finset String}
    (h : milestoneTasks ls = .ok tasks) : ∃ raw, ls.filterMap taskList = [raw] := by
  unfold milestoneTasks at h
  split at h
  · rename_i raw heq
    exact ⟨raw, heq⟩
  · cases h

/-- **The tasks are the milestone's own** exactly if no task line is in reach beyond its lines. -/
theorem ownTasks_iff {rest : List (List Char)} {tasks : Finset String}
    (h : milestoneTasks (milestoneBody rest) = .ok tasks) :
    milestoneTasks (ownLines rest) = .ok tasks ↔ ∀ l ∈ overrun rest, taskList l = none := by
  rw [← List.filterMap_eq_nil_iff]
  constructor
  · intro hown
    obtain ⟨raw, hraw⟩ := milestoneTasks_one hown
    obtain ⟨raw', hraw'⟩ := milestoneTasks_one h
    rw [milestoneBody_split, List.filterMap_append, hraw, List.singleton_append,
      List.cons.injEq] at hraw'
    exact hraw'.2
  · intro hnone
    rw [milestoneBody_split] at h
    rw [← h, milestoneTasks, milestoneTasks, List.filterMap_append, hnone, List.append_nil]

/-! ## The writer -/

section Writer

variable (alphanumeric : Char → Bool) (s : RoadmapFiles)

/-- The writer owns one section of the roadmap. -/
structure OwnsSection : Prop where
  /-- an update changes the body of the section alone, keeps the milestone, and is not repeated -/
  updates : ∀ m m', m.disk = s →
    (writeCompletionProgress alphanumeric).run m = (.ok .updated, m') →
    ∃ text text' place document document', s.roadmap = some text ∧ locate text = .ok place ∧
      parseDocument text = .ok document ∧ m'.disk = s.setRoadmap text' ∧ OnlySection place text' ∧
      parseDocument text' = .ok document' ∧ document'.current = document.current ∧
      ∀ n, n.disk = m'.disk → (writeCompletionProgress alphanumeric).run n = (.ok .unchanged, n)
  /-- it answers so only for a milestone with tasks, all of them archived -/
  ready : ∀ m m' answer, m.disk = s →
    (writeCompletionProgress alphanumeric).run m = (.ok answer, m') →
    answer = .updated ∨ answer = .unchanged → ∃ text document, Ready alphanumeric s text document
  /-- the tasks are read from the milestone's own lines -/
  tasks : ∀ text place document, s.roadmap = some text → locate text = .ok place →
    parseDocument text = .ok document →
    milestoneTasks (ownLines place.rest) = .ok document.current.tasks
  /-- what is malformed is refused without a write -/
  refuses : ∀ text error m, s.roadmap = some text → parseDocument text = .error error →
    m.disk = s → ∃ e, (writeCompletionProgress alphanumeric).run m = (.error (.failed e), m)

/-- A roadmap the writer handles as it should. -/
structure Orderly : Prop where
  /-- when the signal is due, no other section stands between the current state and «Вехи» -/
  alone : ∀ text place document, Due alphanumeric s text document → locate text = .ok place →
    ∀ l ∈ place.between, closing l = false
  /-- nor does the title end with a carriage return in a text without one in front of a line feed -/
  carriage : ∀ text document, Due alphanumeric s text document →
    document.current.title.getLast? = some '\r' → ['\r', '\n'] <:+: text
  /-- no task line stands in a section behind «Вехи» and in front of a third-level heading -/
  reach : ∀ text place document, s.roadmap = some text → locate text = .ok place →
    parseDocument text = .ok document → ∀ l ∈ overrun place.rest, taskList l = none

variable {alphanumeric s}

/-- What is due is written, if nothing fails. -/
theorem Due.run {text : List Char} {document : Document} (h : Due alphanumeric s text document) :
    (writeCompletionProgress alphanumeric).run ⟨s, (), [], []⟩ =
      (.ok .updated, ⟨s.setRoadmap (updatedText text document), (), [],
        [s.setRoadmap (updatedText text document)]⟩) :=
  run_unhindered h.decision h.room

theorem OwnsSection.onlySection (h : OwnsSection alphanumeric s) {text : List Char} {place : Place}
    {document : Document} (hdue : Due alphanumeric s text document)
    (hplace : Parses text place document) : ∀ l ∈ place.between, closing l = false := by
  obtain ⟨text₀, text', place₀, document₀, document', hroadmap, hplace₀, -, hdisk, honly, -⟩ :=
    h.updates _ _ rfl hdue.run
  obtain rfl : text = text₀ := Option.some.inj (hdue.roadmap.symm.trans hroadmap)
  obtain rfl : place = place₀ :=
    Except.ok.inj ((parses_iff.1 hplace).1.symm.trans hplace₀)
  obtain rfl : updatedText text document = text' :=
    Option.some.inj (congrArg RoadmapFiles.roadmap hdisk)
  exact hplace.onlySection_iff.1 honly

theorem OwnsSection.carriage (h : OwnsSection alphanumeric s) {text : List Char} {place : Place}
    {document : Document} (hdue : Due alphanumeric s text document)
    (hplace : Parses text place document) :
    document.current.title.getLast? = some '\r' → ['\r', '\n'] <:+: text := by
  rw [← hplace.eolOf_update]
  obtain ⟨-, -, -, -, -, -, -, -, -, -, -, -, hagain⟩ := h.updates _ _ rfl hdue.run
  obtain ⟨update, hdecision, -⟩ :=
    run_answered (hagain ⟨s.setRoadmap (updatedText text document), (), [], []⟩ rfl)
  simp only at hdecision
  rw [hdue.again] at hdecision
  split at hdecision
  · assumption
  · cases hdecision

theorem Orderly.updates (h : Orderly alphanumeric s) {m m' : Machine RoadmapFiles Unit}
    (hm : m.disk = s) (hrun : (writeCompletionProgress alphanumeric).run m = (.ok .updated, m')) :
    ∃ text text' place document document', s.roadmap = some text ∧ locate text = .ok place ∧
      parseDocument text = .ok document ∧ m'.disk = s.setRoadmap text' ∧ OnlySection place text' ∧
      parseDocument text' = .ok document' ∧ document'.current = document.current ∧
      ∀ n, n.disk = m'.disk →
        (writeCompletionProgress alphanumeric).run n = (.ok .unchanged, n) := by
  obtain ⟨text, document, hdue, hdisk⟩ := due_of_run hrun
  rw [hm] at hdue hdisk
  obtain ⟨place, hplace⟩ := parses_of_ok hdue.parsed
  have hlocate := (parses_iff.1 hplace).1
  refine ⟨text, updatedText text document, place, document,
    document.withBody (completionSummary document.current (eolOf text)), hdue.roadmap, hlocate,
    hdue.parsed, hdisk, hplace.onlySection_iff.2 (h.alone _ _ _ hdue hlocate),
    (parses_iff.1 hplace.update).2, Document.withBody_current _ _, fun n hn => ?_⟩
  refine run_idle ?_
  rw [hn, hdisk, hdue.again, if_pos (hplace.eolOf_update.2 (h.carriage _ _ hdue))]

theorem run_malformed {text : List Char} {error : RoadmapError} {m : Machine RoadmapFiles Unit}
    (hroadmap : m.disk.roadmap = some text) (herror : parseDocument text = .error error) :
    ∃ e, (writeCompletionProgress alphanumeric).run m = (.error (.failed e), m) := by
  have hload : ∃ e, loadDocument m.disk = .error e := by
    by_cases hfits : textBytes text ≤ maxControlBytes
    · refine ⟨error, ?_⟩
      rw [loadDocument_eq hroadmap hfits, herror]
      rfl
    · rw [loadDocument, hroadmap, readOptional, if_neg hfits]
      exact ⟨_, rfl⟩
  obtain ⟨e, hload⟩ := hload
  refine ⟨e, run_refused ?_⟩
  rw [completionDecision, hload]
  rfl

variable (alphanumeric s)

/-- **The roadmap writer owns exactly one section** of the roadmaps that are in order. -/
theorem roadmap_writer : OwnsSection alphanumeric s ↔ Orderly alphanumeric s := by
  constructor
  · intro h
    refine ⟨fun text place document hdue hlocate => ?_, fun text document hdue => ?_,
      fun text place document hroadmap hlocate hparse => ?_⟩
    · exact h.onlySection hdue (parses_iff.2 ⟨hlocate, hdue.parsed⟩)
    · obtain ⟨place, hplace⟩ := parses_of_ok hdue.parsed
      exact h.carriage hdue hplace
    · have hplace := parses_iff.2 ⟨hlocate, hparse⟩
      exact (ownTasks_iff hplace.tasks).1 (h.tasks _ _ _ hroadmap hlocate hparse)
  · intro h
    refine ⟨fun m m' hm hrun => h.updates hm hrun, fun m m' answer hm hrun hanswer => ?_,
      fun text place document hroadmap hlocate hparse => ?_,
      fun text error m hroadmap herror hm => ?_⟩
    · obtain ⟨update, hdecision, -⟩ := run_answered hrun
      rw [hm] at hdecision
      exact ready_of_decision hdecision hanswer
    · have hplace := parses_iff.2 ⟨hlocate, hparse⟩
      exact (ownTasks_iff hplace.tasks).2 (h.reach _ _ _ hroadmap hlocate hparse)
    · exact run_malformed (by rw [hm]; exact hroadmap) herror

end Writer

namespace Sample

/-- An operator's own section between the two headings. -/
def notes : List Char :=
  ("## Текущее состояние\n## Заметки\nважное\n## Вехи\n" ++
    "### [M1] API — статус: текущая\nЗадачи: T-10\n").toList

def files : RoadmapFiles := ⟨".work", some notes, some "## [T-10] done\n".toList⟩

def document : Document where
  before := "## Текущее состояние\n".toList
  currentStateBody := "## Заметки\nважное\n".toList
  after := "## Вехи\n### [M1] API — статус: текущая\nЗадачи: T-10\n".toList
  current := ⟨"M1".toList, "API".toList, {"T-10"}⟩

theorem parsed : parseDocument notes = .ok document := by decide +kernel

theorem crowded : (locate notes).map (fun place => place.between.any closing) = .ok true := by
  decide +kernel

theorem due : Due Char.isAlphanum files notes document where
  roadmap := rfl
  fits := by decide +kernel
  parsed := parsed
  tasks := by decide +kernel
  archived := ⟨{"T-10"}, by decide +kernel, by decide +kernel⟩
  stale := by decide +kernel
  room := by decide +kernel

end Sample

/-- An operator's section between the two headings is overwritten with the signal. -/
theorem roadmap_writer_overwrites : ¬ OwnsSection Char.isAlphanum Sample.files := by
  intro h
  obtain ⟨place, hplace⟩ := parses_of_ok Sample.parsed
  have hquiet := h.onlySection Sample.due hplace
  have hcrowded := Sample.crowded
  rw [(parses_iff.1 hplace).1] at hcrowded
  obtain ⟨l, hl, hclosing⟩ := List.any_eq_true.1 (Except.ok.inj hcrowded)
  rw [hquiet l hl] at hclosing
  cases hclosing

end Orchestrail.Roadmap
