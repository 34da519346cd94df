import Orchestrail.Proof.Globs
import Orchestrail.Proof.Policy
import Orchestrail.Spec.Publication

/-!
# The restrictions of a policy text

`policy.rs` reads a text line by line; what it takes from it are the bullets of its active blocks.
-/

namespace Orchestrail

open Text Outcome

/-! ## Bullets -/

/-- An active bullet and the section it stands in. -/
abbrev Bullet := PolicySection × List Char

/-- A bullet that stands for nothing. -/
def isPlaceholder (value : List Char) : Bool :=
  value.isEmpty || beginsWith "(пусто" value || hasText "по умолчанию" value

/-- What a line makes of the section and of its activity. -/
def nextSection (state : PolicySection × Bool) (line : List Char) : PolicySection × Bool :=
  match stripFront "## ".toList (trim line) with
  | some title => (.fromHeading title, false)
  | none =>
    if beginsWith "**Активные ограничения**" (trim line) then (state.1, true)
    else if beginsWith "**Пример**" (trim line) then (state.1, false)
    else state

/-- The bullet of a line. -/
def bulletOf (state : PolicySection × Bool) (line : List Char) : Option Bullet :=
  match stripFront "## ".toList (trim line) with
  | some _ => none
  | none =>
    if beginsWith "**Активные ограничения**" (trim line) then none
    else if beginsWith "**Пример**" (trim line) then none
    else if !state.2 then none
    else match (stripFront "- ".toList (trim line)).map trim with
      | none => none
      | some value => if isPlaceholder value then none else some (state.1, value)

def bulletsFrom : PolicySection × Bool → List (List Char) → List Bullet
  | _, [] => []
  | state, line :: lines =>
    (bulletOf state line).toList ++ bulletsFrom (nextSection state line) lines

/-- The active bullets of a text. -/
def bullets (text : String) : List Bullet :=
  bulletsFrom (.none, false) (pieces (· = '\n') text.toList)

section Parse

variable {parseTypedArgv : String → Except String (List String)}

theorem readPolicyLine_eq (reader : PolicyReader) (line : List Char) :
    readPolicyLine parseTypedArgv reader line =
      ((bulletOf (reader.section_, reader.active) line).elim (.ok reader.policy) fun b =>
        readBullet parseTypedArgv b.1 reader.policy b.2).map fun policy =>
          ⟨(nextSection (reader.section_, reader.active) line).1,
            (nextSection (reader.section_, reader.active) line).2, policy⟩ := by
  unfold readPolicyLine bulletOf nextSection
  dsimp only
  cases stripFront "## ".toList (trim line) with
  | some title => rfl
  | none =>
    dsimp only
    split
    · rfl
    · split
      · rfl
      · split
        · rfl
        · cases (stripFront "- ".toList (trim line)).map trim with
          | none => rfl
          | some value =>
            dsimp only
            unfold isPlaceholder
            split
            · rfl
            · rfl

theorem foldlM_bullets (lines : List (List Char)) (reader : PolicyReader) :
    (lines.foldlM (readPolicyLine parseTypedArgv) reader).map PolicyReader.policy =
      (bulletsFrom (reader.section_, reader.active) lines).foldlM
        (fun policy b => readBullet parseTypedArgv b.1 policy b.2) reader.policy := by
  induction lines generalizing reader with
  | nil => rfl
  | cons line lines ih =>
    rw [List.foldlM_cons, readPolicyLine_eq]
    unfold bulletsFrom
    cases hb : bulletOf (reader.section_, reader.active) line with
    | none =>
      rw [Option.toList_none, List.nil_append]
      exact ih ⟨_, _, reader.policy⟩
    | some b =>
      rw [Option.toList_some, List.singleton_append, List.foldlM_cons, Option.elim_some]
      cases readBullet parseTypedArgv b.1 reader.policy b.2 with
      | error e => rfl
      | ok policy => exact ih ⟨_, _, policy⟩

/-- **A policy is read from the bullets alone.** -/
theorem parse_bullets (text : String) : Policy.parse parseTypedArgv text =
    (bullets text).foldlM (fun policy b => readBullet parseTypedArgv b.1 policy b.2)
      .default :=
  foldlM_bullets _ _

/-! ## Values -/

/-- One restriction of a policy. -/
inductive Restriction where
  | deniedPath (pattern : String)
  | branch (name : String)
  | remote (name : String)
  | approval
  | command (command : String)
  | check (name : String)

def Policy.Has (policy : Policy) : Restriction → Prop
  | .deniedPath pattern => pattern ∈ policy.deniedPaths
  | .branch name => name ∈ policy.allowedBranches
  | .remote name => name ∈ policy.allowedRemotes
  | .approval => policy.pushRequiresApproval = true
  | .command command => command ∈ policy.requiredVerificationCommands
  | .check name => name ∈ policy.requiredCiChecks

theorem Policy.has_default (r : Restriction) : ¬ Policy.default.Has r := by
  cases r <;> simp [Policy.Has, Policy.default]

theorem mem_foldl_check {x : String} (checks known : List String) :
    x ∈ checks.foldl (fun checks check =>
      if checks.contains check then checks else checks ++ [check]) known ↔
      x ∈ known ∨ x ∈ checks := by
  induction checks generalizing known with
  | nil => simp
  | cons check checks ih =>
    have hone : x ∈ (if known.contains check then known else known ++ [check]) ↔
        x ∈ known ∨ x = check := by
      split
      · rename_i hknown
        constructor
        · exact .inl
        · rintro (hx | rfl)
          · exact hx
          · simpa using hknown
      · simp
    rw [List.foldl_cons, ih, hone, List.mem_cons, or_assoc]

variable (parseTypedArgv) in
/-- The policy of one bullet. -/
def ownPolicy (b : Bullet) : PolicyResult Policy := readBullet parseTypedArgv b.1 .default b.2

/-- The names behind a prefix. -/
def refsBehind (front : String) (what : String) (value : List Char) : PolicyResult (List String) :=
  match stripFront front.toList value with
  | some rest => do
    let names ← splitActiveValues rest what
    names.forM fun name => Policy.validateRef (String.ofList name) what
    .ok (names.map String.ofList)
  | none => .ok []

theorem refsBehind_bind {α : Type} (front what : String) (value : List Char)
    (k : List String → PolicyResult α) :
    (match stripFront front.toList value with
      | some rest => do
        let names ← splitActiveValues rest what
        names.forM fun name => Policy.validateRef (String.ofList name) what
        let found ← Except.ok (names.map String.ofList)
        k found
      | none => do
        let found ← Except.ok []
        k found) = refsBehind front what value >>= k := by
  unfold refsBehind
  cases stripFront front.toList value with
  | none => rfl
  | some rest => simp only [bind_assoc]

theorem readBullet_branches (p : Policy) (value : List Char) :
    readBullet parseTypedArgv .branches p value = (do
      let branches ← refsBehind "Ветки публикации:" "publication branch" value
      let remotes ← refsBehind "Remotes:" "remote" value
      .ok { p with allowedBranches := p.allowedBranches ++ branches
                   allowedRemotes := p.allowedRemotes ++ remotes }) := by
  simp only [← refsBehind_bind]
  rfl

/-- A bullet adds its own restrictions. -/
theorem readBullet_has {b : Bullet} {p q : Policy}
    (h : readBullet parseTypedArgv b.1 p b.2 = .ok q) :
    ∃ d, ownPolicy parseTypedArgv b = .ok d ∧ ∀ r, q.Has r ↔ p.Has r ∨ d.Has r := by
  obtain ⟨section_, value⟩ := b
  unfold ownPolicy
  cases section_ with
  | none =>
    obtain rfl := Except.ok.inj h
    exact ⟨_, rfl, fun r => by simp [Policy.has_default r]⟩
  | denylist =>
    obtain ⟨values, hvalues, h⟩ := bind_eq_ok.1 h
    obtain ⟨denied, hdenied, h⟩ := bind_eq_ok.1 h
    obtain rfl := Except.ok.inj h
    refine ⟨_, bind_eq_ok.2 ⟨values, hvalues, bind_eq_ok.2 ⟨denied, hdenied, rfl⟩⟩, fun r => ?_⟩
    cases r <;> simp [Policy.Has, Policy.default]
  | branches =>
    dsimp only at h ⊢
    rw [readBullet_branches] at h ⊢
    obtain ⟨branches, hbranches, h⟩ := bind_eq_ok.1 h
    obtain ⟨remotes, hremotes, h⟩ := bind_eq_ok.1 h
    obtain rfl := Except.ok.inj h
    refine ⟨_, bind_eq_ok.2 ⟨branches, hbranches, bind_eq_ok.2 ⟨remotes, hremotes, rfl⟩⟩,
      fun r => ?_⟩
    cases r <;> simp [Policy.Has, Policy.default]
  | push =>
    unfold readBullet at h ⊢
    dsimp only at h ⊢
    split at h
    · rename_i hpush
      obtain rfl := Except.ok.inj h
      refine ⟨_, if_pos hpush, fun r => ?_⟩
      cases r <;> simp [Policy.Has, Policy.default]
    · rename_i hpush
      obtain rfl := Except.ok.inj h
      exact ⟨_, if_neg hpush, fun r => by simp [Policy.has_default r]⟩
  | requiredChecks =>
    obtain ⟨command, hcommand, h⟩ := bind_eq_ok.1 h
    obtain rfl := Except.ok.inj h
    refine ⟨_, bind_eq_ok.2 ⟨command, hcommand, rfl⟩, fun r => ?_⟩
    cases r <;> simp [Policy.Has, Policy.default]
  | publishCi =>
    obtain ⟨checks, hchecks, h⟩ := bind_eq_ok.1 h
    obtain rfl := Except.ok.inj h
    refine ⟨_, bind_eq_ok.2 ⟨checks, hchecks, rfl⟩, fun r => ?_⟩
    cases r with
    | check name =>
      have hown := mem_foldl_check (x := name) checks Policy.default.requiredCiChecks
      refine (mem_foldl_check checks p.requiredCiChecks).trans (or_congr_right (hown.trans ?_).symm)
      simp [Policy.default]
    | _ => simp [Policy.Has, Policy.default]

theorem foldlM_has {bs : List Bullet} {p q : Policy}
    (h : bs.foldlM (fun policy b => readBullet parseTypedArgv b.1 policy b.2) p = .ok q) :
    (∀ b ∈ bs, (ownPolicy parseTypedArgv b).isOk = true) ∧
      ∀ r, q.Has r ↔ p.Has r ∨ ∃ b ∈ bs, ∃ d, ownPolicy parseTypedArgv b = .ok d ∧ d.Has r := by
  induction bs generalizing p with
  | nil =>
    obtain rfl := Except.ok.inj h
    exact ⟨fun b hb => (List.not_mem_nil hb).elim, fun r => by simp⟩
  | cons b bs ih =>
    rw [List.foldlM_cons] at h
    obtain ⟨m, hm, h⟩ := bind_eq_ok.1 h
    obtain ⟨d, hd, hjoin⟩ := readBullet_has hm
    obtain ⟨hown, hrest⟩ := ih h
    refine ⟨List.forall_mem_cons.2 ⟨by rw [hd]; rfl, hown⟩, fun r => ?_⟩
    rw [hrest, hjoin]
    simp only [List.mem_cons, exists_eq_or_imp, or_assoc]
    refine or_congr_right (or_congr_left ?_)
    constructor
    · exact fun hr => ⟨d, hd, hr⟩
    · rintro ⟨d', hd', hr⟩
      obtain rfl := Except.ok.inj (hd.symm.trans hd')
      exact hr

/-- **The restrictions of a policy** are those of its bullets. -/
theorem parse_has {text : String} {policy : Policy}
    (h : Policy.parse parseTypedArgv text = .ok policy) (r : Restriction) :
    policy.Has r ↔ ∃ b ∈ bullets text, ∃ d, ownPolicy parseTypedArgv b = .ok d ∧ d.Has r := by
  rw [parse_bullets] at h
  rw [(foldlM_has h).2 r]
  simp [Policy.has_default r]

theorem parse_owns {text : String} {policy : Policy}
    (h : Policy.parse parseTypedArgv text = .ok policy) {b : Bullet} (hb : b ∈ bullets text) :
    ∃ d, ownPolicy parseTypedArgv b = .ok d ∧ ∀ r, d.Has r → policy.Has r := by
  have hok := (foldlM_has ((parse_bullets text).symm.trans h)).1 b hb
  cases hown : ownPolicy parseTypedArgv b with
  | error e =>
    rw [hown] at hok
    cases hok
  | ok d => exact ⟨d, rfl, fun r hr => (parse_has h r).2 ⟨b, hb, d, hown, hr⟩⟩

end Parse

/-! ## What a bullet is written for -/

/-- The pieces between the quoted ones. -/
def outsidePieces : List (List Char) → List (List Char)
  | bare :: _ :: rest => bare :: outsidePieces rest
  | rest => rest

/-- A text without what stands in parentheses. -/
def uncommented : Nat → List Char → List Char
  | _, [] => []
  | depth, '(' :: rest => uncommented (depth + 1) rest
  | depth + 1, ')' :: rest => uncommented depth rest
  | 0, ch :: rest => ch :: uncommented 0 rest
  | depth + 1, _ :: rest => uncommented (depth + 1) rest

/-- What is written between commas. -/
def commaParts (text : List Char) : List (List Char) :=
  ((pieces (· = ',') text).map trim).filter (!·.isEmpty)

/-- The values of a text that is not quoted. -/
def bareParts (text : List Char) : List (List Char) := commaParts (uncommented 0 text)

/-- What is written outside of the quotes. -/
def looseParts (value : List Char) : List (List Char) :=
  (outsidePieces (pieces (· = '\x60') value)).flatMap bareParts

/-- The quoted parts of a list. -/
def quotedParts (value : List Char) : List (List Char) :=
  (quotedPieces (pieces (· = '\x60') value)).map trim

/-- The parts of a list: what is neither a separator, nor a backtick, nor in parentheses. -/
def listParts (value : List Char) : List (List Char) :=
  looseParts value ++ quotedParts value

/-- A command without the backticks around it. -/
def commandText (value : List Char) : List Char :=
  trim (match trim value with
    | '\x60' :: command =>
      if command.getLast? = some '\x60' then command.dropLast else trim value
    | _ => trim value)

/-- The names that are written behind a prefix. -/
def partsBehind (front : String) (value : List Char) : List (List Char) :=
  ((stripFront front.toList value).map listParts).getD []

/-- The restrictions a bullet is written for. -/
def WrittenFor : Bullet → Restriction → Prop
  | (.denylist, value), .deniedPath pattern => pattern.toList ∈ listParts value
  | (.branches, value), .branch name => name.toList ∈ partsBehind "Ветки публикации:" value
  | (.branches, value), .remote name => name.toList ∈ partsBehind "Remotes:" value
  | (.push, value), .approval =>
    beginsWith "Публикация (push):" value = true ∧ hasText "требует ручного" value = true
  | (.requiredChecks, value), .command command => command.toList = commandText value
  | (.publishCi, value), .check name => name.toList ∈ listParts value
  | _, _ => False

/-- The name of a check that is not quoted. -/
def checkName (value : List Char) : List Char :=
  trim (((trim (uncommented 0 value)).dropWhile fun ch => ch == ',').reverse.dropWhile
    fun ch => ch == ',').reverse

/-- Nothing of a list stands outside of its quotes alone, or it is bare and without a comment. -/
def PlainList (value : List Char) : Prop :=
  if '\x60' ∈ value then ∀ part ∈ looseParts value, part ∈ quotedParts value else '(' ∉ value

/-- No name of a check stands outside of the quotes alone, or there is one bare name. -/
def PlainChecks (value : List Char) : Prop :=
  if '\x60' ∈ value then ∀ part ∈ looseParts value, part ∈ quotedParts value
  else ',' ∉ checkName value

def PlainBullet : Bullet → Prop
  | (.denylist, value) => PlainList value
  | (.branches, value) =>
    (∀ rest ∈ stripFront "Ветки публикации:".toList value, PlainList rest) ∧
      ∀ rest ∈ stripFront "Remotes:".toList value, PlainList rest
  | (.publishCi, value) => PlainChecks value
  | _ => True

theorem uncommented_of_none {text : List Char} (h : '(' ∉ text) : uncommented 0 text = text := by
  induction text with
  | nil => rfl
  | cons ch text ih =>
    rw [List.mem_cons, not_or] at h
    rw [uncommented, ih h.2]
    exact fun hch => h.1 hch.symm

theorem parts_unquoted {value : List Char} (h : '\x60' ∉ value) :
    listParts value = bareParts value := by
  have hone : pieces (· = '\x60') value = [value] := pieces_of_none fun ch hch =>
    decide_eq_false fun heq => h (heq ▸ hch)
  unfold listParts looseParts quotedParts
  rw [hone]
  simp [outsidePieces, quotedPieces]

/-- Quoted parts are all parts exactly if each loose one is among them. -/
theorem quotedParts_iff {value : List Char} :
    (∀ part, part ∈ quotedParts value ↔ part ∈ listParts value) ↔
      ∀ part ∈ looseParts value, part ∈ quotedParts value := by
  unfold listParts
  constructor
  · exact fun h part hpart => (h part).2 (List.mem_append_left _ hpart)
  · intro h part
    rw [List.mem_append]
    exact ⟨.inr, fun hpart => hpart.elim (h part) id⟩

theorem mem_pieces_of_mem {sep : Char → Bool} {s : List Char} {ch : Char} (h : ch ∈ s)
    (hsep : sep ch = false) : ∃ piece ∈ pieces sep s, ch ∈ piece := by
  induction s with
  | nil => cases h
  | cons first s ih =>
    unfold pieces
    split
    · rename_i hfirst
      rcases List.mem_cons.1 h with rfl | h
      · rw [hsep] at hfirst
        cases hfirst
      · obtain ⟨piece, hpiece, hin⟩ := ih h
        exact ⟨piece, List.mem_cons_of_mem _ hpiece, hin⟩
    · split
      · rename_i hnil
        exact absurd hnil (pieces_ne_nil sep s)
      · rename_i piece more heq
        rcases List.mem_cons.1 h with rfl | h
        · exact ⟨_, List.mem_cons_self, List.mem_cons_self⟩
        · obtain ⟨found, hfound, hin⟩ := ih h
          rw [heq] at hfound
          rcases List.mem_cons.1 hfound with rfl | hfound
          · exact ⟨_, List.mem_cons_self, List.mem_cons_of_mem _ hin⟩
          · exact ⟨found, List.mem_cons_of_mem _ hfound, hin⟩

theorem mem_trim_of_mem {s : List Char} {ch : Char} (h : ch ∈ s)
    (hspace : isWhiteSpace ch = false) : ch ∈ trim s := by
  obtain ⟨a, b, hs, ha, hb⟩ := trim_parts s
  rw [hs, List.mem_append, List.mem_append] at h
  rcases h with (h | h) | h
  · rw [ha ch h] at hspace
    cases hspace
  · exact h
  · rw [hb ch h] at hspace
    cases hspace

theorem paren_uncommented (depth : Nat) (text : List Char) : '(' ∉ uncommented depth text := by
  fun_induction uncommented depth text with
  | case1 => exact List.not_mem_nil
  | case2 depth rest ih => exact ih
  | case3 depth rest ih => exact ih
  | case4 ch rest hch ih =>
    rw [List.mem_cons, not_or]
    exact ⟨fun heq => hch heq.symm, ih⟩
  | case5 depth ch rest h1 h2 ih => exact ih

theorem mem_commaParts {text part : List Char} (h : part ∈ commaParts text) :
    trim part = part ∧ ',' ∉ part ∧ ∀ ch ∈ part, ch ∈ text := by
  obtain ⟨piece, hpiece, rfl⟩ := List.mem_map.1 (List.mem_filter.1 h).1
  refine ⟨trim_trim piece, fun hcomma => ?_, fun ch hch => ?_⟩
  · have hsep := piece_not_sep hpiece ',' ((trim_within piece).subset hcomma)
    exact of_decide_eq_false hsep rfl
  · exact pieces_subset hpiece ((trim_within piece).subset hch)

/-- **The values of a list** are its parts exactly if it is plain. -/
theorem splitActiveValues_iff {value : List Char} {what : String} {values : List (List Char)}
    (h : splitActiveValues value what = .ok values) :
    (∀ part, part ∈ values ↔ part ∈ listParts value) ↔ PlainList value := by
  unfold splitActiveValues at h
  obtain ⟨_, -, h⟩ := bind_eq_ok.1 h
  obtain ⟨_, -, h⟩ := bind_eq_ok.1 h
  obtain rfl := Except.ok.inj h
  unfold PlainList
  by_cases hquote : '\x60' ∈ value
  · rw [if_pos hquote, if_pos (List.count_pos_iff.2 hquote)]
    exact quotedParts_iff
  · have hvalues : ((pieces (· = ',') value).map trim).filter (!·.isEmpty) = commaParts value := rfl
    rw [if_neg hquote, if_neg (by rwa [List.count_pos_iff]), parts_unquoted hquote, hvalues]
    constructor
    · -- a parenthesis stands in some value, and in no part
      intro h hparen
      obtain ⟨piece, hpiece, hin⟩ := @mem_pieces_of_mem (· = ',') value '(' hparen (by decide)
      have hmem : '(' ∈ trim piece := mem_trim_of_mem hin (by decide)
      have hvalue : trim piece ∈ commaParts value := by
        refine List.mem_filter.2 ⟨List.mem_map_of_mem hpiece, ?_⟩
        simpa using List.ne_nil_of_mem hmem
      exact paren_uncommented 0 value ((mem_commaParts ((h _).1 hvalue)).2.2 _ hmem)
    · intro hparen part
      rw [bareParts, uncommented_of_none hparen]

theorem trim_values {value : List Char} {what : String} {values : List (List Char)}
    (h : splitActiveValues value what = .ok values) {part : List Char} (hpart : part ∈ values) :
    trim part = part := by
  unfold splitActiveValues at h
  obtain ⟨_, -, h⟩ := bind_eq_ok.1 h
  obtain ⟨_, -, h⟩ := bind_eq_ok.1 h
  obtain rfl := Except.ok.inj h
  split at hpart
  · obtain ⟨piece, -, rfl⟩ := List.mem_map.1 hpart
    exact trim_trim piece
  · exact (mem_commaParts hpart).1

theorem validateRelativeGlob_eq {value : List Char} {what pattern : String}
    (h : validateRelativeGlob value what = .ok pattern) : pattern = String.ofList (trim value) := by
  unfold validateRelativeGlob at h
  obtain ⟨_, -, h⟩ := bind_eq_ok.1 h
  exact (Except.ok.inj h).symm

theorem validateRequiredCiCheck_eq {value : List Char} {name : String}
    (h : validateRequiredCiCheck value = .ok name) : name = String.ofList (trim value) := by
  unfold validateRequiredCiCheck at h
  obtain ⟨_, -, h⟩ := bind_eq_ok.1 h
  exact (Except.ok.inj h).symm

theorem mapM_eq_map {α β : Type} {f : α → PolicyResult β} {g : α → β} {l : List α} {bs : List β}
    (hf : ∀ a b, f a = .ok b → b = g a) (h : l.mapM f = .ok bs) : bs = l.map g := by
  rw [mapM_eq_ok] at h
  induction h with
  | nil => rfl
  | cons hab _ ih => rw [hf _ _ hab, ih, List.map_cons]

theorem bareText_eq {value text bare : List Char} {depth : Nat}
    (h : bareText value depth text = .ok bare) : bare = uncommented depth text := by
  fun_induction bareText value depth text generalizing bare with
  | case1 => exact (Except.ok.inj h).symm
  | case2 => cases h
  | case3 depth rest ih =>
    rw [uncommented]
    exact ih h
  | case4 => cases h
  | case5 depth rest ih =>
    rw [uncommented]
    exact ih h
  | case6 ch rest h1 h2 ih =>
    cases hrest : bareText value 0 rest with
    | error e =>
      rw [hrest] at h
      cases h
    | ok found =>
      rw [hrest] at h
      obtain rfl := Except.ok.inj h
      rw [ih hrest, uncommented]
      exact h1
  | case7 depth ch rest h1 h2 ih =>
    rw [uncommented]
    · exact ih h
    · exact h1
    · exact h2

theorem mem_names {names : List (List Char)} {name : String} :
    name ∈ names.map String.ofList ↔ name.toList ∈ names := by
  rw [List.mem_map]
  constructor
  · rintro ⟨x, hx, rfl⟩
    rwa [String.toList_ofList]
  · exact fun h => ⟨_, h, String.ofList_toList⟩

/-- What a comma separates, or white space around a value. -/
def Separates (text : List Char) : Prop := ∀ ch ∈ text, ch = ',' ∨ isWhiteSpace ch = true

theorem Separates.append {a b : List Char} (ha : Separates a) (hb : Separates b) :
    Separates (a ++ b) := fun ch hch => (List.mem_append.1 hch).elim (ha ch) (hb ch)

theorem separates_space {a : List Char} (h : ∀ ch ∈ a, isWhiteSpace ch = true) : Separates a :=
  fun ch hch => .inr (h ch hch)

theorem separates_comma (l : List Char) : Separates (l.takeWhile fun ch => ch == ',') :=
  fun _ hch => .inl (by simpa using List.mem_takeWhile_imp hch)

/-- Separators in front of a text are no part. -/
theorem commaParts_lead {p : List Char} (hp : Separates p) (text : List Char) :
    commaParts (p ++ text) = commaParts text := by
  induction p with
  | nil => rfl
  | cons ch p ih =>
    have hrest := ih fun c hc => hp c (List.mem_cons_of_mem _ hc)
    rw [List.cons_append, ← hrest]
    unfold commaParts
    by_cases hcomma : ch = ','
    · have hcut : pieces (· = ',') (ch :: (p ++ text)) = [] :: pieces (· = ',') (p ++ text) := by
        rw [pieces, if_pos (by simpa using hcomma)]
      rw [hcut]
      rfl
    · have hspace := (hp ch List.mem_cons_self).resolve_left hcomma
      have hone : ∀ c ∈ [ch], isWhiteSpace c = true := by
        intro c hc
        rwa [List.mem_singleton.1 hc]
      cases hpieces : pieces (· = ',') (p ++ text) with
      | nil => exact absurd hpieces (pieces_ne_nil _ _)
      | cons piece more =>
        have hcut : pieces (· = ',') (ch :: (p ++ text)) = (ch :: piece) :: more := by
          rw [pieces, if_neg (by simpa using hcomma), hpieces]
        have htrim : trim (ch :: piece) = trim piece := trim_lead (a := [ch]) hone
        rw [hcut, List.map_cons, List.map_cons, htrim]

theorem commaParts_separates {s : List Char} (hs : Separates s) : commaParts s = [] := by
  have hlead := commaParts_lead hs []
  rw [List.append_nil] at hlead
  exact hlead

section Name

variable {name : List Char} (hcomma : ',' ∉ name) (htrim : trim name = name) (hne : name ≠ [])
include hcomma htrim hne

theorem commaParts_one {w : List Char} (hw : ∀ ch ∈ w, isWhiteSpace ch = true) :
    commaParts (name ++ w) = [name] := by
  have hnone : ∀ ch ∈ name ++ w, decide (ch = ',') = false := by
    intro ch hch
    refine decide_eq_false ?_
    rintro rfl
    rcases List.mem_append.1 hch with hch | hch
    · exact hcomma hch
    · exact absurd (hw _ hch) (by decide)
  unfold commaParts
  rw [pieces_of_none hnone, List.map_singleton, trim_tail hw, htrim,
    List.filter_cons_of_pos (by simpa using hne)]
  rfl

/-- A name with separators behind it is one part. -/
theorem commaParts_name {s : List Char} (hs : Separates s) : ∀ {w : List Char},
    (∀ ch ∈ w, isWhiteSpace ch = true) → commaParts (name ++ w ++ s) = [name] := by
  induction s with
  | nil =>
    intro w hw
    rw [List.append_nil]
    exact commaParts_one hcomma htrim hne hw
  | cons ch s ih =>
    intro w hw
    have hrest : Separates s := fun c hc => hs c (List.mem_cons_of_mem _ hc)
    by_cases hch : ch = ','
    · have hone := commaParts_one hcomma htrim hne hw
      have hnone := commaParts_separates hrest
      unfold commaParts at hone hnone ⊢
      rw [pieces_cut _ _ _ (by simpa using hch), List.map_append, List.filter_append, hone, hnone,
        List.append_nil]
    · have hspace := (hs ch List.mem_cons_self).resolve_left hch
      have hnext := ih hrest (w := w ++ [ch]) fun c hc => by
        rcases List.mem_append.1 hc with hc | hc
        · exact hw c hc
        · rwa [List.mem_singleton.1 hc]
      have hlist : name ++ w ++ ch :: s = name ++ (w ++ [ch]) ++ s := by simp
      rw [hlist]
      exact hnext

end Name

/-- A text is the name of a check between separators. -/
theorem checkName_parts (value : List Char) : ∃ p s, Separates p ∧ Separates s ∧
    uncommented 0 value = p ++ (checkName value ++ s) := by
  obtain ⟨a, b, hbare, ha, hb⟩ := trim_parts (uncommented 0 value)
  unfold checkName
  generalize trim (uncommented 0 value) = m at hbare ⊢
  generalize hc : ((m.dropWhile fun ch => ch == ',').reverse.dropWhile fun ch =>
    ch == ',').reverse = c
  obtain ⟨a2, b2, hcut, ha2, hb2⟩ := trim_parts c
  have hm : m = (m.takeWhile fun ch => ch == ',') ++ (c ++
      ((m.dropWhile fun ch => ch == ',').reverse.takeWhile fun ch => ch == ',').reverse) := by
    rw [← hc, ← List.reverse_append, List.takeWhile_append_dropWhile, List.reverse_reverse,
      List.takeWhile_append_dropWhile]
  refine ⟨a ++ ((m.takeWhile fun ch => ch == ',') ++ a2), b2 ++
    (((m.dropWhile fun ch => ch == ',').reverse.takeWhile fun ch => ch == ',').reverse ++ b),
    (separates_space ha).append ((separates_comma m).append (separates_space ha2)),
    (separates_space hb2).append (Separates.append (fun ch hch => ?_) (separates_space hb)), ?_⟩
  · exact separates_comma _ ch (List.mem_reverse.1 hch)
  · conv_lhs => rw [hbare, hm, hcut]
    simp only [List.append_assoc]

/-- **The names of checks** are its parts exactly if they are plain. -/
theorem parseRequiredCiChecks_iff {value : List Char} {checks : List String}
    (h : parseRequiredCiChecks value = .ok checks) :
    (∀ name, name ∈ checks ↔ name.toList ∈ listParts value) ↔ PlainChecks value := by
  unfold parseRequiredCiChecks at h
  obtain ⟨_, -, h⟩ := bind_eq_ok.1 h
  unfold PlainChecks
  by_cases hquote : '\x60' ∈ value
  · rw [if_pos (List.count_pos_iff.2 hquote)] at h
    have hchecks : checks = (quotedParts value).map String.ofList := by
      rw [mapM_eq_map (fun _ _ => validateRequiredCiCheck_eq) h, quotedParts, List.map_map]
      rfl
    rw [if_pos hquote, ← quotedParts_iff, hchecks]
    simp only [mem_names]
    exact ⟨fun hall part => by simpa using hall (String.ofList part), fun hall name => hall _⟩
  · rw [if_neg (by rwa [List.count_pos_iff])] at h
    obtain ⟨bare, hbare, h⟩ := bind_eq_ok.1 h
    obtain ⟨check, hcheck, h⟩ := bind_eq_ok.1 h
    obtain rfl := Except.ok.inj h
    obtain rfl := bareText_eq hbare
    have hname : check = String.ofList (checkName value) := validateRequiredCiCheck_eq hcheck
    have hne : checkName value ≠ [] := by
      intro hnil
      unfold validateRequiredCiCheck at hcheck
      obtain ⟨_, hvalid, -⟩ := bind_eq_ok.1 hcheck
      have hnot := demand_eq_ok.1 hvalid
      refine hnot (.inl ?_)
      rw [List.isEmpty_iff]
      exact hnil
    rw [if_neg hquote, parts_unquoted hquote, hname]
    constructor
    · intro hall
      have hpart := (hall (String.ofList (checkName value))).1 List.mem_cons_self
      rw [String.toList_ofList] at hpart
      exact (mem_commaParts hpart).2.1
    · intro hcomma name
      obtain ⟨p, s, hp, hs, hparts⟩ := checkName_parts value
      have htrim : trim (checkName value) = checkName value := trim_trim _
      have hone := commaParts_name hcomma htrim hne hs (w := []) fun _ h => nomatch h
      rw [List.append_nil] at hone
      rw [bareParts, hparts, commaParts_lead hp, hone, List.mem_singleton, List.mem_singleton,
        ← String.toList_inj, String.toList_ofList]

theorem refsBehind_iff {front what : String} {value : List Char} {names : List String}
    (h : refsBehind front what value = .ok names) :
    (∀ name, name ∈ names ↔ name.toList ∈ partsBehind front value) ↔
      ∀ rest ∈ stripFront front.toList value, PlainList rest := by
  unfold refsBehind at h
  unfold partsBehind
  cases hrest : stripFront front.toList value with
  | none =>
    rw [hrest] at h
    obtain rfl := Except.ok.inj h
    simp
  | some rest =>
    rw [hrest] at h
    obtain ⟨values, hvalues, h⟩ := bind_eq_ok.1 h
    obtain ⟨_, -, h⟩ := bind_eq_ok.1 h
    obtain rfl := Except.ok.inj h
    have hiff := splitActiveValues_iff hvalues
    simp only [mem_names, Option.map_some, Option.getD_some, Option.mem_def, Option.some.injEq,
      forall_eq']
    rw [← hiff]
    exact ⟨fun hall part => by simpa using hall (String.ofList part), fun hall name => hall _⟩

section WrittenFor

variable {parseTypedArgv : String → Except String (List String)}

/-- **A bullet restricts what it is written for** exactly if it is plain. -/
theorem own_written_iff {b : Bullet} {d : Policy} (h : ownPolicy parseTypedArgv b = .ok d) :
    (∀ r, d.Has r ↔ WrittenFor b r) ↔ PlainBullet b := by
  obtain ⟨section_, value⟩ := b
  unfold ownPolicy at h
  cases section_ with
  | none =>
    obtain rfl := Except.ok.inj h
    refine ⟨fun _ => trivial, fun _ r => ?_⟩
    cases r <;> simp [Policy.Has, Policy.default, WrittenFor]
  | denylist =>
    obtain ⟨values, hvalues, h⟩ := bind_eq_ok.1 h
    obtain ⟨denied, hdenied, h⟩ := bind_eq_ok.1 h
    obtain rfl := Except.ok.inj h
    have htrim : ∀ part ∈ values, trim part = part := fun part => trim_values hvalues
    have hnames : denied = values.map String.ofList := by
      rw [mapM_eq_map (fun _ _ => validateRelativeGlob_eq) hdenied]
      exact List.map_congr_left fun part hpart => by rw [htrim part hpart]
    have hhas : ∀ pattern, pattern ∈ Policy.default.deniedPaths ++ denied ↔
        pattern.toList ∈ values := by
      intro pattern
      rw [hnames, Policy.default, List.nil_append, mem_names]
    show _ ↔ PlainList value
    rw [← splitActiveValues_iff hvalues]
    constructor
    · intro hall part
      have hone := (hhas (String.ofList part)).symm.trans (hall (.deniedPath (String.ofList part)))
      rw [String.toList_ofList] at hone
      simpa [WrittenFor] using hone
    · intro hall r
      cases r with
      | deniedPath pattern => exact (hhas pattern).trans (hall _)
      | _ => simp [Policy.Has, Policy.default, WrittenFor]
  | branches =>
    dsimp only at h
    rw [readBullet_branches] at h
    obtain ⟨branches, hbranches, h⟩ := bind_eq_ok.1 h
    obtain ⟨remotes, hremotes, h⟩ := bind_eq_ok.1 h
    obtain rfl := Except.ok.inj h
    show _ ↔ (∀ rest ∈ _, PlainList rest) ∧ ∀ rest ∈ _, PlainList rest
    rw [← refsBehind_iff hbranches, ← refsBehind_iff hremotes]
    constructor
    · exact fun hall => ⟨fun name => hall (.branch name), fun name => hall (.remote name)⟩
    · rintro ⟨hbranch, hremote⟩ r
      cases r with
      | branch name => exact hbranch name
      | remote name => exact hremote name
      | _ => simp [Policy.Has, Policy.default, WrittenFor]
  | push =>
    refine ⟨fun _ => trivial, fun _ r => ?_⟩
    unfold readBullet at h
    dsimp only at h
    split at h
    · rename_i hpush
      obtain rfl := Except.ok.inj h
      cases r with
      | approval => simpa [Policy.Has, WrittenFor] using hpush
      | _ => simp [Policy.Has, Policy.default, WrittenFor]
    · rename_i hpush
      obtain rfl := Except.ok.inj h
      cases r with
      | approval => simpa [Policy.Has, Policy.default, WrittenFor] using hpush
      | _ => simp [Policy.Has, Policy.default, WrittenFor]
  | requiredChecks =>
    refine ⟨fun _ => trivial, fun _ r => ?_⟩
    obtain ⟨command, hcommand, h⟩ := bind_eq_ok.1 h
    obtain rfl := Except.ok.inj h
    have htext : command = String.ofList (commandText value) := by
      unfold parseRequiredVerificationCommand at hcommand
      dsimp only at hcommand
      split at hcommand
      · cases hcommand
      · exact (Except.ok.inj hcommand).symm
    cases r with
    | command other =>
      show other ∈ Policy.default.requiredVerificationCommands ++ [command] ↔
        other.toList = commandText value
      rw [htext, Policy.default, List.nil_append, List.mem_singleton, ← String.toList_inj,
        String.toList_ofList]
    | _ => simp [Policy.Has, Policy.default, WrittenFor]
  | publishCi =>
    obtain ⟨checks, hchecks, h⟩ := bind_eq_ok.1 h
    obtain rfl := Except.ok.inj h
    have hhas : ∀ name, name ∈ checks.foldl (fun checks check =>
        if checks.contains check then checks else checks ++ [check])
          Policy.default.requiredCiChecks ↔ name ∈ checks := by
      intro name
      rw [mem_foldl_check]
      simp [Policy.default]
    show _ ↔ PlainChecks value
    rw [← parseRequiredCiChecks_iff hchecks]
    constructor
    · exact fun hall name => (hhas name).symm.trans (hall (.check name))
    · intro hall r
      cases r with
      | check name => exact (hhas name).trans (hall name)
      | _ => simp [Policy.Has, Policy.default, WrittenFor]

/-- **A text of plain bullets** restricts what its bullets are written for, and nothing else. -/
theorem parse_written {text : String} {policy : Policy}
    (h : Policy.parse parseTypedArgv text = .ok policy)
    (hplain : ∀ b ∈ bullets text, PlainBullet b) (r : Restriction) :
    policy.Has r ↔ ∃ b ∈ bullets text, WrittenFor b r := by
  rw [parse_has h]
  constructor
  · rintro ⟨b, hb, d, hd, hr⟩
    exact ⟨b, hb, ((own_written_iff hd).2 (hplain b hb) r).1 hr⟩
  · rintro ⟨b, hb, hr⟩
    obtain ⟨d, hd, -⟩ := parse_owns h hb
    exact ⟨b, hb, d, hd, ((own_written_iff hd).2 (hplain b hb) r).2 hr⟩

end WrittenFor

/-! ## One bullet more -/

theorem nextSection_bullet {state : PolicySection × Bool} {line : List Char} {b : Bullet}
    (h : bulletOf state line = some b) : nextSection state line = state := by
  unfold bulletOf at h
  unfold nextSection
  cases htitle : stripFront "## ".toList (trim line) with
  | some title =>
    rw [htitle] at h
    cases h
  | none =>
    rw [htitle] at h
    dsimp only at h ⊢
    split at h
    · cases h
    · rename_i hstart
      rw [if_neg hstart]
      split at h
      · cases h
      · rename_i hexample
        rw [if_neg hexample]

theorem bulletsFrom_append (state : PolicySection × Bool) (a b : List (List Char)) :
    bulletsFrom state (a ++ b) =
      bulletsFrom state a ++ bulletsFrom (a.foldl nextSection state) b := by
  induction a generalizing state with
  | nil => rfl
  | cons line a ih =>
    rw [List.cons_append, bulletsFrom, bulletsFrom, ih, List.append_assoc]
    rfl

/-- A text with one more line, which is an active bullet there. -/
def Adds (text text' : String) (b : Bullet) : Prop :=
  ∃ front line behind, pieces (· = '\n') text.toList = front ++ behind ∧
    pieces (· = '\n') text'.toList = front ++ line :: behind ∧
    bulletOf (front.foldl nextSection (.none, false)) line = some b

theorem Adds.bullets {text text' : String} {b : Bullet} (h : Adds text text' b) :
    ∃ front behind, bullets text = front ++ behind ∧ bullets text' = front ++ b :: behind := by
  obtain ⟨front, line, behind, htext, htext', hb⟩ := h
  refine ⟨_, _, (congrArg _ htext).trans (bulletsFrom_append _ front behind),
    (congrArg _ htext').trans ((bulletsFrom_append _ front _).trans ?_)⟩
  rw [bulletsFrom, hb, nextSection_bullet hb]
  rfl

section Grows

variable {parseTypedArgv : String → Except String (List String)}

/-- A bullet of another section allows no branch and no remote. -/
theorem own_allows {b : Bullet} {d : Policy} (h : ownPolicy parseTypedArgv b = .ok d)
    (hsection : b.1 ≠ .branches) : d.allowedBranches = [] ∧ d.allowedRemotes = [] := by
  obtain ⟨section_, value⟩ := b
  unfold ownPolicy at h
  cases section_ with
  | none =>
    obtain rfl := Except.ok.inj h
    exact ⟨rfl, rfl⟩
  | denylist =>
    obtain ⟨_, -, h⟩ := bind_eq_ok.1 h
    obtain ⟨_, -, h⟩ := bind_eq_ok.1 h
    obtain rfl := Except.ok.inj h
    exact ⟨rfl, rfl⟩
  | branches => exact absurd rfl hsection
  | push =>
    unfold readBullet at h
    dsimp only at h
    split at h <;> obtain rfl := Except.ok.inj h <;> exact ⟨rfl, rfl⟩
  | requiredChecks | publishCi =>
    obtain ⟨_, -, h⟩ := bind_eq_ok.1 h
    obtain rfl := Except.ok.inj h
    exact ⟨rfl, rfl⟩

/-- One restriction is added by one bullet, and none goes. -/
theorem has_of_adds {text text' : String} {b : Bullet} {p p' : Policy} (hadds : Adds text text' b)
    (h : Policy.parse parseTypedArgv text = .ok p)
    (h' : Policy.parse parseTypedArgv text' = .ok p') :
    ∃ d, ownPolicy parseTypedArgv b = .ok d ∧ ∀ r, p'.Has r ↔ p.Has r ∨ d.Has r := by
  obtain ⟨front, behind, hbullets, hbullets'⟩ := hadds.bullets
  have hb : b ∈ bullets text' := by rw [hbullets']; simp
  obtain ⟨d, hd, -⟩ := parse_owns h' hb
  refine ⟨d, hd, fun r => ?_⟩
  rw [parse_has h, parse_has h', hbullets, hbullets']
  constructor
  · rintro ⟨c, hc, e, he, hr⟩
    rcases List.mem_append.1 hc with hc | hc
    · exact .inl ⟨c, List.mem_append_left _ hc, e, he, hr⟩
    · rcases List.mem_cons.1 hc with rfl | hc
      · obtain rfl := Except.ok.inj (hd.symm.trans he)
        exact .inr hr
      · exact .inl ⟨c, List.mem_append_right _ hc, e, he, hr⟩
  · rintro (⟨c, hc, e, he, hr⟩ | hr)
    · refine ⟨c, ?_, e, he, hr⟩
      rcases List.mem_append.1 hc with hc | hc
      · exact List.mem_append_left _ hc
      · exact List.mem_append_right _ (List.mem_cons_of_mem _ hc)
    · exact ⟨b, by simp, d, hd, hr⟩

end Grows

namespace Policy

theorem checkDomain_eq_ok {policy : Policy} {domain : String} :
    policy.checkDomain domain = .ok () ↔ isBlank domain = false ∧
      ∀ pattern, policy.Has (.deniedPath pattern) →
        (Domain.parse domain).intersects (.parse pattern) = false := by
  unfold checkDomain
  rw [bind_eq_ok]
  simp only [demand_eq_ok, forM_eq_ok, exists_const]
  rfl

theorem checkPaths_eq_ok {policy : Policy} {paths : List String} :
    policy.checkPaths paths = .ok () ↔ ∀ path ∈ paths, ∃ q, normaliseRelativePath path = .ok q ∧
      ∀ pattern, policy.Has (.deniedPath pattern) → globMatches pattern q = false := by
  unfold checkPaths
  rw [forM_eq_ok]
  simp only [bind_eq_ok, forM_eq_ok, demand_eq_ok]
  rfl

theorem empty_iff {names : List String} : names = [] ↔ ∀ name, name ∉ names :=
  List.eq_nil_iff_forall_not_mem

theorem checkPublication_eq_ok {policy : Policy} {branch remote : String} :
    policy.checkPublication branch remote = .ok () ↔
      validateRef branch "publication branch" = .ok () ∧
      ((∀ name, ¬ policy.Has (.branch name)) ∨ policy.Has (.branch branch)) ∧
      validateRef remote "remote" = .ok () ∧
      ((∀ name, ¬ policy.Has (.remote name)) ∨ policy.Has (.remote remote)) ∧
      ¬ policy.Has .approval := by
  unfold checkPublication checkPublicationBranch
  simp only [bind_eq_ok, demand_eq_ok, empty_iff]
  constructor
  · rintro ⟨_, ⟨_, h1, h2⟩, _, h3, _, h4, h5⟩
    exact ⟨h1, h2, h3, h4, by simpa [Has] using h5⟩
  · rintro ⟨h1, h2, h3, h4, h5⟩
    exact ⟨(), ⟨(), h1, h2⟩, (), h3, (), h4, by simpa [Has] using h5⟩

end Policy

/-! ## What a policy text restricts -/

theorem trim_slashed (s : List Char) : trim (slashed s) = slashed (trim s) := by
  have hspace : isWhiteSpace ∘ (fun ch => if ch = '\\' then '/' else ch) = isWhiteSpace := by
    have hslash : isWhiteSpace '/' = isWhiteSpace '\\' := by decide
    funext ch
    dsimp only [Function.comp]
    split
    · rename_i hch
      rw [hch, hslash]
    · rfl
  unfold trim slashed
  rw [List.dropWhile_map, hspace, ← List.map_reverse, List.dropWhile_map, hspace,
    ← List.map_reverse]

/-- The text restricts as it is written: each of its bullets restricts what it is written for, and
nothing else does; a denied pattern has its documented language and refuses the path exactly if it
denotes it; with one bullet more, which allows nothing, nothing is accepted that was refused. -/
structure Restricts (parseTypedArgv : String → Except String (List String)) (text : String)
    (policy : Policy) (path : String) : Prop where
  whole : ∀ b ∈ bullets text, ∀ d, ownPolicy parseTypedArgv b = .ok d →
    ∀ r, d.Has r ↔ WrittenFor b r
  only : ∀ r, policy.Has r ↔
    ∃ b ∈ bullets text, ∃ d, ownPolicy parseTypedArgv b = .ok d ∧ d.Has r
  language : ∀ pattern, policy.Has (.deniedPath pattern) → ∀ path,
    globList (slashed pattern.toList) path = true ↔
      Glob.Denotes true (slashed pattern.toList) path
  refuses : ∀ pattern, policy.Has (.deniedPath pattern) →
    (normaliseRelativePath path).isOk = true →
      (({ Policy.default with deniedPaths := [pattern] } : Policy).checkPaths [path] = .ok () ↔
        ¬ Glob.Denotes true (slashed pattern.toList) (slashed path.toList))
  grows : ∀ text' b policy', Adds text text' b → b.1 ≠ .branches →
    Policy.parse parseTypedArgv text' = .ok policy' →
      (∀ domain, policy'.checkDomain domain = .ok () → policy.checkDomain domain = .ok ()) ∧
      (∀ paths, policy'.checkPaths paths = .ok () → policy.checkPaths paths = .ok ()) ∧
      ∀ branch remote, policy'.checkPublication branch remote = .ok () →
        policy.checkPublication branch remote = .ok ()

/-- What the reader of a policy text takes as it is written. -/
structure PlainText (text path : String) : Prop where
  bullets : ∀ b ∈ bullets text, PlainBullet b
  initial : ∀ b ∈ Orchestrail.bullets text, ∀ pattern, WrittenFor b (.deniedPath pattern) →
    Glob.isInitial true (slashed pattern.toList) = true
  path : ∀ b ∈ Orchestrail.bullets text, ∀ pattern, WrittenFor b (.deniedPath pattern) →
    (normaliseRelativePath path).isOk = true →
      (Glob.Denotes true (slashed pattern.toList) (slashed (trim path.toList)) ↔
        Glob.Denotes true (slashed pattern.toList) (slashed path.toList))

section Restricts

variable {parseTypedArgv : String → Except String (List String)} {text path : String}
  {policy : Policy}

/-- One bullet more accepts nothing more. -/
theorem refuses_of_adds {text' : String} {b : Bullet} {policy' : Policy}
    (h : Policy.parse parseTypedArgv text = .ok policy) (hadds : Adds text text' b)
    (hsection : b.1 ≠ .branches) (h' : Policy.parse parseTypedArgv text' = .ok policy') :
    (∀ domain, policy'.checkDomain domain = .ok () → policy.checkDomain domain = .ok ()) ∧
      (∀ paths, policy'.checkPaths paths = .ok () → policy.checkPaths paths = .ok ()) ∧
      ∀ branch remote, policy'.checkPublication branch remote = .ok () →
        policy.checkPublication branch remote = .ok () := by
  obtain ⟨d, hd, hhas⟩ := has_of_adds hadds h h'
  obtain ⟨hbranches, hremotes⟩ := own_allows hd hsection
  have hstays : ∀ r, policy.Has r → policy'.Has r := fun r hr => (hhas r).2 (.inl hr)
  have hbranch : ∀ name, policy'.Has (.branch name) ↔ policy.Has (.branch name) := by
    intro name
    rw [hhas]
    simp [Policy.Has, hbranches]
  have hremote : ∀ name, policy'.Has (.remote name) ↔ policy.Has (.remote name) := by
    intro name
    rw [hhas]
    simp [Policy.Has, hremotes]
  refine ⟨fun domain hdomain => ?_, fun paths hpaths => ?_, fun branch remote hpush => ?_⟩
  · rw [Policy.checkDomain_eq_ok] at hdomain ⊢
    exact ⟨hdomain.1, fun pattern hpattern => hdomain.2 pattern (hstays _ hpattern)⟩
  · rw [Policy.checkPaths_eq_ok] at hpaths ⊢
    intro path hpath
    obtain ⟨q, hq, hclear⟩ := hpaths path hpath
    exact ⟨q, hq, fun pattern hpattern => hclear pattern (hstays _ hpattern)⟩
  · rw [Policy.checkPublication_eq_ok] at hpush ⊢
    simp only [hbranch, hremote] at hpush
    obtain ⟨h1, h2, h3, h4, h5⟩ := hpush
    exact ⟨h1, h2, h3, h4, fun happroval => h5 (hstays _ happroval)⟩

/-- A pattern whose every `**/` starts a segment refuses the paths it denotes, without the white
space around them. -/
theorem checkPaths_denotes {pattern : String}
    (hpattern : Glob.isInitial true (slashed pattern.toList) = true)
    (hok : (normaliseRelativePath path).isOk = true) :
    ({ Policy.default with deniedPaths := [pattern] } : Policy).checkPaths [path] = .ok () ↔
      ¬ Glob.Denotes true (slashed pattern.toList) (slashed (trim path.toList)) := by
  cases hq : normaliseRelativePath path with
  | error e =>
    rw [hq] at hok
    cases hok
  | ok q =>
    have htext : q.toList = slashed (trim path.toList) := by
      rw [normaliseRelativePath_eq_ok hq, trim_slashed]
    have hglob : globMatches pattern q =
        globList (slashed pattern.toList) (slashed (trim path.toList)) := by
      unfold globMatches
      rw [htext, slashed_slashed]
    rw [Policy.checkPaths_eq_ok, ← Glob.globList_denotes hpattern, Bool.not_eq_true, ← hglob]
    constructor
    · intro h
      obtain ⟨q', hq', hclear⟩ := h path List.mem_cons_self
      obtain rfl := Except.ok.inj (hq.symm.trans hq')
      exact hclear pattern List.mem_cons_self
    · intro hclear other hother
      obtain rfl := List.mem_singleton.1 hother
      refine ⟨q, hq, fun found hfound => ?_⟩
      obtain rfl := List.mem_singleton.1 hfound
      exact hclear

/-- **A policy text restricts as it is written** exactly if it is plain. -/
theorem policy_restricts (h : Policy.parse parseTypedArgv text = .ok policy) :
    Restricts parseTypedArgv text policy path ↔ PlainText text path := by
  constructor
  · intro hrestricts
    have hhas : ∀ b ∈ bullets text, ∀ pattern, WrittenFor b (.deniedPath pattern) →
        policy.Has (.deniedPath pattern) := by
      intro b hb pattern hpattern
      obtain ⟨d, hd, hstays⟩ := parse_owns h hb
      exact hstays _ ((hrestricts.whole b hb d hd _).2 hpattern)
    have hinitial : ∀ b ∈ bullets text, ∀ pattern, WrittenFor b (.deniedPath pattern) →
        Glob.isInitial true (slashed pattern.toList) = true := fun b hb pattern hpattern =>
      Glob.denotes_iff.1 (hrestricts.language pattern (hhas b hb pattern hpattern))
    refine ⟨fun b hb => ?_, hinitial, fun b hb pattern hpattern hok => ?_⟩
    · obtain ⟨d, hd, -⟩ := parse_owns h hb
      exact (own_written_iff hd).1 (hrestricts.whole b hb d hd)
    · have hrefuses := hrestricts.refuses pattern (hhas b hb pattern hpattern) hok
      rw [checkPaths_denotes (hinitial b hb pattern hpattern) hok] at hrefuses
      exact not_iff_not.1 hrefuses
  · intro hplain
    have hwritten : ∀ pattern, policy.Has (.deniedPath pattern) →
        ∃ b ∈ bullets text, WrittenFor b (.deniedPath pattern) := fun pattern =>
      (parse_written h hplain.bullets _).1
    refine ⟨fun b hb d hd => (own_written_iff hd).2 (hplain.bullets b hb), parse_has h,
      fun pattern hpattern => ?_, fun pattern hpattern hok => ?_,
      fun text' b policy' hadds hsection h' => refuses_of_adds h hadds hsection h'⟩
    · obtain ⟨b, hb, hpart⟩ := hwritten pattern hpattern
      exact Glob.denotes_iff.2 (hplain.initial b hb pattern hpart)
    · obtain ⟨b, hb, hpart⟩ := hwritten pattern hpattern
      rw [checkPaths_denotes (hplain.initial b hb pattern hpart) hok,
        hplain.path b hb pattern hpart hok]

end Restricts

namespace RestrictionSample

open PolicySample

def plain : String := constraints "`infra/**`, `**/*.pem`"

/-- A list of which one value is not quoted. -/
def mixed : String := constraints "`infra/**`, secrets/**"

def plainPolicy : Policy := { Policy.default with deniedPaths := ["infra/**", "**/*.pem"] }

theorem plainText : PlainText plain "infra/main.tf" := by
  have hbullets : bullets plain = [(.denylist, "`infra/**`, `**/*.pem`".toList)] := by
    decide +kernel
  have hparts : listParts "`infra/**`, `**/*.pem`".toList =
      ["infra/**".toList, "**/*.pem".toList] := by
    decide +kernel
  have hloose : looseParts "`infra/**`, `**/*.pem`".toList = [] := by decide +kernel
  have hpath : trim "infra/main.tf".toList = "infra/main.tf".toList := by decide +kernel
  refine ⟨fun b hb => ?_, fun b hb pattern hpattern => ?_, fun _ _ _ _ _ => by rw [hpath]⟩
  · rw [hbullets] at hb
    obtain rfl := List.mem_singleton.1 hb
    have hquote : '\x60' ∈ "`infra/**`, `**/*.pem`".toList := by decide +kernel
    show PlainList _
    unfold PlainList
    rw [if_pos hquote, hloose]
    exact fun part hpart => (List.not_mem_nil hpart).elim
  · rw [hbullets] at hb
    obtain rfl := List.mem_singleton.1 hb
    have hmem : pattern.toList ∈ ["infra/**".toList, "**/*.pem".toList] := hparts ▸ hpattern
    rcases List.mem_cons.1 hmem with heq | hmem
    · rw [heq]
      decide +kernel
    · rw [List.mem_singleton.1 hmem]
      decide +kernel

end RestrictionSample

open PolicySample RestrictionSample in
theorem policy_restricts_plain : Restricts noArgv plain plainPolicy "infra/main.tf" :=
  (policy_restricts (by decide +kernel)).2 RestrictionSample.plainText

open PolicySample RestrictionSample in
/-- **A value between quoted ones** is dropped: the policy is accepted, and the path that the value
denies is let through. -/
theorem policy_restricts_mixed :
    Policy.parse noArgv mixed = .ok (denying "infra/**") ∧
      bullets mixed = [(.denylist, "`infra/**`, secrets/**".toList)] ∧
      WrittenFor (.denylist, "`infra/**`, secrets/**".toList) (.deniedPath "secrets/**") ∧
      (denying "infra/**").checkPaths ["secrets/key"] = .ok () ∧
      ¬ Restricts noArgv mixed (denying "infra/**") "secrets/key" := by
  have hbullets : bullets mixed = [(.denylist, "`infra/**`, secrets/**".toList)] := by
    decide +kernel
  have hwritten : WrittenFor (.denylist, "`infra/**`, secrets/**".toList)
      (.deniedPath "secrets/**") := by
    have hmem : "secrets/**".toList ∈ listParts "`infra/**`, secrets/**".toList := by
      decide +kernel
    exact hmem
  have hparse : Policy.parse noArgv mixed = .ok (denying "infra/**") := by decide +kernel
  refine ⟨hparse, hbullets, hwritten, by decide +kernel, fun h => ?_⟩
  have hbullet : (.denylist, "`infra/**`, secrets/**".toList) ∈ bullets mixed := by
    rw [hbullets]
    exact List.mem_singleton.2 rfl
  obtain ⟨d, hd, hstays⟩ := parse_owns hparse hbullet
  have hother : "secrets/**" ∈ ["infra/**"] :=
    hstays _ ((h.whole _ hbullet d hd (.deniedPath "secrets/**")).2 hwritten)
  revert hother
  decide

end Orchestrail
