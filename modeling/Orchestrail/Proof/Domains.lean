import Orchestrail.Proof.Policy
import Mathlib.Data.List.DropRight

/-!
# Conflict domains and the paths they cover

Two domains are compared by the texts of their tokens: what stands before the first wildcard, or
all of a token without one, which may also name a directory. A token covers the same paths however
its slashes are written, with a `./` before it or a slash behind it, and the texts do not.
-/

namespace Orchestrail

open Text

/-! ## The paths a token covers -/

/-- The characters a wildcard starts with. -/
def isWildcard (ch : Char) : Bool := ch == '*' || ch == '?' || ch == '['

/-- The characters a class lists, with its ranges. -/
def classLists : List Char → Char → Bool
  | low :: '-' :: high :: members, ch => (low ≤ ch && ch ≤ high) || classLists members ch
  | member :: members, ch => member == ch || classLists members ch
  | [], _ => false

def classHas : List Char → Char → Bool
  | '!' :: members, ch => !classLists members ch
  | '^' :: members, ch => !classLists members ch
  | members, ch => classLists members ch

/-- A glob and a path it matches: a star stays within a segment, two do not, and a bracket that no
other closes stands for itself. -/
inductive Glob : List Char → List Char → Prop
  | nil : Glob [] []
  | literal {ch : Char} {glob path : List Char} :
      isWildcard ch = false → Glob glob path → Glob (ch :: glob) (ch :: path)
  | one {ch : Char} {glob path : List Char} :
      ch ≠ '/' → Glob glob path → Glob ('?' :: glob) (ch :: path)
  | star {run glob path : List Char} :
      '/' ∉ run → Glob glob path → Glob ('*' :: glob) (run ++ path)
  | deep {run glob path : List Char} : Glob glob path → Glob ('*' :: '*' :: glob) (run ++ path)
  | segments {run glob path : List Char} :
      run = [] ∨ run.getLast? = some '/' → Glob glob path →
        Glob ('*' :: '*' :: '/' :: glob) (run ++ path)
  | oneOf {members : List Char} {ch : Char} {glob path : List Char} :
      ']' ∉ members.tail → classHas members ch = true → ch ≠ '/' → Glob glob path →
        Glob ('[' :: (members ++ ']' :: glob)) (ch :: path)
  | bracket {glob path : List Char} : ']' ∉ glob → Glob glob path → Glob ('[' :: glob) ('[' :: path)

/-- **A literal front of a glob** is one of the path. -/
theorem Glob.front {literal glob path : List Char}
    (hliteral : ∀ ch ∈ literal, isWildcard ch = false) (h : Glob (literal ++ glob) path) :
    ∃ rest, path = literal ++ rest ∧ Glob glob rest := by
  induction literal generalizing path with
  | nil => exact ⟨path, rfl, h⟩
  | cons ch literal ih =>
    have hch := hliteral ch List.mem_cons_self
    generalize hall : ch :: literal ++ glob = all at h
    cases h with
    | literal hother h =>
      obtain ⟨rfl, rfl⟩ := List.cons.inj hall
      obtain ⟨rest, rfl, hrest⟩ := ih (fun c hc => hliteral c (List.mem_cons_of_mem _ hc)) h
      exact ⟨rest, rfl, hrest⟩
    | nil => cases hall
    -- every other form starts with a wildcard
    | one | star | deep | segments | oneOf | bracket =>
      obtain ⟨rfl, -⟩ := List.cons.inj hall
      cases hch

/-- A text without the `./` it starts with. -/
def dropHere : List Char → List Char
  | '.' :: '/' :: rest => dropHere rest
  | text => text

/-- A token with slashes for backslashes, no `./` before it and no slash behind it. -/
def respelled (token : List Char) : List Char := (dropHere (slashed token)).rdropWhile (· == '/')

/-- No wildcard stands in a token. -/
def isLiteral (token : List Char) : Bool := token.all fun ch => !isWildcard ch

/-- The token is the directory every path of the repository lies below, as `.` and `./` are. -/
def namesRoot (token : List Char) : Bool :=
  isLiteral token && (respelled token == [] || respelled token == ['.'])

/-- A path lies in a token: the glob matches it, or the token has no wildcard and names it or a
directory above it. The spelling of the token does not matter. -/
def TokenCovers (token path : List Char) : Prop :=
  Glob (respelled token) path ∨ namesRoot token = true ∨ isLiteral token = true ∧
    (path = respelled token ∨ ∃ rest, path = respelled token ++ '/' :: rest)

/-- A path of the repository: named from its root, segment by segment. -/
def RepositoryPath (path : List Char) : Prop :=
  ∀ segment ∈ pieces (· = '/') path, segment ≠ [] ∧ segment ≠ ['.'] ∧ segment ≠ ['.', '.']

def DomainCovers (domain : String) (path : List Char) : Prop :=
  ∃ token ∈ domainTokens domain, TokenCovers token path

/-! ## Plain spelling -/

/-- No backslash before the first wildcard, no `./` in front, and no slash behind a token without a
wildcard. -/
def plainText (token : List Char) : Bool :=
  !(literalHead token).contains '\\' && !(['.', '/'].isPrefixOf token) &&
    !(isLiteral token && token.getLast? == some '/')

/-- A token whose text starts the paths it covers: the root has no text that does. -/
def plainlySpelled (token : List Char) : Bool := plainText token && !namesRoot token

theorem plainlySpelled_iff {token : List Char} :
    plainlySpelled token = true ↔ plainText token = true ∧ namesRoot token = false := by
  simp [plainlySpelled]

theorem literalHead_literal {token : List Char} :
    ∀ ch ∈ literalHead token, isWildcard ch = false := by
  intro ch hch
  have h := List.mem_takeWhile_imp hch
  unfold isWildcard
  simpa using h

theorem dropHere_of_not_here {text : List Char} (h : ['.', '/'].isPrefixOf text = false) :
    dropHere text = text := by
  unfold dropHere
  split
  · simp at h
  · rfl

theorem isLiteral_iff {token : List Char} :
    isLiteral token = true ↔ ∀ ch ∈ token, isWildcard ch = false := by
  unfold isLiteral
  simp

/-- What follows the literal head of a token is nothing or starts with a wildcard. -/
theorem literalHead_rest (token : List Char) :
    ∃ rest, token = literalHead token ++ rest ∧
      (rest = [] ∨ ∃ ch more, rest = ch :: more ∧ isWildcard ch = true) := by
  refine ⟨token.dropWhile fun ch => !isWildcard ch, List.takeWhile_append_dropWhile.symm, ?_⟩
  cases hrest : token.dropWhile fun ch => !isWildcard ch with
  | nil => exact .inl rfl
  | cons ch more =>
    have hhead := List.head?_dropWhile_not (fun ch => !isWildcard ch) token
    rw [hrest] at hhead
    exact .inr ⟨ch, more, rfl, by simpa using hhead⟩

theorem literalHead_of_literal {token : List Char} (h : isLiteral token = true) :
    literalHead token = token := by
  refine List.takeWhile_eq_self_iff.2 fun ch hch => ?_
  have hplain := isLiteral_iff.1 h ch hch
  unfold isWildcard at hplain
  simpa using hplain

theorem rdropWhile_append {α : Type} {p : α → Bool} {a b : List α} {x : α} (hx : x ∈ b)
    (hp : p x = false) : (a ++ b).rdropWhile p = a ++ b.rdropWhile p := by
  unfold List.rdropWhile
  rw [List.reverse_append, List.dropWhile_append, if_neg, List.reverse_append, List.reverse_reverse]
  intro hempty
  have hall := List.dropWhile_eq_nil_iff.1 (List.isEmpty_iff.1 hempty)
  rw [hall x (List.mem_reverse.2 hx)] at hp
  cases hp

/-- A plainly spelled token keeps its literal head; without a wildcard it keeps all of itself. -/
theorem respelled_of_plain {token : List Char} (h : plainText token = true) :
    (∃ rest, respelled token = literalHead token ++ rest) ∧
      (isLiteral token = true → respelled token = token) := by
  unfold plainText at h
  simp only [Bool.and_eq_true, Bool.not_eq_true', Bool.and_eq_false_iff, beq_eq_false_iff_ne,
    ne_eq] at h
  obtain ⟨⟨hbackslash, hhere⟩, hlast⟩ := h
  obtain ⟨rest, htoken, hrest⟩ := literalHead_rest token
  have hslashed : slashed token = literalHead token ++ slashed rest := by
    have happend := slashed_append (literalHead token) rest
    rw [← htoken, slashed_of_plain hbackslash] at happend
    exact happend
  -- a backslash behind a dot would stand in the literal head
  have hslashedHere : ['.', '/'].isPrefixOf (slashed token) = false := by
    by_contra hstart
    rw [Bool.not_eq_false, List.isPrefixOf_iff_prefix] at hstart
    obtain ⟨tail, htail⟩ := hstart
    rw [List.cons_append, List.cons_append, List.nil_append] at htail
    rcases token with _ | ⟨c₀, _ | ⟨c₁, token⟩⟩
    · simp [slashed] at htail
    · simp [slashed] at htail
    · obtain ⟨hdot, hslash, -⟩ : '.' = (if c₀ = '\\' then '/' else c₀) ∧
          '/' = (if c₁ = '\\' then '/' else c₁) ∧ tail = slashed token := by
        simpa [slashed] using htail
      obtain rfl : '.' = c₀ := by
        split at hdot
        · cases hdot
        · exact hdot
      split at hslash
      · rename_i hc₁
        subst hc₁
        simp [literalHead] at hbackslash
      · subst hslash
        simp at hhere
  have hdrop : dropHere (slashed token) = slashed token := dropHere_of_not_here hslashedHere
  unfold respelled
  rw [hdrop]
  have hself : isLiteral token = true → (slashed token).rdropWhile (· == '/') = token := by
    intro hliteral
    rw [literalHead_of_literal hliteral] at hbackslash
    rw [slashed_of_plain hbackslash, List.rdropWhile_eq_self_iff]
    intro hne
    have hend := hlast.resolve_left (by simp [hliteral])
    rw [List.getLast?_eq_some_getLast hne] at hend
    simpa using hend
  refine ⟨?_, hself⟩
  rcases hrest with rfl | ⟨ch, more, rfl, hch⟩
  · rw [List.append_nil] at htoken
    refine ⟨[], ?_⟩
    rw [List.append_nil, ← htoken, hself (isLiteral_iff.2 fun ch hch => ?_)]
    exact literalHead_literal ch (htoken ▸ hch)
  · refine ⟨(slashed (ch :: more)).rdropWhile (· == '/'), ?_⟩
    rw [hslashed]
    refine rdropWhile_append (x := ch) ?_ ?_
    · refine List.mem_map.2 ⟨ch, List.mem_cons_self, if_neg ?_⟩
      rintro rfl
      cases hch
    · rw [beq_eq_false_iff_ne]
      rintro rfl
      cases hch

/-- **A plainly spelled token begins the paths it covers.** -/
theorem TokenCovers.reaches {token path : List Char} (htrim : trim token = token)
    (hplain : plainlySpelled token = true) (h : TokenCovers token path) :
    Reaches (· = '/') path (matcher token) := by
  obtain ⟨htext, hroot⟩ := plainlySpelled_iff.1 hplain
  obtain ⟨⟨rest, hrespelled⟩, hself⟩ := respelled_of_plain htext
  replace h := h.imp_right fun h => h.resolve_left (by simp [hroot])
  obtain ⟨behind, htoken, hmatcher⟩ := matcher_cases htrim
  rcases hmatcher with hmatcher | ⟨rfl, hmatcher⟩
  · rw [hmatcher]
    rcases h with hglob | ⟨-, rfl | ⟨tail, rfl⟩⟩
    · rw [hrespelled] at hglob
      obtain ⟨path', rfl, -⟩ := hglob.front literalHead_literal
      exact ⟨path', rfl⟩
    · exact ⟨rest, hrespelled⟩
    · exact ⟨rest ++ '/' :: tail, by rw [hrespelled, List.append_assoc]⟩
  · rw [hmatcher]
    rw [List.append_nil] at htoken
    have hliteral : isLiteral token = true :=
      isLiteral_iff.2 fun ch hch => literalHead_literal ch (htoken ▸ hch)
    rw [hself hliteral] at h
    rcases h with hglob | ⟨-, rfl | ⟨tail, rfl⟩⟩
    · rw [← List.append_nil token] at hglob
      obtain ⟨path', rfl, hnil⟩ := hglob.front (isLiteral_iff.1 hliteral)
      cases hnil
      exact ⟨[], rfl, fun ch hch => nomatch hch⟩
    · exact ⟨[], (List.append_nil path).symm, fun ch hch => nomatch hch⟩
    · exact ⟨'/' :: tail, rfl, fun ch hch => (Option.some.inj hch).symm⟩

/-! ## Where domains meet -/

theorem isPathAncestorOrSame_of_reaches {path x y rx ry : List Char} (hx : path = x ++ rx)
    (hxslash : ∀ ch, rx.head? = some ch → ch = '/') (hy : path = y ++ ry) :
    isPathAncestorOrSame x y = true ∨ y.isPrefixOf x = true := by
  rcases fronts_cases hx hy with ⟨t, rfl, hrx⟩ | ⟨t, rfl, -⟩
  · refine .inl (isPathAncestorOrSame_append fun ch hch => hxslash ch ?_)
    rw [hrx, List.head?_append, hch]
    rfl
  · exact .inr (isPrefixOf_append y t)

/-- Matchers that begin one path and stop at its slashes overlap. -/
theorem overlap_of_common {path : List Char} {a b : Matcher} (ha : Reaches (· = '/') path a)
    (hb : Reaches (· = '/') path b) : matchersOverlap a b = true := by
  cases a with
  | front p =>
    obtain ⟨rp, hp⟩ := ha
    cases b with
    | front q =>
      obtain ⟨rq, hq⟩ := hb
      unfold matchersOverlap
      rcases fronts_cases hp hq with ⟨t, rfl, -⟩ | ⟨t, rfl, -⟩ <;> simp [isPrefixOf_append]
    | exact y =>
      obtain ⟨ry, hy, hslash⟩ := hb
      unfold matchersOverlap
      rw [Bool.or_eq_true]
      exact (isPathAncestorOrSame_of_reaches hy hslash hp).symm
  | exact x =>
    obtain ⟨rx, hx, hslash⟩ := ha
    cases b with
    | front q =>
      obtain ⟨rq, hq⟩ := hb
      unfold matchersOverlap
      rw [Bool.or_eq_true]
      exact (isPathAncestorOrSame_of_reaches hx hslash hq).symm
    | exact y =>
      obtain ⟨ry, hy, hslash'⟩ := hb
      unfold matchersOverlap
      rw [Bool.or_eq_true]
      rcases fronts_cases hx hy with ⟨t, rfl, hrx⟩ | ⟨t, rfl, hry⟩
      · refine .inl (isPathAncestorOrSame_append fun ch hch => hslash ch ?_)
        rw [hrx, List.head?_append, hch]
        rfl
      · refine .inr (isPathAncestorOrSame_append fun ch hch => hslash' ch ?_)
        rw [hry, List.head?_append, hch]
        rfl

/-- **Plainly spelled tokens that cover one path** make their domains meet. -/
theorem intersects_of_plain {a b : String} {t u path : List Char} (ht : t ∈ domainTokens a)
    (hu : u ∈ domainTokens b) (htplain : plainlySpelled t = true)
    (huplain : plainlySpelled u = true) (htcovers : TokenCovers t path)
    (hucovers : TokenCovers u path) : (Domain.parse a).intersects (.parse b) = true := by
  have hoverlap := overlap_of_common (htcovers.reaches (token_spec ht).1 htplain)
    (hucovers.reaches (token_spec hu).1 huplain)
  unfold Domain.intersects Domain.parse
  simp only [Bool.false_or, List.any_eq_true]
  exact ⟨matcher t, List.mem_map_of_mem ht, matcher u, List.mem_map_of_mem hu, hoverlap⟩

/-- Each path of a domain is covered by a plainly spelled token of it. -/
def WellSpelled (domain : String) : Prop :=
  ∀ path, RepositoryPath path → DomainCovers domain path →
    ∃ token ∈ domainTokens domain, plainlySpelled token = true ∧ TokenCovers token path

/-- If two domains share a path, they share one that plainly spelled tokens of both cover. -/
def SharePlainly (a b : String) : Prop :=
  ∀ path, RepositoryPath path → DomainCovers a path → DomainCovers b path →
    ∃ t ∈ domainTokens a, ∃ u ∈ domainTokens b, plainlySpelled t = true ∧
      plainlySpelled u = true ∧ ∃ shared, TokenCovers t shared ∧ TokenCovers u shared

/-- Two domains meet if they share a path. -/
def MeetOnCommon (a b : String) : Prop :=
  ∀ path, RepositoryPath path → DomainCovers a path → DomainCovers b path →
    (Domain.parse a).intersects (.parse b) = true

theorem meetOnCommon_of_sharePlainly {a b : String} (h : SharePlainly a b) : MeetOnCommon a b := by
  intro path hpath ha hb
  obtain ⟨t, ht, u, hu, htplain, huplain, shared, htcovers, hucovers⟩ := h path hpath ha hb
  exact intersects_of_plain ht hu htplain huplain htcovers hucovers

theorem sharePlainly_of_wellSpelled {a b : String} (ha : WellSpelled a) (hb : WellSpelled b) :
    SharePlainly a b := by
  intro path hpath hapath hbpath
  obtain ⟨t, ht, htplain, htcovers⟩ := ha path hpath hapath
  obtain ⟨u, hu, huplain, hucovers⟩ := hb path hpath hbpath
  exact ⟨t, ht, u, hu, htplain, huplain, path, htcovers, hucovers⟩

/-! ## Segments -/

/-- What a slash separates from the rest of a path is a path. -/
theorem RepositoryPath.front {path tail : List Char} (h : RepositoryPath (path ++ tail))
    (htail : ∀ ch, tail.head? = some ch → ch = '/') : RepositoryPath path := by
  cases tail with
  | nil => rwa [List.append_nil] at h
  | cons ch tail =>
    obtain rfl := htail ch rfl
    intro segment hsegment
    refine h segment ?_
    rw [pieces_cut _ _ _ (by simp)]
    exact List.mem_append_left _ hsegment

/-- No slash ends a path or follows another. -/
theorem RepositoryPath.not_slash {path tail : List Char}
    (h : RepositoryPath (path ++ '/' :: tail)) : tail ≠ [] ∧ ∀ rest, tail ≠ '/' :: rest := by
  unfold RepositoryPath at h
  rw [pieces_cut _ _ _ (by simp)] at h
  constructor
  · rintro rfl
    exact (h [] (List.mem_append_right _ (List.mem_singleton.2 rfl))).1 rfl
  · rintro rest rfl
    refine (h [] (List.mem_append_right _ ?_)).1 rfl
    simp [pieces]

theorem RepositoryPath.not_here {tail : List Char} (h : RepositoryPath ('.' :: '/' :: tail)) :
    False := by
  refine (h ['.'] ?_).2.1 rfl
  have hcut := pieces_cut (· = '/') ['.'] tail (show decide ('/' = '/') = true by simp)
  rw [List.singleton_append] at hcut
  rw [hcut]
  exact List.mem_append_left _ (by simp [pieces])

theorem RepositoryPath.not_root {path : List Char} (h : RepositoryPath path) :
    path ≠ [] ∧ path ≠ ['.'] := by
  constructor
  · rintro rfl
    exact (h [] (by simp [pieces])).1 rfl
  · rintro rfl
    exact (h ['.'] (by simp [pieces])).2.1 rfl

/-- A front of a path that a slash cuts off is a plainly spelled token. -/
theorem plainlySpelled_of_path {path tail : List Char} (h : RepositoryPath (path ++ tail))
    (htail : ∀ ch, tail.head? = some ch → ch = '/') (hbackslash : '\\' ∉ path) :
    plainlySpelled path = true := by
  obtain ⟨hempty, hdot⟩ := (h.front htail).not_root
  have hhead : (literalHead path).contains '\\' = false := by
    by_contra hmem
    rw [Bool.not_eq_false, List.contains_iff_mem] at hmem
    exact hbackslash ((List.takeWhile_prefix _).subset hmem)
  have hhere : ['.', '/'].isPrefixOf path = false := by
    by_contra hstart
    rw [Bool.not_eq_false, List.isPrefixOf_iff_prefix] at hstart
    obtain ⟨rest, rfl⟩ := hstart
    exact RepositoryPath.not_here h
  have hlast : path.getLast? ≠ some '/' := by
    intro hlast
    obtain ⟨front, rfl⟩ := List.getLast?_eq_some_iff.1 hlast
    rw [List.append_assoc] at h
    obtain ⟨hne, hslash⟩ := RepositoryPath.not_slash h
    cases tail with
    | nil => exact hne rfl
    | cons ch tail =>
      obtain rfl := htail ch rfl
      exact hslash tail rfl
  have htext : plainText path = true := by
    unfold plainText
    rw [hhead, hhere, Bool.eq_false_iff.2 (fun h => hlast (beq_iff_eq.1 h))]
    simp
  refine plainlySpelled_iff.2 ⟨htext, ?_⟩
  cases hliteral : isLiteral path with
  | false => simp [namesRoot, hliteral]
  | true => simp [namesRoot, (respelled_of_plain htext).2 hliteral, hempty, hdot]

/-! ## What plain spelling is needed for -/

theorem dropHere_suffix (text : List Char) : dropHere text <:+ text := by
  fun_induction dropHere text with
  | case1 rest ih => exact ih.trans ⟨['.', '/'], rfl⟩
  | case2 text _ => exact List.suffix_refl text

/-- The characters of a respelled token are the token's own and slashes. -/
theorem mem_respelled {token : List Char} {ch : Char} (h : ch ∈ respelled token) :
    ch ≠ '\\' ∧ (ch = '/' ∨ ch ∈ token) := by
  have hslashed : ch ∈ slashed token :=
    (dropHere_suffix _).subset ((List.rdropWhile_prefix _ _).subset h)
  obtain ⟨other, hother, rfl⟩ := List.mem_map.1 hslashed
  split
  · exact ⟨by decide, .inl rfl⟩
  · rename_i hne
    exact ⟨hne, .inr hother⟩

/-- Tokens without wildcards and white space. -/
def Bare (domain : String) : Prop :=
  ∀ token ∈ domainTokens domain,
    isLiteral token = true ∧ ∀ ch ∈ token, isWhiteSpace ch = false

theorem domainTokens_single {token : List Char} (hne : token ≠ [])
    (hsep : ∀ ch ∈ token, isDomainSeparator ch = false)
    (hspace : ∀ ch ∈ token, isWhiteSpace ch = false) :
    domainTokens (String.ofList token) = [token] := by
  have hpieces : pieces (fun ch => decide (ch = ',' ∨ ch = ' ' ∨ ch = '\t' ∨ ch = '\n' ∨ ch = '\r'))
      token = [token] := pieces_of_none hsep
  unfold domainTokens
  rw [String.toList_ofList, hpieces]
  have hempty : token.isEmpty = false := by simpa using hne
  simp [trim_of_not_space hspace, hempty]

/-- The parts of the check of a conflict domain that look at one token. -/
theorem isConflictDomain_token {domain : String} {token : List Char}
    (h : isConflictDomain domain = true) (htoken : token ∈ domainTokens domain) :
    ':' ∉ token ∧ '<' ∉ token ∧ '>' ∉ token := by
  unfold isConflictDomain at h
  have hall := (Bool.and_eq_true _ _ ▸ h).2
  have := List.all_eq_true.1 hall token htoken
  simp only [Bool.and_eq_true, Bool.not_eq_true', Bool.or_eq_false_iff] at this
  obtain ⟨⟨⟨-, hcolon⟩, hless, hgreater⟩, -⟩ := this
  exact ⟨by simpa using hcolon, by simpa using hless, by simpa using hgreater⟩

theorem isConflictDomain_single {token : List Char}
    (htokens : domainTokens (String.ofList token) = [token]) (hpath : RepositoryPath token)
    (hbackslash : '\\' ∉ token) (hcolon : ':' ∉ token) (hless : '<' ∉ token)
    (hgreater : '>' ∉ token) : isConflictDomain (String.ofList token) = true := by
  have hpieces : pieces (fun ch => decide (ch = '/' ∨ ch = '\\')) token =
      pieces (fun ch => decide (ch = '/')) token := by
    refine pieces_congr fun ch hch => ?_
    have hne : ch ≠ '\\' := fun heq => hbackslash (heq ▸ hch)
    simp [hne]
  have hparent : (pieces (fun ch => decide (ch = '/')) token).contains ['.', '.'] = false := by
    by_contra hmem
    rw [Bool.not_eq_false, List.contains_iff_mem] at hmem
    exact (hpath _ hmem).2.2 rfl
  have hhead : token.head? ≠ some '/' ∧ token.head? ≠ some '\\' := by
    cases token with
    | nil => exact ⟨nofun, nofun⟩
    | cons ch token =>
      constructor
      · intro heq
        obtain rfl := Option.some.inj heq
        exact (hpath [] (by simp [pieces])).1 rfl
      · intro heq
        obtain rfl := Option.some.inj heq
        exact hbackslash List.mem_cons_self
  unfold isConflictDomain
  simp only [htokens, List.isEmpty_cons, Bool.not_false, List.all_cons, List.all_nil, hpieces,
    hparent]
  simp [hhead.1, hhead.2, hcolon, hless, hgreater]

theorem matcher_of_literal {token : List Char} (htrim : trim token = token)
    (hliteral : isLiteral token = true) : matcher token = .exact token := by
  have hhead := literalHead_of_literal hliteral
  unfold literalHead at hhead
  unfold matcher
  dsimp only
  rw [htrim, hhead]
  exact if_neg (lt_irrefl _)

theorem isPathAncestorOrSame_iff {ancestor path : List Char} :
    isPathAncestorOrSame ancestor path = true ↔
      ∃ tail, path = ancestor ++ tail ∧ ∀ ch, tail.head? = some ch → ch = '/' := by
  constructor
  · intro h
    unfold isPathAncestorOrSame stripFront at h
    rw [Bool.or_eq_true, beq_iff_eq] at h
    rcases h with rfl | h
    · exact ⟨[], (List.append_nil path).symm, fun ch hch => nomatch hch⟩
    · split at h
      · rename_i suffix hsuffix
        split at hsuffix
        · rename_i hstart
          obtain ⟨tail, rfl⟩ := List.isPrefixOf_iff_prefix.1 hstart
          rw [List.drop_left] at hsuffix
          obtain rfl := Option.some.inj hsuffix
          refine ⟨tail, rfl, fun ch hch => ?_⟩
          rw [beq_iff_eq, hch] at h
          exact Option.some.inj h
        · cases hsuffix
      · cases h
  · rintro ⟨tail, rfl, htail⟩
    exact isPathAncestorOrSame_append htail

/-- A token without wildcards covers itself and what is below it. -/
theorem tokenCovers_literal {token path : List Char} (hliteral : isLiteral token = true)
    (hroot : namesRoot token = false) :
    TokenCovers token path ↔
      ∃ tail, path = respelled token ++ tail ∧ ∀ ch, tail.head? = some ch → ch = '/' := by
  have hrespelled : ∀ ch ∈ respelled token, isWildcard ch = false := by
    intro ch hch
    rcases (mem_respelled hch).2 with rfl | hch
    · rfl
    · exact isLiteral_iff.1 hliteral ch hch
  constructor
  · rintro (hglob | habove | ⟨-, rfl | ⟨rest, rfl⟩⟩)
    · rw [← List.append_nil (respelled token)] at hglob
      obtain ⟨rest, rfl, hnil⟩ := hglob.front hrespelled
      cases hnil
      exact ⟨[], rfl, fun ch hch => nomatch hch⟩
    · cases hroot.symm.trans habove
    · exact ⟨[], (List.append_nil _).symm, fun ch hch => nomatch hch⟩
    · exact ⟨'/' :: rest, rfl, fun ch hch => (Option.some.inj hch).symm⟩
  · rintro ⟨tail, rfl, htail⟩
    cases tail with
    | nil => exact .inr (.inr ⟨hliteral, .inl (List.append_nil _)⟩)
    | cons ch tail =>
      obtain rfl := htail ch rfl
      exact .inr (.inr ⟨hliteral, .inr ⟨tail, rfl⟩⟩)

/-- A file below a token, with a name of `n` characters. -/
def fileBelow (token : List Char) (n : Nat) : List Char :=
  respelled token ++ '/' :: List.replicate (n + 1) 'x'

section FileBelow

variable {token : List Char} (n : Nat)

theorem mem_fileBelow {ch : Char} (h : ch ∈ fileBelow token n) :
    ch ≠ '\\' ∧ (ch = '/' ∨ ch = 'x' ∨ ch ∈ token) := by
  rcases List.mem_append.1 h with h | h
  · exact ⟨(mem_respelled h).1, (mem_respelled h).2.imp_right .inr⟩
  · rcases List.mem_cons.1 h with rfl | h
    · exact ⟨by decide, .inl rfl⟩
    · obtain rfl := List.eq_of_mem_replicate h
      exact ⟨by decide, .inr (.inl rfl)⟩

theorem fileBelow_path (h : RepositoryPath (respelled token)) :
    RepositoryPath (fileBelow token n) := by
  have hname : pieces (fun ch => decide (ch = '/')) (List.replicate (n + 1) 'x') =
      [List.replicate (n + 1) 'x'] := by
    refine pieces_of_none fun ch hch => ?_
    obtain rfl := List.eq_of_mem_replicate hch
    rfl
  unfold RepositoryPath fileBelow
  rw [pieces_cut _ _ _ (by simp), hname]
  intro segment hsegment
  rcases List.mem_append.1 hsegment with hsegment | hsegment
  · exact h segment hsegment
  · obtain rfl := List.mem_singleton.1 hsegment
    rw [List.replicate_succ]
    simp

/-- A literal token that names a file below another, or a directory above it, names the other or a
directory above it. -/
theorem ancestor_of_fileBelow {other : List Char} (hshort : other.length ≤ n)
    (h : isPathAncestorOrSame other (fileBelow token n) = true) :
    ∃ tail, respelled token = other ++ tail ∧ ∀ ch, tail.head? = some ch → ch = '/' := by
  obtain ⟨tail, hfile, htail⟩ := isPathAncestorOrSame_iff.1 h
  unfold fileBelow at hfile
  rcases List.append_eq_append_iff.1 hfile with ⟨u, hother, hrest⟩ | ⟨u, hrespelled, hrest⟩
  · -- the other ends within the name: at its start, for a slash follows
    cases u with
    | nil => exact ⟨[], by rw [hother, List.append_nil, List.append_nil], fun ch hch => nomatch hch⟩
    | cons ch u =>
      rw [List.cons_append] at hrest
      obtain ⟨rfl, hname⟩ := List.cons.inj hrest
      cases tail with
      | nil =>
        have hlength := congrArg List.length hname
        rw [List.append_nil, List.length_replicate] at hlength
        rw [hother, List.length_append, List.length_cons] at hshort
        omega
      | cons slash tail =>
        obtain rfl := htail slash rfl
        have hmem : '/' ∈ List.replicate (n + 1) 'x' := by rw [hname]; simp
        cases List.eq_of_mem_replicate hmem
  · refine ⟨u, hrespelled, fun ch hch => htail ch ?_⟩
    rw [hrest, List.head?_append, hch]
    rfl

end FileBelow

/-- A path of `x`, slashes and characters of a token is a domain of its own, plainly spelled. -/
theorem lone_path {a : String} {token file : List Char} (haccepted : isConflictDomain a = true)
    (htoken : token ∈ domainTokens a) (hliteral : isLiteral token = true)
    (hspace : ∀ ch ∈ token, isWhiteSpace ch = false) (hfile : RepositoryPath file)
    (hchars : ∀ ch ∈ file, ch ≠ '\\' ∧ (ch = '/' ∨ ch = 'x' ∨ ch ∈ token)) :
    domainTokens (String.ofList file) = [file] ∧ isLiteral file = true ∧
      plainlySpelled file = true ∧ isConflictDomain (String.ofList file) = true := by
  have hbackslash : '\\' ∉ file := fun hmem => (hchars _ hmem).1 rfl
  have hfree : ∀ bad : Char, bad ≠ '/' → bad ≠ 'x' → bad ∉ token → bad ∉ file := by
    intro bad hslash hx hbad hmem
    rcases (hchars _ hmem).2 with heq | heq | hmem
    · exact hslash heq
    · exact hx heq
    · exact hbad hmem
  have htokens : domainTokens (String.ofList file) = [file] := by
    refine domainTokens_single hfile.not_root.1 ?_ ?_
    · intro ch hch
      rcases (hchars _ hch).2 with rfl | rfl | hch
      · rfl
      · rfl
      · exact (token_spec htoken).2 ch hch
    · intro ch hch
      rcases (hchars _ hch).2 with rfl | rfl | hch
      · rfl
      · rfl
      · exact hspace ch hch
  have hfileLiteral : isLiteral file = true := by
    refine isLiteral_iff.2 fun ch hch => ?_
    rcases (hchars _ hch).2 with rfl | rfl | hch
    · rfl
    · rfl
    · exact isLiteral_iff.1 hliteral ch hch
  obtain ⟨hcolon, hless, hgreater⟩ := isConflictDomain_token haccepted htoken
  exact ⟨htokens, hfileLiteral,
    @plainlySpelled_of_path _ [] (by rwa [List.append_nil]) (fun ch hch => by cases hch) hbackslash,
    isConflictDomain_single htokens hfile hbackslash (hfree ':' (by decide) (by decide) hcolon)
      (hfree '<' (by decide) (by decide) hless) (hfree '>' (by decide) (by decide) hgreater)⟩

/-- A bare domain that meets a lone path does so through a token that names it, a directory above it
or a path below it. -/
theorem meets_lone {a : String} {file : List Char} (hbare : Bare a)
    (htokens : domainTokens (String.ofList file) = [file]) (hliteral : isLiteral file = true)
    (h : (Domain.parse a).intersects (.parse (String.ofList file)) = true) :
    ∃ other ∈ domainTokens a, isLiteral other = true ∧
      (isPathAncestorOrSame other file = true ∨ isPathAncestorOrSame file other = true) := by
  unfold Domain.intersects Domain.parse at h
  rw [htokens] at h
  simp only [Bool.false_or, List.any_eq_true, List.mem_map, List.map_cons, List.map_nil,
    List.mem_singleton] at h
  obtain ⟨_, ⟨other, hother, rfl⟩, _, rfl, hoverlap⟩ := h
  obtain ⟨hotherLiteral, -⟩ := hbare other hother
  have htrim : trim file = file :=
    (token_spec (by rw [htokens]; exact List.mem_singleton.2 rfl)).1
  rw [matcher_of_literal (token_spec hother).1 hotherLiteral, matcher_of_literal htrim hliteral,
    matchersOverlap, Bool.or_eq_true] at hoverlap
  exact ⟨other, hother, hotherLiteral, hoverlap⟩

theorem tokens_short (a : String) : ∀ other ∈ domainTokens a,
    other.length ≤ (domainTokens a).flatten.length :=
  fun _ hother => (List.sublist_flatten_of_mem hother).length_le

/-- A file of a name longer than every token keeps clear of a bare domain that has the root. -/
theorem root_misses {a : String} {token : List Char} (haccepted : isConflictDomain a = true)
    (hbare : Bare a) (htoken : token ∈ domainTokens a) (hroot : namesRoot token = true)
    (h : ∀ b, isConflictDomain b = true →
      (∀ token ∈ domainTokens b, plainlySpelled token = true) → MeetOnCommon a b) : False := by
  obtain ⟨hliteral, hspace⟩ := hbare token htoken
  have hshort := tokens_short a
  generalize (domainTokens a).flatten.length = n at hshort
  have hfile : RepositoryPath (List.replicate (n + 1) 'x') := by
    have hname : pieces (fun ch => decide (ch = '/')) (List.replicate (n + 1) 'x') =
        [List.replicate (n + 1) 'x'] := by
      refine pieces_of_none fun ch hch => ?_
      obtain rfl := List.eq_of_mem_replicate hch
      rfl
    intro segment hsegment
    rw [hname] at hsegment
    obtain rfl := List.mem_singleton.1 hsegment
    rw [List.replicate_succ]
    simp
  obtain ⟨htokens, hfileLiteral, hplain, haccepts⟩ := lone_path haccepted htoken hliteral hspace
    hfile fun ch hch => by
      obtain rfl := List.eq_of_mem_replicate hch
      exact ⟨by decide, .inr (.inl rfl)⟩
  have hmeets := h _ haccepts (by rw [htokens]; simpa using hplain) _ hfile
    ⟨token, htoken, .inr (.inl hroot)⟩
    ⟨_, by rw [htokens]; exact List.mem_singleton.2 rfl, .inr (.inr ⟨hfileLiteral,
      .inl ((respelled_of_plain (plainlySpelled_iff.1 hplain).1).2 hfileLiteral).symm⟩)⟩
  obtain ⟨other, hother, -, hover | hover⟩ := meets_lone hbare htokens hfileLiteral hmeets
  -- no slash is in the name, and no token is as long
  · obtain ⟨tail, hlong, hslash⟩ := isPathAncestorOrSame_iff.1 hover
    have hlength := congrArg List.length hlong
    have hother := hshort other hother
    cases tail with
    | nil =>
      rw [List.append_nil, List.length_replicate] at hlength
      omega
    | cons ch tail =>
      obtain rfl := hslash ch rfl
      have hmem : '/' ∈ List.replicate (n + 1) 'x' := by rw [hlong]; simp
      cases List.eq_of_mem_replicate hmem
  · obtain ⟨tail, hlong, -⟩ := isPathAncestorOrSame_iff.1 hover
    have hother := hshort other hother
    rw [hlong, List.length_append, List.length_replicate] at hother
    omega

/-- A domain without wildcards that meets every plainly spelled one on common paths is well
spelled: a path that only its other tokens cover has a file below it that tells them apart. -/
theorem wellSpelled_of_meets {a : String} (haccepted : isConflictDomain a = true) (hbare : Bare a)
    (h : ∀ b, isConflictDomain b = true →
      (∀ token ∈ domainTokens b, plainlySpelled token = true) → MeetOnCommon a b) :
    WellSpelled a := by
  rintro path hpath ⟨token, htoken, hcovers⟩
  by_contra hnone
  obtain ⟨hliteral, hspace⟩ := hbare token htoken
  have hroot : namesRoot token = false :=
    Bool.eq_false_iff.2 fun hroot => root_misses haccepted hbare htoken hroot h
  obtain ⟨tail, rfl, htail⟩ := (tokenCovers_literal hliteral hroot).1 hcovers
  have hshort := tokens_short a
  generalize (domainTokens a).flatten.length = n at hshort
  -- the file is a token of its own
  have hfile := fileBelow_path n (hpath.front htail)
  obtain ⟨htokens, hfileLiteral, hplain, haccepts⟩ := lone_path haccepted htoken hliteral hspace
    hfile fun ch hch => mem_fileBelow n hch
  have hmeets := h _ haccepts (by rw [htokens]; simpa using hplain) _ hfile
    ⟨token, htoken, (tokenCovers_literal hliteral hroot).2
      ⟨'/' :: List.replicate (n + 1) 'x', rfl, fun ch hch => (Option.some.inj hch).symm⟩⟩
    ⟨_, by rw [htokens]; exact List.mem_singleton.2 rfl, .inr (.inr ⟨hfileLiteral,
      .inl ((respelled_of_plain (plainlySpelled_iff.1 hplain).1).2 hfileLiteral).symm⟩)⟩
  -- a token of the domain that meets it is plainly spelled and covers the path
  obtain ⟨other, hother, hotherLiteral, hoverlap | hoverlap⟩ :=
    meets_lone hbare htokens hfileLiteral hmeets
  · obtain ⟨rest, hrest, hslash⟩ := ancestor_of_fileBelow n (hshort other hother) hoverlap
    rw [hrest, List.append_assoc] at hpath
    have hhead : ∀ ch, (rest ++ tail).head? = some ch → ch = '/' := by
      intro ch hch
      cases rest with
      | nil => exact htail ch hch
      | cons first rest => exact hslash ch hch
    have hotherPlain : plainlySpelled other = true := by
      refine plainlySpelled_of_path hpath hhead fun hmem => ?_
      have hmem : '\\' ∈ respelled token := by rw [hrest]; exact List.mem_append_left _ hmem
      exact (mem_respelled hmem).1 rfl
    obtain ⟨hotherText, hotherRoot⟩ := plainlySpelled_iff.1 hotherPlain
    refine hnone ⟨other, hother, hotherPlain, (tokenCovers_literal hotherLiteral hotherRoot).2 ?_⟩
    exact ⟨rest ++ tail,
      by rw [(respelled_of_plain hotherText).2 hotherLiteral, hrest, List.append_assoc], hhead⟩
  · obtain ⟨rest, hlong, -⟩ := isPathAncestorOrSame_iff.1 hoverlap
    have hlength := hshort other hother
    rw [hlong, fileBelow, List.length_append, List.length_append, List.length_cons,
      List.length_replicate] at hlength
    omega

/-! ## Intersection -/

example : isConflictDomain "." = true ∧
    (Domain.parse ".").intersects (.parse "engine/src/lib.rs") = false := by decide +kernel

end Orchestrail
