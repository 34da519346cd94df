import Orchestrail.Proof.Agreement
import Orchestrail.Spec.Policy

/-!
# The early policy gate and the exact one

The early gate compares what stands before the first wildcard of a domain's token and of a denied
pattern's tokens; the exact gate runs the pattern over the path. Both texts before a wildcard begin
the path (`Reaches`), so that they agree as far as they go and the early gate sees the overlap
(`overlap_of_reaches`). This needs the texts to be spelled as the path is: `misspelled` says when
they are not.
-/

namespace Orchestrail

open Text Outcome

/-! ## What a pattern says of the front of a path -/

/-- The characters a glob does not take for themselves. -/
def isGlobStar (ch : Char) : Bool := ch = '*' || ch = '?'

/-- **A literal front of a pattern** is one of the path. -/
theorem globList_append {literal pattern path : List Char}
    (hliteral : ∀ ch ∈ literal, isGlobStar ch = false)
    (h : globList (literal ++ pattern) path = true) :
    ∃ rest, path = literal ++ rest ∧ globList pattern rest = true := by
  induction literal generalizing path with
  | nil => exact ⟨path, rfl, h⟩
  | cons ch literal ih =>
    have hch := hliteral ch List.mem_cons_self
    unfold isGlobStar at hch
    simp only [Bool.or_eq_false_iff, decide_eq_false_iff_not] at hch
    cases path with
    | nil => simp [globList, hch.1] at h
    | cons other path =>
      have hstep : globList (ch :: (literal ++ pattern)) (other :: path) =
          (decide (ch = other) && globList (literal ++ pattern) path) := by
        simp [globList, hch.1, hch.2]
      rw [List.cons_append, hstep, Bool.and_eq_true, decide_eq_true_eq] at h
      obtain ⟨rfl, h⟩ := h
      obtain ⟨rest, hpath, hrest⟩ := ih (fun c hc => hliteral c (List.mem_cons_of_mem _ hc)) h
      exact ⟨rest, by rw [hpath, List.cons_append], hrest⟩

/-! ## Two matchers over one path -/

/-- What a domain is split at. -/
def isDomainSeparator (ch : Char) : Bool :=
  decide (ch = ',' ∨ ch = ' ' ∨ ch = '\t' ∨ ch = '\n' ∨ ch = '\r')

def Matcher.text : Matcher → List Char
  | .exact path => path
  | .front path => path

/-- A matcher begins a path; behind a whole one the path ends or goes on with a character that
stops it. -/
def Reaches (stops : Char → Prop) (path : List Char) : Matcher → Prop
  | .front literal => ∃ rest, path = literal ++ rest
  | .exact literal => ∃ rest, path = literal ++ rest ∧ ∀ ch, rest.head? = some ch → stops ch

/-- Of two fronts of a path one begins the other. -/
theorem fronts_cases {path a b ra rb : List Char} (ha : path = a ++ ra) (hb : path = b ++ rb) :
    (∃ t, b = a ++ t ∧ ra = t ++ rb) ∨ ∃ t, a = b ++ t ∧ rb = t ++ ra := by
  have heq : a ++ ra = b ++ rb := ha.symm.trans hb
  rcases List.append_eq_append_iff.1 heq with ⟨t, rfl, rfl⟩ | ⟨t, rfl, rfl⟩
  · exact .inl ⟨t, rfl, rfl⟩
  · exact .inr ⟨t, rfl, rfl⟩

theorem isPrefixOf_append (a t : List Char) : a.isPrefixOf (a ++ t) = true :=
  List.isPrefixOf_iff_prefix.2 (List.prefix_append a t)

/-- A path is an ancestor of itself and of what a slash separates from it. -/
theorem isPathAncestorOrSame_append {ancestor t : List Char}
    (h : ∀ ch, t.head? = some ch → ch = '/') :
    isPathAncestorOrSame ancestor (ancestor ++ t) = true := by
  unfold isPathAncestorOrSame stripFront
  cases t with
  | nil => simp
  | cons ch t =>
    obtain rfl := h ch rfl
    simp [isPrefixOf_append]

/-- **Matchers that begin one path overlap.** -/
theorem overlap_of_reaches {path : List Char} {token pattern : Matcher}
    (htoken : Reaches (· = '/') path token)
    (hpattern : Reaches (isDomainSeparator · = true) path pattern)
    (hclean : ∀ ch ∈ token.text, isDomainSeparator ch = false) :
    matchersOverlap token pattern = true := by
  -- a token that goes on behind a whole pattern would go on with a separator
  have hstop : ∀ {x t rest rx : List Char}, token.text = x ++ t → rx = t ++ rest →
      (∀ ch, rx.head? = some ch → isDomainSeparator ch = true) → t = [] := by
    intro x t rest rx htext hrx hhead
    cases t with
    | nil => rfl
    | cons ch t =>
      have hsep := hhead ch (by rw [hrx]; rfl)
      have hmem : ch ∈ token.text := by rw [htext]; simp
      rw [hclean ch hmem] at hsep
      cases hsep
  cases token with
  | front k =>
    obtain ⟨rk, hk⟩ := htoken
    cases pattern with
    | front h =>
      obtain ⟨rh, hh⟩ := hpattern
      unfold matchersOverlap
      rcases fronts_cases hk hh with ⟨t, rfl, -⟩ | ⟨t, rfl, -⟩ <;> simp [isPrefixOf_append]
    | exact x =>
      obtain ⟨rx, hx, hhead⟩ := hpattern
      unfold matchersOverlap
      rcases fronts_cases hk hx with ⟨t, rfl, -⟩ | ⟨t, htext, hrx⟩
      · simp [isPrefixOf_append]
      · obtain rfl := hstop htext hrx hhead
        rw [List.append_nil] at htext
        subst htext
        have hself := isPrefixOf_append k []
        rw [List.append_nil] at hself
        simp [hself]
  | exact y =>
    obtain ⟨ry, hy, hslash⟩ := htoken
    cases pattern with
    | front h =>
      obtain ⟨rh, hh⟩ := hpattern
      unfold matchersOverlap
      rcases fronts_cases hy hh with ⟨t, rfl, hry⟩ | ⟨t, rfl, -⟩
      · have hhead : ∀ ch, t.head? = some ch → ch = '/' := by
          intro ch hch
          refine hslash ch ?_
          rw [hry, List.head?_append, hch]
          rfl
        simp [isPathAncestorOrSame_append hhead]
      · simp [isPrefixOf_append]
    | exact x =>
      obtain ⟨rx, hx, hhead⟩ := hpattern
      unfold matchersOverlap
      rcases fronts_cases hy hx with ⟨t, rfl, hry⟩ | ⟨t, htext, hrx⟩
      · have hhead' : ∀ ch, t.head? = some ch → ch = '/' := by
          intro ch hch
          refine hslash ch ?_
          rw [hry, List.head?_append, hch]
          rfl
        simp [isPathAncestorOrSame_append hhead']
      · obtain rfl := hstop htext hrx hhead
        rw [List.append_nil] at htext
        subst htext
        have hself : isPathAncestorOrSame y y = true := by simp [isPathAncestorOrSame]
        simp [hself]

/-! ## Tokens -/

/-- What stands before the first wildcard of a token. -/
def literalHead (token : List Char) : List Char :=
  token.takeWhile fun ch => !(ch == '*' || ch == '?' || ch == '[')

theorem literalHead_plain {token : List Char} :
    ∀ ch ∈ literalHead token, isGlobStar ch = false := by
  intro ch hch
  have h := List.mem_takeWhile_imp hch
  unfold isGlobStar
  simp only [Bool.not_eq_true', Bool.or_eq_false_iff, beq_eq_false_iff_ne, ne_eq] at h
  simp [h.1.1, h.1.2]

/-- The matcher of a token: its literal head, or all of it. -/
theorem matcher_cases {token : List Char} (htrim : trim token = token) :
    ∃ rest, token = literalHead token ++ rest ∧
      (matcher token = .front (literalHead token) ∨ rest = [] ∧ matcher token = .exact token) := by
  have hparts : literalHead token ++
      token.dropWhile (fun ch => !(ch == '*' || ch == '?' || ch == '['))
      = token := List.takeWhile_append_dropWhile
  refine ⟨_, hparts.symm, ?_⟩
  unfold matcher
  dsimp only
  rw [htrim]
  change (if (literalHead token).length < token.length then Matcher.front (literalHead token)
    else .exact token) = _ ∨ _ ∧ (if (literalHead token).length < token.length then
      Matcher.front (literalHead token) else .exact token) = _
  by_cases hlt : (literalHead token).length < token.length
  · exact .inl (if_pos hlt)
  · refine .inr ⟨?_, if_neg hlt⟩
    have hlength := congrArg List.length hparts
    rw [List.length_append] at hlength
    exact List.length_eq_zero_iff.1 (by omega)

theorem slashed_append (a b : List Char) : slashed (a ++ b) = slashed a ++ slashed b :=
  List.map_append

theorem slashed_of_plain {s : List Char} (h : s.contains '\\' = false) : slashed s = s := by
  unfold slashed
  refine (List.map_congr_left fun ch hch => ?_).trans (List.map_id s)
  refine if_neg fun heq => ?_
  subst heq
  rw [List.contains_iff_mem.2 hch] at h
  cases h

theorem slashed_slashed (s : List Char) : slashed (slashed s) = slashed s := by
  refine slashed_of_plain ?_
  by_contra hcontains
  rw [Bool.not_eq_false, List.contains_iff_mem] at hcontains
  obtain ⟨ch, -, hch⟩ := List.mem_map.1 hcontains
  split at hch
  · cases hch
  · rename_i hne
    exact hne hch

/-- A token is trimmed and has no separator. -/
theorem token_spec {spec : String} {token : List Char} (h : token ∈ domainTokens spec) :
    trim token = token ∧ ∀ ch ∈ token, isDomainSeparator ch = false := by
  unfold domainTokens at h
  obtain ⟨piece, hpiece, rfl⟩ := List.mem_map.1 (List.mem_filter.1 h).1
  exact ⟨trim_trim piece, fun ch hch =>
    piece_not_sep hpiece ch ((trim_within piece).subset hch)⟩

/-! ## The two gates -/

/-- A path lies in a token: the token's glob matches it, or the token is literal and names it or a
directory above it. -/
def Covers (token : List Char) (path : String) : Prop :=
  globMatches (String.ofList token) path = true ∨
    (∀ ch ∈ token, isGlobStar ch = false) ∧ (slashed path.toList = slashed token ∨
      ∃ rest, slashed path.toList = slashed token ++ '/' :: rest)

/-- A text that the two gates read alike: no backslash stands before its first wildcard. -/
def plainHead (token : List Char) : Bool := !(literalHead token).contains '\\'

/-- The first token of a pattern begins it and is cut off by a separator or its end. -/
def firstTokenBegins (pattern : String) : Bool :=
  match domainTokens pattern with
  | [] => false
  | first :: _ => first.isPrefixOf pattern.toList && plainHead first &&
      (pattern.toList.drop first.length).head?.all isDomainSeparator

/-- A denied pattern, a token of the domain or a path that the two gates do not read alike. -/
def misspelled (pattern : String) (token : List Char) (path : String) : Bool :=
  !(firstTokenBegins pattern && plainHead token &&
    trim (slashed path.toList) == slashed path.toList)

theorem covers_reaches {token : List Char} {path : String} (htrim : trim token = token)
    (hplain : plainHead token = true) (h : Covers token path) :
    Reaches (· = '/') (slashed path.toList) (matcher token) := by
  obtain ⟨rest, htoken, hmatcher⟩ := matcher_cases htrim
  have hhead : slashed (literalHead token) = literalHead token :=
    slashed_of_plain (by simpa [plainHead] using hplain)
  have hslashed : slashed token = literalHead token ++ slashed rest := by
    have happend := slashed_append (literalHead token) rest
    rw [← htoken, hhead] at happend
    exact happend
  -- the glob of the token, or the token itself, begins the path with the literal head
  have hfront : ∃ path', slashed path.toList = literalHead token ++ path' ∧
      (rest = [] → ∀ ch, path'.head? = some ch → ch = '/') := by
    rcases h with hglob | ⟨-, heq | ⟨tail, heq⟩⟩
    · unfold globMatches at hglob
      rw [String.toList_ofList, hslashed] at hglob
      obtain ⟨path', hpath, hrest⟩ := globList_append literalHead_plain hglob
      refine ⟨path', hpath, ?_⟩
      rintro rfl ch hch
      have hnil : path'.isEmpty = true := hrest
      rw [List.isEmpty_iff.1 hnil] at hch
      cases hch
    · refine ⟨slashed rest, heq.trans hslashed, ?_⟩
      rintro rfl ch hch
      cases hch
    · refine ⟨slashed rest ++ '/' :: tail, ?_, ?_⟩
      · rw [heq, hslashed, List.append_assoc]
      · rintro rfl ch hch
        exact (Option.some.inj hch).symm
  obtain ⟨path', hpath, hend⟩ := hfront
  rcases hmatcher with hmatcher | ⟨rfl, hmatcher⟩
  · rw [hmatcher]
    exact ⟨path', hpath⟩
  · rw [hmatcher]
    rw [List.append_nil] at htoken
    refine ⟨path', ?_, hend rfl⟩
    rw [hpath, ← htoken]

theorem denies_reaches {pattern : String} {first : List Char} {tokens : List (List Char)}
    {path : List Char} (htokens : domainTokens pattern = first :: tokens)
    (hbegins : firstTokenBegins pattern = true)
    (h : globList (slashed pattern.toList) path = true) :
    Reaches (isDomainSeparator · = true) path (matcher first) := by
  have hfirst : first ∈ domainTokens pattern := by rw [htokens]; simp
  have htrim := (token_spec hfirst).1
  unfold firstTokenBegins at hbegins
  rw [htokens] at hbegins
  simp only [Bool.and_eq_true] at hbegins
  obtain ⟨⟨hbegin, hplain⟩, hcut⟩ := hbegins
  obtain ⟨behind, hbehind⟩ := List.isPrefixOf_iff_prefix.1 hbegin
  rw [← hbehind, List.drop_left] at hcut
  obtain ⟨rest, hfirst, hmatcher⟩ := matcher_cases htrim
  have hhead : slashed (literalHead first) = literalHead first :=
    slashed_of_plain (by simpa [plainHead] using hplain)
  have hslashed : slashed pattern.toList = literalHead first ++ slashed (rest ++ behind) := by
    have happend := slashed_append (literalHead first) (rest ++ behind)
    rw [← List.append_assoc, ← hfirst, hbehind, hhead] at happend
    exact happend
  rw [hslashed] at h
  obtain ⟨path', hpath, hrest⟩ := globList_append literalHead_plain h
  rcases hmatcher with hmatcher | ⟨rfl, hmatcher⟩
  · rw [hmatcher]
    exact ⟨path', hpath⟩
  · rw [hmatcher]
    rw [List.append_nil] at hfirst
    refine ⟨path', by rw [hpath, ← hfirst], fun ch hch => ?_⟩
    rw [List.nil_append] at hrest
    cases behind with
    | nil =>
      have hnil : path'.isEmpty = true := hrest
      rw [List.isEmpty_iff.1 hnil] at hch
      cases hch
    | cons sep behind =>
      have hsep : isDomainSeparator sep = true := hcut
      have hliteral : ∀ c ∈ [sep], isGlobStar c = false := by
        intro c hc
        obtain rfl := List.mem_singleton.1 hc
        unfold isDomainSeparator at hsep
        rcases of_decide_eq_true hsep with rfl | rfl | rfl | rfl | rfl <;> decide
      have hbackslash : slashed (sep :: behind) = [sep] ++ slashed behind := by
        have hplain : [sep].contains '\\' = false := by
          unfold isDomainSeparator at hsep
          rcases of_decide_eq_true hsep with rfl | rfl | rfl | rfl | rfl <;> decide
        have happend := slashed_append [sep] behind
        rw [slashed_of_plain hplain] at happend
        exact happend
      rw [hbackslash] at hrest
      obtain ⟨path'', rfl, -⟩ := globList_append hliteral hrest
      obtain rfl : sep = ch := Option.some.inj hch
      exact hsep

theorem forM_eq_ok {α : Type} {f : α → PolicyResult Unit} {l : List α} :
    l.forM f = .ok () ↔ ∀ a ∈ l, f a = .ok () := by
  induction l with
  | nil => simp [List.forM, pure, Except.pure]
  | cons a l ih =>
    have hcons : (a :: l).forM f = (f a >>= fun _ => l.forM f) := rfl
    rw [hcons]
    constructor
    · intro h b hb
      obtain ⟨_, ha, hl⟩ := bind_eq_ok.1 h
      rcases List.mem_cons.1 hb with rfl | hb
      · exact ha
      · exact ih.1 hl b hb
    · intro h
      exact bind_eq_ok.2
        ⟨(), h a List.mem_cons_self, ih.2 fun b hb => h b (List.mem_cons_of_mem _ hb)⟩

/-- A pattern that a domain keeps clear of does not match a path in it, if all are spelled alike. -/
theorem glob_of_clear {domain pattern path : String} {token : List Char}
    (htoken : token ∈ domainTokens domain) (hcover : Covers token path)
    (hspelled : misspelled pattern token path = false)
    (hclear : (Domain.parse domain).intersects (.parse pattern) = false) :
    globList (slashed pattern.toList) (slashed path.toList) = false := by
  unfold misspelled at hspelled
  simp only [Bool.not_eq_false', Bool.and_eq_true] at hspelled
  obtain ⟨⟨hbegins, hplain⟩, -⟩ := hspelled
  obtain ⟨htrim, hclean⟩ := token_spec htoken
  by_contra hmatches
  rw [Bool.not_eq_false] at hmatches
  cases htokens : domainTokens pattern with
  | nil =>
    unfold firstTokenBegins at hbegins
    rw [htokens] at hbegins
    cases hbegins
  | cons first tokens =>
    have htext : ∀ ch ∈ (matcher token).text, isDomainSeparator ch = false := by
      obtain ⟨rest, hparts, hmatcher | ⟨-, hmatcher⟩⟩ := matcher_cases htrim
      · intro ch hch
        rw [hmatcher] at hch
        refine hclean ch ?_
        rw [hparts]
        exact List.mem_append_left _ hch
      · intro ch hch
        rw [hmatcher] at hch
        exact hclean ch hch
    have hoverlap := overlap_of_reaches (covers_reaches htrim hplain hcover)
      (denies_reaches htokens hbegins hmatches) htext
    have hmeets : (Domain.parse domain).intersects (.parse pattern) = true := by
      unfold Domain.intersects Domain.parse
      simp only [Bool.false_or, List.any_eq_true]
      refine ⟨matcher token, List.mem_map_of_mem htoken, matcher first, ?_, hoverlap⟩
      rw [htokens]
      exact List.mem_map_of_mem List.mem_cons_self
    rw [hclear] at hmeets
    cases hmeets

theorem normaliseRelativePath_eq_ok {path q : String} (h : normaliseRelativePath path = .ok q) :
    q.toList = trim (slashed path.toList) := by
  unfold normaliseRelativePath at h
  obtain ⟨_, -, h⟩ := bind_eq_ok.1 h
  unfold validateRelativeGlob at h
  obtain ⟨_, -, h⟩ := bind_eq_ok.1 h
  rw [← Except.ok.inj h, String.toList_ofList]

/-- **The early gate covers the exact one** but for malformed paths and misspelled texts: a path in
a domain that has passed is let through exactly when it is accepted as a relative path and no
misspelled pattern matches it. -/
theorem checkPaths_iff {policy : Policy} {domain path : String} {token : List Char}
    (hdomain : policy.checkDomain domain = .ok ()) (htoken : token ∈ domainTokens domain)
    (hcover : Covers token path) :
    policy.checkPaths [path] = .ok () ↔ ∃ q, normaliseRelativePath path = .ok q ∧
      ∀ pattern ∈ policy.deniedPaths, misspelled pattern token path = true →
        globMatches pattern q = false := by
  have hclear : ∀ pattern ∈ policy.deniedPaths,
      (Domain.parse domain).intersects (.parse pattern) = false := by
    intro pattern hpattern
    unfold Policy.checkDomain at hdomain
    obtain ⟨_, -, hdomain⟩ := bind_eq_ok.1 hdomain
    exact demand_eq_ok.1 (forM_eq_ok.1 hdomain pattern hpattern)
  unfold Policy.checkPaths
  rw [forM_eq_ok]
  constructor
  · intro h
    obtain ⟨q, hq, h⟩ := bind_eq_ok.1 (h path List.mem_cons_self)
    exact ⟨q, hq, fun pattern hpattern _ => demand_eq_ok.1 (forM_eq_ok.1 h pattern hpattern)⟩
  · rintro ⟨q, hq, hmatches⟩ other hother
    obtain rfl := List.mem_singleton.1 hother
    refine bind_eq_ok.2 ⟨q, hq, forM_eq_ok.2 fun pattern hpattern => demand_eq_ok.2 ?_⟩
    cases hspelled : misspelled pattern token other with
    | true => exact hmatches pattern hpattern hspelled
    | false =>
      have hglob := glob_of_clear htoken hcover hspelled (hclear pattern hpattern)
      unfold misspelled at hspelled
      simp only [Bool.not_eq_false', Bool.and_eq_true, beq_iff_eq] at hspelled
      have hpath : q.toList = slashed other.toList :=
        (normaliseRelativePath_eq_ok hq).trans hspelled.2
      unfold globMatches
      rw [hpath, slashed_slashed]
      exact hglob

/-! ## A policy that agrees with itself, and one that does not -/

namespace PolicySample

/-- A constraints file that denies one path. -/
def constraints (pattern : String) : String :=
  "## Запрещённые пути (denylist)\n**Активные ограничения**\n- " ++ pattern ++ "\n"

def denying (pattern : String) : Policy := { Policy.default with deniedPaths := [pattern] }

/-- No typed argument vector is read here. -/
def noArgv (_ : String) : Except String (List String) := .error "no command"

theorem parse_constraints :
    Policy.parse noArgv (constraints "secrets/**") = .ok (denying "secrets/**") ∧
      Policy.parse noArgv (constraints "secrets\\**") = .ok (denying "secrets\\**") := by
  decide +kernel

end PolicySample

/-- A source file beside denied secrets. -/
theorem checkPaths_iff_source :
    (PolicySample.denying "secrets/**").checkPaths ["src/main.rs"] = .ok () := by
  have hdomain : (PolicySample.denying "secrets/**").checkDomain "src/**" = .ok () := by
    decide +kernel
  have htoken : "src/**".toList ∈ domainTokens "src/**" := by decide +kernel
  have hcover : Covers "src/**".toList "src/main.rs" := .inl (by decide +kernel)
  refine (checkPaths_iff hdomain htoken hcover).2 ⟨"src/main.rs", by decide +kernel, ?_⟩
  intro pattern hpattern hmisspelled
  obtain rfl := List.mem_singleton.1 hpattern
  exact absurd hmisspelled (by decide +kernel)

/-- **A pattern with a backslash**: the policy is accepted, the domain of the secrets passes the
early gate, and the exact gate refuses the first path in it. -/
theorem checkPaths_backslash :
    Policy.parse PolicySample.noArgv (PolicySample.constraints "secrets\\**") =
        .ok (PolicySample.denying "secrets\\**") ∧
      (PolicySample.denying "secrets\\**").checkDomain "secrets/**" = .ok () ∧
      "secrets/**".toList ∈ domainTokens "secrets/**" ∧
      Covers "secrets/**".toList "secrets/key" ∧
      (PolicySample.denying "secrets\\**").checkPaths ["secrets/key"] =
        .error (.deniedPath "secrets/key" "secrets\\**") := by
  refine ⟨PolicySample.parse_constraints.2, by decide +kernel, by decide +kernel,
    .inl (by decide +kernel), by decide +kernel⟩

end Orchestrail
