import Mathlib.Data.List.Perm.Basic
import Orchestrail.Spec.Registry

/-!
# Synchronizing a slice of the registry

A synchronization keeps the registry readable: what it writes for one project reads back as it
stands, and everything else is as it was.

* `normalizeProduct_kept`, `productList_kept`, `evidenceList_kept`, `dependencyList_kept`: what the
  readers of a slice store is a normal form of theirs.
* `parseProject_eq_ok`, `parseProjects_eq_ok`, `parseRegistry_eq_ok`: what the reader accepts, as a
  condition on the fields of each project and on the list of their ids.
* `accepted_set`: acceptance survives the change of one project and a new order of the list.
-/

namespace Orchestrail.DependencyGraph

open Text Outcome Sorted

/-! ## Product identities -/

theorem isEcosystemChar_lt {ch : Char} (h : isEcosystemChar ch = true) : ch.toNat < 128 := by
  simp only [isEcosystemChar, isAsciiAlphanumeric, isAsciiAlpha, isAsciiDigit, Bool.or_eq_true,
    Bool.and_eq_true, decide_eq_true_eq, beq_iff_eq, Char.le_def, UInt32.le_iff_toNat_le] at h
  have hval : ch.toNat = ch.val.toNat := rfl
  rcases h with ((((⟨-, h⟩ | ⟨-, h⟩) | ⟨-, h⟩) | h) | h) | h
  all_goals first | (subst h; decide) | (simp at h; omega)

/-- Lower case changes nothing a check of an ecosystem looks at. -/
theorem ecosystemChar_lower {ch : Char} (h : isEcosystemChar ch = true) :
    isEcosystemChar ch.toLower = true ∧ ch.toLower.toLower = ch.toLower ∧
      ch.toLower.utf8Size = ch.utf8Size ∧
      isAsciiAlphanumeric ch.toLower = isAsciiAlphanumeric ch ∧
      isWhiteSpace ch.toLower = false ∧ ch.toLower ≠ ':' ∧
      ch.toNat < 0x10000 ∧ ch.toLower.toNat < 0x10000 := by
  obtain ⟨n, hn, rfl⟩ : ∃ n, n < 128 ∧ Char.ofNat n = ch :=
    ⟨ch.toNat, isEcosystemChar_lt h, Char.ofNat_toNat ch⟩
  -- what is left is a statement about the ASCII characters
  revert h
  revert hn
  revert n
  decide +kernel

theorem utf16Length_append (a b : List Char) :
    utf16Length (a ++ b) = utf16Length a + utf16Length b := by
  simp [utf16Length]

theorem utf16Length_within {a b : List Char} (h : a <:+: b) : utf16Length a ≤ utf16Length b := by
  obtain ⟨front, behind, rfl⟩ := h
  rw [utf16Length_append, utf16Length_append]
  omega

/-- The name of a product identity starts with a second colon. -/
def colonLed (product : String) : Bool :=
  match splitOnce [':'] product.toList with
  | some (_, name) => name.head? == some ':'
  | none => false

section

variable {value ecosystem name : List Char}

theorem isProductIdentity_iff : isProductIdentity value ecosystem name = true ↔
    ecosystem ≠ [] ∧ textBytes ecosystem ≤ 32 ∧ name ≠ [] ∧ utf16Length name ≤ 200 ∧
      utf16Length value ≤ 240 ∧ ecosystem.head?.any isAsciiAlphanumeric = true ∧
      (∀ ch ∈ ecosystem, isEcosystemChar ch = true) ∧ name.any isControl = false ∧
      trim name ≠ [] ∧ name.head? ≠ some ':' := by
  simp [isProductIdentity, and_assoc]

/-- The ecosystem in lower case. -/
def lowered (ecosystem : List Char) : List Char := ecosystem.map Char.toLower

theorem mem_lowered {ch : Char} (h : ch ∈ lowered ecosystem) : ∃ c ∈ ecosystem, c.toLower = ch :=
  List.mem_map.1 h

theorem utf16Length_lowered (hall : ∀ ch ∈ ecosystem, isEcosystemChar ch = true) :
    utf16Length (lowered ecosystem) = utf16Length ecosystem := by
  unfold utf16Length lowered
  rw [List.map_map]
  refine congrArg List.sum (List.map_congr_left fun ch hch => ?_)
  obtain ⟨-, -, -, -, -, -, hlt, hlt'⟩ := ecosystemChar_lower (hall ch hch)
  rw [Function.comp_apply, if_pos hlt, if_pos hlt']

theorem textBytes_lowered (hall : ∀ ch ∈ ecosystem, isEcosystemChar ch = true) :
    textBytes (lowered ecosystem) = textBytes ecosystem := by
  unfold textBytes lowered
  rw [List.map_map]
  exact congrArg List.sum
    (List.map_congr_left fun ch hch => (ecosystemChar_lower (hall ch hch)).2.2.1)

/-- What passes the checks passes them again in its normal form, its name apart. -/
theorem isProductIdentity_normal (h : isProductIdentity value ecosystem name = true)
    (hv : value = ecosystem ++ ':' :: name) (hname : (trim name).head? ≠ some ':') :
    isProductIdentity (lowered ecosystem ++ ':' :: trim name) (lowered ecosystem) (trim name) =
      true := by
  obtain ⟨hne, hbytes, -, hn16, hv16, hhead, hall, hcontrol, hblank, -⟩ := isProductIdentity_iff.1 h
  have hname16 := utf16Length_within (trim_within name)
  have hvalue16 : utf16Length (lowered ecosystem ++ ':' :: trim name) ≤ utf16Length value := by
    rw [hv, utf16Length_append, utf16Length_append, utf16Length_lowered hall]
    have hcons : ∀ l, utf16Length (':' :: l) = 1 + utf16Length l := fun l => rfl
    rw [hcons, hcons]
    omega
  have hhead' : (lowered ecosystem).head?.any isAsciiAlphanumeric = true := by
    cases hl : ecosystem with
    | nil => exact absurd hl hne
    | cons ch rest =>
      have hch := ecosystemChar_lower (hall ch (by rw [hl]; exact List.mem_cons_self))
      rw [hl] at hhead
      simpa [lowered, hch.2.2.2.1] using hhead
  have hcontrol' : (trim name).any isControl = false := by
    rw [List.any_eq_false] at hcontrol ⊢
    exact fun ch hch => hcontrol ch ((trim_within name).subset hch)
  refine isProductIdentity_iff.2 ⟨by simpa [lowered] using hne, textBytes_lowered hall ▸ hbytes,
    hblank, by omega, by omega, hhead', ?_, hcontrol', by rwa [trim_trim], hname⟩
  intro ch hch
  obtain ⟨c, hcm, rfl⟩ := mem_lowered hch
  exact (ecosystemChar_lower (hall c hcm)).1

end

/-- **A normalized product identity is its own normal form**, unless its name starts with a colon,
which a blank in front of the name hides from the first check. -/
theorem normalizeProduct_kept {value product : String} (h : normalizeProduct value = .ok product)
    (hname : colonLed product = false) : normalizeProduct product = .ok product := by
  unfold normalizeProduct at h
  simp only at h
  generalize trim value.toList = v at h
  cases hsplit : splitOnce [':'] v with
  | none => rw [hsplit] at h; cases h
  | some pair =>
    obtain ⟨ecosystem, name⟩ := pair
    rw [hsplit] at h
    simp only at h
    split at h
    case isFalse => cases h
    case isTrue hident =>
      have hp : String.ofList (lowered ecosystem ++ ':' :: trim name) = product := Except.ok.inj h
      have hlist : product.toList = lowered ecosystem ++ ':' :: trim name := by
        rw [← hp, String.toList_ofList]
      obtain ⟨hne, -, -, -, -, -, hall, -, hblank, -⟩ := isProductIdentity_iff.1 hident
      have hlower : ∀ ch ∈ lowered ecosystem, isWhiteSpace ch = false ∧ ch ≠ ':' := by
        intro ch hch
        obtain ⟨c, hcm, rfl⟩ := mem_lowered hch
        obtain ⟨-, -, -, -, hspace, hcolon, -⟩ := ecosystemChar_lower (hall c hcm)
        exact ⟨hspace, hcolon⟩
      have hlowtwice : (lowered ecosystem).map Char.toLower = lowered ecosystem := by
        rw [lowered, List.map_map]
        exact List.map_congr_left fun ch hch => (ecosystemChar_lower (hall ch hch)).2.1
      -- the first colon is again the one between ecosystem and name
      have hsplit' : splitOnce [':'] (lowered ecosystem ++ ':' :: trim name) =
          some (lowered ecosystem, trim name) :=
        splitOnce_char.2 ⟨rfl, fun hc => (hlower _ hc).2 rfl⟩
      have htrim : trim (lowered ecosystem ++ ':' :: trim name) =
          lowered ecosystem ++ ':' :: trim name := by
        have hfront := trim_front (lowered ecosystem)
        rw [trim_of_not_space fun ch hch => (hlower ch hch).1] at hfront
        simpa using
          trim_join (m := [':']) hfront (by simpa [lowered] using hne) (trim_back name) hblank
      have hstart : (trim name).head? ≠ some ':' := by
        simpa [colonLed, hlist, hsplit'] using hname
      have hident' := isProductIdentity_normal hident (splitOnce_char.1 hsplit).1 hstart
      unfold normalizeProduct
      simp only
      rw [hlist, htrim, hsplit']
      simp only
      rw [if_pos hident', hlowtwice, trim_trim, hp]

/-- A name that hides its colon behind a blank is stored in a spelling that is refused. -/
example : normalizeProduct "npm: :x" = .ok "npm::x" ∧ colonLed "npm::x" = true ∧
    normalizeProduct "npm::x" = refuse "invalid product identity \"npm::x\"" := by
  decide +kernel

/-! ## The lists of a slice -/

theorem mapM_texts {f : String → Result String} {l : List String} (h : ∀ x ∈ l, f x = .ok x) :
    (l.map Json.text).mapM (fun value => f (valueText value)) = .ok l := by
  refine mapM_eq_ok.2 ?_
  rw [List.forall₂_map_left_iff, List.forall₂_same]
  exact h

/-- Every text of the set that a loop over a list collects was the result of one of its steps. -/
theorem mapM_mem {f : String → Result String} {values : List Json} {texts : List String}
    (h : values.mapM (fun value => f (valueText value)) = .ok texts) :
    ∀ text ∈ texts, ∃ value, f value = .ok text := by
  intro text htext
  obtain ⟨i, hi, rfl⟩ := List.getElem_of_mem htext
  have hall := mapM_eq_ok.1 h
  have hlen := hall.length_eq
  exact ⟨valueText (values.get ⟨i, by omega⟩), List.Forall₂.get hall (by omega) hi⟩

/-- A list of products that was read is read again as it stands. -/
theorem productList_kept {value : Option Json} {label : String} {products : List String}
    (h : productList value label = .ok products) (hnames : ∀ p ∈ products, colonLed p = false)
    (label' : String) : productList (some (texts products)) label' = .ok products := by
  simp only [productList, bind_eq_ok, demand_eq_ok, Except.ok.injEq, exists_const] at h
  obtain ⟨values, -, hlen, normalized, hmap, rfl⟩ := h
  have hcount : (sortedSet normalized).length ≤ maxProducts := by
    have := length_sortedSet_le normalized
    have := (mapM_eq_ok.1 hmap).length_eq
    omega
  have hkept : ∀ p ∈ sortedSet normalized, normalizeProduct p = .ok p := by
    intro p hp
    obtain ⟨raw, hraw⟩ := mapM_mem hmap p (mem_sortedSet.1 hp)
    exact normalizeProduct_kept hraw (hnames p hp)
  simp only [productList, texts, optionalArray, bind_eq_ok, demand_eq_ok, Except.ok.injEq]
  exact ⟨_, rfl, (), by simpa using hcount, _, mapM_texts hkept, sortedSet_idem normalized⟩

theorem evidenceText_kept {label value text : String} (h : evidenceText label value = .ok text)
    (label' : String) : evidenceText label' text = .ok text := by
  unfold evidenceText at h
  simp only at h
  split at h
  case isTrue => cases h
  case isFalse hcheck =>
    have htext : trimmed value = text := Except.ok.inj h
    have hagain : trimmed text = text := by
      rw [← htext, trimmed, trimmed, String.toList_ofList, trim_trim]
    unfold evidenceText
    simp only
    rw [hagain, if_neg (htext ▸ hcheck)]

theorem evidenceList_kept {value : Option Json} {label : String} {evidence : List String}
    (h : evidenceList value label = .ok evidence) (label' : String) :
    evidenceList (some (texts evidence)) label' = .ok evidence := by
  simp only [evidenceList, bind_eq_ok, demand_eq_ok, Except.ok.injEq, exists_const] at h
  obtain ⟨values, -, hlen, collected, hmap, rfl⟩ := h
  have hcount : (sortedSet collected).length ≤ maxEvidence := by
    have := length_sortedSet_le collected
    have := (mapM_eq_ok.1 hmap).length_eq
    omega
  have hkept : ∀ e ∈ sortedSet collected, evidenceText label' e = .ok e := by
    intro e he
    obtain ⟨raw, hraw⟩ := mapM_mem hmap e (mem_sortedSet.1 he)
    exact evidenceText_kept hraw label'
  simp only [evidenceList, texts, optionalArray, bind_eq_ok, demand_eq_ok, Except.ok.injEq]
  exact ⟨_, rfl, (), by simpa using hcount, _, mapM_texts hkept, sortedSet_idem collected⟩

/-! ## Dependencies -/

theorem sortByUpstream_sorted (dependencies : List GraphDependency) :
    sortByUpstream (sortByUpstream dependencies) = sortByUpstream dependencies := by
  have htotal : Std.Total fun a b : GraphDependency => a.upstreamId ≤ b.upstreamId :=
    ⟨fun a b => le_total _ _⟩
  have htrans : IsTrans GraphDependency fun a b => a.upstreamId ≤ b.upstreamId :=
    ⟨fun a b c => le_trans⟩
  exact (List.pairwise_insertionSort _ _).insertionSort_eq

/-- A dependency whose entry reads back as it is. -/
structure Legible (dependency : GraphDependency) : Prop where
  upstream : validProjectId dependency.upstreamId = true
  products : ∀ label, productList (some (texts dependency.products)) label =
    .ok dependency.products
  evidence : ∀ label, evidenceList (some (texts dependency.evidence)) label =
    .ok dependency.evidence

theorem requiredString_eq_ok {object : Fields} {key label value : String} :
    requiredString object key label = .ok value ↔
      object.lookup key = some (.text value) ∧ value ≠ "" := by
  unfold requiredString
  split
  case h_1 text htext =>
    rw [htext]
    by_cases hempty : text = ""
    · rw [if_pos hempty]
      refine ⟨fun h => (by cases h), ?_⟩
      rintro ⟨h, hvalue⟩
      exact absurd (by cases h; exact hempty) hvalue
    · rw [if_neg hempty]
      constructor
      · intro h
        cases h
        exact ⟨rfl, hempty⟩
      · rintro ⟨h, -⟩
        cases h
        rfl
  case h_2 hnot =>
    refine ⟨fun h => (by cases h), ?_⟩
    rintro ⟨h, -⟩
    exact absurd h (hnot value)

theorem ne_empty_of_validProjectId {id : String} (h : validProjectId id = true) : id ≠ "" := by
  rintro rfl
  revert h
  decide

theorem readDependency_toJson {dependency : GraphDependency} (h : Legible dependency)
    (label : String) : readDependency label dependency.toJson = .ok dependency := by
  have hid : requiredString [("evidence", texts dependency.evidence),
      ("products", texts dependency.products), ("upstream_id", .text dependency.upstreamId)]
      "upstream_id" label = .ok dependency.upstreamId :=
    requiredString_eq_ok.2 ⟨rfl, ne_empty_of_validProjectId h.upstream⟩
  simp only [readDependency, GraphDependency.toJson, bind_eq_ok, demand_eq_ok, Except.ok.injEq]
  exact ⟨_, hid, (), h.upstream, _, h.products _, _, h.evidence _, rfl⟩

/-- The dependencies of a slice are read back in the order they are written. -/
theorem dependencyList_kept {dependencies : List GraphDependency}
    (hsorted : sortByUpstream dependencies = dependencies)
    (hlen : dependencies.length ≤ maxDependencies) (hall : ∀ d ∈ dependencies, Legible d)
    (label : String) :
    dependencyList (some (.array (dependencies.map GraphDependency.toJson))) label =
      .ok dependencies := by
  have hmap : (dependencies.map GraphDependency.toJson).mapM (readDependency label) =
      .ok dependencies := by
    refine mapM_eq_ok.2 ?_
    rw [List.forall₂_map_left_iff, List.forall₂_same]
    exact fun d hd => readDependency_toJson (hall d hd) label
  simp only [dependencyList, optionalArray, bind_eq_ok, demand_eq_ok, Except.ok.injEq]
  exact ⟨_, rfl, (), by simpa using hlen, _, hmap, hsorted⟩

/-- What the candidate's checks guarantee of its dependencies. -/
structure Admitted (registry : Registry) (currentId : String) (seen : List String)
    (dependencies : List GraphDependency) : Prop where
  upstream : ∀ d ∈ dependencies, validProjectId d.upstreamId = true ∧ d.upstreamId ≠ currentId ∧
    d.upstreamId ∈ registry.projects.map (·.id) ∧ d.upstreamId ∉ seen
  distinct : (dependencies.map (·.upstreamId)).Nodup
  products : ∀ d ∈ dependencies, ∃ value label, productList value label = .ok d.products
  evidence : ∀ d ∈ dependencies, ∃ value label, evidenceList value label = .ok d.evidence

theorem candidateDependencies_admitted {registry : Registry} {currentId : String}
    {values : List Json} : ∀ {seen : List String} {dependencies : List GraphDependency},
    candidateDependencies registry currentId seen values = .ok dependencies →
      dependencies.length = values.length ∧ Admitted registry currentId seen dependencies := by
  induction values with
  | nil =>
    intro seen dependencies h
    cases h
    exact ⟨rfl, by simp, List.nodup_nil, by simp, by simp⟩
  | cons value rest ih =>
    intro seen dependencies h
    cases value
    case object item =>
      simp only [candidateDependencies, bind_eq_ok, demand_eq_ok, Except.ok.injEq,
        exists_const] at h
      obtain ⟨id, hid, ⟨hvalid, hself, hknown⟩, hseen, products, hproducts, evidence, hevidence,
        more, hmore, rfl⟩ := h
      obtain ⟨hlen, hrest⟩ := ih hmore
      refine ⟨by simp [hlen], ?_, ?_, ?_, ?_⟩
      · rintro d (_ | ⟨_, hd⟩)
        · exact ⟨hvalid, hself, hknown, hseen⟩
        · obtain ⟨h1, h2, h3, h4⟩ := hrest.upstream d hd
          exact ⟨h1, h2, h3, fun h => h4 (List.mem_cons_of_mem _ h)⟩
      · refine List.nodup_cons.2 ⟨?_, hrest.distinct⟩
        intro hmem
        obtain ⟨d, hd, hdid⟩ := List.mem_map.1 hmem
        exact (hrest.upstream d hd).2.2.2 (hdid ▸ List.mem_cons_self)
      · rintro d (_ | ⟨_, hd⟩)
        · exact ⟨_, _, hproducts⟩
        · exact hrest.products d hd
      · rintro d (_ | ⟨_, hd⟩)
        · exact ⟨_, _, hevidence⟩
        · exact hrest.evidence d hd
    all_goals cases h

theorem Admitted.sort {registry : Registry} {currentId : String} {seen : List String}
    {dependencies : List GraphDependency} (h : Admitted registry currentId seen dependencies) :
    Admitted registry currentId seen (sortByUpstream dependencies) := by
  have hperm : (sortByUpstream dependencies).Perm dependencies := List.perm_insertionSort _ _
  exact ⟨fun d hd => h.upstream d (hperm.subset hd), (hperm.map _).nodup_iff.2 h.distinct,
    fun d hd => h.products d (hperm.subset hd), fun d hd => h.evidence d (hperm.subset hd)⟩

/-! ## The reader -/

variable {host : Host}

theorem parseProject_eq_ok {seen : List String} {item : Fields}
    {project : RegisteredProjectRecord} :
    parseProject host seen (.object item) = .ok project ↔
      (∃ root, requiredString item "root" "registry project" = .ok root ∧
        canonicalRegisteredRoot host root = .ok project.root) ∧
      requiredString item "id" "registry project" = .ok project.id ∧
      (project.id = projectId host project.root ∧ validProjectId project.id = true) ∧
      project.id ∉ seen ∧
      requiredString item "name" "registry project" = .ok project.name ∧
      validateName project.name = .ok () ∧
      productList (item.lookup "products") "registry project products" = .ok project.products ∧
      dependencyList (item.lookup "dependencies") "registry project dependencies" =
        .ok project.dependencies ∧
      ∃ generation, optionalU64 item "graph_generation" "registry project" = .ok generation ∧
        generation.getD 0 = project.graphGeneration := by
  simp only [parseProject, bind_eq_ok, demand_eq_ok, Except.ok.injEq, exists_const]
  constructor
  · rintro ⟨text, htext, root, hroot, id, hid, hident, hseen, name, hname, ⟨⟩, hvalid, products,
      hproducts, dependencies, hdependencies, generation, hgeneration, rfl⟩
    exact ⟨⟨text, htext, hroot⟩, hid, hident, hseen, hname, hvalid, hproducts, hdependencies,
      generation, hgeneration, rfl⟩
  · rintro ⟨⟨text, htext, hroot⟩, hid, hident, hseen, hname, hvalid, hproducts, hdependencies,
      generation, hgeneration, hvalue⟩
    refine ⟨text, htext, _, hroot, _, hid, hident, hseen, _, hname, (), hvalid, _, hproducts, _,
      hdependencies, generation, hgeneration, ?_⟩
    rw [hvalue]

theorem parseProject_object {seen : List String} {value : Json}
    {project : RegisteredProjectRecord} (h : parseProject host seen value = .ok project) :
    ∃ item, value = .object item := by
  cases value
  case object item => exact ⟨item, rfl⟩
  all_goals cases h

theorem parseProject_seen {seen : List String} {value : Json}
    {project : RegisteredProjectRecord} :
    parseProject host seen value = .ok project ↔
      parseProject host [] value = .ok project ∧ project.id ∉ seen := by
  constructor
  · intro h
    obtain ⟨item, rfl⟩ := parseProject_object h
    obtain ⟨hroot, hid, hident, hseen, hrest⟩ := parseProject_eq_ok.1 h
    exact ⟨parseProject_eq_ok.2 ⟨hroot, hid, hident, List.not_mem_nil, hrest⟩, hseen⟩
  · rintro ⟨h, hseen⟩
    obtain ⟨item, rfl⟩ := parseProject_object h
    obtain ⟨hroot, hid, hident, -, hrest⟩ := parseProject_eq_ok.1 h
    exact parseProject_eq_ok.2 ⟨hroot, hid, hident, hseen, hrest⟩

/-- A value of the list reads as the project. -/
def Reads (host : Host) (value : Json) (project : RegisteredProjectRecord) : Prop :=
  parseProject host [] value = .ok project

theorem parseProjects_eq_ok {values : List Json} : ∀ {seen : List String}
    {projects : List RegisteredProjectRecord},
    parseProjects host seen values = .ok projects ↔
      List.Forall₂ (Reads host) values projects ∧ (projects.map (·.id)).Nodup ∧
        ∀ project ∈ projects, project.id ∉ seen := by
  induction values with
  | nil =>
    intro seen projects
    rw [List.forall₂_nil_left_iff]
    constructor
    · intro h
      cases h
      exact ⟨rfl, List.nodup_nil, by simp⟩
    · rintro ⟨rfl, -, -⟩
      rfl
  | cons value rest ih =>
    intro seen projects
    simp only [parseProjects, bind_eq_ok, Except.ok.injEq]
    rw [List.forall₂_cons_left_iff]
    constructor
    · rintro ⟨project, hproject, more, hmore, rfl⟩
      obtain ⟨hreads, hseen⟩ := parseProject_seen.1 hproject
      obtain ⟨hall, hnodup, hfresh⟩ := ih.1 hmore
      refine ⟨⟨project, more, hreads, hall, rfl⟩, ?_, ?_⟩
      · refine List.nodup_cons.2 ⟨?_, hnodup⟩
        intro hmem
        obtain ⟨other, hother, hid⟩ := List.mem_map.1 hmem
        exact hfresh other hother (hid ▸ List.mem_cons_self)
      · rintro other (_ | ⟨_, hother⟩)
        · exact hseen
        · exact fun h => hfresh other hother (List.mem_cons_of_mem _ h)
    · rintro ⟨⟨project, more, hreads, hall, rfl⟩, hnodup, hfresh⟩
      obtain ⟨hnew, hnodup'⟩ := List.nodup_cons.1 hnodup
      refine ⟨project, parseProject_seen.2 ⟨hreads, hfresh project List.mem_cons_self⟩, more,
        ih.2 ⟨hall, hnodup', ?_⟩, rfl⟩
      intro other hother hmem
      rcases List.mem_cons.1 hmem with hid | hid
      · exact hnew (List.mem_map.2 ⟨other, hother, hid⟩)
      · exact hfresh other (List.mem_cons_of_mem _ hother) hid

theorem checkDependencies_eq_ok {ids : List String} {id : String}
    {dependencies : List GraphDependency} : ∀ {upstreams : List String},
    checkDependencies ids id upstreams dependencies = .ok () ↔
      (∀ d ∈ dependencies, d.upstreamId ≠ id ∧ d.upstreamId ∈ ids ∧ d.upstreamId ∉ upstreams) ∧
        (dependencies.map (·.upstreamId)).Nodup := by
  induction dependencies with
  | nil => intro upstreams; simp [checkDependencies]
  | cons dependency rest ih =>
    intro upstreams
    simp only [checkDependencies, bind_unit_eq_ok, demand_eq_ok, ih, not_or, not_not]
    constructor
    · rintro ⟨⟨hself, hknown⟩, hnew, hall, hnodup⟩
      refine ⟨?_, List.nodup_cons.2 ⟨?_, hnodup⟩⟩
      · rintro d (_ | ⟨_, hd⟩)
        · exact ⟨hself, hknown, hnew⟩
        · obtain ⟨h1, h2, h3⟩ := hall d hd
          exact ⟨h1, h2, fun h => h3 (List.mem_cons_of_mem _ h)⟩
      · intro hmem
        obtain ⟨d, hd, hdid⟩ := List.mem_map.1 hmem
        exact (hall d hd).2.2 (hdid ▸ List.mem_cons_self)
    · rintro ⟨hall, hnodup⟩
      obtain ⟨hself, hknown, hnew⟩ := hall dependency List.mem_cons_self
      obtain ⟨hfresh, hnodup'⟩ := List.nodup_cons.1 hnodup
      refine ⟨⟨hself, hknown⟩, hnew, fun d hd => ?_, hnodup'⟩
      obtain ⟨h1, h2, h3⟩ := hall d (List.mem_cons_of_mem _ hd)
      refine ⟨h1, h2, fun hmem => ?_⟩
      rcases List.mem_cons.1 hmem with hid | hid
      · exact hfresh (List.mem_map.2 ⟨d, hd, hid⟩)
      · exact h3 hid

theorem checkProjects_eq_ok {ids : List String} {projects : List RegisteredProjectRecord} :
    checkProjects ids projects = .ok () ↔
      ∀ project ∈ projects, checkDependencies ids project.id [] project.dependencies = .ok () := by
  induction projects with
  | nil => simp [checkProjects]
  | cons project rest ih => simp only [checkProjects, bind_unit_eq_ok, ih, List.forall_mem_cons]

/-- What makes a list of values an accepted list of projects. -/
structure Accepted (host : Host) (values : List Json)
    (projects : List RegisteredProjectRecord) : Prop where
  reads : List.Forall₂ (Reads host) values projects
  distinct : (projects.map (·.id)).Nodup
  edges : ∀ project ∈ projects,
    checkDependencies (projects.map (·.id)) project.id [] project.dependencies = .ok ()

theorem parseRegistry_eq_ok {raw : Json} {registry : Registry} :
    parseRegistry host raw = .ok registry ↔
      ∃ object values, raw = .object object ∧
        requiredString object "schema" "dependency registry" = .ok registrySchema ∧
        (∃ generation, optionalU64 object "generation" "dependency registry" = .ok generation ∧
          generation.getD 0 = registry.generation) ∧
        object.lookup "projects" = some (.array values) ∧
        Accepted host values registry.projects ∧ registry.raw = raw := by
  constructor
  · intro h
    cases raw
    case object object =>
      simp only [parseRegistry, bind_eq_ok, demand_eq_ok, exists_const] at h
      obtain ⟨schema, hschema, rfl, generation, hgeneration, h⟩ := h
      split at h
      case h_1 values hvalues =>
        simp only [bind_eq_ok, Except.ok.injEq] at h
        obtain ⟨projects, hprojects, ⟨⟩, hchecked, rfl⟩ := h
        obtain ⟨hreads, hdistinct, -⟩ := parseProjects_eq_ok.1 hprojects
        exact ⟨object, values, rfl, hschema, ⟨generation, hgeneration, rfl⟩, hvalues,
          ⟨hreads, hdistinct, checkProjects_eq_ok.1 hchecked⟩, rfl⟩
      case h_2 => cases h
    all_goals cases h
  · rintro ⟨object, values, rfl, hschema, ⟨generation, hgeneration, hvalue⟩, hvalues, hacc, hraw⟩
    have hprojects : parseProjects host [] values = .ok registry.projects :=
      parseProjects_eq_ok.2 ⟨hacc.reads, hacc.distinct, by simp⟩
    simp only [parseRegistry, hschema, hgeneration, hvalues, hprojects,
      checkProjects_eq_ok.2 hacc.edges, bind, Except.bind, demand_trivial, hvalue, ← hraw]

/-! ## Replacing a slice -/

/-- No product of a candidate has a name that starts with a second colon. -/
def GraphSnapshot.PlainNames (snapshot : GraphSnapshot) : Prop :=
  ∀ product ∈ snapshot.products ++ snapshot.dependencies.flatMap (·.products),
    colonLed product = false

/-- The record of a project once a snapshot has taken the place of its slice. -/
def RegisteredProjectRecord.withSnapshot (project : RegisteredProjectRecord)
    (snapshot : GraphSnapshot) : RegisteredProjectRecord :=
  { project with
    products := snapshot.products
    dependencies := snapshot.dependencies
    graphGeneration := project.graphGeneration + 1 }

/-- A slice that reads back as it is written. -/
structure GraphSnapshot.Legible (snapshot : GraphSnapshot) : Prop where
  products : ∀ label, productList (some (texts snapshot.products)) label = .ok snapshot.products
  dependencies : ∀ label, dependencyList
    (some (.array (snapshot.dependencies.map GraphDependency.toJson))) label =
      .ok snapshot.dependencies

theorem readSnapshot_spec {registry : Registry} {currentId : String} {value : Json}
    {snapshot : GraphSnapshot} (h : readSnapshot registry currentId value = .ok snapshot) :
    (∃ products label, productList products label = .ok snapshot.products) ∧
      sortByUpstream snapshot.dependencies = snapshot.dependencies ∧
      snapshot.dependencies.length ≤ maxDependencies ∧
      Admitted registry currentId [] snapshot.dependencies := by
  cases value
  case object object =>
    simp only [readSnapshot, bind_eq_ok, demand_eq_ok, Except.ok.injEq, exists_const] at h
    obtain ⟨schema, -, -, base, -, products, hproducts, dependencies, hdependencies, rfl⟩ := h
    refine ⟨⟨_, _, hproducts⟩, ?_⟩
    unfold candidateDependencyList at hdependencies
    split at hdependencies
    case h_1 values hvalues =>
      simp only [bind_eq_ok, demand_eq_ok, Except.ok.injEq, exists_const] at hdependencies
      obtain ⟨hlen, result, hresult, rfl⟩ := hdependencies
      obtain ⟨hcount, hadmitted⟩ := candidateDependencies_admitted hresult
      have hperm : (sortByUpstream result).length = result.length :=
        (List.perm_insertionSort _ _).length_eq
      exact ⟨sortByUpstream_sorted result, by simp only; omega, hadmitted.sort⟩
    case h_2 => cases hdependencies
  all_goals cases h

theorem legible_of_readSnapshot {registry : Registry} {currentId : String} {value : Json}
    {snapshot : GraphSnapshot} (h : readSnapshot registry currentId value = .ok snapshot)
    (hnames : snapshot.PlainNames) : snapshot.Legible := by
  obtain ⟨⟨products, label, hproducts⟩, hsorted, hlen, hadmitted⟩ := readSnapshot_spec h
  refine ⟨productList_kept hproducts fun p hp => hnames p (List.mem_append_left _ hp),
    dependencyList_kept hsorted hlen fun d hd => ?_⟩
  obtain ⟨_, _, hread⟩ := hadmitted.products d hd
  obtain ⟨_, _, hproof⟩ := hadmitted.evidence d hd
  refine ⟨(hadmitted.upstream d hd).1, productList_kept hread fun p hp => ?_,
    evidenceList_kept hproof⟩
  exact hnames p (List.mem_append_right _ (List.mem_flatMap.2 ⟨d, hd, hp⟩))

theorem optionalU64_of_lookup {object : Fields} {key label : String} {n : Nat}
    (h : object.lookup key = some (.integer n)) (hn : n ≤ u64Max) :
    optionalU64 object key label = .ok (some n) := by
  have hbound : (0 : Int) ≤ n ∧ (n : Int) ≤ (u64Max : Int) := ⟨by omega, by exact_mod_cast hn⟩
  simp only [optionalU64, h, if_pos hbound, Int.toNat_natCast]

/-- The keys of a project that a synchronization sets. -/
def sliceKeys : List String := ["products", "dependencies", "graph_updated_at", "graph_generation"]

/-- The keys of the registry that a synchronization sets. -/
def stampKeys : List String := ["projects", "generation", "updated_at"]

theorem projectWith_lookup {project : Fields} {snapshot : GraphSnapshot} {generation : Nat}
    {occurredAt key : String} (h : key ∉ sliceKeys) :
    (projectWith project snapshot generation occurredAt).lookup key = project.lookup key := by
  simp only [sliceKeys, List.mem_cons, List.not_mem_nil, or_false, not_or] at h
  obtain ⟨h1, h2, h3, h4⟩ := h
  simp only [projectWith]
  rw [lookup_put_of_ne h4, lookup_put_of_ne h3, lookup_put_of_ne h2, lookup_put_of_ne h1]

/-- **The object of the current project reads as its record with the new slice.** -/
theorem reads_projectWith {item : Fields} {current : RegisteredProjectRecord}
    {snapshot : GraphSnapshot} {occurredAt : String} (h : Reads host (.object item) current)
    (hsnapshot : snapshot.Legible) (hgeneration : current.graphGeneration < u64Max) :
    Reads host (.object (projectWith item snapshot (current.graphGeneration + 1) occurredAt))
      (current.withSnapshot snapshot) := by
  obtain ⟨⟨root, hroot, hcanonical⟩, hid, hident, hseen, hname, hvalid, -, -, -⟩ :=
    parseProject_eq_ok.1 h
  set written := projectWith item snapshot (current.graphGeneration + 1) occurredAt with hwritten
  have hkept : ∀ key, key ∉ sliceKeys → ∀ label text, requiredString item key label = .ok text →
      requiredString written key label = .ok text := by
    intro key hkey label text htext
    rw [requiredString_eq_ok] at htext ⊢
    rwa [hwritten, projectWith_lookup hkey]
  have hproducts : written.lookup "products" = some (texts snapshot.products) := by
    simp only [hwritten, projectWith]
    rw [lookup_put_of_ne (by decide), lookup_put_of_ne (by decide), lookup_put_of_ne (by decide),
      lookup_put]
  have hdependencies : written.lookup "dependencies" =
      some (.array (snapshot.dependencies.map GraphDependency.toJson)) := by
    simp only [hwritten, projectWith]
    rw [lookup_put_of_ne (by decide), lookup_put_of_ne (by decide), lookup_put]
  have hcounter : written.lookup "graph_generation" =
      some (.integer (current.graphGeneration + 1 : Nat)) := by
    simp only [hwritten, projectWith]
    rw [lookup_put]
  refine parseProject_eq_ok.2 ⟨⟨root, hkept _ (by decide) _ _ hroot, hcanonical⟩,
    hkept _ (by decide) _ _ hid, hident, hseen, hkept _ (by decide) _ _ hname, hvalid, ?_, ?_, ?_⟩
  · rw [hproducts]
    exact hsnapshot.products _
  · rw [hdependencies]
    exact hsnapshot.dependencies _
  · exact ⟨_, optionalU64_of_lookup hcounter (by omega), rfl⟩

theorem forall₂_getElem? {α β : Type} {R : α → β → Prop} {as : List α} {bs : List β}
    (h : List.Forall₂ R as bs) {i : Nat} {b : β} (hb : bs[i]? = some b) :
    ∃ a, as[i]? = some a ∧ R a b := by
  induction h generalizing i with
  | nil => simp at hb
  | @cons a b' as bs hab _ ih =>
    cases i with
    | zero => exact ⟨a, rfl, by simpa [← Option.some.inj hb] using hab⟩
    | succ i => exact ih (by simpa using hb)

theorem forall₂_set {α β : Type} {R : α → β → Prop} {as : List α} {bs : List β}
    (h : List.Forall₂ R as bs) {a : α} {b : β} (hab : R a b) (i : Nat) :
    List.Forall₂ R (as.set i a) (bs.set i b) := by
  induction h generalizing i with
  | nil => exact .nil
  | cons hhead htail ih =>
    cases i with
    | zero => exact .cons hab htail
    | succ i => exact .cons hhead (ih i)

/-- The document holds the registry with a snapshot in the place of the slice of one project. -/
structure OneSlice (host : Host) (registry : Registry) (current : RegisteredProjectRecord)
    (snapshot : GraphSnapshot) (raw : Json) : Prop where
  /-- the reader accepts it, with the generation raised and one record changed -/
  accepted : ∃ after index, parseRegistry host raw = .ok after ∧
    after.generation = registry.generation + 1 ∧ registry.projects[index]? = some current ∧
    after.projects.Perm (registry.projects.set index (current.withSnapshot snapshot))
  /-- fields the reader does not know stay, of the registry and of its projects -/
  preserved : ∃ old new values values' index item item',
    registry.raw = .object old ∧ raw = .object new ∧
    (∀ key ∉ stampKeys, new.lookup key = old.lookup key) ∧
    old.lookup "projects" = some (.array values) ∧
    new.lookup "projects" = some (.array values') ∧
    registry.projects[index]? = some current ∧ values[index]? = some (.object item) ∧
    values'.Perm (values.set index (.object item')) ∧
    ∀ key ∉ sliceKeys, item'.lookup key = item.lookup key

theorem accepted_set {values values' : List Json} {projects : List RegisteredProjectRecord}
    {index : Nat} {value : Json} {current project : RegisteredProjectRecord}
    (h : Accepted host values projects) (hcurrent : projects[index]? = some current)
    (hreads : Reads host value project) (hid : project.id = current.id)
    (hedges : checkDependencies (projects.map (·.id)) project.id [] project.dependencies = .ok ())
    (hperm : values'.Perm (values.set index value)) :
    ∃ projects', Accepted host values' projects' ∧ projects'.Perm (projects.set index project) := by
  obtain ⟨projects', hall, hperm'⟩ :=
    List.perm_comp_forall₂ hperm (forall₂_set h.reads hreads index)
  -- the ids stay the same ones
  have hids : (projects.set index project).map (·.id) = projects.map (·.id) := by
    rw [List.map_set, hid]
    refine List.ext_getElem? fun i => ?_
    rw [List.getElem?_set]
    split
    · rename_i hi
      subst hi
      split
      · simp [hcurrent]
      · rename_i hlen
        rw [List.getElem?_eq_none (by omega)]
    · rfl
  have hmap : (projects'.map (·.id)).Perm (projects.map (·.id)) := hids ▸ hperm'.map _
  refine ⟨projects', ⟨hall, hmap.nodup_iff.2 h.distinct, fun p hp => ?_⟩, hperm'⟩
  have hold : checkDependencies (projects.map (·.id)) p.id [] p.dependencies = .ok () := by
    rcases List.mem_or_eq_of_mem_set (hperm'.subset hp) with hp | rfl
    · exact h.edges p hp
    · exact hedges
  obtain ⟨hknown, hnodup⟩ := checkDependencies_eq_ok.1 hold
  refine checkDependencies_eq_ok.2 ⟨fun d hd => ?_, hnodup⟩
  obtain ⟨h1, h2, h3⟩ := hknown d hd
  exact ⟨h1, hmap.symm.subset h2, h3⟩

theorem edges_of_admitted {registry : Registry} {currentId : String}
    {dependencies : List GraphDependency} (h : Admitted registry currentId [] dependencies) :
    checkDependencies (registry.projects.map (·.id)) currentId [] dependencies = .ok () :=
  checkDependencies_eq_ok.2
    ⟨fun d hd => ⟨(h.upstream d hd).2.1, (h.upstream d hd).2.2.1, List.not_mem_nil⟩, h.distinct⟩

section

variable {raw : Json} {registry : Registry} {index : Nat} {current : RegisteredProjectRecord}
  {snapshot : GraphSnapshot} {occurredAt : String}

/-- **The written document is accepted again, and one slice of it is new.** -/
theorem applySnapshot_oneSlice {raw' : Json} (hregistry : parseRegistry host raw = .ok registry)
    (hcurrent : registry.projects[index]? = some current)
    (hadmitted : Admitted registry current.id [] snapshot.dependencies)
    (hlegible : snapshot.Legible) (hgeneration : current.graphGeneration < u64Max)
    (h : applySnapshot registry index snapshot occurredAt = .ok raw') :
    OneSlice host registry current snapshot raw' := by
  obtain ⟨old, values, rfl, hschema, -, hvalues, hacc, hraw⟩ := parseRegistry_eq_ok.1 hregistry
  obtain ⟨value, hvalue, hreads⟩ := forall₂_getElem? hacc.reads hcurrent
  obtain ⟨item, rfl⟩ := parseProject_object hreads
  have hsucc : wrappingSucc current.graphGeneration = current.graphGeneration + 1 :=
    Nat.mod_eq_of_lt (by omega)
  simp only [applySnapshot, hraw, hvalues, hvalue, hcurrent, hsucc, bind_unit_eq_ok, demand_eq_ok,
    Except.ok.injEq] at h
  obtain ⟨hbound, rfl⟩ := h
  set item' := projectWith item snapshot (current.graphGeneration + 1) occurredAt with hitem'
  set values' := (values.set index (.object item')).insertionSort projectLe with hvalues'
  set new := put "updated_at" (.text occurredAt) (put "generation"
    (.integer (registry.generation + 1 : Nat)) (put "projects" (.array values') old)) with hnew
  have hperm : values'.Perm (values.set index (.object item')) := List.perm_insertionSort _ _
  have hkept : ∀ key ∉ stampKeys, new.lookup key = old.lookup key := by
    intro key hkey
    simp only [stampKeys, List.mem_cons, List.not_mem_nil, or_false, not_or] at hkey
    rw [hnew, lookup_put_of_ne hkey.2.2, lookup_put_of_ne hkey.2.1, lookup_put_of_ne hkey.1]
  have hprojects : new.lookup "projects" = some (.array values') := by
    rw [hnew, lookup_put_of_ne (by decide), lookup_put_of_ne (by decide), lookup_put]
  have hcounter : new.lookup "generation" = some (.integer (registry.generation + 1 : Nat)) := by
    rw [hnew, lookup_put_of_ne (by decide), lookup_put]
  obtain ⟨projects', hacc', hperm'⟩ := accepted_set hacc hcurrent
    (reads_projectWith hreads hlegible hgeneration) rfl (edges_of_admitted hadmitted) hperm
  refine ⟨⟨⟨.object new, registry.generation + 1, projects'⟩, index, ?_, rfl, hcurrent, hperm'⟩,
    old, new, values, values', index, item, item', hraw, rfl, hkept, hvalues, hprojects, hcurrent,
    hvalue, hperm, fun key hkey => projectWith_lookup hkey⟩
  refine parseRegistry_eq_ok.2 ⟨new, values', rfl, ?_, ⟨_, optionalU64_of_lookup hcounter hbound,
    rfl⟩, hprojects, hacc', rfl⟩
  rw [requiredString_eq_ok] at hschema ⊢
  rwa [hkept "schema" (by decide)]

/-- Only a registry whose generation cannot be raised is refused. -/
theorem applySnapshot_ok (hregistry : parseRegistry host raw = .ok registry)
    (hcurrent : registry.projects[index]? = some current)
    (hgeneration : registry.generation < u64Max) :
    ∃ raw', applySnapshot registry index snapshot occurredAt = .ok raw' := by
  obtain ⟨old, values, rfl, -, -, hvalues, hacc, hraw⟩ := parseRegistry_eq_ok.1 hregistry
  obtain ⟨value, hvalue, hreads⟩ := forall₂_getElem? hacc.reads hcurrent
  obtain ⟨item, rfl⟩ := parseProject_object hreads
  have hbound : registry.generation + 1 ≤ u64Max := hgeneration
  simp only [applySnapshot, hraw, hvalues, hvalue, hcurrent, demand_true hbound]
  exact ⟨_, rfl⟩

end

/-! ## Synchronization -/

/-- The errors a synchronization can end with once the new document is in place. -/
def LateError (env : SyncEnv) (error : DependencyGraphError) : Prop :=
  (∃ raw e, env.replaceFile raw = .unfinished e ∧ error = .io e) ∨
    (env.cancelled .cleanup = true ∧
      error = .invalid "dependency graph sync lost owner authority before candidate cleanup") ∨
    ∃ e, env.removeCandidate = .error e ∧ error = .io e

/-- Nothing outside the two documents stands in the way of a synchronization. -/
structure Undisturbed (env : SyncEnv) (occurredAt : String) : Prop where
  time : isIsoUtc occurredAt = true
  path : env.candidatePath = .ok ()
  lock : env.lock = .ok ()
  authority : ∀ probe, env.cancelled probe = false
  replace : ∀ raw, env.replaceFile raw = .done
  remove : env.removeCandidate = .ok ()

section

variable {env : SyncEnv} {request : DependencyGraphRequest} {occurredAt : String}
  {registry : Registry} {current : RegisteredProjectRecord} {candidate : GraphSnapshot}

theorem keepsAuthority_eq_ok {probe : Probe} {moment : String} {u : Unit} :
    env.keepsAuthority probe moment = .ok u ↔ env.cancelled probe = false := demand_eq_ok

theorem finishSync_error {changed : Bool} {e : DependencyGraphError}
    (h : finishSync env request candidate changed = .error e) : LateError env e := by
  unfold finishSync SyncEnv.keepsAuthority demand at h
  by_cases hcancelled : env.cancelled .cleanup = false
  · rw [if_pos hcancelled] at h
    cases hremove : env.removeCandidate with
    | ok u => simp [hremove, bind, Except.bind] at h
    | error late =>
      refine .inr (.inr ⟨late, hremove, ?_⟩)
      simpa [hremove, bind, Except.bind, eq_comm] using h
  · rw [if_neg hcancelled] at h
    exact .inr (.inl ⟨by simpa using hcancelled, (Except.error.inj h).symm⟩)

theorem finishSync_ok {changed : Bool} {result : GraphSyncResult}
    (h : finishSync env request candidate changed = .ok result) :
    result = ⟨changed, request.currentProjectId, candidate.products, candidate.dependencies⟩ := by
  unfold finishSync SyncEnv.keepsAuthority at h
  obtain ⟨-, h⟩ := bind_unit_eq_ok.1 h
  cases hremove : env.removeCandidate with
  | ok u => simpa [hremove, eq_comm] using h
  | error late => simp [hremove] at h

/-- An error leaves the file alone, unless it comes when the new document is in place. -/
theorem sync_error {e : DependencyGraphError} (h : (sync env request occurredAt).1 = .error e) :
    (sync env request occurredAt).2 = none ∨ LateError env e := by
  unfold sync at h ⊢
  split at h
  case h_1 => exact .inl rfl
  case h_2 => exact .inl rfl
  case h_3 raw _ =>
    split at h
    case h_1 => exact .inl rfl
    case h_2 late hreplace => exact .inr (.inl ⟨raw, late, hreplace, (Except.error.inj h).symm⟩)
    case h_3 => exact .inr (finishSync_error h)

/-- The current project is found at its place in the list. -/
theorem find_current {projects : List RegisteredProjectRecord}
    (hnodup : (projects.map (·.id)).Nodup) (hcurrent : current ∈ projects) :
    ∃ index, (projects.zipIdx.find? fun entry => entry.1.id == current.id) =
      some (current, index) ∧ projects[index]? = some current := by
  obtain ⟨i, hi, hget⟩ := List.getElem_of_mem hcurrent
  have hmem : (current, i) ∈ projects.zipIdx := by
    rw [List.mem_zipIdx_iff_getElem?, List.getElem?_eq_getElem hi, hget]
  cases hfind : projects.zipIdx.find? fun entry => entry.1.id == current.id with
  | none => exact absurd (List.find?_eq_none.1 hfind _ hmem) (by simp)
  | some entry =>
    obtain ⟨project, index⟩ := entry
    have hproject : projects[index]? = some project :=
      List.mem_zipIdx_iff_getElem?.1 (List.mem_of_find?_eq_some hfind)
    have hid : project.id = current.id := by simpa using List.find?_some hfind
    have hsame : project = current :=
      List.inj_on_of_nodup_map hnodup (List.mem_of_getElem? hproject) hcurrent hid
    subst hsame
    exact ⟨index, rfl, hproject⟩

section

variable (hregistry : env.readRegistry = .ok registry) (hcurrent : current ∈ registry.projects)
  (hid : current.id = request.currentProjectId)
  (hbase : current.graphGeneration = request.baseGraphGeneration)
  (hcandidate : env.readCandidate registry request.currentProjectId = .ok candidate)
  (hmatch : candidate.baseGraphGeneration = request.baseGraphGeneration)

include hregistry hcurrent hid

theorem readRegistry_spec : ∃ raw index, parseRegistry env.toHost raw = .ok registry ∧
    registry.projects[index]? = some current ∧
    (registry.projects.zipIdx.find? fun entry => entry.1.id == request.currentProjectId) =
      some (current, index) := by
  obtain ⟨raw, -, hraw⟩ := bind_eq_ok.1 hregistry
  obtain ⟨_, _, -, -, -, -, hacc, -⟩ := parseRegistry_eq_ok.1 hraw
  obtain ⟨index, hfind, hget⟩ := find_current hacc.distinct hcurrent
  exact ⟨raw, index, hraw, hget, hid ▸ hfind⟩

include hcandidate

/-- What a synchronization plans: to write nothing, or the registry with the new slice. -/
theorem planSync_spec {found : GraphSnapshot} {document : Option Json}
    (h : planSync env request occurredAt = .ok (found, document)) :
    found = candidate ∧ ∃ index, registry.projects[index]? = some current ∧
      if differs current candidate then
        ∃ raw, document = some raw ∧ applySnapshot registry index candidate occurredAt = .ok raw
      else document = none := by
  obtain ⟨_, index, -, hget, hfind⟩ := readRegistry_spec hregistry hcurrent hid
  simp only [planSync, hregistry, hfind, hcandidate, bind_eq_ok, demand_eq_ok,
    keepsAuthority_eq_ok, exists_const, Except.ok.injEq, exists_eq_left'] at h
  obtain ⟨-, -, -, -, -, -, -, -, -, -, h⟩ := h
  split at h
  case isTrue hdiffers =>
    simp only [bind_eq_ok, keepsAuthority_eq_ok, exists_const, Except.ok.injEq,
      Prod.mk.injEq] at h
    obtain ⟨raw, hraw, -, rfl, rfl⟩ := h
    exact ⟨rfl, index, hget, by rw [if_pos hdiffers]; exact ⟨raw, rfl, hraw⟩⟩
  case isFalse hdiffers =>
    obtain ⟨rfl, rfl⟩ := Prod.mk.inj (Except.ok.inj h)
    exact ⟨rfl, index, hget, by rw [if_neg hdiffers]⟩

include hbase hmatch

theorem planSync_ok (hfree : Undisturbed env occurredAt)
    (hgeneration : registry.generation < u64Max) :
    ∃ document, planSync env request occurredAt = .ok (candidate, document) := by
  obtain ⟨raw, index, hraw, hget, hfind⟩ := readRegistry_spec hregistry hcurrent hid
  have hkeeps : ∀ probe moment, env.keepsAuthority probe moment = .ok () :=
    fun probe _ => demand_true (hfree.authority probe)
  simp only [planSync, hfree.time, hfree.path, hfree.lock, hkeeps, hregistry, hfind, hcandidate,
    demand_true hbase, demand_true hmatch, bind, Except.bind, demand_trivial]
  split
  · obtain ⟨raw', hraw'⟩ :=
      @applySnapshot_ok env.toHost raw registry index current candidate occurredAt hraw hget
        hgeneration
    exact ⟨some raw', by rw [hraw']⟩
  · exact ⟨none, rfl⟩

end

/-- **What a synchronization leaves of the registry.** An error leaves the file alone unless the new
document is in place already. For a registry and a candidate the readers accept, at the generation
the request expects, what is written is accepted again and differs in the slice of the current
project; nothing is written when the slice is the candidate's; and a synchronization that nothing
disturbs succeeds. Product names that start with a second colon and a graph generation that cannot
be raised are left out. -/
theorem sync_keeps_registry (env : SyncEnv) (request : DependencyGraphRequest)
    (occurredAt : String) :
    (∀ e, (sync env request occurredAt).1 = .error e →
      (sync env request occurredAt).2 = none ∨ LateError env e) ∧
    ∀ registry current candidate, env.readRegistry = .ok registry →
      current ∈ registry.projects → current.id = request.currentProjectId →
      current.graphGeneration = request.baseGraphGeneration →
      env.readCandidate registry request.currentProjectId = .ok candidate →
      candidate.baseGraphGeneration = request.baseGraphGeneration →
      candidate.PlainNames → current.graphGeneration < u64Max →
      (∀ raw, (sync env request occurredAt).2 = some raw →
        differs current candidate = true ∧
          OneSlice env.toHost registry current candidate raw) ∧
      (∀ result, (sync env request occurredAt).1 = .ok result →
        result = ⟨differs current candidate, request.currentProjectId, candidate.products,
            candidate.dependencies⟩ ∧
          (sync env request occurredAt).2.isSome = differs current candidate) ∧
      (Undisturbed env occurredAt → registry.generation < u64Max →
        ∃ result, (sync env request occurredAt).1 = .ok result) := by
  refine ⟨fun e he => sync_error he, ?_⟩
  intro registry current candidate hregistry hcurrent hid hbase hcandidate hmatch hnames hgeneration
  have hplan := fun {found document}
    (h : planSync env request occurredAt = .ok (found, document)) =>
      planSync_spec hregistry hcurrent hid hcandidate h
  refine ⟨fun raw hraw => ?_, fun result hresult => ?_, fun hfree hbound => ?_⟩
  · -- a document is written only after it has been planned
    have hplanned : planSync env request occurredAt = .ok (candidate, some raw) := by
      unfold sync at hraw
      split at hraw
      case h_1 => cases hraw
      case h_2 => cases hraw
      case h_3 found document hfound =>
        have hsome : some document = some raw := by
          split at hraw
          case h_1 => cases hraw
          case h_2 => exact hraw
          case h_3 => exact hraw
        rw [hfound, (hplan hfound).1, hsome]
    obtain ⟨-, index, hget, hdoc⟩ := hplan hplanned
    split at hdoc
    case isTrue hdiffers =>
      obtain ⟨raw', hsame, happly⟩ := hdoc
      obtain rfl := Option.some.inj hsame
      obtain ⟨value, _, hvalue, -, -⟩ := readRegistry_spec hregistry hcurrent hid
      obtain ⟨candidateValue, -, hread⟩ := bind_eq_ok.1 hcandidate
      obtain ⟨-, -, -, hadmitted⟩ := readSnapshot_spec hread
      exact ⟨hdiffers, applySnapshot_oneSlice hvalue hget (hid ▸ hadmitted)
        (legible_of_readSnapshot hread hnames) hgeneration happly⟩
    case isFalse => cases hdoc
  · unfold sync at hresult ⊢
    split at hresult
    case h_1 => cases hresult
    case h_2 found hfound =>
      obtain ⟨rfl, index, -, hdoc⟩ := hplan hfound
      split at hdoc
      case isTrue => obtain ⟨_, hsome, _⟩ := hdoc; cases hsome
      case isFalse hdiffers =>
        rw [Bool.not_eq_true] at hdiffers
        rw [hdiffers]
        exact ⟨finishSync_ok hresult, rfl⟩
    case h_3 found raw hfound =>
      obtain ⟨rfl, index, -, hdoc⟩ := hplan hfound
      split at hdoc
      case isFalse => cases hdoc
      case isTrue hdiffers =>
        rw [hdiffers]
        split at hresult
        case h_1 => cases hresult
        case h_2 => cases hresult
        case h_3 => exact ⟨finishSync_ok hresult, rfl⟩
  · obtain ⟨document, hdocument⟩ :=
      planSync_ok hregistry hcurrent hid hbase hcandidate hmatch hfree hbound
    have hfinish : ∀ changed, finishSync env request candidate changed =
        .ok ⟨changed, request.currentProjectId, candidate.products, candidate.dependencies⟩ := by
      intro changed
      unfold finishSync SyncEnv.keepsAuthority
      rw [demand_true (hfree.authority .cleanup), hfree.remove]
      rfl
    unfold sync
    rw [hdocument]
    cases document with
    | none => exact ⟨_, hfinish false⟩
    | some raw => exact ⟨_, by simp only [hfree.replace raw]; exact hfinish true⟩

end

/-! ## A registry of two projects -/

namespace RegistrySample

def idA : String := "repo-6a50dc8584134c7de537"

def idB : String := "repo-9812b0b9d61e09b927d0"

def digest (bytes : List UInt8) : List UInt8 :=
  if bytes = utf8 "/a" then
    [106, 80, 220, 133, 132, 19, 76, 125, 229, 55, 192, 5, 47, 246, 210, 54, 191, 135, 67, 85, 224,
      80, 201, 5, 35, 224, 197, 255, 42, 84, 58, 40]
  else if bytes = utf8 "/b" then
    [152, 18, 176, 185, 214, 30, 9, 185, 39, 208, 63, 249, 63, 100, 83, 13, 143, 207, 55, 56, 16,
      183, 0, 113, 41, 235, 75, 32, 150, 36, 18, 203]
  else []

def registryText : String :=
  "\x7b\"schema\":\"orchestra/project-registry@1\",\"projects\":[" ++
    "\x7b\"id\":\"repo-6a50dc8584134c7de537\",\"root\":\"/a\",\"name\":\"a\"\x7d," ++
    "\x7b\"id\":\"repo-9812b0b9d61e09b927d0\",\"root\":\"/b\",\"name\":\"b\"\x7d]\x7d"

def project (id root name : String) : Json :=
  .object [("id", .text id), ("name", .text name), ("root", .text root)]

def registryValue : Json :=
  .object [("projects", .array [project idA "/a" "a", project idB "/b" "b"]),
    ("schema", .text registrySchema)]

def candidateText : String :=
  "\x7b\"schema\":\"orchestra/project-graph-snapshot@1\",\"base_graph_generation\":0," ++
    "\"products\":[\"npm:x\"],\"dependencies\":[]\x7d"

def candidateValue : Json :=
  .object [("base_graph_generation", .integer 0), ("dependencies", .array []),
    ("products", texts ["npm:x"]), ("schema", .text snapshotSchema)]

/-- The two files and their values. -/
def serde : Serde where
  render := fun _ => ""
  read := fun text =>
    if text = registryText then .ok registryValue
    else if text = candidateText then .ok candidateValue
    else .error "expected value"

def env (cancelled : Probe → Bool) : SyncEnv where
  sha256 := digest
  currentDir := .ok "/a"
  serde := serde
  candidatePath := .ok ()
  lock := .ok ()
  cancelled := cancelled
  registryText := .ok registryText
  candidateText := .ok candidateText
  replaceFile := fun _ => .done
  removeCandidate := .ok ()

def request : DependencyGraphRequest := ⟨idA, 0⟩

def now : String := "2026-01-01T00:00:00Z"

def snapshot : GraphSnapshot := ⟨0, ["npm:x"], []⟩

theorem readRegistry_env :
    (env fun _ => false).readRegistry.toOption.map (fun r => (r.generation, r.projects)) =
      some (0, [⟨idA, "a", "/a", [], [], 0⟩, ⟨idB, "b", "/b", [], [], 0⟩]) := by
  decide +kernel

theorem readCandidate_env {registry : Registry}
    (h : (env fun _ => false).readRegistry = .ok registry) :
    (env fun _ => false).readCandidate registry idA = .ok snapshot := by
  have hread : ((env fun _ => false).readRegistry.bind fun r =>
      (env fun _ => false).readCandidate r idA).toOption = some snapshot := by decide +kernel
  rw [h] at hread
  cases hc : (env fun _ => false).readCandidate registry idA with
  | ok found => simpa [Except.bind, hc, Except.toOption] using hread
  | error e => simp [Except.bind, hc, Except.toOption] at hread

theorem undisturbed_env : Undisturbed (env fun _ => false) now where
  time := by decide +kernel
  path := rfl
  lock := rfl
  authority := fun _ => rfl
  replace := fun _ => rfl
  remove := rfl

end RegistrySample

open RegistrySample in
/-- The curator's first product is put into the slice of the project. -/
theorem sync_keeps_registry_first : ∃ registry current raw,
    (env fun _ => false).readRegistry = .ok registry ∧
    (sync (env fun _ => false) request now).1 = .ok ⟨true, idA, ["npm:x"], []⟩ ∧
    (sync (env fun _ => false) request now).2 = some raw ∧
    OneSlice (env fun _ => false).toHost registry current snapshot raw := by
  have hread := readRegistry_env
  cases hregistry : (env fun _ => false).readRegistry with
  | error e => rw [hregistry] at hread; cases hread
  | ok registry =>
    rw [hregistry] at hread
    obtain ⟨hgeneration, hprojects⟩ := Prod.mk.inj (Option.some.inj hread)
    obtain ⟨hdoc, hresult, hok⟩ := (sync_keeps_registry (env fun _ => false) request now).2
      registry ⟨idA, "a", "/a", [], [], 0⟩ snapshot hregistry
      (by rw [hprojects]; exact List.mem_cons_self) rfl rfl (readCandidate_env hregistry) rfl
      (by unfold GraphSnapshot.PlainNames; decide +kernel) (by decide)
    obtain ⟨result, hsync⟩ := hok undisturbed_env (by rw [hgeneration]; decide)
    obtain ⟨hvalue, hsome⟩ := hresult result hsync
    obtain ⟨raw, hraw⟩ := Option.isSome_iff_exists.1 hsome
    exact ⟨registry, _, raw, rfl, by rw [hsync, hvalue]; rfl, hraw, (hdoc raw hraw).2⟩

open RegistrySample in
/-- An owner that loses its authority between the write and the cleanup gets an error, with the new
document in place. -/
theorem sync_error_written :
    (sync (env (· == .cleanup)) request now).1 = .error
        (.invalid "dependency graph sync lost owner authority before candidate cleanup") ∧
      ((sync (env (· == .cleanup)) request now).2.bind fun raw =>
        (parseRegistry (env (· == .cleanup)).toHost raw).toOption.map fun registry =>
          (registry.generation, registry.projects.map (·.products))) =
        some (1, [["npm:x"], []]) ∧
      ((env (· == .cleanup)).readRegistry.toOption.map fun registry =>
          (registry.generation, registry.projects.map (·.products))) = some (0, [[], []]) := by
  decide +kernel

end Orchestrail.DependencyGraph
