import Orchestrail.Proof.Journal
import Orchestrail.Spec.Reader

/-!
# What a reader sees of a journal that moves on

`Later` is what may happen to a journal between two looks: any number of ticks. The generation of
the index never decreases, and while it stands still the archive and the recorded transfer stand
still too, so that a reader who finds it unchanged has looked at one archive all the time.
-/

namespace Orchestrail

open Records Outcome Watch

namespace Journal

variable {j j' t u : Journal} {sha256 : Bytes → String}

/-- What may happen between two looks. -/
def Later : Journal → Journal → Prop := Relation.ReflTransGen Tick

theorem Later.refl : Later j j := Relation.ReflTransGen.refl

theorem Later.trans (h : Later j t) (h' : Later t u) : Later j u := Relation.ReflTransGen.trans h h'

theorem Later.sound (h : Later j j') (hj : j.Sound) : j'.Sound := by
  induction h with
  | refl => exact hj
  | tail _ htick ih => exact htick.sound ih

/-- **Records stay**: a later journal begins with the records of an earlier one. -/
theorem Later.records (h : Later j j') : j.records <+: j'.records := by
  induction h with
  | refl => exact List.prefix_rfl
  | tail _ htick ih =>
    rcases htick.records with he | ⟨r, he⟩
    · exact he ▸ ih
    · exact ih.trans (he ▸ List.prefix_append _ _)

/-- The generation of the index. -/
def generation (j : Journal) : Nat := 2 * j.archived.length + j.front.pending.length

theorem generation_metadata : (j.metadata sha256).generation = j.generation := rfl

/-- The same archive, and the same transfer on record. -/
structure Same (j t : Journal) : Prop where
  archived : t.archived = j.archived
  pending : t.front.pending = j.front.pending

theorem Same.refl : Same j j := ⟨rfl, rfl⟩

theorem Same.symm (h : Same j t) : Same t j := ⟨h.archived.symm, h.pending.symm⟩

theorem Same.trans (h : Same j t) (h' : Same t u) : Same j u :=
  ⟨h'.archived.trans h.archived, h'.pending.trans h.pending⟩

theorem Same.counted (h : Same j t) : t.counted = j.counted := by
  rw [Journal.counted, Journal.counted, h.archived, h.pending]

/-- A tick leaves the archive alone, or it moves the generation. -/
theorem Tick.same_or_lt (h : Tick j t) : Same j t ∨ j.generation < t.generation := by
  cases h with
  | write | tear | repair | copy | empty => exact .inl ⟨rfl, rfl⟩
  | count s' hs =>
    right
    simp [generation, Front.pending]
  | settle =>
    right
    simp [generation, Front.pending]
    omega

theorem Same.generation (h : Same j t) : t.generation = j.generation := by
  rw [Journal.generation, Journal.generation, h.archived, h.pending]

theorem Later.generation_le (h : Later j j') : j.generation ≤ j'.generation := by
  induction h with
  | refl => exact le_rfl
  | tail _ htick ih =>
    rcases htick.same_or_lt with hsame | hlt
    · rw [hsame.generation]
      exact ih
    · omega

/-- **One generation, one archive.** -/
theorem Later.same (h : Later j j') (hgen : j'.generation = j.generation) : Same j j' := by
  induction h with
  | refl => exact .refl
  | @tail t u hjt htick ih =>
    have hle := Later.generation_le hjt
    rcases htick.same_or_lt with hsame | hlt
    · exact (ih (by rw [← hsame.generation]; exact hgen)).trans hsame
    · omega

/-- The records behind those the index counts. -/
def ahead (j : Journal) : List Record :=
  match j.front with
  | .flowing rs _ => rs
  | .copied c => c.records
  | .counted _ | .emptied _ => []

theorem records_eq (j : Journal) : j.records = j.counted.flatMap Chunk.records ++ j.ahead := by
  cases hf : j.front <;>
    simp [records, counted, ahead, hf, Front.records, Front.pending]

theorem live_eq (j : Journal) : j.live = lines j.ahead ++ j.front.torn.1 := by
  cases hf : j.front <;>
    simp [live, skipped, ahead, hf, Front.active, Front.torn, noRecord, lines, Chunk.bytes]

/-- Where there is something ahead, it is what the active file begins with. -/
theorem active_of_live (h : j.live ≠ []) : j.skipped = 0 ∧ j.front.pending = [] := by
  cases hf : j.front with
  | flowing | copied => simp [skipped, hf, Front.pending]
  | counted c | emptied c =>
    exact absurd (by simp [live, skipped, hf, Front.active]) h

theorem active_eq (h : j.front.pending = []) : j.front.active = lines j.ahead ++ j.front.torn.1 := by
  cases hf : j.front <;> simp_all [ahead, Front.active, Front.torn, Front.pending, noRecord, Chunk.bytes]

/-- In one archive, what is ahead only grows. -/
theorem Later.ahead (h : Later j t) (hsame : Same j t) : j.ahead <+: t.ahead := by
  have hrecords := h.records
  rwa [records_eq, records_eq, hsame.counted, List.prefix_append_right_inj] at hrecords

end Journal

/-! ## A directory over time -/

/-- The directory at the looks of a reader. -/
structure Timeline (sha256 : Bytes → String) (sight : Nat → Work) where
  journal : Nat → Journal
  seen : ∀ n, sight n = (journal n).work sha256
  sound : (journal 0).Sound
  later : ∀ n, (journal n).Later (journal (n + 1))

namespace Timeline

open Journal

variable {sha256 : Bytes → String} {sight : Nat → Work} (line : Timeline sha256 sight)

theorem later_le {n m : Nat} (h : n ≤ m) : (line.journal n).Later (line.journal m) := by
  induction m, h using Nat.le_induction with
  | base => exact .refl
  | succ m _ ih => exact ih.trans (line.later m)

theorem sound_at (n : Nat) : (line.journal n).Sound :=
  (line.later_le (Nat.zero_le n)).sound line.sound

/-- Between two looks of one generation, every look is at one archive. -/
theorem same_between {a b n : Nat} (hab : a ≤ n) (hnb : n ≤ b)
    (hgen : (line.journal b).generation = (line.journal a).generation) :
    Same (line.journal a) (line.journal n) := by
  have h1 := (line.later_le hab).generation_le
  have h2 := (line.later_le hnb).generation_le
  exact (line.later_le hab).same (by omega)

variable (hhex : ∀ b, Text.isHex 64 (sha256 b) = true)

include hhex

theorem lookMetadata_sees (n : Nat) {Q : Io RotationMetadata → Nat → Prop}
    (h : Q (.ok ((line.journal n).metadata sha256)) (n + 1)) : Sees lookMetadata sight n Q := by
  refine sees_bind (sees_look (sees_give ?_))
  rw [line.seen, load_work hhex (line.sound_at n)]
  exact h

/-- The layout resolved by two looks, when nothing was moved since the index was read. -/
theorem resolveLayout_sees (a n : Nat) {Q : Io EventStreamLayout → Nat → Prop}
    (hsame : Same (line.journal a) (line.journal n) → Same (line.journal a) (line.journal (n + 1)) →
      Q (if (stream (line.journal (n + 1)).counted).length + (line.journal (n + 1)).live.length ≤ u64Max
        then .ok (line.journal (n + 1)).layout
        else invalidData "event stream length overflowed") (n + 2))
    (hother : ∀ r, ∀ m, n + 1 ≤ m → m ≤ n + 2 → ¬ (Same (line.journal a) (line.journal n) ∧
      Same (line.journal a) (line.journal (n + 1))) → Q r m) :
    Sees (resolveLayout sha256 ((line.journal a).metadata sha256)) sight n Q := by
  refine sees_bind (sees_look ?_)
  refine sees_bind (sees_give ?_)
  by_cases h1 : Same (line.journal a) (line.journal n)
  · rw [line.seen n, rotationStateFrom_work hhex (line.sound_at n) h1.counted]
    refine sees_bind (sees_look (sees_give ?_))
    by_cases h2 : Same (line.journal a) (line.journal (n + 1))
    · rw [line.seen (n + 1), layoutFromState_work h2.archived h2.pending]
      exact hsame h1 h2
    · exact hother _ _ (by omega) le_rfl fun h => h2 h.2
  · cases rotationStateFrom (sight n) ((line.journal a).metadata sha256) with
    | error e => exact hother _ _ (by omega) (by omega) fun h => h1 h.1
    | ok state =>
      refine sees_bind (sees_look (sees_give ?_))
      exact hother _ _ (by omega) le_rfl fun h => h1 h.1

/-- **A snapshot** shows the directory as it was at one look, and is marked with its generation. -/
theorem snapshot_sees : ∀ (k n : Nat), Sees (eventStreamSnapshot sha256 k) sight n fun r m =>
    n ≤ m ∧ ∀ snapshot, r = .ok snapshot → ∃ p, n ≤ p ∧ p < m ∧
      snapshot.layout = (line.journal p).layout ∧
      snapshot.generation = (line.journal p).generation ∧
      (stream (line.journal p).counted).length + (line.journal p).live.length ≤ u64Max := by
  intro k
  induction k with
  | zero => exact fun n => sees_throw ⟨le_rfl, fun _ h => by cases h⟩
  | succ k ih =>
    intro n
    -- the index again, once the layout is resolved: only a standing one lets the layout through
    have hconfirm : ∀ (resolved : Io EventStreamLayout) (m : Nat), n + 2 ≤ m →
        (∀ layout, resolved = .ok layout → Same (line.journal n) (line.journal (n + 1)) →
          Same (line.journal n) (line.journal (n + 2)) → m = n + 3 ∧
          layout = (line.journal (n + 2)).layout ∧
          (stream (line.journal (n + 2)).counted).length + (line.journal (n + 2)).live.length ≤
            u64Max) →
        Sees (do
          if (← lookMetadata).generation ≠ ((line.journal n).metadata sha256).generation then
            eventStreamSnapshot sha256 k
          else do
            let layout ← give resolved
            pure (⟨layout, ((line.journal n).metadata sha256).generation⟩ : EventStreamSnapshot))
          sight m fun r m => n ≤ m ∧ ∀ snapshot, r = .ok snapshot → ∃ p, n ≤ p ∧ p < m ∧
            snapshot.layout = (line.journal p).layout ∧
            snapshot.generation = (line.journal p).generation ∧
            (stream (line.journal p).counted).length + (line.journal p).live.length ≤ u64Max := by
      intro resolved m hm hresolved
      refine sees_bind (line.lookMetadata_sees hhex m ?_)
      simp only [Onward]
      split
      · refine (ih (m + 1)).mono fun r m' h => ⟨by omega, fun snapshot hr => ?_⟩
        obtain ⟨p, hp, h⟩ := h.2 snapshot hr
        exact ⟨p, by omega, h⟩
      · rename_i hgen
        rw [generation_metadata, generation_metadata, ne_eq, not_not] at hgen
        refine sees_bind (sees_give ?_)
        cases hr : resolved with
        | error e => exact ⟨by omega, fun _ h => by cases h⟩
        | ok layout =>
          have h1 := line.same_between (n := n + 1) (by omega) (by omega) hgen
          have h2 := line.same_between (n := n + 2) (by omega) hm hgen
          obtain ⟨rfl, hlayout, hfits⟩ := hresolved layout hr h1 h2
          simp only [Onward]
          refine sees_pure ⟨by omega, fun snapshot hs => ?_⟩
          obtain rfl := Except.ok.inj hs
          exact ⟨n + 2, by omega, by omega, hlayout, h2.generation.symm, hfits⟩
    refine sees_bind (line.lookMetadata_sees hhex n ?_)
    simp only [Onward]
    refine sees_bind (sees_capture (line.resolveLayout_sees hhex n (n + 1) (fun h1 h2 => ?_)
      fun r m hm _ hnot => ?_))
    · refine hconfirm _ _ (by omega) fun layout hl _ _ => ?_
      split at hl
      · rename_i hfits
        exact ⟨rfl, (Except.ok.inj hl).symm, hfits⟩
      · cases hl
    · exact hconfirm _ _ (by omega) fun layout _ h1 h2 => absurd ⟨h1, h2⟩ hnot

end Timeline

end Orchestrail
