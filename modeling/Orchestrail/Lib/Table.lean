import Std.Data.ExtTreeMap
import Std.Data.ExtTreeSet
import Mathlib.Data.List.Nodup

/-!
# Ordered tables

Finite maps and sets with a fixed iteration order, as `Std.ExtTreeMap` and `Std.ExtTreeSet`: the
values in key order (`vals`), and a fallible update of every entry named by a list of keys
(`updateEach`).

* `mem_vals`: a value is listed iff some key holds it.
-/

namespace Orchestrail.Table

open Std

variable {α β ε : Type} [Ord α]

/-- The values in key order. -/
def vals (m : ExtTreeMap α β) [TransOrd α] : List β := m.toList.map Prod.snd

/-- The elements in order. -/
def elems [TransOrd α] (s : ExtTreeSet α) : List α := s.toList

/-- Rewrite the entry of every key of the list, failing on the first key that has none or whose
update fails. -/
def updateEach [TransOrd α] (missing : α → ε) (f : α → β → Except ε β) :
    List α → ExtTreeMap α β → Except ε (ExtTreeMap α β)
  | [], m => .ok m
  | k :: ks, m =>
    match m[k]? with
    | none => .error (missing k)
    | some b =>
      match f k b with
      | .error e => .error e
      | .ok b' => updateEach missing f ks (m.insert k b')

variable [TransOrd α] [LawfulEqOrd α]

theorem mem_vals {m : ExtTreeMap α β} {b : β} : b ∈ vals m ↔ ∃ k : α, m[k]? = some b := by
  simp only [vals, List.mem_map, Prod.exists, exists_eq_right]
  exact exists_congr fun k => ExtTreeMap.mem_toList_iff_getElem?_eq_some

theorem any_vals {m : ExtTreeMap α β} {p : β → Bool} :
    (vals m).any p = true ↔ ∃ (k : α) (b : β), m[k]? = some b ∧ p b = true := by
  simp only [List.any_eq_true, mem_vals]
  exact ⟨fun ⟨b, ⟨k, hk⟩, hb⟩ => ⟨k, b, hk, hb⟩, fun ⟨k, b, hk, hb⟩ => ⟨b, ⟨k, hk⟩, hb⟩⟩

theorem any_vals_eq_false {m : ExtTreeMap α β} {p : β → Bool} :
    (vals m).any p = false ↔ ∀ (k : α) (b : β), m[k]? = some b → p b = false := by
  rw [← Bool.not_eq_true, any_vals]
  simp only [not_exists, not_and, Bool.not_eq_true]

theorem mem_elems {s : ExtTreeSet α} {a : α} : a ∈ elems s ↔ a ∈ s := by
  simp [elems, ExtTreeSet.mem_toList]

theorem nodup_elems (s : ExtTreeSet α) : (elems s).Nodup := by
  have h := s.distinct_toList
  refine h.imp ?_
  intro a b hab he
  subst he
  exact hab ReflOrd.compare_self

/-- **What a successful `updateEach` did**: each named entry was updated, and nothing else. -/
theorem updateEach_getElem? {missing : α → ε} {f : α → β → Except ε β} :
    ∀ {ks : List α} {m m' : ExtTreeMap α β}, ks.Nodup → updateEach missing f ks m = .ok m' →
      (∀ k ∈ ks, ∃ b b', m[k]? = some b ∧ f k b = .ok b' ∧ m'[k]? = some b') ∧
      ∀ k, k ∉ ks → m'[k]? = m[k]?
  | [], m, m', _, h => by
    obtain rfl : m = m' := by simpa [updateEach] using h
    simp
  | k :: ks, m, m', hnd, h => by
    obtain ⟨hk, hnd⟩ := List.nodup_cons.1 hnd
    simp only [updateEach] at h
    split at h
    · exact absurd h (by simp)
    rename_i b hb
    split at h
    · exact absurd h (by simp)
    rename_i b' hb'
    obtain ⟨h1, h2⟩ := updateEach_getElem? hnd h
    refine ⟨?_, ?_⟩
    · intro j hj
      rcases List.mem_cons.1 hj with rfl | hj
      · refine ⟨b, b', hb, hb', ?_⟩
        rw [h2 _ hk]; simp
      · obtain ⟨c, c', hc, hf, hm⟩ := h1 j hj
        refine ⟨c, c', ?_, hf, hm⟩
        rw [ExtTreeMap.getElem?_insert] at hc
        have hne : k ≠ j := fun he => hk (he ▸ hj)
        simpa [hne] using hc
    · intro j hj
      have hne : k ≠ j := fun he => hj (he ▸ List.mem_cons_self)
      rw [h2 j (fun hm => hj (List.mem_cons_of_mem _ hm)), ExtTreeMap.getElem?_insert]
      simp [hne]

omit [LawfulEqOrd α] in
/-- A successful `updateEach` adds no key. -/
theorem updateEach_size {missing : α → ε} {f : α → β → Except ε β} :
    ∀ {ks : List α} {m m' : ExtTreeMap α β}, updateEach missing f ks m = .ok m' → m'.size = m.size
  | [], m, m', h => by
    obtain rfl : m = m' := by simpa [updateEach] using h
    rfl
  | k :: ks, m, m', h => by
    simp only [updateEach] at h
    split at h
    · exact absurd h (by simp)
    rename_i b hb
    split at h
    · exact absurd h (by simp)
    have hm : k ∈ m := by rw [ExtTreeMap.mem_iff_isSome_getElem?, hb]; rfl
    rw [updateEach_size h, ExtTreeMap.size_insert, if_pos (ExtTreeMap.mem_iff_contains.1 hm)]

/-- Values that carry their own key list the keys, without repetition. -/
theorem nodup_keyed {m : ExtTreeMap α β} {key : β → α} (hkey : ∀ (k : α) (b : β), m[k]? = some b → key b = k)
    (p : β → Bool) : (((vals m).filter p).map key).Nodup := by
  have hkeys : (vals m).map key = m.keys := by
    rw [vals, List.map_map, ← ExtTreeMap.map_fst_toList_eq_keys]
    refine List.map_congr_left fun x hx => ?_
    exact hkey x.1 x.2 (ExtTreeMap.mem_toList_iff_getElem?_eq_some.1 hx)
  have hnd : ((vals m).map key).Nodup := hkeys ▸ m.nodup_keys
  exact hnd.sublist (List.filter_sublist.map key)

theorem mem_foldl_insert {as : List α} {s : ExtTreeSet α} {a : α} :
    a ∈ as.foldl (·.insert ·) s ↔ a ∈ s ∨ a ∈ as := by
  induction as generalizing s with
  | nil => simp
  | cons b as ih =>
    rw [List.foldl_cons, ih, ExtTreeSet.mem_insert, Std.compare_eq_iff_eq, List.mem_cons]
    constructor
    · rintro ((rfl | h) | h)
      exacts [.inr (.inl rfl), .inl h, .inr (.inr h)]
    · rintro (h | rfl | h)
      exacts [.inl (.inr h), .inl (.inl rfl), .inr h]

/-- A set built from a list without repetition has as many elements. -/
theorem size_foldl_insert {as : List α} : ∀ {s : ExtTreeSet α}, as.Nodup → (∀ a ∈ as, a ∉ s) →
    (as.foldl (·.insert ·) s).size = s.size + as.length := by
  induction as with
  | nil => simp
  | cons b as ih =>
    intro s hnd hfresh
    obtain ⟨hb, hnd⟩ := List.nodup_cons.1 hnd
    rw [List.foldl_cons, ih hnd, ExtTreeSet.size_insert, if_neg, List.length_cons]
    · omega
    · rw [← ExtTreeSet.mem_iff_contains]; exact hfresh b List.mem_cons_self
    · intro a ha hin
      rw [ExtTreeSet.mem_insert, Std.compare_eq_iff_eq] at hin
      rcases hin with rfl | hin
      · exact hb ha
      · exact hfresh a (List.mem_cons_of_mem _ ha) hin

theorem size_ofNodup {as : List α} (h : as.Nodup) :
    (as.foldl (·.insert ·) (∅ : ExtTreeSet α)).size = as.length := by
  rw [size_foldl_insert h (by simp)]; simp

end Orchestrail.Table
