/-
# Unions are canonical

The steps of `canonicalMembers` each establish one clause of the canonical form
and keep those before it: flattening leaves no union and no `never`, sorting makes
the positions increase, joining the booleans leaves at most one of them, and what
follows only drops members.
-/

import GradualTyping.Proofs.Triples

namespace GradualTyping

open List

namespace TypeTable

variable {t : TypeTable}
variable {m : TypeId} {ms : List TypeId}

/-! ### Members of a union -/

theorem Sound.below_unionMembers (s : t.Sound) {id : TypeId} (h : t.Has id) :
    t.Has (t.unionMembers id) := by
  unfold unionMembers
  split
  · next ms hms => exact s.below_node hms
  · exact below_nil
  · exact below_singleton.2 h

/-- The members of a type are no unions and not `never`. -/
theorem Sound.unionMembers_plain (s : t.Sound) {id : TypeId} (h : m ∈ t.unionMembers id) :
    (t.resolve m).isUnion = false ∧ t.resolve m ≠ .never := by
  unfold unionMembers at h
  split at h
  · next ms hms =>
    have hc : t.CanonicalUnion ms := s.canonical_node hms
    exact ⟨hc.notUnion m h, hc.notNever m h⟩
  · exact absurd h not_mem_nil
  · next hu hn =>
    obtain rfl := mem_singleton.1 h
    refine ⟨?_, hn⟩
    cases hr : t.resolve m with
    | union ms => exact absurd hr (hu ms)
    | _ => rfl

theorem Sound.flattenUnion_plain (s : t.Sound)
    (h : m ∈ t.flattenUnion ms) : (t.resolve m).isUnion = false ∧ t.resolve m ≠ .never := by
  obtain ⟨id, -, hid⟩ := mem_flatMap.1 h
  exact s.unionMembers_plain hid

/-! ### The steps after sorting -/

theorem mem_joinBooleans (h : m ∈ joinBooleans ms) : m = .boolean ∨ m ∈ ms := by
  unfold joinBooleans at h
  split at h
  · rcases mem_append.1 (mem_sortIds.1 h) with h | h
    · exact .inr (mem_filter.1 h).1
    · exact .inl (mem_singleton.1 h)
  · exact .inr h

theorem increasing_joinBooleans (h : Increasing ms) : Increasing (joinBooleans ms) := by
  unfold joinBooleans
  split
  · exact increasing_sortIds
  · exact h

theorem not_both_joinBooleans (ms : List TypeId) :
    ¬ (.true ∈ joinBooleans ms ∧ .false ∈ joinBooleans ms) := by
  unfold joinBooleans
  split
  · intro h
    rcases mem_append.1 (mem_sortIds.1 h.1) with h | h
    · simpa using (mem_filter.1 h).2
    · exact absurd (mem_singleton.1 h) (by decide)
  · next h => exact h

theorem dropCovered_sublist (t : TypeTable) (ms : List TypeId) : (t.dropCovered ms).Sublist ms := by
  unfold dropCovered
  dsimp only
  split
  · exact List.Sublist.refl ms
  · exact filter_sublist

/-- A literal that is left has no primitive beside it. -/
theorem uncovered_dropCovered {p : TypeId} {l : Literal}
    (hm : m ∈ t.dropCovered ms) (hl : t.resolve m = .literal l) (hp : p ∈ t.dropCovered ms) :
    t.resolve p ≠ .primitive l.base := by
  intro hres
  unfold dropCovered at hm
  extract_lets present at hm
  have hpresent : l.base ∈ present :=
    mem_filterMap.2 ⟨p, (dropCovered_sublist t ms).subset hp, by rw [hres]⟩
  split at hm
  · next he => exact absurd (isEmpty_iff.1 he ▸ hpresent) not_mem_nil
  · have hkept := (mem_filter.1 hm).2
    rw [hl] at hkept
    exact of_decide_eq_true hkept hpresent

/-! ### The whole -/

theorem Sound.below_canonicalMembers (s : t.Sound) (h : t.Has ms) :
    t.Has (t.canonicalMembers ms) := by
  unfold canonicalMembers
  dsimp only
  split
  · exact below_singleton.2 (s.below_fixed rfl)
  · split
    · exact below_singleton.2 (s.below_fixed rfl)
    · intro m hm
      have hm := (dropCovered_sublist t _).subset ((collapse_sublist t _).subset hm)
      rcases mem_joinBooleans hm with rfl | hm
      · exact s.below_fixed rfl
      · obtain ⟨id, hid, hmem⟩ := mem_flatMap.1 (mem_sortIds.1 hm)
        exact s.below_unionMembers (h id hid) m hmem

/-- **Several canonical members make a canonical union.** -/
theorem Sound.canonicalMembers_canonical (s : t.Sound)
    (hlen : 2 ≤ (t.canonicalMembers ms).length) : t.CanonicalUnion (t.canonicalMembers ms) := by
  unfold canonicalMembers at hlen ⊢
  dsimp only at hlen ⊢
  split
  · next h =>
    rw [if_pos h] at hlen
    exact absurd hlen (by simp)
  · next hany =>
    rw [if_neg hany] at hlen
    split
    · next h =>
      rw [if_pos h] at hlen
      exact absurd hlen (by simp)
    · next hunknown =>
      rw [if_neg hunknown] at hlen
      generalize hsorted : sortIds (t.flattenUnion ms) = sorted at hlen
      have hinc : Increasing sorted := hsorted ▸ increasing_sortIds
      have hmem : ∀ m ∈ sorted, m ∈ t.flattenUnion ms := fun m hm => mem_sortIds.1 (hsorted ▸ hm)
      have hcollapse := collapse_sublist t (t.dropCovered (joinBooleans sorted))
      have hdrop := dropCovered_sublist t (joinBooleans sorted)
      have hboolean : t.resolve .boolean = .primitive .boolean :=
        resolve_of_get? (s.get?_fixed (i := 5) rfl)
      have horigin : ∀ m ∈ t.collapse (t.dropCovered (joinBooleans sorted)),
          m = .boolean ∨ m ∈ t.flattenUnion ms := fun m hm =>
        (mem_joinBooleans (hdrop.subset (hcollapse.subset hm))).imp id (hmem m)
      refine ⟨hlen, ?_, ?_, ?_, ?_, ?_, ?_, ?_, ?_⟩
      · exact ((increasing_joinBooleans hinc).sublist hdrop).sublist hcollapse
      · intro m hm
        rcases horigin m hm with rfl | hm
        · rw [hboolean]; rfl
        · exact (s.flattenUnion_plain hm).1
      · intro m hm
        rcases horigin m hm with rfl | hm
        · rw [hboolean]; nofun
        · exact (s.flattenUnion_plain hm).2
      · intro m hm hres
        rcases horigin m hm with rfl | hm
        · rw [hboolean] at hres; cases hres
        · exact hany (s.eq_any hres ▸ hm)
      · intro m hm hres
        rcases horigin m hm with rfl | hm
        · rw [hboolean] at hres; cases hres
        · exact hunknown (s.eq_unknown hres ▸ hm)
      · intro m hm l hl p hp
        exact uncovered_dropCovered (hcollapse.subset hm) hl (hcollapse.subset hp)
      · exact fun h => not_both_joinBooleans sorted
          ⟨hdrop.subset (hcollapse.subset h.1), hdrop.subset (hcollapse.subset h.2)⟩
      · exact fun a ha b hb hne => not_identical_of_mem_collapse ha hb hne

end TypeTable

end GradualTyping
