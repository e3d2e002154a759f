/-
# The laws of unions

Which members a union has depends on the set of the alternatives alone.  A member
is an alternative, or `boolean` for `true` and `false`; no primitive among the
alternatives covers it, and of the alternatives of its shape it stands first
(`Sound.mem_canonicalMembers`).  That types have one shape is an equivalence
(`identical_trans`), at every depth to which shapes are compared.

So a union does not change when alternatives are reordered, repeated, or joined into
a union of their own first (`unionOf_set_grouping`): what the inner union dropped is
covered by what it kept, or has the shape of an earlier type that it kept.
-/

import GradualTyping.Proofs.Memory

namespace GradualTyping

open TypeTable List

theorem TypeId.eq_of_index {a b : TypeId} (h : a.index = b.index) : a = b := by
  cases a
  cases b
  exact congrArg TypeId.mk h

namespace TypeTable

/-! ### Types of one shape -/

theorem bothOr_trans {same : TypeId → TypeId → Bool}
    (h : ∀ a b c, same a b = true → same b c = true → same a c = true) {x y z : Option TypeId}
    (hxy : bothOr same x y = true) (hyz : bothOr same y z = true) : bothOr same x z = true := by
  cases x <;> cases y <;> cases z <;> simp_all [bothOr]
  exact h _ _ _ hxy hyz

theorem pairwise_trans {α : Type} {same : α → α → Bool}
    (h : ∀ a b c, same a b = true → same b c = true → same a c = true) {l l' l'' : List α}
    (hl : pairwise same l l' = true) (hl' : pairwise same l' l'' = true) :
    pairwise same l l'' = true := by
  induction l generalizing l' l'' with
  | nil => cases l' <;> cases l'' <;> simp_all [pairwise]
  | cons a l ih =>
    cases l' with
    | nil => cases hl
    | cons b l' =>
      cases l'' with
      | nil => cases hl'
      | cons c l'' =>
        simp only [pairwise, Bool.and_eq_true] at hl hl' ⊢
        exact ⟨h _ _ _ hl.1 hl'.1, ih hl.2 hl'.2⟩

variable {t t' : TypeTable}

/-- **To have one shape is transitive**, at every depth. -/
theorem identicalWithin_trans (t : TypeTable) (fuel : Nat) {a b c : TypeId}
    (hab : t.identicalWithin fuel a b = true) (hbc : t.identicalWithin fuel b c = true) :
    t.identicalWithin fuel a c = true := by
  induction fuel generalizing a b c with
  | zero => simp_all [identicalWithin]
  | succ fuel ih =>
    have within : ∀ a b c, t.identicalWithin fuel a b = true → t.identicalWithin fuel b c = true →
        t.identicalWithin fuel a c = true := fun _ _ _ => ih
    by_cases heq : a = b
    · exact heq ▸ hbc
    by_cases heq' : b = c
    · exact heq' ▸ hab
    rw [identicalWithin, beq_eq_false_iff_ne.2 heq, Bool.false_or] at hab
    rw [identicalWithin, beq_eq_false_iff_ne.2 heq', Bool.false_or] at hbc
    rw [identicalWithin, Bool.or_eq_true]
    refine .inr ?_
    generalize t.resolve a = x at hab ⊢
    generalize t.resolve b = y at hab hbc
    generalize t.resolve c = z at hbc ⊢
    split at hab
    · next x y =>
      cases z with
      | object z =>
        simp only [identicalObjects, Bool.and_eq_true] at hab hbc ⊢
        refine ⟨pairwise_trans (fun _ _ _ hp hq => ?_) hab.1 hbc.1, bothOr_trans within hab.2 hbc.2⟩
        simp only [Bool.and_eq_true, beq_iff_eq] at hp hq ⊢
        exact ⟨⟨⟨hp.1.1.1.trans hq.1.1.1, hp.1.1.2.trans hq.1.1.2⟩, hp.1.2.trans hq.1.2⟩,
          ih hp.2 hq.2⟩
      | _ => cases hbc
    · next x y =>
      cases z with
      | array z => exact ih hab hbc
      | _ => cases hbc
    · next x y =>
      cases z with
      | promise z => exact ih hab hbc
      | _ => cases hbc
    · next f g =>
      cases z with
      | function h =>
        simp only [identicalFunctions, Bool.and_eq_true, beq_iff_eq] at hab hbc ⊢
        obtain ⟨⟨⟨⟨⟨hkind, htypes⟩, hparams⟩, hrest⟩, hresult⟩, hpredicate⟩ := hab
        obtain ⟨⟨⟨⟨⟨hkind', htypes'⟩, hparams'⟩, hrest'⟩, hresult'⟩, hpredicate'⟩ := hbc
        refine ⟨⟨⟨⟨⟨hkind.trans hkind', htypes.trans htypes'⟩, pairwise_trans (fun _ _ _ hp hq => ?_)
          hparams hparams'⟩, bothOr_trans within hrest hrest'⟩, ih hresult hresult'⟩,
          hpredicate.trans hpredicate'⟩
        simp only [Bool.and_eq_true, beq_iff_eq] at hp hq ⊢
        exact ⟨hp.1.trans hq.1, ih hp.2 hq.2⟩
      | _ => cases hbc
    · cases hab

theorem identical_trans {a b c : TypeId} (hab : t.identical a b = true)
    (hbc : t.identical b c = true) : t.identical a c = true :=
  identicalWithin_trans t _ hab hbc

theorem identical_self {a : TypeId} : t.identical a a = true := by
  rw [identical, identicalWithin, beq_self_eq_true, Bool.true_or]

/-! ### The members of a union -/

/-- A primitive is among some alternatives, or they join to it. -/
def Present (xs : List TypeId) (p : Primitive) : Prop :=
  p.id ∈ xs ∨ p = .boolean ∧ .true ∈ xs ∧ .false ∈ xs

/-- An alternative, or `boolean` for two of them, that no primitive covers. -/
def Uncovered (t : TypeTable) (xs : List TypeId) (m : TypeId) : Prop :=
  (m ∈ xs ∨ m = .boolean ∧ .true ∈ xs ∧ .false ∈ xs) ∧
    ∀ l, t.resolve m = .literal l → ¬ Present xs l.base

/-- The first of its shape that no primitive covers. -/
structure Kept (t : TypeTable) (xs : List TypeId) (m : TypeId) : Prop where
  uncovered : t.Uncovered xs m
  first : ∀ k, t.Uncovered xs k → t.identical k m = true → m.index ≤ k.index

variable {xs ys : List TypeId} {m : TypeId}

theorem Sound.resolve_primitive (s : t.Sound) (p : Primitive) : t.resolve p.id = .primitive p := by
  cases p
  · exact resolve_of_get? (s.get?_fixed (i := 3) rfl)
  · exact resolve_of_get? (s.get?_fixed (i := 4) rfl)
  · exact resolve_of_get? (s.get?_fixed (i := 5) rfl)
  · exact resolve_of_get? (s.get?_fixed (i := 6) rfl)
  · exact resolve_of_get? (s.get?_fixed (i := 7) rfl)
  · exact resolve_of_get? (s.get?_fixed (i := 8) rfl)
  · exact resolve_of_get? (s.get?_fixed (i := 9) rfl)
  · exact resolve_of_get? (s.get?_fixed (i := 10) rfl)

theorem Sound.eq_primitive (s : t.Sound) {p : Primitive} (h : t.resolve m = .primitive p) :
    m = p.id :=
  s.get?_inj (get?_of_resolve h nofun) (get?_of_resolve (s.resolve_primitive p) nofun)

theorem Sound.resolve_any (s : t.Sound) : t.resolve .any = .any :=
  resolve_of_get? (s.get?_fixed (i := 0) rfl)

theorem Sound.resolve_unknown (s : t.Sound) : t.resolve .unknown = .unknown :=
  resolve_of_get? (s.get?_fixed (i := 1) rfl)

theorem Sound.resolve_true (s : t.Sound) : t.resolve .true = .literal (.boolean true) :=
  resolve_of_get? (s.get?_fixed (i := 11) rfl)

theorem Sound.resolve_false (s : t.Sound) : t.resolve .false = .literal (.boolean false) :=
  resolve_of_get? (s.get?_fixed (i := 12) rfl)

theorem mem_dropCovered : m ∈ t.dropCovered xs ↔
    m ∈ xs ∧ ∀ l, t.resolve m = .literal l → ∀ p ∈ xs, t.resolve p ≠ .primitive l.base := by
  unfold dropCovered
  extract_lets present
  have mem_present : ∀ q, q ∈ present ↔ ∃ p ∈ xs, t.resolve p = .primitive q := by
    intro q
    refine mem_filterMap.trans (exists_congr fun p => and_congr_right fun _ => ?_)
    cases t.resolve p <;> simp
  split
  · next hempty =>
    refine ⟨fun hm => ⟨hm, fun l _ p hp hres => ?_⟩, fun h => h.1⟩
    have hbase : l.base ∈ present := (mem_present l.base).2 ⟨p, hp, hres⟩
    rw [isEmpty_iff.1 hempty] at hbase
    cases hbase
  · refine mem_filter.trans (and_congr_right fun _ => ?_)
    cases hm : t.resolve m with
    | literal l =>
      simp only [Ty.literal.injEq, forall_eq', decide_eq_true_eq, mem_present, not_exists, not_and,
        ne_eq]
    | _ => simp

theorem mem_joinBooleans_iff : m ∈ joinBooleans xs ↔
    (m ∈ xs ∨ m = .boolean ∧ .true ∈ xs ∧ .false ∈ xs) ∧
      (.true ∈ xs → .false ∈ xs → m ≠ .true ∧ m ≠ .false) := by
  unfold joinBooleans
  split
  · next both =>
    rw [mem_sortIds, mem_append, mem_filter, mem_singleton, decide_eq_true_eq]
    constructor
    · rintro (⟨hm, hne⟩ | rfl)
      · exact ⟨.inl hm, fun _ _ => hne⟩
      · exact ⟨.inr ⟨rfl, both⟩, fun _ _ => by decide⟩
    · rintro ⟨hm | ⟨rfl, -⟩, hne⟩
      · exact .inl ⟨hm, hne both.1 both.2⟩
      · exact .inr rfl
  · next both =>
    constructor
    · exact fun hm => ⟨.inl hm, fun htrue hfalse => absurd ⟨htrue, hfalse⟩ both⟩
    · rintro ⟨hm | ⟨-, h⟩, -⟩
      · exact hm
      · exact absurd h both

/-- The primitives among the alternatives after the booleans have been joined. -/
theorem Sound.present_iff (s : t.Sound) {p : Primitive} : Present xs p ↔
    ∃ q ∈ joinBooleans xs, t.resolve q = .primitive p := by
  constructor
  · intro h
    refine ⟨p.id, mem_joinBooleans_iff.2 ⟨?_, fun _ _ => by cases p <;> decide⟩, s.resolve_primitive p⟩
    rcases h with h | ⟨rfl, h⟩
    · exact .inl h
    · exact .inr ⟨rfl, h⟩
  · rintro ⟨q, hq, hres⟩
    obtain rfl := s.eq_primitive hres
    rcases (mem_joinBooleans_iff.1 hq).1 with h | ⟨h, hboth⟩
    · exact .inl h
    · refine .inr ⟨?_, hboth⟩
      rw [h, s.resolve_boolean] at hres
      exact (Ty.primitive.inj hres).symm

theorem Sound.mem_uncovered (s : t.Sound) :
    m ∈ t.dropCovered (joinBooleans (sortIds xs)) ↔ t.Uncovered xs m := by
  have sorted : ∀ p, Present (sortIds xs) p ↔ Present xs p := by
    intro p
    simp only [Present, mem_sortIds]
  have free : (∀ l, t.resolve m = .literal l → ∀ p ∈ joinBooleans (sortIds xs),
      t.resolve p ≠ .primitive l.base) ↔ ∀ l, t.resolve m = .literal l → ¬ Present xs l.base := by
    refine forall_congr' fun l => imp_congr_right fun _ => ?_
    rw [← sorted, s.present_iff]
    simp only [not_exists, not_and, ne_eq]
  rw [mem_dropCovered, free, mem_joinBooleans_iff]
  simp only [mem_sortIds, Uncovered]
  refine ⟨fun h => ⟨h.1.1, h.2⟩, fun h => ⟨⟨h.1, fun htrue hfalse => ?_⟩, h.2⟩⟩
  -- Joined booleans would be covered.
  constructor
  · rintro rfl
    exact h.2 _ s.resolve_true (.inr ⟨rfl, htrue, hfalse⟩)
  · rintro rfl
    exact h.2 _ s.resolve_false (.inr ⟨rfl, htrue, hfalse⟩)

/-- Of types in order, collapsing keeps exactly the first of every shape. -/
theorem mem_collapse (h : Increasing xs) : m ∈ t.collapse xs ↔
    m ∈ xs ∧ ∀ k ∈ xs, t.identical k m = true → m.index ≤ k.index := by
  constructor
  · intro hm
    refine ⟨(collapse_sublist t xs).subset hm, fun k hk hkm => ?_⟩
    obtain ⟨j, hj, hjk, hle⟩ := exists_mem_collapse_le (t := t) h hk
    have hjm : t.identical j m = true := by
      rcases hjk with rfl | hjk
      · exact hkm
      · exact identical_trans hjk hkm
    by_cases heq : j = m
    · exact heq ▸ hle
    · rw [not_identical_of_mem_collapse hj hm heq] at hjm
      cases hjm
  · rintro ⟨hm, hfirst⟩
    obtain ⟨k, hk, hkm, hle⟩ := exists_mem_collapse_le (t := t) h hm
    rcases hkm with rfl | hkm
    · exact hk
    · have hkx := (collapse_sublist t xs).subset hk
      have heq : k = m := TypeId.eq_of_index (Nat.le_antisymm hle (hfirst k hkx hkm))
      exact heq ▸ hk

/-- **Which members a union has**, if nothing absorbs the others. -/
theorem Sound.mem_canonicalMembers (s : t.Sound) (hany : .any ∉ t.flattenUnion xs)
    (hunknown : .unknown ∉ t.flattenUnion xs) :
    m ∈ t.canonicalMembers xs ↔ t.Kept (t.flattenUnion xs) m := by
  unfold canonicalMembers
  dsimp only
  rw [if_neg hany, if_neg hunknown, mem_collapse, s.mem_uncovered]
  · refine ⟨fun h => ⟨h.1, fun k hk => h.2 k (s.mem_uncovered.2 hk)⟩,
      fun h => ⟨h.uncovered, fun k hk => h.first k (s.mem_uncovered.1 hk)⟩⟩
  · exact (increasing_joinBooleans increasing_sortIds).sublist (dropCovered_sublist t _)

theorem increasing_canonicalMembers : Increasing (t.canonicalMembers xs) := by
  unfold canonicalMembers
  dsimp only
  split
  · exact pairwise_singleton ..
  split
  · exact pairwise_singleton ..
  · exact ((increasing_joinBooleans increasing_sortIds).sublist
      (dropCovered_sublist t _)).sublist (collapse_sublist t _)

/-! ### Alternatives that are joined first -/

/-- An uncovered alternative without a shape is kept. -/
theorem Uncovered.kept (h : t.Uncovered xs m) (hshape : t.hasShape m = false) : t.Kept xs m := by
  refine ⟨h, fun k _ hkm => ?_⟩
  by_cases heq : k = m
  · exact heq ▸ Nat.le_refl _
  · rw [hasShape_of_identical heq hkm] at hshape
    cases hshape

/-- Every uncovered alternative has the shape of one that is kept and not after it. -/
theorem Uncovered.exists_kept (h : t.Uncovered xs m) :
    ∃ k, t.Kept xs k ∧ t.identical k m = true ∧ k.index ≤ m.index := by
  induction hn : m.index using Nat.strongRecOn generalizing m with
  | ind n ih =>
    subst hn
    by_cases hfirst : ∀ k, t.Uncovered xs k → t.identical k m = true → m.index ≤ k.index
    · exact ⟨m, ⟨h, hfirst⟩, identical_self, Nat.le_refl _⟩
    · simp only [Classical.not_forall, Nat.not_le] at hfirst
      obtain ⟨k, hk, hkm, hlt⟩ := hfirst
      obtain ⟨j, hj, hjk, hle⟩ := ih k.index hlt hk rfl
      exact ⟨j, hj, identical_trans hjk hkm, Nat.le_trans hle (Nat.le_of_lt hlt)⟩

section Regroup

variable {inner joined outer : List TypeId}

theorem Present.append_left {p : Primitive} (h : Present inner p) : Present (inner ++ outer) p :=
  h.imp (mem_append_left _) fun ⟨hp, htrue, hfalse⟩ =>
    ⟨hp, mem_append_left _ htrue, mem_append_left _ hfalse⟩

section

variable (s : t.Sound) (same : ∀ m, m ∈ joined ↔ t.Kept inner m)
include s same

/-- Joining some alternatives first leaves the same primitives. -/
theorem Sound.present_regroup
    {p : Primitive} : Present (joined ++ outer) p ↔ Present (inner ++ outer) p := by
  have primitive : ∀ q : Primitive, Present inner q → q.id ∈ joined := by
    intro q hq
    have hnode := s.resolve_primitive q
    refine (same _).2 (Uncovered.kept ⟨?_, fun l hl => nomatch hnode.symm.trans hl⟩ ?_)
    · rcases hq with hq | ⟨rfl, hq⟩
      · exact .inl hq
      · exact .inr ⟨rfl, hq⟩
    · rw [hasShape, hnode]
  constructor
  · have sub : ∀ x, x ≠ .boolean → x ∈ joined ++ outer → x ∈ inner ++ outer := by
      intro x hx hmem
      rcases mem_append.1 hmem with h | h
      · exact mem_append_left _ (((same x).1 h).uncovered.1.resolve_right fun h => hx h.1)
      · exact mem_append_right _ h
    rintro (hp | ⟨rfl, htrue, hfalse⟩)
    · rcases mem_append.1 hp with h | h
      · rcases ((same _).1 h).uncovered.1 with h | ⟨heq, htrue, hfalse⟩
        · exact .inl (mem_append_left _ h)
        · refine .inr ⟨?_, mem_append_left _ htrue, mem_append_left _ hfalse⟩
          revert heq
          cases p <;> decide
      · exact .inl (mem_append_right _ h)
    · exact .inr ⟨rfl, sub _ (by decide) htrue, sub _ (by decide) hfalse⟩
  · rintro (hp | ⟨rfl, htrue, hfalse⟩)
    · rcases mem_append.1 hp with h | h
      · exact .inl (mem_append_left _ (primitive p (.inl h)))
      · exact .inl (mem_append_right _ h)
    · by_cases hboolean : Present inner .boolean
      · exact .inl (mem_append_left _ (primitive _ hboolean))
      -- The two literals meet only now.
      have literal : ∀ x b, t.resolve x = .literal (.boolean b) → x ∈ inner ++ outer →
          x ∈ joined ++ outer := by
        intro x b hx hmem
        rcases mem_append.1 hmem with h | h
        · refine mem_append_left _ ((same x).2 (Uncovered.kept ⟨.inl h, fun l hl => ?_⟩ ?_))
          · obtain rfl := Ty.literal.inj (hx.symm.trans hl)
            exact hboolean
          · rw [hasShape, hx]
        · exact mem_append_right _ h
      exact .inr ⟨rfl, literal _ _ s.resolve_true htrue, literal _ _ s.resolve_false hfalse⟩

theorem Sound.uncovered_of_regroup
    (h : t.Uncovered (joined ++ outer) m) : t.Uncovered (inner ++ outer) m := by
  refine ⟨?_, fun l hl hp => h.2 l hl ((s.present_regroup same).2 hp)⟩
  have boolean : Present (inner ++ outer) .boolean →
      TypeId.boolean ∈ inner ++ outer ∨ TypeId.boolean = .boolean ∧ .true ∈ inner ++ outer ∧
        .false ∈ inner ++ outer := fun hp => hp.imp_right fun hp => ⟨rfl, hp.2⟩
  rcases h.1 with hm | ⟨rfl, hboth⟩
  · rcases mem_append.1 hm with hm | hm
    · rcases ((same m).1 hm).uncovered.1 with hm | ⟨rfl, hboth⟩
      · exact .inl (mem_append_left _ hm)
      · exact boolean (Present.append_left (.inr ⟨rfl, hboth⟩))
    · exact .inl (mem_append_right _ hm)
  · exact boolean ((s.present_regroup same).1 (.inr ⟨rfl, hboth⟩))

/-- What joining drops has the shape of what it keeps. -/
theorem Sound.exists_uncovered_regroup (h : t.Uncovered (inner ++ outer) m) :
    ∃ k, t.Uncovered (joined ++ outer) k ∧ t.identical k m = true ∧ k.index ≤ m.index := by
  have uncovered : m ∈ joined ++ outer ∨ m = .boolean ∧ .true ∈ joined ++ outer ∧
      .false ∈ joined ++ outer → t.Uncovered (joined ++ outer) m := fun hm =>
    ⟨hm, fun l hl hp => h.2 l hl ((s.present_regroup same).1 hp)⟩
  have itself : t.Uncovered (joined ++ outer) m →
      ∃ k, t.Uncovered (joined ++ outer) k ∧ t.identical k m = true ∧ k.index ≤ m.index :=
    fun h => ⟨m, h, identical_self, Nat.le_refl _⟩
  rcases h.1 with hm | ⟨rfl, hboth⟩
  · rcases mem_append.1 hm with hm | hm
    · have hinner : t.Uncovered inner m :=
        ⟨.inl hm, fun l hl hp => h.2 l hl hp.append_left⟩
      obtain ⟨k, hk, hkm, hle⟩ := hinner.exists_kept
      have hjoined := mem_append_left outer ((same k).2 hk)
      by_cases heq : k = m
      · exact itself (uncovered (.inl (heq ▸ hjoined)))
      · -- A type with a shape is no literal.
        have hshape := hasShape_of_identical (Ne.symm heq) (identical_comm t ▸ hkm)
        refine ⟨k, ⟨.inl hjoined, fun l hl => ?_⟩, hkm, hle⟩
        rw [hasShape, hl] at hshape
        cases hshape
    · exact itself (uncovered (.inl (mem_append_right _ hm)))
  · refine itself (uncovered ?_)
    rcases (s.present_regroup same).2 (.inr ⟨rfl, hboth⟩) with hp | ⟨-, hp⟩
    · exact .inl hp
    · exact .inr ⟨rfl, hp⟩

/-- **Joining some alternatives first keeps the same members.** -/
theorem Sound.kept_regroup : t.Kept (joined ++ outer) m ↔ t.Kept (inner ++ outer) m := by
  constructor
  · intro h
    refine ⟨s.uncovered_of_regroup same h.uncovered, fun k hk hkm => ?_⟩
    obtain ⟨j, hj, hjk, hle⟩ := s.exists_uncovered_regroup same hk
    exact Nat.le_trans (h.first j hj (identical_trans hjk hkm)) hle
  · intro h
    obtain ⟨k, hk, hkm, hle⟩ := s.exists_uncovered_regroup same h.uncovered
    have heq : k = m := TypeId.eq_of_index
      (Nat.le_antisymm hle (h.first k (s.uncovered_of_regroup same hk) hkm))
    subst heq
    exact ⟨hk, fun j hj => h.first j (s.uncovered_of_regroup same hj)⟩

end

end Regroup

/-! ### The laws -/

variable {u v : TypeId}

/-- **A type is known by its alternatives.** -/
theorem Sound.eq_of_unionMembers (s : t.Sound) (hu : t.Has u) (hv : t.Has v)
    (h : t.unionMembers u = t.unionMembers v) : u = v := by
  have several : ∀ {id ms}, t.resolve id = .union ms → 2 ≤ ms.length := fun hid =>
    (show t.CanonicalUnion _ from s.canonical_node hid).several
  unfold TypeTable.unionMembers at h
  split at h <;> split at h
  · next ms hms _ ms' hms' =>
    subst h
    exact s.get?_inj (get?_of_resolve hms nofun) (get?_of_resolve hms' nofun)
  · next ms hms _ _ =>
    subst h
    exact absurd (several hms) (by decide)
  · next ms hms _ _ _ =>
    subst h
    exact absurd (several hms) (by simp)
  · next _ ms hms =>
    subst h
    exact absurd (several hms) (by decide)
  · next hnever _ hnever' => exact (s.eq_never hu hnever).trans (s.eq_never hv hnever').symm
  · cases h
  · next ms hms =>
    subst h
    exact absurd (several hms) (by simp)
  · cases h
  · exact head_eq_of_cons_eq h

/-- The alternatives of a union are the members that were made of its list. -/
theorem IsUnion.unionMembers (s : t.Sound) (h : t.IsUnion xs u) :
    t.unionMembers u = t.canonicalMembers xs := by
  rcases h with ⟨hnone, rfl⟩ | hone | hunion
  · have hnever : t.resolve .never = .never := resolve_of_get? (s.get?_fixed (i := 2) rfl)
    rw [hnone, TypeTable.unionMembers, hnever]
  · have hmem : u ∈ t.canonicalMembers xs := hone ▸ .head _
    have hplain : (t.resolve u).isUnion = false ∧ t.resolve u ≠ .never := by
      rcases mem_of_mem_canonicalMembers hmem with hmem | ⟨rfl, -⟩
      · exact s.flattenUnion_plain hmem
      · rw [s.resolve_boolean]
        exact ⟨rfl, by simp⟩
    rw [hone]
    unfold TypeTable.unionMembers
    split
    · next hu =>
      rw [hu] at hplain
      cases hplain.1
    · next hu => exact absurd hu hplain.2
    · rfl
  · rw [TypeTable.unionMembers, hunion]

/-- The members of a union depend on the set of the alternatives. -/
theorem canonicalMembers_ext (h : ∀ m, m ∈ t.flattenUnion xs ↔ m ∈ t.flattenUnion ys) :
    t.canonicalMembers xs = t.canonicalMembers ys := by
  have sorted : sortIds (t.flattenUnion xs) = sortIds (t.flattenUnion ys) :=
    increasing_ext increasing_sortIds increasing_sortIds fun m => by
      rw [mem_sortIds, mem_sortIds, h]
  unfold canonicalMembers
  simp only [h, sorted]

theorem canonicalMembers_of_any (h : .any ∈ t.flattenUnion xs) : t.canonicalMembers xs = [.any] :=
  if_pos h

theorem canonicalMembers_of_unknown (hany : .any ∉ t.flattenUnion xs)
    (h : .unknown ∈ t.flattenUnion xs) : t.canonicalMembers xs = [.unknown] :=
  (if_neg hany).trans (if_pos h)

/-- Alternatives that were joined first can be replaced by what they were made of. -/
theorem Sound.canonicalMembers_regroup (s : t.Sound) {zs : List TypeId}
    (grouped : t.flattenUnion zs = t.canonicalMembers xs ++ t.flattenUnion ys) :
    t.canonicalMembers zs = t.canonicalMembers (xs ++ ys) := by
  have flat : t.flattenUnion (xs ++ ys) = t.flattenUnion xs ++ t.flattenUnion ys :=
    flatMap_append
  have original : ∀ x, x ≠ .boolean → x ∈ t.flattenUnion zs → x ∈ t.flattenUnion (xs ++ ys) := by
    intro x hx hmem
    rw [grouped] at hmem
    rw [flat]
    rcases mem_append.1 hmem with hmem | hmem
    · exact mem_append_left _
        ((mem_of_mem_canonicalMembers hmem).resolve_right fun h => hx h.1)
    · exact mem_append_right _ hmem
  by_cases hany : .any ∈ t.flattenUnion (xs ++ ys)
  · have hany' : .any ∈ t.flattenUnion zs := by
      rw [flat] at hany
      rw [grouped]
      rcases mem_append.1 hany with hany | hany
      · exact mem_append_left _ (canonicalMembers_of_any hany ▸ .head _)
      · exact mem_append_right _ hany
    rw [canonicalMembers_of_any hany, canonicalMembers_of_any hany']
  have hany' := mt (original .any (by decide)) hany
  by_cases hunknown : .unknown ∈ t.flattenUnion (xs ++ ys)
  · have hunknown' : .unknown ∈ t.flattenUnion zs := by
      rw [flat] at hany hunknown
      rw [grouped]
      rcases mem_append.1 hunknown with hunknown | hunknown
      · refine mem_append_left _ (canonicalMembers_of_unknown ?_ hunknown ▸ .head _)
        exact fun h => hany (mem_append_left _ h)
      · exact mem_append_right _ hunknown
    rw [canonicalMembers_of_unknown hany hunknown, canonicalMembers_of_unknown hany' hunknown']
  have hunknown' := mt (original .unknown (by decide)) hunknown
  refine increasing_ext increasing_canonicalMembers increasing_canonicalMembers
    fun m => ?_
  rw [s.mem_canonicalMembers hany hunknown, s.mem_canonicalMembers hany' hunknown', grouped, flat]
  rw [flat] at hany hunknown
  exact s.kept_regroup fun m => s.mem_canonicalMembers
    (fun h => hany (mem_append_left _ h)) fun h => hunknown (mem_append_left _ h)

/-- **A union among the alternatives can be replaced by what it was made of.** -/
theorem IsUnion.canonicalMembers_regroup (s : t.Sound) (h : t.IsUnion xs u) :
    t.canonicalMembers (u :: ys) = t.canonicalMembers (xs ++ ys) := by
  refine s.canonicalMembers_regroup ?_
  rw [flattenUnion, flatMap_cons, h.unionMembers s]
  rfl

/-- The union of a list that was made on the way to a table. -/
def Made (t : TypeTable) (xs : List TypeId) (u : TypeId) : Prop :=
  ∃ start : TypeTable, start.Reachable ∧ Below start.size xs ∧ (unionOf xs start).1 = u ∧
    (unionOf xs start).2.Leads t

theorem Made.isUnion (h : t.Made xs u) : t.Sound ∧ t.Has u ∧ t.IsUnion xs u := by
  obtain ⟨start, r, hxs, rfl, l⟩ := h
  have r' : (unionOf xs start).2.Reachable := .step (.union xs) r hxs
  have made : Leaves Runs start (unionOf xs) _ := safe_unionOf r.sound hxs
  have g := (l.continues r').toGrows
  exact ⟨(l.reachable r').sound, g made.post, r.sound.isUnion_unionOf hxs g⟩

/-- **Unions depend on the set of their alternatives, in any grouping.**  Of the unions that were
made on the way to a table, those of lists with the same elements are one type; and so are the
union of a list and that in which the first elements were joined before. -/
theorem unionOf_set_grouping (t : TypeTable) :
    (∀ xs zs u v, t.Made xs u → t.Made zs v → (∀ x, x ∈ zs ↔ x ∈ xs) → v = u) ∧
      ∀ xs ys u v w, t.Made xs u → t.Made (u :: ys) v → t.Made (xs ++ ys) w → v = w := by
  have unique : ∀ {xs zs u v}, t.Made xs u → t.Made zs v →
      t.canonicalMembers xs = t.canonicalMembers zs → u = v := by
    intro xs zs u v hu hv same
    obtain ⟨s, hu, isUnion⟩ := hu.isUnion
    obtain ⟨-, hv, isUnion'⟩ := hv.isUnion
    refine s.eq_of_unionMembers hu hv ?_
    rw [isUnion.unionMembers s, isUnion'.unionMembers s, same]
  refine ⟨fun xs zs u v hu hv same => unique hv hu (canonicalMembers_ext fun m => ?_),
    fun xs ys u v w hu hv hw => unique hv hw (hu.isUnion.2.2.canonicalMembers_regroup hu.isUnion.1)⟩
  simp only [flattenUnion, mem_flatMap, same]

/-- `true | null` is the same with `null` said twice, and joins with `false` to `null | boolean`. -/
theorem unionOf_set_grouping_booleans :
    let u := unionOf [.true, .null] (withLimits {})
    let v := unionOf [u.1, .false] u.2
    let w := unionOf [.true, .null, .false] v.2
    let z := unionOf [.null, .true, .null] w.2
    z.2.Made [.true, .null] u.1 ∧ z.2.Made [u.1, .false] v.1 ∧
      z.2.Made ([.true, .null] ++ [.false]) w.1 ∧ z.2.Made [.null, .true, .null] z.1 ∧
      z.1 = u.1 ∧ v.1 = w.1 := by
  intro u v w z
  have r₀ : (withLimits {}).Reachable := .start {}
  have fixed : ∀ {t : TypeTable}, t.Reachable → ∀ {xs : List TypeId}, (∀ x ∈ xs, x.index < 13) →
      t.Has xs := fun r _ hxs x hx => r.sound.below_fixed (Nat.ble_eq_true_of_le (hxs x hx))
  have hu : Below (withLimits {}).size [TypeId.true, .null] := fixed r₀ (by decide)
  have ru : u.2.Reachable := .step (.union _) r₀ hu
  have hv : Below u.2.size [u.1, .false] :=
    below_cons.2 ⟨(safe_unionOf r₀.sound hu).post, fixed ru (by decide)⟩
  have rv : v.2.Reachable := .step (.union _) ru hv
  have hw : Below v.2.size [TypeId.true, .null, .false] := fixed rv (by decide)
  have rw' : w.2.Reachable := .step (.union _) rv hw
  have hz : Below w.2.size [TypeId.null, .true, .null] := fixed rw' (by decide)
  have lz : w.2.Leads z.2 := .step (.union _) .refl hz
  have lw : v.2.Leads z.2 := .step (.union _) (.step (.union _) .refl hw) hz
  have lv : u.2.Leads z.2 := .step (.union _) (.step (.union _) (.step (.union _) .refl hv) hw) hz
  have mu : z.2.Made [.true, .null] u.1 := ⟨_, r₀, hu, rfl, lv⟩
  have mv : z.2.Made [u.1, .false] v.1 := ⟨_, ru, hv, rfl, lw⟩
  have mw : z.2.Made ([.true, .null] ++ [.false]) w.1 := ⟨_, rv, hw, rfl, lz⟩
  have mz : z.2.Made [.null, .true, .null] z.1 := ⟨_, rw', hz, rfl, .refl⟩
  exact ⟨mu, mv, mw, mz, (unionOf_set_grouping z.2).1 _ _ _ _ mu mz (by simp),
    (unionOf_set_grouping z.2).2 _ _ _ _ _ mu mv mw⟩

end TypeTable

end GradualTyping
