/-
# Courses of a table

The relations of this module are between an operation and itself over two records
of guarded operations: the two runs agree, and the table they leave is related to
the one they began on.  What is related is only what the recursion guard and the
brackets of evaluation look after, so that making nodes and variables has no part
in it (`TypeTable.Idle`).

A `Course` gives the tables on which the runs are compared and the relation they
keep.  It has to survive the brackets of evaluation; whether it survives the
recursion guard, and which course the body behind the guard is on, is
`Course.Guards`.
-/

import GradualTyping.Proofs.Lockstep.Comparison
import GradualTyping.Proofs.Sound.Evaluation

namespace GradualTyping

open TypeTable Reduction

namespace TypeTable

/-- The guard, the brackets of evaluation and the memory are as before. -/
structure Idle (t t' : TypeTable) : Prop where
  limits : t'.limits = t.limits
  depth : t'.depth = t.depth
  evaluating : t'.evaluating = t.evaluating
  expanding : t'.expanding = t.expanding
  depthError : t'.depthError = t.depthError
  evaluated : t'.evaluated = t.evaluated

theorem idle_insert (t : TypeTable) (ty : Ty) : t.Idle (t.insert ty).2 := by
  unfold TypeTable.insert
  split <;> exact ⟨rfl, rfl, rfl, rfl, rfl, rfl⟩

/-- The table after the innermost expansion. -/
def expandedOne (t : TypeTable) : TypeTable := { t with expanding := t.expanding.drop 1 }

end TypeTable

/-- Tables on which two runs are compared, and how the tables they leave are related to
them. -/
structure Course where
  Here : TypeTable → Prop
  To : TypeTable → TypeTable → Prop
  refl (t : TypeTable) : To t t
  trans {t t' t'' : TypeTable} : To t t' → To t' t'' → To t t''
  idle {t t' : TypeTable} : t.Idle t' → Here t → Here t' ∧ To t t'
  expanding {t : TypeTable} (name : String) : Here t → Here (t.expandingOne name)
  expanded {t t' : TypeTable} {name : String} : Here t → Here t' → To (t.expandingOne name) t' →
    Here t'.expandedOne ∧ To t t'.expandedOne
  opening {t : TypeTable} (id : TypeId) : Here t → Here (t.opening id)
  closing {t t' : TypeTable} {id : TypeId} : Here t → Here t' → To (t.opening id) t' →
    Here t'.closing ∧ To t t'.closing
  storing {t t' : TypeTable} {id : TypeId} (result : TypeId) : Here t → Here t' →
    To (t.opening id) t' → t'.Untripped →
    Here (t'.closing.storing id result) ∧ To t (t'.closing.storing id result)

namespace Course

/-- Two runs from every table of the course agree and stay on it. -/
def Rel (C : Course) {α : Type} (c c' : TableM α) : Prop :=
  ∀ t, C.Here t → c t = c' t ∧ C.Here (c t).2 ∧ C.To t (c t).2

/-- Runs on a course are in lockstep. -/
def lockstep (C : Course) : Lockstep where
  Rel := C.Rel
  pure _ t h := ⟨rfl, h, C.refl t⟩
  bind {_ _ c c' f f'} hc hf t h := by
    obtain ⟨e1, h1, r1⟩ := hc t h
    obtain ⟨e2, h2, r2⟩ := hf (c t).1 (c t).2 h1
    refine ⟨?_, h2, C.trans r1 r2⟩
    show f (c t).1 (c t).2 = f' (c' t).1 (c' t).2
    rw [← e1]
    exact e2
  look g _ _ _ h t ht := h (g t) t ht
  intern ty t h := ⟨rfl, C.idle (idle_insert t ty) h⟩
  freshVariable t h := by
    have next : t.Idle { t with nextVariable := t.nextVariable + 1 } := ⟨rfl, rfl, rfl, rfl, rfl, rfl⟩
    obtain ⟨h1, r1⟩ := C.idle next h
    obtain ⟨h2, r2⟩ := C.idle (idle_insert _ (.var t.nextVariable)) h1
    exact ⟨rfl, h2, C.trans r1 r2⟩
  whileExpanding {_} name {c c'} hc t h := by
    obtain ⟨e, h', r⟩ := hc (t.expandingOne name) (C.expanding name h)
    refine ⟨?_, C.expanded h h' r⟩
    show ((c (t.expandingOne name)).1, (c (t.expandingOne name)).2.expandedOne) =
      ((c' (t.expandingOne name)).1, (c' (t.expandingOne name)).2.expandedOne)
    rw [e]

variable {C C' : Course}

/-- The bracket of an evaluation. -/
theorem remembering (id : TypeId) {c c' : TableM TypeId} (h : C.Rel c c') :
    C.Rel (remembering id c) (remembering id c') := by
  intro t ht
  obtain ⟨e, h', r⟩ := h (t.opening id) (C.opening id ht)
  rw [remembering_eq, remembering_eq, ← e]
  refine ⟨rfl, ?_⟩
  split
  · exact C.closing ht h' r
  · next hu => exact C.storing _ ht h' r (Option.not_isSome_iff_eq_none.1 hu)

/-- Behind the guard, the course `C` goes on as `C'`. -/
structure Guards (C C' : Course) : Prop where
  deeper {t : TypeTable} : C.Here t → t.Untripped → t.depth < t.limits.maxDepth → C'.Here t.deeper
  shallower {t t' : TypeTable} : C.Here t → t.Untripped → t.depth < t.limits.maxDepth →
    C'.Here t' → C'.To t.deeper t' → C.Here t'.shallower ∧ C.To t t'.shallower
  trip {t : TypeTable} : C.Here t → t.Untripped → t.limits.maxDepth ≤ t.depth →
    C.Here t.trip ∧ C.To t t.trip

variable (G : C.Guards C')

include G

theorem Guards.bracket : Lockstep.Bracket C.lockstep C'.lockstep := by
  refine ⟨fun {α} tripped {c c'} h t ht => ?_⟩
  rw [guarded_eq, guarded_eq]
  rcases untripped_or with hu | hu
  · rw [enter_of_tripped hu]
    exact ⟨rfl, ht, C.refl t⟩
  by_cases hd : t.limits.maxDepth ≤ t.depth
  · rw [enter_of_limit hu hd]
    exact ⟨rfl, G.trip ht hu hd⟩
  · rw [enter_of_lt hu (Nat.not_le.1 hd)]
    obtain ⟨e, h', r⟩ := h t.deeper (G.deeper ht hu (Nat.not_le.1 hd))
    refine ⟨?_, G.shallower ht hu (Nat.not_le.1 hd) h' r⟩
    show ((c t.deeper).1, (c t.deeper).2.shallower) = ((c' t.deeper).1, (c' t.deeper).2.shallower)
    rw [e]

/-- **One level up on a course**: the guarded operations keep it when those one level deeper
keep the course behind the guard. -/
theorem Guards.above {deeper deeper' : Operations} (J : C'.lockstep.Joined deeper deeper') :
    C.lockstep.Joined (.above fun _ => deeper) (.above fun _ => deeper') :=
  G.bracket.above J remembering

omit G

/-- The course that is never on. -/
def never : Course where
  Here _ := False
  To _ _ := True
  refl _ := trivial
  trans _ _ := trivial
  idle _ h := h.elim
  expanding _ h := h.elim
  expanded h := h.elim
  opening _ h := h.elim
  closing h := h.elim
  storing _ h := h.elim

/-- Nothing has to be known of runs that do not take place. -/
theorem joined_never {ops ops' : Operations} : never.lockstep.Joined ops ops' where
  evaluate _ _ h := h.elim
  isSubtype _ _ _ _ h := h.elim
  substituteIn _ _ _ _ h := h.elim
  matchPattern _ _ _ _ _ h := h.elim
  inferFrom _ _ _ _ _ h := h.elim
  awaited _ _ h := h.elim

/-- Where nothing passes the guard, any operations may stand behind it. -/
theorem guards_never (limit : ∀ {t}, C.Here t → t.limits.maxDepth ≤ t.depth)
    (trip : ∀ {t}, C.Here t → t.Untripped → C.Here t.trip ∧ C.To t t.trip) : C.Guards never where
  deeper h _ hd := absurd (limit h) (Nat.not_le.2 hd)
  shallower _ _ _ h := h.elim
  trip h hu _ := trip h hu

end Course

end GradualTyping
