/-
# Triples for operations on a table

`Keeps ρ t c Q` is the triple of the development: run on the table `t`, the
operation `c` leaves a sound table that is `ρ`-related to `t`, and an answer that
satisfies `Q` there.  Operations live in several monads over a table; each says
what a triple is for it (`Tabled`).  A state of its own only has to hold types of
the table, and a failure has nothing to satisfy.

The rules follow the shape of `do` blocks: `Keeps.bind` hands the table and the
answer of the first operation to the second, `Keeps.read` goes past a step that
leaves the table alone, and there is one rule for each loop over a list.

`Safe` is the triple of almost every operation: it runs on the table and its
answer holds types of the table it leaves.
-/

import GradualTyping.Proofs.Sound

namespace GradualTyping

open TypeTable List

variable {α : Type} {t : TypeTable}

/-- What follows an operation runs on the table it leaves, with its answer. -/
theorem bind_of_eq {β : Type} {c : TableM α} {f : α → TableM β} {t' : TypeTable} {x : α}
    (h : c t = (x, t')) : (c >>= f) t = f x t' := by
  show f (c t).1 (c t).2 = _
  rw [h]

/-- A run of two operations is a run of the first and a run of the second. -/
theorem bind_ends {β : Type} {c : TableM α} {f : α → TableM β} {t' : TypeTable} {y : β}
    (h : (c >>= f) t = (y, t')) : ∃ x t1, c t = (x, t1) ∧ f x t1 = (y, t') :=
  ⟨(c t).1, (c t).2, rfl, h⟩

/-- An operation that begins by reading the table. -/
theorem get_bind (f : TypeTable → TableM α) (t : TypeTable) : (get >>= f) t = f t t :=
  rfl

/-- Relations between the tables before and after an operation. -/
class Along (ρ : TypeTable → TypeTable → Prop) : Prop where
  refl : ∀ t, ρ t t
  trans : ∀ {t t' t''}, ρ t t' → ρ t' t'' → ρ t t''
  grows : ∀ {t t'}, ρ t t' → t.Grows t'

/-- Every `ρ`-related pair is `ρ'`-related. -/
class Within (ρ ρ' : TypeTable → TypeTable → Prop) : Prop where
  le : ∀ {t t'}, ρ t t' → ρ' t t'

instance : Along Continues := ⟨Continues.refl, Continues.trans, Continues.toGrows⟩

instance : Along Runs := ⟨Runs.refl, Runs.trans, fun r => r⟩

instance (ρ : TypeTable → TypeTable → Prop) : Within ρ ρ := ⟨id⟩

instance : Within Runs Continues := ⟨Runs.toContinues⟩

/-- What an operation on the table alone leaves. -/
structure Leaves {α : Type} (ρ : TypeTable → TypeTable → Prop) (t : TypeTable) (c : TableM α)
    (Q : TypeTable → α → Prop) : Prop where
  sound : (c t).2.Sound
  related : ρ t (c t).2
  post : Q (c t).2 (c t).1

/-- A triple, read off the outcome of the run. -/
theorem Leaves.ends {ρ : TypeTable → TypeTable → Prop} {t' : TypeTable} {c : TableM α}
    {a : α} {Q : TypeTable → α → Prop} (h : Leaves ρ t c Q) (he : c t = (a, t')) :
    t'.Sound ∧ ρ t t' ∧ Q t' a := by
  obtain ⟨s, r, q⟩ := h
  rw [he] at s r q
  exact ⟨s, r, q⟩

/-- Two facts about one operation. -/
theorem Leaves.and {ρ : TypeTable → TypeTable → Prop} {c : TableM α}
    {Q R : TypeTable → α → Prop} (h : Leaves ρ t c Q) (h' : Leaves ρ t c R) :
    Leaves ρ t c fun t' a => Q t' a ∧ R t' a :=
  ⟨h.sound, h.related, h.post, h'.post⟩

/-- Monads over a table in which triples can be stated. -/
class Tabled (m : Type → Type) [Monad m] [MonadLiftT TableM m] where
  Keeps {α : Type} (ρ : TypeTable → TypeTable → Prop) (t : TypeTable) (c : m α)
    (Q : TypeTable → α → Prop) : Prop
  pure {α : Type} {ρ : TypeTable → TypeTable → Prop} [Along ρ] {t : TypeTable} {a : α}
    {Q : TypeTable → α → Prop} : t.Sound → Q t a → Keeps ρ t (pure a) Q
  bind {α β : Type} {ρ1 ρ2 : TypeTable → TypeTable → Prop} [Along ρ2] [Within ρ1 ρ2]
    {t : TypeTable} {c : m α} {f : α → m β} {Q : TypeTable → α → Prop}
    {R : TypeTable → β → Prop} : Keeps ρ1 t c Q →
    (∀ t' a, t'.Sound → ρ1 t t' → Q t' a → Keeps ρ2 t' (f a) R) → Keeps ρ2 t (c >>= f) R
  lift {α : Type} {ρ : TypeTable → TypeTable → Prop} [Along ρ] {t : TypeTable} {c : TableM α}
    {Q : TypeTable → α → Prop} : Leaves ρ t c Q → Keeps ρ t (liftM c : m α) Q
  mono {α : Type} {ρ ρ' : TypeTable → TypeTable → Prop} [Within ρ ρ'] {t : TypeTable} {c : m α}
    {Q R : TypeTable → α → Prop} : Keeps ρ t c Q →
    (∀ t' a, t'.Sound → ρ t t' → Q t' a → R t' a) → Keeps ρ' t c R

export Tabled (Keeps)

instance : Tabled TableM where
  Keeps := Leaves
  pure s h := ⟨s, Along.refl _, h⟩
  bind h k :=
    have h' := k _ _ h.sound h.related h.post
    ⟨h'.sound, Along.trans (Within.le h.related) h'.related, h'.post⟩
  lift h := h
  mono h hQ := ⟨h.sound, Within.le h.related, hQ _ _ h.sound h.related h.post⟩

/-- A state of its own: it holds types of the table, before and after. -/
instance {σ : Type} [Bounded σ] : Tabled (StateT σ TableM) where
  Keeps ρ t c Q := ∀ st, Below t.size st →
    Leaves ρ t (c.run st) fun t' p => Q t' p.1 ∧ Below t'.size p.2
  pure s h _ hst := ⟨s, Along.refl _, h, hst⟩
  bind h k st hst :=
    have h1 := h st hst
    have h2 := k _ _ h1.sound h1.related h1.post.1 _ h1.post.2
    ⟨h2.sound, Along.trans (Within.le h1.related) h2.related, h2.post⟩
  lift h _ hst := ⟨h.sound, h.related, h.post, (Along.grows h.related).below hst⟩
  mono h hQ st hst :=
    have h' := h st hst
    ⟨h'.sound, Within.le h'.related, hQ _ _ h'.sound h'.related h'.post.1, h'.post.2⟩

/-- No answer: nothing to satisfy. -/
instance : Tabled (OptionT TableM) where
  Keeps ρ t c Q := Leaves ρ t c.run fun t' o => ∀ a, o = some a → Q t' a
  pure s h := ⟨s, Along.refl _, fun _ e => Option.some.inj e ▸ h⟩
  bind {α β ρ1 ρ2 _ _ t c f Q R} h k := by
    rw [OptionT.run_bind]
    refine Tabled.bind (m := TableM) h fun t' o s' r' ho => ?_
    cases o with
    | none => exact ⟨s', Along.refl _, fun _ e => nomatch e⟩
    | some a => exact k t' a s' r' (ho a rfl)
  lift h := ⟨h.sound, h.related, fun _ e => Option.some.inj e ▸ h.post⟩
  mono h hQ := ⟨h.sound, Within.le h.related, fun a e => hQ _ a h.sound h.related (h.post a e)⟩

/-- An error: nothing to satisfy. -/
instance {ε : Type} : Tabled (ExceptT ε TableM) where
  Keeps ρ t c Q := Leaves ρ t c.run fun t' r => ∀ a, r = .ok a → Q t' a
  pure s h := ⟨s, Along.refl _, fun _ e => Except.ok.inj e ▸ h⟩
  bind {α β ρ1 ρ2 _ _ t c f Q R} h k := by
    rw [ExceptT.run_bind]
    refine Tabled.bind (m := TableM) h fun t' o s' r' ho => ?_
    cases o with
    | error e => exact ⟨s', Along.refl _, fun _ e => nomatch e⟩
    | ok a => exact k t' a s' r' (ho a rfl)
  lift h := ⟨h.sound, h.related, fun _ e => Except.ok.inj e ▸ h.post⟩
  mono h hQ := ⟨h.sound, Within.le h.related, fun a e => hQ _ a h.sound h.related (h.post a e)⟩

/-- An operation that runs on the table and answers with types of it. -/
abbrev Safe {m : Type → Type} [Monad m] [MonadLiftT TableM m] [Tabled m] {α : Type} [Bounded α]
    (t : TypeTable) (c : m α) : Prop :=
  Keeps Runs t c fun t' a => Below t'.size a

/-- An operation that grows the table and answers with types of it. -/
abbrev Growing {m : Type → Type} [Monad m] [MonadLiftT TableM m] [Tabled m] {α : Type} [Bounded α]
    (t : TypeTable) (c : m α) : Prop :=
  Keeps Continues t c fun t' a => Below t'.size a

namespace Tabled.Keeps

/-! ### Sequencing -/

section Sequencing

variable {m : Type → Type} [Monad m] [MonadLiftT TableM m] [Tabled m] {α β : Type}
  {ρ ρ' : TypeTable → TypeTable → Prop} {t : TypeTable} {c : m α} {f : α → m β}
  {Q R : TypeTable → α → Prop} {S : TypeTable → β → Prop}

theorem pure [Along ρ] {a : α} (s : t.Sound) (h : Q t a) : Keeps ρ t (Pure.pure a : m α) Q :=
  Tabled.pure s h

theorem bind [Along ρ] (h : Keeps ρ t c Q)
    (k : ∀ t' a, t'.Sound → ρ t t' → Q t' a → Keeps ρ t' (f a) S) : Keeps ρ t (c >>= f) S :=
  Tabled.bind h k

theorem mono [Within ρ ρ'] (h : Keeps ρ t c Q)
    (hQ : ∀ t' a, t'.Sound → ρ t t' → Q t' a → R t' a) : Keeps ρ' t c R :=
  Tabled.mono h hQ

theorem weaken [Within ρ ρ'] (h : Keeps ρ t c Q) : Keeps ρ' t c Q := h.mono fun _ _ _ _ hq => hq

/-- Forget what is known of the answer. -/
theorem ignore (h : Keeps ρ t c Q) : Keeps ρ t c fun _ _ => True := h.mono fun _ _ _ _ _ => trivial

theorem lift [Along ρ] {c : TableM α} (h : Keeps ρ t c Q) : Keeps ρ t (liftM c : m α) Q :=
  Tabled.lift h

/-- Go past a step that only reads the table. -/
theorem readLift [Along ρ] {c : TableM α} (s : t.Sound) (hc : (c t).2 = t)
    (k : Keeps ρ t (f (c t).1) S) : Keeps ρ t ((liftM c : m α) >>= f) S := by
  have h : Leaves ρ t c fun t' a => t' = t ∧ a = (c t).1 :=
    ⟨hc.symm ▸ s, hc.symm ▸ Along.refl t, hc, rfl⟩
  refine Tabled.bind (Tabled.lift h) fun t' a _ _ ha => ?_
  obtain ⟨rfl, rfl⟩ := ha
  exact k

theorem map [LawfulMonad m] [Along ρ] {g : α → β} (h : Keeps ρ t c Q)
    (hg : ∀ t' a, t'.Sound → ρ t t' → Q t' a → S t' (g a)) : Keeps ρ t (g <$> c) S := by
  rw [← bind_pure_comp]
  exact h.bind fun t' a s' r' hq => pure s' (hg t' a s' r' hq)

end Sequencing

/-- Go past a step that only reads the table. -/
theorem read {β : Type} {ρ : TypeTable → TypeTable → Prop} {c : TableM α}
    {f : α → TableM β} {S : TypeTable → β → Prop} (hc : (c t).2 = t)
    (k : Keeps ρ t (f (c t).1) S) : Keeps ρ t (c >>= f) S := by
  have h : (c >>= f) t = f (c t).1 t := by
    show f (c t).1 (c t).2 = _
    rw [hc]
  exact ⟨h ▸ k.sound, h ▸ k.related, h ▸ k.post⟩

/-! ### Loops over a list -/

section Loops

variable {m : Type → Type} [Monad m] [MonadLiftT TableM m] [Tabled m] {α β : Type}
  {ρ : TypeTable → TypeTable → Prop} [Along ρ] {t : TypeTable} {xs : List α}

/-- What each answer of a loop satisfies, all of them do in the end. -/
theorem mapM_all [LawfulMonad m] {f : α → m β} {Q : TypeTable → β → Prop} (s : t.Sound)
    (stable : ∀ {t' t'' b}, t'.Sound → ρ t' t'' → Q t' b → Q t'' b)
    (h : ∀ x ∈ xs, ∀ t', t'.Sound → ρ t t' → Keeps ρ t' (f x) Q) :
    Keeps ρ t (xs.mapM f) fun t' bs => ∀ b ∈ bs, Q t' b := by
  induction xs generalizing t with
  | nil => exact pure s fun _ hb => nomatch hb
  | cons x xs ih =>
    rw [mapM_cons]
    refine (h x (.head _) t s (Along.refl t)).bind fun t1 b s1 r1 hb => ?_
    refine (ih s1 fun y hy t' s' r' => h y (.tail _ hy) t' s' (Along.trans r1 r')).bind
      fun t2 bs s2 r2 hbs => pure s2 ?_
    exact forall_mem_cons.2 ⟨stable s1 r2 hb, hbs⟩

theorem mapM [LawfulMonad m] [Bounded β] {f : α → m β} (s : t.Sound)
    (h : ∀ x ∈ xs, ∀ t', t'.Sound → ρ t t' → Keeps ρ t' (f x) fun t'' b => t''.Has b) :
    Keeps ρ t (xs.mapM f) fun t' bs => t'.Has bs :=
  mapM_all s (fun _ r => (Along.grows r).below) h

/-- A fold keeps what each of its steps keeps. -/
theorem foldlM {f : β → α → m β} {init : β} {I : TypeTable → β → Prop} (s : t.Sound)
    (hinit : I t init) (h : ∀ x ∈ xs, ∀ t' b, t'.Sound → ρ t t' → I t' b → Keeps ρ t' (f b x) I) :
    Keeps ρ t (xs.foldlM f init) I := by
  induction xs generalizing t init with
  | nil => exact pure s hinit
  | cons x xs ih =>
    rw [foldlM_cons]
    refine (h x (.head _) t init s (Along.refl t) hinit).bind fun t1 b s1 r1 hb => ?_
    exact ih s1 hb fun y hy t' b s' r' hb => h y (.tail _ hy) t' b s' (Along.trans r1 r') hb

theorem forM {f : α → m PUnit} (s : t.Sound)
    (h : ∀ x ∈ xs, ∀ t', t'.Sound → ρ t t' → Keeps ρ t' (f x) fun _ _ => True) :
    Keeps ρ t (xs.forM f) fun _ _ => True := by
  induction xs generalizing t with
  | nil => exact pure s trivial
  | cons x xs ih =>
    refine (h x (.head _) t s (Along.refl t)).bind fun t1 _ s1 r1 _ => ?_
    exact ih s1 fun y hy t' s' r' => h y (.tail _ hy) t' s' (Along.trans r1 r')

section Tests

variable {f : α → m Bool} (s : t.Sound)
  (h : ∀ x ∈ xs, ∀ t', t'.Sound → ρ t t' → Keeps ρ t' (f x) fun _ _ => True)

include s h

theorem anyM : Keeps ρ t (xs.anyM f) fun _ _ => True := by
  induction xs generalizing t with
  | nil => exact pure s trivial
  | cons x xs ih =>
    refine (h x (.head _) t s (Along.refl t)).bind fun t1 b s1 r1 _ => ?_
    cases b with
    | true => exact pure s1 trivial
    | false => exact ih s1 fun y hy t' s' r' => h y (.tail _ hy) t' s' (Along.trans r1 r')

theorem allM : Keeps ρ t (xs.allM f) fun _ _ => True := by
  induction xs generalizing t with
  | nil => exact pure s trivial
  | cons x xs ih =>
    refine (h x (.head _) t s (Along.refl t)).bind fun t1 b s1 r1 _ => ?_
    cases b with
    | true => exact ih s1 fun y hy t' s' r' => h y (.tail _ hy) t' s' (Along.trans r1 r')
    | false => exact pure s1 trivial

/-- A filter keeps elements of the list. -/
theorem filterM : Keeps ρ t (xs.filterM f) fun _ ys => ys ⊆ xs := by
  have loop : ∀ (l acc : List α) (t' : TypeTable), t'.Sound → ρ t t' → l ⊆ xs → acc ⊆ xs →
      Keeps ρ t' (l.filterAuxM f acc) fun _ ys => ys ⊆ xs := by
    intro l
    induction l with
    | nil => exact fun acc t' s' _ _ hacc => pure s' hacc
    | cons x l ih =>
      intro acc t' s' r' hl hacc
      obtain ⟨hx, hl⟩ := cons_subset.1 hl
      refine (h x hx t' s' r').bind fun t1 b s1 r1 _ => ?_
      refine ih _ t1 s1 (Along.trans r' r1) hl ?_
      cases b with
      | true => exact cons_subset.2 ⟨hx, hacc⟩
      | false => exact hacc
  refine (loop xs [] t s (Along.refl t) (List.Subset.refl xs) (nil_subset xs)).bind
    fun t' ys s' _ hys => pure s' ?_
  exact fun y hy => hys (mem_reverse.1 hy)

/-- A search answers with an element of the list. -/
theorem findM? : Keeps ρ t (xs.findM? f) fun _ o => ∀ x, o = some x → x ∈ xs := by
  induction xs generalizing t with
  | nil => exact pure s fun _ hx => nomatch hx
  | cons x xs ih =>
    refine (h x (.head _) t s (Along.refl t)).bind fun t1 b s1 r1 _ => ?_
    cases b with
    | true => exact pure s1 fun y hy => Option.some.inj hy ▸ .head _
    | false =>
      exact (ih s1 fun y hy t' s' r' => h y (.tail _ hy) t' s' (Along.trans r1 r')).mono
        fun _ _ _ _ ho y hy => .tail _ (ho y hy)

end Tests

/-- What each answer of a filter that maps satisfies, all of them do in the end. -/
theorem filterMapM_all {f : α → m (Option β)} {Q : TypeTable → β → Prop} (s : t.Sound)
    (stable : ∀ {t' t'' b}, t'.Sound → ρ t' t'' → Q t' b → Q t'' b)
    (h : ∀ x ∈ xs, ∀ t', t'.Sound → ρ t t' → Keeps ρ t' (f x) fun t'' o => ∀ b, o = some b → Q t'' b) :
    Keeps ρ t (xs.filterMapM f) fun t' bs => ∀ b ∈ bs, Q t' b := by
  have loop : ∀ (l : List α) (acc : List β) (t' : TypeTable), t'.Sound → ρ t t' → l ⊆ xs →
      (∀ b ∈ acc, Q t' b) →
      Keeps ρ t' (List.filterMapM.loop f l acc) fun t'' bs => ∀ b ∈ bs, Q t'' b := by
    intro l
    induction l with
    | nil => exact fun acc t' s' _ _ hacc => pure s' fun b hb => hacc b (mem_reverse.1 hb)
    | cons x l ih =>
      intro acc t' s' r' hl hacc
      obtain ⟨hx, hl⟩ := cons_subset.1 hl
      refine (h x hx t' s' r').bind fun t1 o s1 r1 ho => ?_
      have hacc := fun b hb => stable s' r1 (hacc b hb)
      cases o with
      | none => exact ih _ t1 s1 (Along.trans r' r1) hl hacc
      | some b =>
        exact ih _ t1 s1 (Along.trans r' r1) hl (forall_mem_cons.2 ⟨ho b rfl, hacc⟩)
  exact loop xs [] t s (Along.refl t) (List.Subset.refl xs) nofun

section Answers

variable [Bounded β] {f : α → m (Option β)} (s : t.Sound)
  (h : ∀ x ∈ xs, ∀ t', t'.Sound → ρ t t' → Keeps ρ t' (f x) fun t'' b => t''.Has b)

include s h

theorem filterMapM : Keeps ρ t (xs.filterMapM f) fun t' bs => t'.Has bs :=
  filterMapM_all s (fun _ r => (Along.grows r).below) fun x hx t' s' r' =>
    (h x hx t' s' r').mono fun _ _ _ _ hb _ e => below_some.1 (e ▸ hb)

/-- A search answers with what one of its steps answers. -/
theorem findSomeM? : Keeps ρ t (xs.findSomeM? f) fun t' b => t'.Has b := by
  induction xs generalizing t with
  | nil => exact pure s below_none
  | cons x xs ih =>
    refine (h x (.head _) t s (Along.refl t)).bind fun t1 b s1 r1 hb => ?_
    cases b with
    | some b => exact pure s1 hb
    | none => exact ih s1 fun y hy t' s' r' => h y (.tail _ hy) t' s' (Along.trans r1 r')

end Answers

theorem mapOption [LawfulMonad m] [Bounded β] {f : α → m β} {o : Option α} (s : t.Sound)
    (h : ∀ x, o = some x → Keeps ρ t (f x) fun t' b => t'.Has b) :
    Keeps ρ t (o.mapM f) fun t' b => t'.Has b := by
  cases o with
  | none => exact pure s below_none
  | some x => exact (h x rfl).map fun _ _ _ _ hb => below_some.2 hb

/-- A loop for its effects only. -/
theorem forIn [LawfulMonad m] {f : α → PUnit → m (ForInStep PUnit)} (s : t.Sound)
    (h : ∀ x ∈ xs, ∀ t', t'.Sound → ρ t t' → Keeps ρ t' (f x ⟨⟩) fun _ _ => True) :
    Keeps ρ t (forIn xs PUnit.unit f) fun _ _ => True := by
  induction xs generalizing t with
  | nil => exact pure s trivial
  | cons x xs ih =>
    rw [forIn_cons]
    refine (h x (.head _) t s (Along.refl t)).bind fun t1 b s1 r1 _ => ?_
    cases b with
    | done _ => exact pure s1 trivial
    | yield _ => exact ih s1 fun y hy t' s' r' => h y (.tail _ hy) t' s' (Along.trans r1 r')

end Loops

/-! ### A state of its own -/

section State

variable {σ α : Type} [Bounded σ] {ρ : TypeTable → TypeTable → Prop} {t : TypeTable}

theorem getThe {f : σ → StateT σ TableM α} {Q : TypeTable → α → Prop}
    (k : ∀ st, t.Has st → Keeps ρ t (f st) Q) :
    Keeps ρ t (MonadStateOf.get >>= f : StateT σ TableM α) Q :=
  fun st hst => k st hst st hst

theorem modifyThe [Along ρ] {g : σ → σ} (s : t.Sound) (hg : ∀ st, t.Has st → t.Has (g st)) :
    Keeps ρ t (modifyThe σ g : StateT σ TableM PUnit) fun _ _ => True :=
  fun st hst => ⟨s, Along.refl t, trivial, hg st hst⟩

/-- Run an operation with a state of its own. -/
theorem run {c : StateT σ TableM α} {Q : TypeTable → α → Prop} {st : σ} (h : Keeps ρ t c Q)
    (hst : t.Has st) : Keeps ρ t (c.run st) fun t' p => Q t' p.1 ∧ t'.Has p.2 :=
  h st hst

end State

theorem throw {ε : Type} {ρ : TypeTable → TypeTable → Prop} [Along ρ] {e : ε}
    {Q : TypeTable → α → Prop} (s : t.Sound) : Keeps ρ t (throw e : ExceptT ε TableM α) Q :=
  ⟨s, Along.refl t, fun _ h => nomatch h⟩

/-- Run an operation that may fail. -/
theorem runExcept {ε : Type} {ρ : TypeTable → TypeTable → Prop}
    {c : ExceptT ε TableM α} {Q : TypeTable → α → Prop} (h : Keeps ρ t c Q) :
    Keeps ρ t c.run fun t' r => ∀ a, r = .ok a → Q t' a :=
  h

end Tabled.Keeps

/-! ### The recursion guard

Passing the guard is one of three things: it has tripped before, it trips now, or
the body runs one level deeper. -/

namespace TypeTable

/-- The table one level deeper. -/
def deeper (t : TypeTable) : TypeTable := { t with depth := t.depth + 1 }

/-- The table one level up. -/
def shallower (t : TypeTable) : TypeTable := { t with depth := t.depth - 1 }

/-- The table after the guard has tripped. -/
def trip (t : TypeTable) : TypeTable :=
  { t with depthError := some (.depthExceeded t.expansion t.limits.maxDepth) }

/-- The guard has not tripped. -/
def Untripped (t : TypeTable) : Prop := t.depthError = none

variable {t t' : TypeTable}

theorem untripped_or : t.depthError.isSome ∨ t.Untripped := by
  cases h : t.depthError with
  | none => exact .inr h
  | some e => exact .inl rfl

theorem Untripped.not_isSome (h : t.Untripped) : ¬ t.depthError.isSome := by
  rw [show t.depthError = none from h]
  exact Bool.false_ne_true

/-- A guard that has not tripped in the end never had. -/
theorem Runs.untripped (r : t.Runs t') (h : t'.Untripped) : t.Untripped := by
  rcases untripped_or with ht | ht
  · rw [Untripped, r.tripped ht] at h
    rw [h] at ht
    exact absurd ht Bool.false_ne_true
  · exact ht

theorem Sound.deeper (s : t.Sound) : t.deeper.Sound := s.of_rest rfl rfl rfl rfl rfl

theorem Sound.shallower (s : t.Sound) : t.shallower.Sound := s.of_rest rfl rfl rfl rfl rfl

theorem Sound.trip (s : t.Sound) : t.trip.Sound := s.of_rest rfl rfl rfl rfl rfl

theorem runs_trip (h : t.Untripped) : t.Runs t.trip :=
  ⟨⟨⟨prefix_refl _, rfl⟩, rfl, rfl, rfl, id, .inl⟩, rfl, fun _ _ => rfl,
    fun ht => absurd ht h.not_isSome, fun _ => rfl⟩

/-- Deeper and up again. -/
theorem Runs.shallower (r : t.deeper.Runs t') : t.Runs t'.shallower :=
  ⟨⟨⟨r.types, r.limits⟩, congrArg (· - 1) r.depth, r.evaluating, r.expanding, r.remembered,
      fun h => (r.stored h).imp_right (·.keep ⟨prefix_refl _, rfl⟩ id)⟩,
    r.aliases, r.pending, r.tripped, r.stuck⟩

end TypeTable

section Guard

variable {α : Type} (tripped : α) (body : TableM α) {t : TypeTable}

theorem enter_of_tripped (h : t.depthError.isSome) : enter t = (false, t) := by
  show (if t.depthError.isSome = true then _ else _ : TableM Bool) t = _
  rw [if_pos h]
  rfl

theorem enter_of_limit (h : t.Untripped) (hd : t.limits.maxDepth ≤ t.depth) :
    enter t = (false, t.trip) := by
  show (if t.depthError.isSome = true then _ else _ : TableM Bool) t = _
  rw [if_neg h.not_isSome, if_pos hd]
  rfl

theorem enter_of_lt (h : t.Untripped) (hd : t.depth < t.limits.maxDepth) :
    enter t = (true, t.deeper) := by
  show (if t.depthError.isSome = true then _ else _ : TableM Bool) t = _
  rw [if_neg h.not_isSome, if_neg (Nat.not_le.2 hd)]
  rfl

theorem guarded_eq :
    (guarded tripped body) t =
      match enter t with
      | (true, t') => ((body t').1, (body t').2.shallower)
      | (false, t') => (tripped, t') := by
  show (if (enter t).1 = true then _ else _ : TableM α) (enter t).2 = _
  obtain ⟨b, t'⟩ := enter t
  cases b <;> rfl

/-- Passing the guard keeps what the body keeps one level deeper. -/
theorem leaves_guarded {Q : TypeTable → α → Prop} (s : t.Sound)
    (htripped : ∀ t', t.Runs t' → t'.types = t.types ∧ t'.depthError.isSome → Q t' tripped)
    (hbody : t.Untripped → t.depth < t.limits.maxDepth →
      Leaves Runs t.deeper body fun t' a => Q t'.shallower a) :
    Leaves Runs t (guarded tripped body) Q := by
  rcases untripped_or with ht | ht
  · have h : (guarded tripped body) t = (tripped, t) := by
      rw [guarded_eq, enter_of_tripped ht]
    exact ⟨h ▸ s, h ▸ Runs.refl t, h ▸ htripped t (Runs.refl t) ⟨rfl, ht⟩⟩
  · by_cases hd : t.limits.maxDepth ≤ t.depth
    · have h : (guarded tripped body) t = (tripped, t.trip) := by
        rw [guarded_eq, enter_of_limit ht hd]
      exact ⟨h ▸ s.trip, h ▸ runs_trip ht, h ▸ htripped _ (runs_trip ht) ⟨rfl, rfl⟩⟩
    · have h : (guarded tripped body) t = ((body t.deeper).1, (body t.deeper).2.shallower) := by
        rw [guarded_eq, enter_of_lt ht (Nat.not_le.1 hd)]
      have hb := hbody ht (Nat.not_le.1 hd)
      exact ⟨h ▸ hb.sound.shallower, h ▸ hb.related.shallower, h ▸ hb.post⟩

/-- **A guard that has not tripped in the end has let the body pass.** -/
theorem guarded_of_untripped (h : ((guarded tripped body) t).2.Untripped) :
    t.depth < t.limits.maxDepth ∧
      (guarded tripped body) t = ((body t.deeper).1, (body t.deeper).2.shallower) := by
  rw [guarded_eq] at h ⊢
  rcases untripped_or with ht | ht
  · rw [enter_of_tripped ht] at h
    exact absurd ht (Untripped.not_isSome h)
  · by_cases hd : t.limits.maxDepth ≤ t.depth
    · rw [enter_of_limit ht hd] at h
      cases h
    · rw [enter_of_lt ht (Nat.not_le.1 hd)]
      exact ⟨Nat.not_le.1 hd, rfl⟩

/-- A state of its own passes the guard unchanged. -/
theorem guarded_run {σ : Type} (body : StateT σ TableM α) (st : σ) :
    (guarded tripped body).run st = guarded (tripped, st) (body.run st) := by
  funext t
  show (if (enter t).1 = true then _ else _ : StateT σ TableM α) st (enter t).2 =
    (if (enter t).1 = true then _ else _ : TableM (α × σ)) (enter t).2
  cases (enter t).1 <;> rfl

end Guard

/-- Monads in which passing the guard is safe. -/
class Guarding (m : Type → Type) [Monad m] [MonadLiftT TableM m] [Tabled m] : Prop where
  guarded {α : Type} [Bounded α] {t : TypeTable} {tripped : α} {body : m α} : t.Sound →
    Below t.size tripped → Safe t.deeper body → Safe t (guarded tripped body)

instance : Guarding TableM where
  guarded s ht hb := leaves_guarded _ _ s (fun _ r _ => r ht) fun _ _ => hb

instance {σ : Type} [Bounded σ] : Guarding (StateT σ TableM) where
  guarded s ht hb st hst := by
    rw [guarded_run]
    exact leaves_guarded _ _ s (fun _ r _ => ⟨r ht, r hst⟩) fun _ _ => hb st hst

end GradualTyping
