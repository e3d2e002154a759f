/-
# Running an operation again

An operation that only makes nodes is recalled by every later table, which it then
leaves alone (`Recalls`).  Comparison is not: a function with type parameters is
adapted by an inference, and every inference makes variables of its own.  What such
an operation *answers* is the same all the same, and the guard lets the second run
pass where it let the first one pass.

`RepeatsAs q v t c c'` says of a run of `c` on `t` that it is safe and, if `q`, that a run
of `c'` on any later table at the same depth repeats it: their answers have the same view,
and the second run goes on from its table without tripping the guard.  So `q` is what has
to hold for more than safety, and one proof serves for both: that an operation is safe if
the operations one level deeper are, and that it answers as before if they do.  An
operation with a state of its own repeats from states with the same view (`Viewed`): for
an inference, from states that differ in their variables only.

The rules for `do` blocks and loops are those of triples, for each monad that
operations live in (`Repeating`).
-/

import GradualTyping.Proofs.MeetDepth

namespace GradualTyping

open TypeTable List

namespace TypeTable

variable {t t' t'' : TypeTable}

/-- A later table at the same depth, between evaluations. -/
structure Resumes (t t' : TypeTable) : Prop extends Precedes t t' where
  depth : t'.depth = t.depth
  rest : t'.evaluating = []

/-- What a run leaves that has not tripped the guard. -/
structure Carries (t t' : TypeTable) : Prop where
  sound : t'.Sound
  runs : t.Runs t'
  untripped : t'.Untripped

theorem Runs.resumes (r : t.Runs t') (p : t'.Resumes t'') : t.Resumes t'' :=
  ⟨r.precedes p.toPrecedes, p.depth.trans r.depth, p.rest⟩

theorem Resumes.carries (p : t.Resumes t') (h : t'.Carries t'') : t.Resumes t'' where
  toGrows := p.toGrows.trans h.runs
  sound := h.sound
  aliases := h.runs.aliases.trans p.aliases
  remembered k := h.runs.remembered (p.remembered k)
  started := p.started
  untripped := h.untripped
  depth := h.runs.depth.trans p.depth
  rest := h.runs.evaluating.trans p.rest

theorem Resumes.refl (p : t.Resumes t') : t'.Carries t' := ⟨p.sound, .refl t', p.untripped⟩

theorem Resumes.self (p : t.Resumes t') : t'.Resumes t' := ⟨.refl p.sound p.untripped, rfl, p.rest⟩

theorem Carries.trans (h : t.Carries t') (h' : t'.Carries t'') : t.Carries t'' :=
  ⟨h'.sound, h.runs.trans h'.runs, h'.untripped⟩

end TypeTable

/-- A safe run of `c` and, if `q`, a run of `c'` on any later table at the same depth: the
answers have the same view. -/
def RepeatsAs {α γ : Type} [Bounded α] (q : Prop) (v : α → γ) (t : TypeTable) (c c' : TableM α) :
    Prop :=
  Keeps Runs t c fun t1 a => Below t1.size a ∧ (q → t.evaluating = [] →
    ∀ t', t1.Resumes t' → ∃ a' t'', c' t' = (a', t'') ∧ v a' = v a ∧ t'.Carries t'')

namespace RepeatsAs

variable {α β γ δ : Type} [Bounded α] [Bounded β] {q : Prop} {v : α → γ} {w : β → δ}
  {t : TypeTable} {c c' : TableM α} {f f' : α → TableM β}

theorem pure {a a' : α} (s : t.Sound) (h : t.Has a) (hview : v a' = v a) :
    RepeatsAs q v t (Pure.pure a) (Pure.pure a') :=
  Tabled.Keeps.pure s ⟨h, fun _ _ t' p => ⟨a', t', rfl, hview, p.refl⟩⟩

theorem safe (h : RepeatsAs q v t c c') : Safe t c := h.mono fun _ _ _ _ ha => ha.1

theorem of_recalls (safe : Safe t c) (h : q → t.evaluating = [] → Recalls t c c') :
    RepeatsAs q v t c c' :=
  ⟨safe.sound, safe.related, safe.post, fun hq rest t' p =>
    ⟨_, t', (h hq rest).post.2 t' p.toPrecedes, rfl, p.refl⟩⟩

theorem of_stable (h : Stable t c) : RepeatsAs q v t c c := .of_recalls h.safe fun _ _ => h

theorem of_safe (safe : Safe t c) : RepeatsAs False v t c c' := .of_recalls safe nofun

theorem bind (h : RepeatsAs q v t c c')
    (k : ∀ t1 a a', t1.Sound → t.Runs t1 → t1.Has a → v a' = v a →
      RepeatsAs q w t1 (f a) (f' a')) : RepeatsAs q w t (c >>= f) (c' >>= f') := by
  refine Tabled.Keeps.bind h fun t1 a s1 r1 ⟨ha, again⟩ => ?_
  have first : Leaves Runs t1 (f a) _ := k t1 a a s1 r1 ha rfl
  refine ⟨first.sound, first.related, first.post.1, fun hq rest t' p => ?_⟩
  obtain ⟨a', t'', run, hview, carries⟩ := again hq rest t' (first.related.resumes p)
  have second : Leaves Runs t1 (f a) _ := k t1 a a' s1 r1 ha hview
  obtain ⟨b', t3, run', hview', carries'⟩ :=
    second.post.2 hq (r1.evaluating.trans rest) t'' (p.carries carries)
  exact ⟨b', t3, (bind_of_eq run).trans run', hview', carries.trans carries'⟩

theorem map {g g' : α → β} (h : RepeatsAs q v t c c') (hg : ∀ n a, Below n a → Below n (g a))
    (hview : ∀ a a', v a' = v a → w (g' a') = w (g a)) : RepeatsAs q w t (g <$> c) (g' <$> c') := by
  rw [← bind_pure_comp, ← bind_pure_comp]
  exact h.bind fun t1 a a' s1 _ ha hv => .pure s1 (hg _ a ha) (hview a a' hv)

/-- Go past a reading of the table; `k` is about what is read on a later table. -/
theorem reading {ε : Type} {c : TableM ε} {f f' : ε → TableM β} (hc : ∀ t', (c t').2 = t')
    (k : ∀ t', t.Grows t' → t'.aliases = t.aliases →
      RepeatsAs q w t (f (c t).1) (f' (c t').1)) : RepeatsAs q w t (c >>= f) (c >>= f') := by
  have first : Leaves Runs t (f (c t).1) _ := k t (.refl t) rfl
  refine Tabled.Keeps.read (hc t)
    ⟨first.sound, first.related, first.post.1, fun hq rest t' p => ?_⟩
  have start := first.related.precedes p.toPrecedes
  have second : Leaves Runs t (f (c t).1) _ := k t' start.toGrows start.aliases
  obtain ⟨b', t'', run, hview, carries⟩ := second.post.2 hq rest t' p
  refine ⟨b', t'', ?_, hview, carries⟩
  rw [← run]
  show f' (c t').1 (c t').2 = _
  rw [hc t']

theorem mapM {ε : Type} {xs : List ε} {g g' : ε → TableM α} (s : t.Sound)
    (h : ∀ x ∈ xs, ∀ t', t'.Sound → t.Runs t' → RepeatsAs q v t' (g x) (g' x)) :
    RepeatsAs q (List.map v) t (xs.mapM g) (xs.mapM g') := by
  induction xs generalizing t with
  | nil => exact pure s below_nil rfl
  | cons x xs ih =>
    rw [mapM_cons, mapM_cons]
    refine bind (h x (.head _) t s (.refl t)) fun t1 a a' s1 r1 ha hv => ?_
    refine bind (ih s1 fun y hy t' s' r' => h y (.tail _ hy) t' s' (r1.trans r'))
      fun t2 as as' s2 r2 has hvs => pure s2 (below_cons.2 ⟨r2 ha, has⟩) ?_
    rw [map_cons, map_cons, hv, hvs]

/-- Passing the guard repeats what the body repeats one level deeper. -/
theorem guarded {a a' : α} {body body' : TableM α} (s : t.Sound) (ha : t.Has a)
    (h : RepeatsAs q v t.deeper body body') :
    RepeatsAs q v t (guarded a body) (guarded a' body') := by
  refine leaves_guarded _ _ s (fun t1 r tripped => ⟨r ha, fun _ _ t' p => ?_⟩)
    fun hu hd => ?_
  · exact absurd tripped.2 p.started.not_isSome
  have inner : Leaves Runs t.deeper body _ := h
  refine ⟨inner.sound, inner.related, inner.post.1, fun hq rest t' p => ?_⟩
  -- The later table stands as deep as the first one, so that the guard lets the body pass.
  have depth : t'.depth = t.depth := p.depth.trans (congrArg (· - 1) inner.related.depth)
  have limits : t'.limits = t.limits := p.limits.trans inner.related.limits
  have passes : t'.depth < t'.limits.maxDepth := by rw [depth, limits]; exact hd
  have resumes : (body t.deeper).2.Resumes t'.deeper := by
    refine ⟨⟨⟨p.types, p.limits⟩, p.sound.deeper, p.aliases, p.remembered, p.started,
      p.untripped⟩, ?_, p.rest⟩
    show t'.depth + 1 = _
    rw [depth]
    exact inner.related.depth.symm
  obtain ⟨b, t'', run, hview, carries⟩ := inner.post.2 hq rest t'.deeper resumes
  refine ⟨b, t''.shallower, ?_, hview, carries.sound.shallower, carries.runs.shallower,
    carries.untripped⟩
  rw [guarded_eq, enter_of_lt p.untripped passes]
  dsimp only
  rw [run]

end RepeatsAs

/-! ### The monads of operations -/

/-- What two runs of an operation with a state of its own have in common of their states. -/
class Viewed (σ : Type) where
  view : σ → σ

export Viewed (view)

/-- Monads over a table in which operations are run again. -/
class Repeating (m : Type → Type) [Monad m] [MonadLiftT TableM m] where
  Repeats {α : Type} [Bounded α] (q : Prop) (t : TypeTable) (c : m α) : Prop
  pure {α : Type} [Bounded α] {q : Prop} {t : TypeTable} {a : α} : t.Sound → Below t.size a →
    Repeats q t (pure a)
  bind {α β : Type} [Bounded α] [Bounded β] {q : Prop} {t : TypeTable} {c : m α} {f : α → m β} :
    Repeats q t c → (∀ t1 a, t1.Sound → t.Runs t1 → Below t1.size a → Repeats q t1 (f a)) →
    Repeats q t (c >>= f)
  lift {α : Type} [Bounded α] {q : Prop} {t : TypeTable} {c : TableM α} : RepeatsAs q id t c c →
    Repeats q t (liftM c)
  /-- Go past a reading of the table that decides the same on every later table. -/
  read {ε β : Type} [Bounded β] {q : Prop} {t : TypeTable} {c : TableM ε} {f : ε → m β} :
    (∀ t', (c t').2 = t') → (∀ t', t.Grows t' → f (c t').1 = f (c t).1) → Repeats q t (f (c t).1) →
    Repeats q t ((liftM c : m ε) >>= f)

export Repeating (Repeats)

instance : Repeating TableM where
  Repeats q t c := RepeatsAs q id t c c
  pure s h := .pure s h rfl
  bind h k := h.bind fun t1 a a' s1 r1 ha hv => (show a' = a from hv) ▸ k t1 a s1 r1 ha
  lift h := h
  read {_ _ _ q t c f} hc same h := .reading (c := c) hc fun t' g _ => by
    show RepeatsAs q id t (f (c t).1) (f (c t').1)
    rw [same t' g]
    exact h

instance {σ : Type} [Bounded σ] [Viewed σ] : Repeating (StateT σ TableM) where
  Repeats q t c := ∀ st st' : σ, Below t.size st → view st' = view st →
    RepeatsAs q (fun p => (p.1, view p.2)) t (c.run st) (c.run st')
  pure s h st st' hst hv := .pure s ⟨h, hst⟩ (by rw [hv])
  bind {α β _ _ q t c f} h k st st' hst hv := by
    rw [StateT.run_bind, StateT.run_bind]
    refine (h st st' hst hv).bind fun t1 p p' s1 r1 hp hv => ?_
    obtain ⟨answer, state⟩ := Prod.mk.inj hv
    rw [answer]
    exact k t1 p.1 s1 r1 hp.1 p.2 p'.2 hp.2 state
  lift {α _ q t c} h st st' hst hv := by
    show RepeatsAs q _ t (c >>= fun a => Pure.pure (a, st)) (c >>= fun a => Pure.pure (a, st'))
    refine h.bind fun t1 a a' s1 r1 ha hv' => .pure s1 ⟨ha, r1 hst⟩ ?_
    rw [hv, show a' = a from hv']
  read {ε β _ q t c f} hc same h st st' hst hv := by
    show RepeatsAs q _ t (c >>= fun a => (f a).run st) (c >>= fun a => (f a).run st')
    refine RepeatsAs.reading hc fun t' g _ => ?_
    rw [same t' g]
    exact h st st' hst hv

instance : Repeating (OptionT TableM) where
  Repeats q t c := RepeatsAs q id t c.run c.run
  pure s h := .pure s (below_some.2 h) rfl
  bind {α β _ _ q t c f} h k := by
    rw [OptionT.run_bind]
    refine h.bind fun t1 o o' s1 r1 ho hv => ?_
    obtain rfl : o' = o := hv
    cases o' with
    | none => exact .pure s1 below_none rfl
    | some a => exact k t1 a s1 r1 (below_some.1 ho)
  lift {α _ q t c} h := by
    show RepeatsAs q id t (some <$> c) (some <$> c)
    exact h.map (fun _ _ ha => below_some.2 ha) fun a a' hv => congrArg some (show a' = a from hv)
  read {ε β _ q t c f} hc same h := by
    have run : ((liftM c : OptionT TableM ε) >>= f).run = c >>= fun a => (f a).run := by
      rw [OptionT.run_bind]
      exact bind_map_left ..
    rw [run]
    refine RepeatsAs.reading hc fun t' g _ => ?_
    rw [same t' g]
    exact h

namespace Repeating.Repeats

section Rules

variable {m : Type → Type} [Monad m] [MonadLiftT TableM m] [Repeating m] {α β : Type} [Bounded α]
  [Bounded β] {q : Prop} {t : TypeTable}

theorem pure {a : α} (s : t.Sound) (h : t.Has a) : Repeats q t (Pure.pure a : m α) :=
  Repeating.pure s h

theorem bind {c : m α} {f : α → m β} (h : Repeats q t c)
    (k : ∀ t1 a, t1.Sound → t.Runs t1 → t1.Has a → Repeats q t1 (f a)) : Repeats q t (c >>= f) :=
  Repeating.bind h k

theorem map [LawfulMonad m] {c : m α} {g : α → β} (h : Repeats q t c)
    (hg : ∀ n a, Below n a → Below n (g a)) : Repeats q t (g <$> c) := by
  rw [← bind_pure_comp]
  exact bind h fun t1 a s1 _ ha => pure s1 (hg _ a ha)

/-- A way to make a node gives the same node again. -/
theorem of_stable {c : TableM α} (h : Stable t c) : Repeats q t (liftM c : m α) := lift (.of_stable h)

theorem lifted {c : TableM α} (h : Repeats q t c) : Repeats q t (liftM c : m α) := lift h

/-- Go past the reading of a node. -/
theorem node {id : TypeId} {f : Ty → m β} (hid : t.Has id) (k : Repeats q t (f (t.resolve id))) :
    Repeats q t ((liftM (resolve id : TableM Ty) : m Ty) >>= f) :=
  read (fun _ => rfl) (fun _ g => congrArg f (g.resolve hid)) k

/-- Go past the reading of the alternatives of a type. -/
theorem members {id : TypeId} {f : List TypeId → m β} (s : t.Sound) (hid : t.Has id)
    (k : Repeats q t (f (t.unionMembers id))) :
    Repeats q t ((liftM (GradualTyping.unionMembers id) : m (List TypeId)) >>= f) :=
  read (fun _ => rfl) (fun _ g => congrArg f ((s.agreeBelow g).unionMembers hid)) k

/-- Go past the reading of the table. -/
theorem table {f : TypeTable → m β} (same : ∀ t', t.Grows t' → f t' = f t)
    (k : Repeats q t (f t)) : Repeats q t ((liftM (get : TableM TypeTable) : m TypeTable) >>= f) :=
  read (fun _ => rfl) same k

variable {γ : Type} {xs : List γ}

theorem mapM [LawfulMonad m] {f : γ → m β} (s : t.Sound)
    (h : ∀ x ∈ xs, ∀ t', t'.Sound → t.Runs t' → Repeats q t' (f x)) : Repeats q t (xs.mapM f) := by
  induction xs generalizing t with
  | nil => exact pure s below_nil
  | cons x xs ih =>
    rw [mapM_cons]
    refine bind (h x (.head _) t s (.refl t)) fun t1 b s1 r1 hb => ?_
    refine bind (ih s1 fun y hy t' s' r' => h y (.tail _ hy) t' s' (r1.trans r'))
      fun t2 bs s2 r2 hbs => pure s2 ?_
    exact below_cons.2 ⟨r2 hb, hbs⟩

theorem forM {f : γ → m PUnit} (s : t.Sound)
    (h : ∀ x ∈ xs, ∀ t', t'.Sound → t.Runs t' → Repeats q t' (f x)) : Repeats q t (xs.forM f) := by
  induction xs generalizing t with
  | nil => exact pure s trivial
  | cons x xs ih =>
    refine bind (h x (.head _) t s (.refl t)) fun t1 _ s1 r1 _ => ?_
    exact ih s1 fun y hy t' s' r' => h y (.tail _ hy) t' s' (r1.trans r')

theorem foldlM {f : β → γ → m β} {init : β} (s : t.Sound) (hinit : t.Has init)
    (h : ∀ x ∈ xs, ∀ t' b, t'.Sound → t.Runs t' → t'.Has b → Repeats q t' (f b x)) :
    Repeats q t (xs.foldlM f init) := by
  induction xs generalizing t init with
  | nil => exact pure s hinit
  | cons x xs ih =>
    rw [foldlM_cons]
    refine bind (h x (.head _) t init s (.refl t) hinit) fun t1 b s1 r1 hb => ?_
    exact ih s1 hb fun y hy t' b s' r' hb => h y (.tail _ hy) t' b s' (r1.trans r') hb

theorem anyM {f : γ → m Bool} (s : t.Sound)
    (h : ∀ x ∈ xs, ∀ t', t'.Sound → t.Runs t' → Repeats q t' (f x)) : Repeats q t (xs.anyM f) := by
  induction xs generalizing t with
  | nil => exact pure s trivial
  | cons x xs ih =>
    refine bind (h x (.head _) t s (.refl t)) fun t1 b s1 r1 _ => ?_
    cases b with
    | true => exact pure s1 trivial
    | false => exact ih s1 fun y hy t' s' r' => h y (.tail _ hy) t' s' (r1.trans r')

theorem filterM {xs : List α} {f : α → m Bool} (s : t.Sound) (hxs : t.Has xs)
    (h : ∀ x ∈ xs, ∀ t', t'.Sound → t.Runs t' → Repeats q t' (f x)) : Repeats q t (xs.filterM f) := by
  have loop : ∀ (l acc : List α) (t' : TypeTable), t'.Sound → t.Runs t' → l ⊆ xs →
      t'.Has acc → Repeats q t' (l.filterAuxM f acc) := by
    intro l
    induction l with
    | nil => exact fun acc t' s' _ _ hacc => pure s' hacc
    | cons x l ih =>
      intro acc t' s' r' hl hacc
      obtain ⟨hx, hl⟩ := cons_subset.1 hl
      refine bind (h x hx t' s' r') fun t1 b s1 r1 _ => ih _ t1 s1 (r'.trans r1) hl ?_
      cases b with
      | true => exact below_cons.2 ⟨(r'.trans r1) (hxs x hx), r1 hacc⟩
      | false => exact r1 hacc
  refine bind (loop xs [] t s (.refl t) (List.Subset.refl xs) below_nil) fun _ ys s' _ hys => ?_
  exact pure s' (hys.subset fun _ => mem_reverse.1)

theorem filterMapM {f : γ → m (Option β)} (s : t.Sound)
    (h : ∀ x ∈ xs, ∀ t', t'.Sound → t.Runs t' → Repeats q t' (f x)) :
    Repeats q t (xs.filterMapM f) := by
  have loop : ∀ (l : List γ) (acc : List β) (t' : TypeTable), t'.Sound → t.Runs t' → l ⊆ xs →
      t'.Has acc → Repeats q t' (List.filterMapM.loop f l acc) := by
    intro l
    induction l with
    | nil => exact fun acc t' s' _ _ hacc => pure s' (hacc.subset fun _ => mem_reverse.1)
    | cons x l ih =>
      intro acc t' s' r' hl hacc
      obtain ⟨hx, hl⟩ := cons_subset.1 hl
      refine bind (h x hx t' s' r') fun t1 b s1 r1 hb => ?_
      have hacc := r1 hacc
      cases b with
      | none => exact ih _ t1 s1 (r'.trans r1) hl hacc
      | some b => exact ih _ t1 s1 (r'.trans r1) hl (below_cons.2 ⟨below_some.1 hb, hacc⟩)
  exact loop xs [] t s (.refl t) (List.Subset.refl xs) below_nil

end Rules

end Repeating.Repeats

namespace Repeating

/-! ### A state of its own -/

section State

variable {σ α : Type} [Bounded σ] [Viewed σ] [Bounded α] {q : Prop} {t : TypeTable}

/-- Go past a reading of the state that decides by what the two runs have in common. -/
theorem getThe {f : σ → StateT σ TableM α} (same : ∀ st st', view st' = view st → f st' = f st)
    (k : ∀ st, t.Has st → Repeats q t (f st)) :
    Repeats q t (MonadStateOf.get >>= f : StateT σ TableM α) := by
  intro st st' hst hv
  show RepeatsAs q _ t ((f st).run st) ((f st').run st')
  rw [same st st' hv]
  exact k st hst st st' hst hv

theorem modifyThe {g : σ → σ} (s : t.Sound) (hg : ∀ st, t.Has st → t.Has (g st))
    (hview : ∀ st st', view st' = view st → view (g st') = view (g st)) :
    Repeats q t (modifyThe σ g : StateT σ TableM PUnit) :=
  fun st st' hst hv => .pure s ⟨trivial, hg st hst⟩ (by rw [hview st st' hv])

/-- Passing the guard repeats what the body repeats one level deeper. -/
theorem guarded {a : α} {body : StateT σ TableM α} (s : t.Sound)
    (ha : t.Has a) (h : Repeats q t.deeper body) :
    Repeats q t (guarded a body : StateT σ TableM α) := by
  intro st st' hst hv
  rw [guarded_run, guarded_run]
  exact .guarded s ⟨ha, hst⟩ (h st st' hst hv)

theorem safe {c : StateT σ TableM α} (h : Repeats q t c) : Safe t c :=
  fun st hst => (h st st hst rfl).safe

/-- Run an operation with a state of its own, for its answer only. -/
theorem run' {c : StateT σ TableM α} {st : σ} (h : Repeats q t c) (hst : t.Has st) :
    Repeats q t (c.run' st) :=
  (h st st hst rfl).map (fun _ _ hp => hp.1) fun _ _ hv => (Prod.mk.inj hv).1

end State

end Repeating

/-! ### Answers -/

namespace TypeTable

variable {α β : Type} [Bounded α] [Bounded β] {t t' : TypeTable} {c : TableM α} {f : α → TableM β}
  {a a' : α} {b : β}

theorem Resumes.trans {t'' : TypeTable} (p : t.Resumes t') (q : t'.Resumes t'') : t.Resumes t'' :=
  ⟨⟨p.toGrows.trans q.toGrows, q.sound, q.aliases.trans p.aliases,
    fun h => q.remembered (p.remembered h), p.started, q.untripped⟩, q.depth.trans p.depth, q.rest⟩

/-- From a table on, every run of an operation gives one answer. -/
def Answers (t : TypeTable) (c : TableM α) (a : α) : Prop :=
  ∀ t', t.Resumes t' → ∃ t'', c t' = (a, t'') ∧ t'.Carries t''

omit [Bounded α] in
theorem Answers.later (h : t.Answers c a) (p : t.Resumes t') : t'.Answers c a :=
  fun t'' q => h t'' (p.trans q)

omit [Bounded α] in
theorem Answers.unique (h : t.Answers c a) (h' : t.Answers c a') (p : t.Resumes t) : a = a' := by
  obtain ⟨_, run, -⟩ := h t p
  obtain ⟨_, run', -⟩ := h' t p
  exact congrArg Prod.fst (run.symm.trans run')

/-- What is run again answers from then on. -/
theorem Answers.of_repeats (h : Repeats True t c) (rest : t.evaluating = []) :
    Keeps Runs t c fun t1 a => t1.Has a ∧ t1.Answers c a :=
  Tabled.Keeps.mono h fun t1 a _ _ ha => ⟨ha.1, fun t' p => by
    obtain ⟨a', t'', run, same, carries⟩ := ha.2 trivial rest t' p
    exact ⟨t'', (show a' = a from same) ▸ run, carries⟩⟩

/-- **The steps of an operation that answers answer**, on a table that it leaves. -/
theorem Answers.bind_inv (h : t.Answers (c >>= f) b) (p : t.Resumes t) (hc : Repeats True t c)
    (hf : ∀ t1 a, t1.Sound → t.Runs t1 → t1.Has a → Repeats True t1 (f a)) :
    ∃ a t', t.Resumes t' ∧ t.Runs t' ∧ t'.Has a ∧ t'.Answers c a ∧ t'.Answers (f a) b := by
  have first : Leaves Runs t c _ := Answers.of_repeats hc p.rest
  have second : Leaves Runs (c t).2 (f (c t).1) _ :=
    Answers.of_repeats (hf _ _ first.sound first.related first.post.1)
      (first.related.evaluating.trans p.rest)
  obtain ⟨t', run, carries⟩ := h t p
  have run : f (c t).1 (c t).2 = (b, t') := run
  have later := second.related
  have answer := second.post.2
  rw [run] at later answer
  refine ⟨_, t', p.carries carries, carries.runs, later.below first.post.1, ?_, answer⟩
  exact fun t'' q => first.post.2 t'' (later.resumes q)

end TypeTable

end GradualTyping
