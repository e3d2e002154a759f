/-
# The alternatives of a type

Comparison takes a source apart before its target: it is replaced by what
evaluation makes of it, and a union is split into its members.  What can come up in
this way are the *alternatives* of a type.  A type that has another among its
alternatives is above it, unless that is an intersection: comparison splits an
intersection on the left before it looks for it among the members of a union on the
right.

`Fits a b` puts together the reasons that a source has for being comparable when it
is made of alternatives, and comparison affirms it (`affirms_of_fits`).
-/

import GradualTyping.Proofs.Comparison.Affirms
import Mathlib.Logic.Relation

namespace GradualTyping

open TypeTable Subtyping Relation Operations

namespace TypeTable

/-- What comparison may take instead of a source: what replaces it, or a member of it. -/
def Part (t : TypeTable) (a c : TypeId) : Prop :=
  t.Reduct a c ∨ ∃ ms, t.resolve a = .union ms ∧ c ∈ ms

/-- What comparison may come to from a source. -/
def Alternative (t : TypeTable) : TypeId → TypeId → Prop := ReflTransGen t.Part

/-- No alternative of a type stays an intersection. -/
def MeetFree (t : TypeTable) (a : TypeId) : Prop :=
  ∀ c ms, t.Alternative a c → t.resolve c = .intersection ms → ¬ t.Stays c

/-- Reasons for a source to be comparable that are kept when it is taken apart. -/
inductive Fits (t : TypeTable) : TypeId → TypeId → Prop
  | known {a b} : t.Comparable a b → Fits t a b
  | alternative {a b} : t.Alternative b a → Fits t a b
  | member {u ms a b} : t.resolve u = .union ms → a ∈ ms → t.Comparable u b → Fits t a b
  | union {ms a b} : t.resolve a = .union ms → (∀ m ∈ ms, Fits t m b) → Fits t a b
  | reduct {a a' b} : t.Reduct a a' → Fits t a b → Fits t a' b
  | expand {a a' b} : t.Reduct a a' → Fits t a' b → Fits t a b

/-- The reasons that are left when the target stays. -/
inductive Rests (t : TypeTable) (b : TypeId) : TypeId → Prop
  | known {a} : t.Comparable a b → Rests t b a
  | alternative {a} : t.Alternative b a → Rests t b a
  | union {ms a} : t.resolve a = .union ms → (∀ m ∈ ms, t.Fits m b) → Rests t b a
  | expand {a a'} : t.Reduct a a' → Rests t b a' → Rests t b a

variable {t : TypeTable} {a a' b b' c : TypeId} {ms : List TypeId}

theorem stays_of_plain (hty : (t.resolve a).isReducible = false)
    (hmeet : ∀ ms, t.resolve a ≠ .intersection ms) : t.Stays a := by
  refine .inl ?_
  unfold Subtyping.needsEvaluation
  split
  · next ms hms => exact absurd hms (hmeet ms)
  · exact hty

theorem stays_of_union (h : t.resolve a = .union ms) : t.Stays a :=
  stays_of_plain (by rw [h]; rfl) (by rw [h]; nofun)

theorem MeetFree.part (h : t.MeetFree a) (p : t.Part a c) : t.MeetFree c :=
  fun d ms hd => h d ms (.head p hd)

/-- A type that is replaced has no other part. -/
theorem Part.of_reduct (p : t.Part b c) (red : t.Reduct b b') : c = b' := by
  rcases p with hc | ⟨ms, hms, -⟩
  · exact hc.unique red
  · exact absurd (stays_of_union hms) red.not_stays

/-- The target may be replaced. -/
theorem Fits.target (F : t.Resting) (unvaried : t.Unvaried) (h : t.Fits a b)
    (red : t.Reduct b b') : t.Fits a b' := by
  induction h with
  | known h => exact .known (h.reduct_right F unvaried red)
  | alternative h =>
    rcases ReflTransGen.cases_head h with rfl | ⟨c, p, h⟩
    · exact .expand red (.alternative .refl)
    · exact .alternative (p.of_reduct red ▸ h)
  | member hu hm h => exact .member hu hm (h.reduct_right F unvaried red)
  | union hu _ ih => exact .union hu fun m hm => ih m hm red
  | reduct r _ ih => exact .reduct r (ih red)
  | expand r _ ih => exact .expand r (ih red)

/-- A union on the left is split. -/
theorem structuralOver_union (h : t.resolve a = .union ms) {R : TypeId → TypeId → Bool} :
    structuralOver t R a b = (ms.all (R · b), t) := by
  unfold structuralOver
  rw [h]
  exact congrFun List.allM_pure t

open Classical in
theorem Fits.rests (F : t.Resting) (unvaried : t.Unvaried) (h : t.Fits a b) (stays : t.Stays b) :
    t.Rests b a := by
  induction h with
  | known h => exact .known h
  | alternative h => exact .alternative h
  | union hu h _ => exact .union hu h
  | expand r _ ih => exact .expand r (ih stays)
  | member hu hm h =>
    have ha := F.sound.below_node hu _ hm
    rcases h.cases F unvaried with hs | ⟨_, red, -⟩ | ⟨-, ⟨_, red, -⟩ | ⟨-, hrule⟩⟩
    · rcases settled_iff.1 hs with rfl | hb | hleft
      · exact .alternative (.single (.inr ⟨_, hu, hm⟩))
      · exact .known (.of_settled ha h.below.2 (settled_iff.2 (.inr (.inl hb))))
      · rw [hu] at hleft
        rcases hleft with hleft | hleft <;> cases hleft
    · exact absurd (stays_of_union hu) red.not_stays
    · exact absurd stays red.not_stays
    · rw [structuralOver_union hu] at hrule
      exact .known (of_decide_eq_true (List.all_eq_true.1 (congrArg Prod.fst hrule) _ hm))
  | reduct r h ih =>
    rcases ih stays with h | h | ⟨hu, -⟩ | ⟨r', h⟩
    · rcases h.cases F unvaried with hs | ⟨_, red, h⟩ | ⟨hstays, -⟩
      · rcases settled_iff.1 hs with rfl | hb | hleft
        · exact absurd stays r.not_stays
        · exact .known (.of_settled (F.sound.evaluated r.remembered).1 h.below.2
            (settled_iff.2 (.inr (.inl hb))))
        · rcases hleft with hleft | hleft
          · exact absurd hleft (r.plain_ne rfl nofun)
          · exact absurd hleft (r.plain_ne rfl nofun)
      · exact .known (r.unique red ▸ h)
      · exact absurd hstays r.not_stays
    · exact .alternative (h.tail (.inl r))
    · exact absurd (stays_of_union hu) r.not_stays
    · exact r.unique r' ▸ h

end TypeTable

/-! ### What fits is affirmed -/

section Affirms

variable {final t : TypeTable} {n : Nat} {a b : TypeId} {ms : List TypeId}

/-- **A source that fits is affirmed**, if no alternative of it stays an intersection. -/
theorem affirms_of_fits (F : final.Resting) (unvaried : final.Unvaried) (h : final.Fits a b)
    (free : final.MeetFree a) (s : t.Sound) (rest : AtRest n t) (ha : t.Has a)
    (hb : t.Has b) (assumed : Assumptions) :
    Affirms final t ((withLevels n).isSubtype assumed a b) := by
  induction n generalizing t a b assumed with
  | zero => exact affirms_isSubtype s rest ha hb assumed (.inr fun _ hk => nomatch hk)
  | succ k ih =>
    refine .of_precedes (safe_isSubtypeAt _ assumed s ha hb) fun start => ?_
    by_cases known : final.Comparable a b
    · exact affirms_of_comparable F known s rest ha hb assumed
    have hab : a ≠ b := fun heq => known (heq ▸ .refl (start.toGrows.below ha))
    refine affirms_isSubtype s rest ha hb assumed (.inr ?_)
    rintro _ ⟨⟩
    refine affirms_clause s.deeper rest.deeper unvaried ha hb hab (safe_isSubtypeAt k _)
      (fun a' t1 red s1 r1 ha' => ?_) (fun b' t1 _ red s1 r1 hb' => ?_)
      fun t1 staysa staysb s1 r1 => ?_
    · exact ih (.reduct red h) (free.part (.inl red)) s1 (rest.deeper.runs r1) ha' (r1 hb) _
    · exact ih (h.target F unvaried red) free s1 (rest.deeper.runs r1) (r1 ha) hb' _
    change Affirms final t1 (structural (.withLevels k)
      ((withLevels k).isSubtype ((a, b) :: assumed)) a b (t.resolve a) (t.resolve b))
    have nodea : final.resolve a = t.resolve a := start.resolve ha
    have nodeb : final.resolve b = t.resolve b := start.resolve hb
    -- A union on the left is split, whatever the reason.
    have split : ∀ {ms}, final.resolve a = .union ms → (∀ m ∈ ms, final.Fits m b) →
        Affirms final t1 (structural (.withLevels k)
          ((withLevels k).isSubtype ((a, b) :: assumed)) a b (t.resolve a)
          (t.resolve b)) := by
      intro ms hu hms
      have hu' := nodea.symm.trans hu
      rw [hu']
      refine Affirms.allM s1 fun m hm t2 s2 r2 => ?_
      have r := r1.trans r2
      exact ih (hms m hm) (free.part (.inr ⟨ms, hu, hm⟩)) s2 (rest.deeper.runs r)
        (r (s.deeper.below_node hu' m hm)) (r hb) _
    rcases h.rests F unvaried staysb with h | h | ⟨hu, hms⟩ | ⟨red, -⟩
    · exact absurd h known
    · rcases ReflTransGen.cases_head h with heq | ⟨c, red | ⟨ms, hms, hc⟩, h⟩
      · exact absurd heq.symm hab
      · exact absurd staysb red.not_stays
      have hms' := nodeb.symm.trans hms
      cases hnode : final.resolve a with
      | union xs =>
        exact split hnode fun m hm =>
          .alternative ((ReflTransGen.head (.inr ⟨ms, hms, hc⟩) h).tail (.inr ⟨xs, hnode, hm⟩))
      | intersection xs => exact absurd staysa (free a xs .refl hnode)
      | _ =>
        rw [hms']
        refine affirms_found s1 (r1 ha) (r1 hb) (r1 (s.deeper.below_node hms'))
          (r1 (s.deeper.below_resolve a)) (safe_isSubtypeAt k _) (by rw [← nodea, hnode]; rfl)
          (by rw [← nodea, hnode]; nofun) hc fun t2 s2 r2 => ?_
        have r := r1.trans r2
        exact ih (.alternative h) free s2 (rest.deeper.runs r) (r ha)
          (r (s.deeper.below_node hms' c hc)) _
    · exact split hu hms
    · exact absurd staysa red.not_stays

end Affirms

end GradualTyping
