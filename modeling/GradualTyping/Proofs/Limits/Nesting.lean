/-
# How deep types are nested

Three walks over the parts of a type stop silently at the limit of depth: the search for
free parameters, the search for placeholders and the comparison of shapes.  Looking
through unions and names does too.  On a table whose types are `Shallow`, none of these
walks comes to its end, so that a larger limit makes no difference to them.

`Later` orders the tables of one run.  What is shallow at a later time was shallow before,
also of types that were not yet in the table.
-/

import Mathlib.Data.List.Basic
import GradualTyping.Proofs.Triples
import GradualTyping.Proofs.Lockstep.Basic
import GradualTyping.Narrowing.Narrow

namespace GradualTyping

open List

namespace TypeTable

/-- Every walk from a type along `next` ends in fewer than `n` steps. -/
def Ends (next : TypeId → List TypeId) : (n : Nat) → TypeId → Prop
  | 0, _ => False
  | n + 1, id => ∀ m ∈ next id, Ends next n m

instance decidableEnds (next : TypeId → List TypeId) : (n : Nat) → (id : TypeId) →
    Decidable (Ends next n id)
  | 0, _ => .isFalse False.elim
  | n + 1, id =>
    have := decidableEnds next n
    inferInstanceAs (Decidable (∀ m ∈ next id, Ends next n m))

theorem Ends.mono {next next' : TypeId → List TypeId} (sub : ∀ id, next id ⊆ next' id) {n : Nat}
    {id : TypeId} (h : Ends next' n id) : Ends next n id := by
  induction n generalizing id with
  | zero => exact h
  | succ n ih => exact fun m hm => ih (h m (sub id hm))

def partsOf (t : TypeTable) (id : TypeId) : List TypeId := (t.resolve id).parts

/-- What has to be looked at for the members of a type: those of a union, or the body of a
name. -/
def opened (t : TypeTable) (id : TypeId) : List TypeId :=
  match t.resolve id with
  | .union ms => ms
  | _ => (t.namedUnion? id).toList

/-- No type is nested deeper than a limit, or opened more often. -/
structure Shallow (t : TypeTable) (limit : Nat) : Prop where
  parts (id : TypeId) : Ends t.partsOf (limit + 1) id
  opened (id : TypeId) : Ends t.opened (limit + 1) id

section Decidable

variable {t : TypeTable} {limit : Nat}

/-- Outside the table there is nothing to look at. -/
theorem shallow_iff : t.Shallow limit ↔
    ∀ i < t.size, Ends t.partsOf (limit + 1) ⟨i⟩ ∧ Ends t.opened (limit + 1) ⟨i⟩ := by
  refine ⟨fun h i _ => ⟨h.parts ⟨i⟩, h.opened ⟨i⟩⟩, fun h => ?_⟩
  have outside {id : TypeId} (hid : ¬id.index < t.size) : t.resolve id = .never := by
    rw [TypeTable.resolve, TypeTable.get?, Array.getElem?_eq_none (Nat.not_lt.1 hid),
      Option.getD_none]
  constructor
  · intro id
    by_cases hid : id.index < t.size
    · exact (h id.index hid).1
    · intro m hm
      rw [TypeTable.partsOf, outside hid] at hm
      cases hm
  · intro id
    by_cases hid : id.index < t.size
    · exact (h id.index hid).2
    · intro m hm
      rw [TypeTable.opened, outside hid, TypeTable.namedUnion?, outside hid] at hm
      cases hm

instance : Decidable (t.Shallow limit) := decidable_of_iff _ shallow_iff.symm

end Decidable

/-! ### Walks with more levels than a type has -/

section Walks

variable {t : TypeTable} {n fuel fuel' : Nat}

theorem Ends.freeParamsWithin {id : TypeId} (h : Ends t.partsOf n id) (hf : n ≤ fuel) (hf' : n ≤ fuel')
    (bound out : List TypeId) :
    t.freeParamsWithin fuel bound out id = t.freeParamsWithin fuel' bound out id := by
  induction n generalizing fuel fuel' id bound out with
  | zero => exact h.elim
  | succ n ih =>
    obtain ⟨fuel, rfl⟩ := Nat.exists_eq_add_of_le' hf
    obtain ⟨fuel', rfl⟩ := Nat.exists_eq_add_of_le' hf'
    -- The parts of the type are nested one level less.
    have parts (p : TypeId) (hp : p ∈ (t.resolve id).parts) (bound out : List TypeId) :
        t.freeParamsWithin (fuel + n) bound out p = t.freeParamsWithin (fuel' + n) bound out p :=
      ih (h p hp) (Nat.le_add_left ..) (Nat.le_add_left ..) bound out
    rw [← Nat.add_assoc, ← Nat.add_assoc, TypeTable.freeParamsWithin, TypeTable.freeParamsWithin]
    cases hty : t.resolve id with
    | param _ => rfl
    | mapped m =>
      rw [hty] at parts
      dsimp only
      rw [parts m.keys (.head _), parts m.template (.tail _ (.head _))]
    | function f =>
      rw [hty] at parts
      exact foldl_ext _ _ _ fun out p hp => parts p hp _ out
    | _ =>
      rw [hty] at parts
      exact foldl_ext _ _ _ fun out p hp => parts p hp _ out

theorem patternParts_subset (ty : Ty) : patternParts ty ⊆ ty.parts := by
  cases ty with
  | function f => exact subset_append_left ..
  | conditional | mapped | caseMapped => exact nil_subset _
  | _ => exact List.Subset.refl _

theorem Ends.placeholdersWithin {id : TypeId} (h : Ends t.partsOf n id) (hf : n ≤ fuel)
    (hf' : n ≤ fuel') (out : List TypeId) :
    t.placeholdersWithin fuel out id = t.placeholdersWithin fuel' out id := by
  induction n generalizing fuel fuel' id out with
  | zero => exact h.elim
  | succ n ih =>
    obtain ⟨fuel, rfl⟩ := Nat.exists_eq_add_of_le' hf
    obtain ⟨fuel', rfl⟩ := Nat.exists_eq_add_of_le' hf'
    have parts (p : TypeId) (hp : p ∈ patternParts (t.resolve id)) (out : List TypeId) :
        t.placeholdersWithin (fuel + n) out p = t.placeholdersWithin (fuel' + n) out p :=
      ih (h p (patternParts_subset _ hp)) (Nat.le_add_left ..) (Nat.le_add_left ..) out
    rw [← Nat.add_assoc, ← Nat.add_assoc, TypeTable.placeholdersWithin,
      TypeTable.placeholdersWithin]
    split
    · rfl
    · exact foldl_ext _ _ _ fun out p hp => parts p hp out

section Shapes

variable {same same' : TypeId → TypeId → Bool}

theorem bothOr_left {a : Option TypeId} (h : ∀ x ∈ a.toList, ∀ y, same x y = same' x y)
    (b : Option TypeId) : bothOr same a b = bothOr same' a b := by
  cases a <;> cases b <;> simp_all [bothOr]

theorem identicalObjects_left {x : ObjectShape}
    (h : ∀ p ∈ (Ty.object x).parts, ∀ q, same p q = same' p q) (y : ObjectShape) :
    identicalObjects same x y = identicalObjects same' x y := by
  have fields : ∀ p ∈ x.properties, ∀ b, same p.type b = same' p.type b := fun p hp =>
    h p.type (mem_append_left _ (mem_map_of_mem hp))
  have index := bothOr_left (a := x.index) fun p hp => h p (mem_append_right _ hp)
  rw [identicalObjects, identicalObjects, index]
  exact congrArg (· && _) (pairwise_congr fun p hp q _ => by rw [fields p hp])

theorem identicalFunctions_left {f : Signature}
    (h : ∀ p ∈ (Ty.function f).parts, ∀ q, same p q = same' p q) (g : Signature) :
    identicalFunctions same f g = identicalFunctions same' f g := by
  have own (p : TypeId) (hp : p ∈ f.parts) (q : TypeId) : same p q = same' p q :=
    h p (mem_append_left _ hp) q
  have params : ∀ p ∈ f.params, ∀ b, same p.type b = same' p.type b := fun p hp =>
    own p.type (mem_append_left _ (mem_append_left _ (mem_map_of_mem hp)))
  have rest := bothOr_left (a := f.rest) fun p hp =>
    own p (mem_append_left _ (mem_append_right _ hp))
  have result := own f.result (mem_append_right _ (.head _))
  rw [identicalFunctions, identicalFunctions, rest, result,
    pairwise_congr fun (p : Parameter) hp (q : Parameter) _ => by rw [params p hp]]

end Shapes

/-- Only one of the types that are compared has to be shallow. -/
theorem Ends.identicalWithin {a : TypeId} (h : Ends t.partsOf n a) (hf : n ≤ fuel) (hf' : n ≤ fuel')
    (b : TypeId) : t.identicalWithin fuel a b = t.identicalWithin fuel' a b := by
  induction n generalizing fuel fuel' a b with
  | zero => exact h.elim
  | succ n ih =>
    obtain ⟨fuel, rfl⟩ := Nat.exists_eq_add_of_le' hf
    obtain ⟨fuel', rfl⟩ := Nat.exists_eq_add_of_le' hf'
    have parts (p : TypeId) (hp : p ∈ (t.resolve a).parts) (q : TypeId) :
        t.identicalWithin (fuel + n) p q = t.identicalWithin (fuel' + n) p q :=
      ih (h p hp) (Nat.le_add_left ..) (Nat.le_add_left ..) q
    rw [← Nat.add_assoc, ← Nat.add_assoc, TypeTable.identicalWithin, TypeTable.identicalWithin]
    congr 1
    split
    · rename_i ha _
      exact identicalObjects_left (fun p hp => parts p (ha ▸ hp)) _
    · rename_i ha _
      exact parts _ (ha ▸ .head _) _
    · rename_i ha _
      exact parts _ (ha ▸ .head _) _
    · rename_i ha _
      exact identicalFunctions_left (fun p hp => parts p (ha ▸ hp)) _
    · rfl

end Walks

/-! ### A larger limit -/

section Limit

variable {t : TypeTable} {p : Place}

theorem freeParamsWithin_under (fuel : Nat) (bound out : List TypeId) (id : TypeId) :
    (t.under p).freeParamsWithin fuel bound out id = t.freeParamsWithin fuel bound out id := by
  induction fuel generalizing bound out id with
  | zero => rfl
  | succ fuel ih =>
    have same (bound : List TypeId) : (t.under p).freeParamsWithin fuel bound =
        t.freeParamsWithin fuel bound := by
      funext out id
      exact ih bound out id
    simp only [TypeTable.freeParamsWithin, same]
    rfl

theorem placeholdersWithin_under (fuel : Nat) :
    (t.under p).placeholdersWithin fuel = t.placeholdersWithin fuel := by
  induction fuel with
  | zero => rfl
  | succ fuel ih =>
    funext out id
    simp only [TypeTable.placeholdersWithin, ih]
    rfl

theorem identicalWithin_under (fuel : Nat) :
    (t.under p).identicalWithin fuel = t.identicalWithin fuel := by
  induction fuel with
  | zero => rfl
  | succ fuel ih =>
    funext a b
    simp only [TypeTable.identicalWithin, ih]
    rfl

theorem sameUnder_of_eq (h : p.limit = t.limits.maxDepth) : t.SameUnder p where
  identical a b := by
    show (t.under p).identicalWithin (p.limit + 1) a b = _
    rw [identicalWithin_under, h]
    rfl
  freeParams id := by
    show (t.under p).freeParamsWithin (p.limit + 1) [] [] id = _
    rw [freeParamsWithin_under, h]
    rfl
  placeholders id := by
    show (t.under p).placeholdersWithin (p.limit + 1) [] id = _
    rw [placeholdersWithin_under, h]
    rfl

/-- The walks over a shallow table see the same under a larger limit. -/
theorem Shallow.sameUnder (h : t.Shallow t.limits.maxDepth) (hle : t.limits.maxDepth ≤ p.limit) :
    t.SameUnder p where
  identical a b := by
    show (t.under p).identicalWithin (p.limit + 1) a b = _
    rw [identicalWithin_under]
    exact (h.parts a).identicalWithin (Nat.succ_le_succ hle) (Nat.le_refl _) b
  freeParams id := by
    show (t.under p).freeParamsWithin (p.limit + 1) [] [] id = _
    rw [freeParamsWithin_under]
    exact (h.parts id).freeParamsWithin (Nat.succ_le_succ hle) (Nat.le_refl _) [] []
  placeholders id := by
    show (t.under p).placeholdersWithin (p.limit + 1) [] id = _
    rw [placeholdersWithin_under]
    exact (h.parts id).placeholdersWithin (Nat.succ_le_succ hle) (Nat.le_refl _) []

end Limit

/-! ### The tables of one run -/

/-- A later table of a run: types are added, and a failure stays. -/
structure Later (t t' : TypeTable) : Prop extends t.Grows t' where
  aliases : t'.aliases = t.aliases
  untripped : t'.Untripped → t.Untripped

section Later

variable {t t' t'' : TypeTable} {n : Nat} {id : TypeId}

theorem Later.refl (t : TypeTable) : t.Later t := ⟨Grows.refl t, rfl, fun h => h⟩

theorem Later.trans (l : t.Later t') (l' : t'.Later t'') : t.Later t'' where
  toGrows := l.toGrows.trans l'.toGrows
  aliases := l'.aliases.trans l.aliases
  untripped h := l.untripped (l'.untripped h)

/-- A type that was not yet there resolves to `never`. -/
theorem Later.resolve_or (l : t.Later t') :
    t.resolve id = .never ∨ t'.resolve id = t.resolve id := by
  by_cases h : t.resolve id = .never
  · exact .inl h
  · exact .inr (resolve_of_get? (l.get? (get?_of_resolve rfl h)))

theorem Later.partsOf (l : t.Later t') (id : TypeId) : t.partsOf id ⊆ t'.partsOf id := by
  rcases l.resolve_or with hn | he
  · rw [TypeTable.partsOf, hn]
    exact nil_subset _
  · rw [TypeTable.partsOf, TypeTable.partsOf, he]
    exact List.Subset.refl _

theorem Later.namedUnion? (l : t.Later t') {body : TypeId} (h : t.namedUnion? id = some body) :
    t'.namedUnion? id = some body := by
  have named (name : String) : t'.alias? name = t.alias? name := by
    rw [TypeTable.alias?, TypeTable.alias?, l.aliases]
  unfold TypeTable.namedUnion? at h ⊢
  rcases l.resolve_or with hn | he
  · rw [hn] at h
    cases h
  rw [he]
  split at h
  · rw [named]
    split at h
    · cases h
    · rename_i found _
      rcases l.resolve_or with hn | he
      · rw [hn] at h
        cases h
      · rw [he]
        exact h
  · cases h

theorem Later.opened (l : t.Later t') (id : TypeId) : t.opened id ⊆ t'.opened id := by
  unfold TypeTable.opened
  rcases l.resolve_or with hn | he
  · rw [hn, TypeTable.namedUnion?, hn]
    exact nil_subset _
  rw [he]
  split
  · exact List.Subset.refl _
  · intro body hbody
    rw [Option.mem_toList] at hbody ⊢
    exact l.namedUnion? hbody

theorem Shallow.earlier {limit : Nat} (h : t'.Shallow limit) (l : t.Later t') : t.Shallow limit :=
  ⟨fun id => (h.parts id).mono l.partsOf, fun id => (h.opened id).mono l.opened⟩

theorem later_insert {ty : Ty} : t.Later (t.insert ty).2 where
  toGrows := (runs_insert t ty).toGrows
  aliases := (runs_insert t ty).aliases
  untripped h := (runs_insert t ty).untripped h

end Later

end TypeTable

end GradualTyping
