/-
# Units that are checked at the same time

`checkUnits` checks one unit after the other.  Here the same units are put into a queue, each with
its index, and workers take them from it in any order of steps: a worker takes the next job, checks
the unit on its own fork of the shared table, stores the result in the slot of the index, and leaves
once the queue is empty.  When all workers have left, the results are the slots that are filled.

At every moment each unit is in one place: in the queue, with one worker or in its slot
(`Pool.Tracks.once`).  So nothing is lost when the queue is empty and the workers have left, and as
every step brings the pool nearer to that (`Pool.Step.remaining_lt`), every schedule gets there.
-/

import GradualTyping.Session
import Mathlib.Algebra.Ring.Nat
import Mathlib.Data.List.Nodup
import Mathlib.Logic.Relation

namespace GradualTyping

open List

/-- What a worker is about. -/
inductive Worker where
  | idle
  | checking (index : Nat) (unit : CodeUnit)
  | storing (index : Nat) (result : UnitResult)
  | gone

/-- The worker has the job of an index. -/
def Worker.has (i : Nat) : Worker → Bool
  | .checking j _ | .storing j _ => j == i
  | .idle | .gone => false

@[simp] theorem Worker.has_idle (i : Nat) : Worker.idle.has i = false := rfl

@[simp] theorem Worker.has_gone (i : Nat) : Worker.gone.has i = false := rfl

@[simp] theorem Worker.has_checking (i j : Nat) (unit : CodeUnit) :
    (Worker.checking j unit).has i = (j == i) := rfl

@[simp] theorem Worker.has_storing (i j : Nat) (result : UnitResult) :
    (Worker.storing j result).has i = (j == i) := rfl

/-- The steps that a worker has left if it takes no further job. -/
def Worker.cost : Worker → Nat
  | .checking .. => 3
  | .storing .. => 2
  | .idle => 1
  | .gone => 0

/-- Workers with the jobs that none of them has taken and the results so far. -/
structure Pool where
  queue : List (Nat × CodeUnit)
  workers : List Worker
  slots : List (Option UnitResult)

namespace Pool

/-- Every unit waits with its index.  There are as many workers as jobs may run at a time, but at
least one and no more than there are units. -/
def start (jobs : Nat) (units : List CodeUnit) : Pool where
  queue := units.zipIdx.map Prod.swap
  workers := .replicate (min (max jobs 1) units.length) .idle
  slots := .replicate units.length none

/-- One worker does one thing. -/
inductive Step (settings : Settings) (shared : SharedDeclarations) : Pool → Pool → Prop
  | take {index unit rest before after slots} :
    Step settings shared ⟨(index, unit) :: rest, before ++ .idle :: after, slots⟩
      ⟨rest, before ++ .checking index unit :: after, slots⟩
  | check {queue index unit before after slots} :
    Step settings shared ⟨queue, before ++ .checking index unit :: after, slots⟩
      ⟨queue, before ++ .storing index (checkUnit settings shared unit) :: after, slots⟩
  | store {queue index result before after slots} : index < slots.length →
    Step settings shared ⟨queue, before ++ .storing index result :: after, slots⟩
      ⟨queue, before ++ .idle :: after, slots.set index (some result)⟩
  | leave {before after slots} :
    Step settings shared ⟨[], before ++ .idle :: after, slots⟩ ⟨[], before ++ .gone :: after, slots⟩

/-- Any number of steps, of any workers. -/
def Run (settings : Settings) (shared : SharedDeclarations) : Pool → Pool → Prop :=
  Relation.ReflTransGen (Step settings shared)

/-- All workers have left. -/
def Finished (p : Pool) : Prop := ∀ w ∈ p.workers, w = .gone

/-- The slots that are filled, in order. -/
def results (p : Pool) : List UnitResult := p.slots.filterMap id

/-- The steps that are left. -/
def remaining (p : Pool) : Nat := 3 * p.queue.length + (p.workers.map Worker.cost).sum

variable {settings : Settings} {shared : SharedDeclarations} {units : List CodeUnit} {p q : Pool}

/-! ### Every step comes nearer to the end -/

theorem Step.remaining_lt (h : Step settings shared p q) : q.remaining < p.remaining := by
  cases h <;> simp only [remaining, map_append, map_cons, sum_append, sum_cons,
    length_cons, Worker.cost] <;> omega

/-! ### Where the units are -/

/-- The number of places in which the unit of an index is. -/
def places (p : Pool) (i : Nat) : Nat :=
  p.queue.countP (·.1 == i) + p.workers.countP (·.has i) + (p.slots[i]?.join).toList.length

/-- The unit of an index is with one worker, with the others or elsewhere. -/
theorem places_middle (queue : List (Nat × CodeUnit)) (before after : List Worker) (w : Worker)
    (slots : List (Option UnitResult)) (i : Nat) :
    places ⟨queue, before ++ w :: after, slots⟩ i =
      places ⟨queue, before ++ after, slots⟩ i + (w.has i).toNat := by
  simp only [places, countP_append, countP_cons]
  cases w.has i with
  | true => simp only [if_true, Bool.toNat_true]; omega
  | false => rfl

theorem places_next (index : Nat) (unit : CodeUnit) (rest : List (Nat × CodeUnit))
    (workers : List Worker) (slots : List (Option UnitResult)) (i : Nat) :
    places ⟨(index, unit) :: rest, workers, slots⟩ i =
      places ⟨rest, workers, slots⟩ i + (index == i).toNat := by
  simp only [places, countP_cons]
  cases index == i with
  | true => simp only [if_true, Bool.toNat_true]; omega
  | false => rfl

/-- A worker works on a unit of the list, or holds what checking one has found. -/
def Tracks.Right (settings : Settings) (shared : SharedDeclarations) (units : List CodeUnit) :
    Worker → Prop
  | .checking i unit => units[i]? = some unit
  | .storing i result => units[i]?.map (checkUnit settings shared) = some result
  | .idle | .gone => True

/-- The pool is on the way from the units to their results. -/
structure Tracks (settings : Settings) (shared : SharedDeclarations) (units : List CodeUnit)
    (p : Pool) : Prop where
  slots : p.slots.length = units.length
  staffed : units ≠ [] → p.workers ≠ []
  queued : ∀ job ∈ p.queue, units[job.1]? = some job.2
  worked : ∀ w ∈ p.workers, Tracks.Right settings shared units w
  filled : ∀ (i : Nat) result, p.slots[i]? = some (some result) →
    units[i]?.map (checkUnit settings shared) = some result
  once : ∀ i < units.length, p.places i = 1
  left : .gone ∈ p.workers → p.queue = []

theorem tracks_start {jobs : Nat} : Tracks settings shared units (start jobs units) where
  slots := length_replicate
  staffed h := by
    have : 0 < units.length := length_pos_iff.2 h
    simp only [start, ne_eq, replicate_eq_nil_iff]
    omega
  queued := by
    rintro ⟨i, unit⟩ h
    obtain ⟨⟨_, _⟩, hmem, hswap⟩ := mem_map.1 h
    cases hswap
    exact mem_zipIdx_iff_getElem?.1 hmem
  worked w h := by
    rw [eq_of_mem_replicate h]
    exact trivial
  filled i result h := by
    cases eq_of_mem_replicate (mem_of_getElem? h)
  once i hi := by
    have queued : (start jobs units).queue.countP (·.1 == i) = 1 := by
      have indices : (start jobs units).queue.map Prod.fst = List.range units.length := by
        simp [start, Function.comp_def, zipIdx_map_snd, range_eq_range']
      rw [show (fun job : Nat × CodeUnit => job.1 == i) = (· == i) ∘ Prod.fst from rfl,
        ← countP_map, indices]
      exact count_eq_one_of_mem nodup_range (mem_range.2 hi)
    have unworked : (start jobs units).workers.countP (·.has i) = 0 := by
      simp [start, countP_replicate, Worker.has]
    have free : (start jobs units).slots[i]? = some none := getElem?_replicate_of_lt hi
    rw [places, queued, unworked, free]
    rfl
  left h := by
    cases eq_of_mem_replicate h

/-- An index below the number of units is in one place at a time, so the job of a worker is in no
slot. -/
theorem Tracks.slot_eq_none (h : Tracks settings shared units p) {w : Worker} {i : Nat}
    (hw : w ∈ p.workers) (has : w.has i) (hi : i < units.length) : p.slots[i]? = some none := by
  have worked : 0 < p.workers.countP (·.has i) := countP_pos_iff.2 ⟨w, hw, has⟩
  have once := h.once i hi
  have hlt : i < p.slots.length := h.slots ▸ hi
  cases hslot : p.slots[i]?.join with
  | none =>
    rw [getElem?_eq_getElem hlt, Option.join_some] at hslot
    rw [getElem?_eq_getElem hlt, hslot]
  | some result =>
    simp only [places, hslot, Option.toList_some, length_singleton] at once
    omega

theorem Step.tracks (h : Step settings shared p q) (hp : Tracks settings shared units p) :
    Tracks settings shared units q := by
  -- what is said of the workers is said of the one that acts and of the others
  have others {P : Worker → Prop} {w w' : Worker} {before after : List Worker}
      (hw' : P w') (h : ∀ v ∈ before ++ w :: after, P v) : ∀ v ∈ before ++ w' :: after, P v := by
    simp only [forall_mem_append, forall_mem_cons] at h ⊢
    exact ⟨h.1, hw', h.2.2⟩
  cases h with
  | @take index unit rest before after slots =>
    have job := hp.queued (index, unit) (mem_cons_self ..)
    refine ⟨hp.slots, fun _ => by simp, fun job h => hp.queued job (mem_cons_of_mem _ h),
      others job hp.worked, hp.filled, fun i hi => ?_, fun h => ?_⟩
    · have once := hp.once i hi
      rw [places_next, places_middle, Worker.has_idle] at once
      rw [places_middle, Worker.has_checking]
      exact once
    · have : Worker.gone ∈ before ++ .idle :: after := by simpa using h
      cases hp.left this
  | @check queue index unit before after slots =>
    have job : units[index]? = some unit := hp.worked _ (mem_append_right _ (mem_cons_self ..))
    refine ⟨hp.slots, fun _ => by simp, hp.queued,
      others (congrArg (Option.map (checkUnit settings shared)) job) hp.worked,
      hp.filled, fun i hi => ?_, fun h => ?_⟩
    · have once := hp.once i hi
      rw [places_middle, Worker.has_checking] at once
      rw [places_middle, Worker.has_storing]
      exact once
    · exact hp.left (by simpa using h)
  | @store queue index result before after slots hindex =>
    have hmem : Worker.storing index result ∈ before ++ .storing index result :: after :=
      mem_append_right _ (mem_cons_self ..)
    have right : units[index]?.map (checkUnit settings shared) = some result := hp.worked _ hmem
    refine ⟨length_set.trans hp.slots, fun _ => by simp, hp.queued,
      others trivial hp.worked, fun i r h => ?_, fun i hi => ?_, fun h => ?_⟩
    · rcases eq_or_ne index i with rfl | hne
      · rw [getElem?_set_self hindex] at h
        cases h
        exact right
      · exact hp.filled i r (by rwa [getElem?_set_ne hne] at h)
    · have once := hp.once i hi
      rw [places_middle, Worker.has_storing] at once
      rw [places_middle, Worker.has_idle]
      rcases eq_or_ne index i with rfl | hne
      · have free := hp.slot_eq_none hmem (by simp) hi
        simp only [places, free, getElem?_set_self hindex, beq_self_eq_true, Option.join_some,
          Option.toList_none, Option.toList_some, length_nil, length_singleton,
          Bool.toNat_true, Bool.toNat_false] at once ⊢
        omega
      · rw [beq_eq_false_iff_ne.2 hne] at once
        simpa only [places, getElem?_set_ne hne] using once
    · exact hp.left (by simpa using h)
  | @leave before after slots =>
    refine ⟨hp.slots, fun _ => by simp, hp.queued, others trivial hp.worked, hp.filled,
      fun i hi => ?_, fun _ => rfl⟩
    have once := hp.once i hi
    rw [places_middle, Worker.has_idle] at once
    rw [places_middle, Worker.has_gone]
    exact once

theorem Run.tracks (h : Run settings shared p q) (hp : Tracks settings shared units p) :
    Tracks settings shared units q := by
  induction h with
  | refl => exact hp
  | tail _ step ih => exact step.tracks ih

/-! ### The end -/

/-- As long as a worker is there, one of them can go on. -/
theorem Tracks.progress (h : Tracks settings shared units p) (unfinished : ¬p.Finished) :
    ∃ q, Step settings shared p q := by
  obtain ⟨w, hw, there⟩ : ∃ w ∈ p.workers, w ≠ .gone := by
    simpa [Finished] using unfinished
  obtain ⟨before, after, hworkers⟩ := append_of_mem hw
  obtain ⟨queue, workers, slots⟩ := p
  cases hworkers
  cases w with
  | idle =>
    cases queue with
    | nil => exact ⟨_, .leave⟩
    | cons job rest => exact ⟨_, .take⟩
  | checking index unit => exact ⟨_, .check⟩
  | storing index result =>
    have right : units[index]?.map (checkUnit settings shared) = some result := h.worked _ hw
    obtain ⟨unit, hunit, -⟩ := Option.map_eq_some_iff.1 right
    have hlt : index < units.length := (List.getElem?_eq_some_iff.1 hunit).1
    exact ⟨_, .store (h.slots ▸ hlt)⟩
  | gone => exact absurd rfl there

/-- From every moment on there is a schedule that ends. -/
theorem Tracks.finishes (h : Tracks settings shared units p) :
    ∃ q, Run settings shared p q ∧ q.Finished := by
  -- every step brings the end nearer
  induction hn : p.remaining using Nat.strongRecOn generalizing p with
  | _ n ih =>
    by_cases done : p.Finished
    · exact ⟨p, .refl, done⟩
    · obtain ⟨q, step⟩ := h.progress done
      obtain ⟨r, run, fin⟩ := ih q.remaining (hn ▸ step.remaining_lt) (step.tracks h) rfl
      exact ⟨r, .head step run, fin⟩

/-- When all workers have left, every unit has its result in its slot. -/
theorem Tracks.slots_eq (h : Tracks settings shared units p) (done : p.Finished) :
    p.slots = units.map fun unit => some (checkUnit settings shared unit) := by
  apply ext_getElem?
  intro i
  rcases Nat.lt_or_ge i units.length with hi | hi
  · have emptied : p.queue = [] := by
      obtain ⟨w, hw⟩ := exists_mem_of_ne_nil _ (h.staffed (ne_nil_of_length_pos (by omega)))
      exact h.left (done w hw ▸ hw)
    have unworked : p.workers.countP (·.has i) = 0 := by
      rw [countP_eq_zero]
      intro w hw
      rw [done w hw]
      exact Bool.false_ne_true
    have once := h.once i hi
    simp only [places, emptied, unworked, countP_nil, Nat.zero_add] at once
    obtain ⟨result, hslot⟩ := length_eq_one_iff.1 once
    have filled : p.slots[i]? = some (some result) :=
      Option.join_eq_some_iff.1 (Option.toList_eq_singleton_iff.1 hslot)
    obtain ⟨unit, hunit, rfl⟩ := Option.map_eq_some_iff.1 (h.filled i result filled)
    rw [filled, getElem?_map, hunit]
    rfl
  · rw [getElem?_eq_none (h.slots ▸ hi), getElem?_eq_none (by simpa using hi)]

end Pool

open Pool in
/-- **Checking at the same time is checking in order.**  Whatever number of jobs may run at a time
and in whatever order the workers take their steps, when they have left, the results are those of
`checkUnits`: as many as there are units, each at the index of its unit.  On the way the unit of
every index is in one place only, every step lowers the number of steps that are left, and as long
as a worker is there one of them can go on: every schedule ends. -/
theorem workers_agree (settings : Settings) (shared : SharedDeclarations) (units : List CodeUnit)
    (p : Pool) (run : Run settings shared (start settings.jobs units) p) :
    (∀ i < units.length, p.places i = 1) ∧
    (p.Finished →
      p.results = checkUnits settings shared units ∧ p.results.length = units.length ∧
      ∀ i : Nat, p.results[i]? = units[i]?.map (checkUnit settings shared)) ∧
    (¬p.Finished → ∃ q, Step settings shared p q) ∧
    (∀ q, Step settings shared p q → q.remaining < p.remaining) ∧
    ∃ q, Run settings shared p q ∧ q.Finished := by
  have tracks := run.tracks tracks_start
  refine ⟨tracks.once, fun done => ?_, tracks.progress, fun q step => step.remaining_lt,
    tracks.finishes⟩
  have results : p.results = units.map (checkUnit settings shared) := by
    rw [Pool.results, tracks.slots_eq done, filterMap_map]
    exact filterMap_eq_map (f := checkUnit settings shared) ▸ rfl
  exact ⟨results, by rw [results, length_map], fun i => by rw [results, getElem?_map]⟩

open Pool in
/-- Two workers: the second takes the second unit and stores its result before the first has begun
with its own. -/
theorem workers_agree_out_of_order :
    let settings : Settings := { jobs := 2 }
    let shared := SharedDeclarations.empty settings
    let first : CodeUnit := { path := "first", statements := [] }
    let second : CodeUnit := { path := "second", statements := [] }
    let stored : Pool := ⟨[], [.checking 0 first, .idle],
      [none, some (checkUnit settings shared second)]⟩
    let left : Pool := ⟨[], [.gone, .gone],
      [some (checkUnit settings shared first), some (checkUnit settings shared second)]⟩
    Run settings shared (start settings.jobs [first, second]) stored ∧
    Run settings shared stored left ∧
    left.Finished ∧ left.results = checkUnits settings shared [first, second] := by
  intro settings shared first second stored left
  have before : Run settings shared (start settings.jobs [first, second]) stored := by
    refine .head (@Step.take _ _ _ _ _ [] [.idle] _) ?_
    refine .head (@Step.take _ _ _ _ _ [.checking 0 first] [] _) ?_
    refine .head (@Step.check _ _ _ _ _ [.checking 0 first] [] _) ?_
    exact .single (@Step.store _ _ _ _ _ [.checking 0 first] [] _ (by decide))
  have after : Run settings shared stored left := by
    refine .head (@Step.check _ _ _ _ _ [] [.idle] _) ?_
    refine .head (@Step.store _ _ _ _ _ [] [.idle] _ (by decide)) ?_
    refine .head (@Step.leave _ _ [] [.idle] _) ?_
    exact .single (@Step.leave _ _ [.gone] [] _)
  have finished : left.Finished := by
    simp [Finished, left]
  exact ⟨before, after, finished,
    ((workers_agree settings shared _ left (before.trans after)).2.1 finished).1⟩

end GradualTyping
