import Mathlib.Data.Set.Basic
import Mathlib.Logic.Function.Basic
import Mathlib.Order.WellFounded
import Manhattan.Lib.Mutex

/-!
# Threads that wait for each other

A deadlock is a set of threads in which everyone waits for someone of the same set, a
`Knot` of the waits-for relation. There is none if the threads can be ranked such that
whoever waits for a waiting thread ranks above it (`not_knot_of_rank`); with locks, the
rank is the order in which they are taken.

To use this one has to know where the owner of a lock is. `Threads` are program counters
and mutexes, and a step of a thread is a move of its program counter with one operation on
a lock. `holds p l` is what the code says: at `p` the thread is between a lock of `l` and
the unlock meant for it. If every move keeps to that (`Keeps`), the owner of a lock is
always at a place that holds it (`Placed`), also in programs that release a lock they do
not hold: such a release makes the lock free, and nobody its owner.
-/

namespace Manhattan.Lib

variable {τ L P : Type}

/-- Everyone in the set waits for someone in it. -/
def Knot (waits : τ → τ → Prop) (S : Set τ) : Prop :=
  S.Nonempty ∧ ∀ t ∈ S, ∃ u ∈ S, waits t u

/-- **No deadlock by rank.** The lowest thread of a knot waits for one that is lower. -/
theorem not_knot_of_rank {waits : τ → τ → Prop} (rank : τ → Nat)
    (hrank : ∀ {t u v}, waits t u → waits u v → rank u < rank t) (S : Set τ) :
    ¬ Knot waits S := by
  rintro ⟨hne, hS⟩
  have hmin := WellFounded.has_min (measure rank).wf S hne
  obtain ⟨t, ht, hleast⟩ := hmin
  obtain ⟨u, hu, htu⟩ := hS t ht
  obtain ⟨v, _, huv⟩ := hS u hu
  exact hleast u hu (hrank htu huv)

/-- Only the moving thread's place changes. -/
theorem holds_update [DecidableEq τ] {holds : P → L → Prop} {pc : τ → P} {t : τ} {p : P}
    (hkeep : ∀ l, holds (pc t) l → holds p l) {u : τ} {l : L} (h : holds (pc u) l) :
    holds (Function.update pc t p u) l := by
  by_cases hu : u = t
  · rw [hu, Function.update_self]
    exact hkeep l (hu ▸ h)
  · rw [Function.update_of_ne hu]
    exact h

/-- What a step does to the locks. -/
inductive Op (L : Type) where
  | pass
  | lock (l : L)
  | unlock (l : L)
  deriving DecidableEq, Repr

structure Threads (τ L P : Type) where
  mutex : L → Mutex τ
  pc : τ → P

variable [DecidableEq τ] [DecidableEq L]

/-- Thread `t` takes a step to `p`; none while it has to wait for the lock. -/
def Threads.move (s : Threads τ L P) (t : τ) (op : Op L) (p : P) : Option (Threads τ L P) :=
  match op with
  | .pass => some { s with pc := Function.update s.pc t p }
  | .lock l => ((s.mutex l).lock t).map fun m =>
      ⟨Function.update s.mutex l m, Function.update s.pc t p⟩
  | .unlock l => some ⟨Function.update s.mutex l ((s.mutex l).unlock t), Function.update s.pc t p⟩

/-- The step from `p` to `p'` takes `l` where it locks it, and gives up nothing but what
it unlocks. -/
def Keeps (holds : P → L → Prop) (p : P) (op : Op L) (p' : P) : Prop :=
  match op with
  | .pass => ∀ l, holds p l → holds p' l
  | .lock l => holds p' l ∧ ∀ l', holds p l' → holds p' l'
  | .unlock l => ∀ l', l' ≠ l → holds p l' → holds p' l'

/-- The owner of a lock is at a place that holds it. -/
def Placed (holds : P → L → Prop) (s : Threads τ L P) : Prop :=
  ∀ l t, (s.mutex l).owner = some t → holds (s.pc t) l

section

variable {holds : P → L → Prop} {s s' : Threads τ L P} {t : τ} {op : Op L} {p : P}

theorem Threads.move_pc (hmove : s.move t op p = some s') : s'.pc = Function.update s.pc t p := by
  cases op with
  | pass => cases hmove; rfl
  | lock l =>
    obtain ⟨m, -, rfl⟩ := Option.map_eq_some_iff.mp hmove
    rfl
  | unlock l => cases hmove; rfl

theorem Placed.move (h : Placed holds s) (hkeeps : Keeps holds (s.pc t) op p)
    (hmove : s.move t op p = some s') : Placed holds s' := by
  intro l u howner
  cases op with
  | pass =>
    cases hmove
    exact holds_update hkeeps (h l u howner)
  | lock l₀ =>
    obtain ⟨m, hlock, rfl⟩ := Option.map_eq_some_iff.mp hmove
    obtain ⟨-, rfl⟩ := Mutex.lock_some hlock
    by_cases hl : l = l₀
    · -- the lock just taken is owned by the thread that moved
      rw [hl] at howner ⊢
      have hut : some t = some u := by simpa [Function.update_self] using howner
      cases hut
      show holds (Function.update s.pc t p t) l₀
      rw [Function.update_self]
      exact hkeeps.1
    · have howner' : (s.mutex l).owner = some u := by
        simpa [Function.update_of_ne hl] using howner
      exact holds_update hkeeps.2 (h l u howner')
  | unlock l₀ =>
    cases hmove
    by_cases hl : l = l₀
    · -- a free lock has no owner
      rw [hl] at howner
      simp [Mutex.unlock] at howner
    · have howner' : (s.mutex l).owner = some u := by
        simpa [Function.update_of_ne hl] using howner
      show holds (Function.update s.pc t p u) l
      by_cases hu : u = t
      · rw [hu, Function.update_self]
        exact hkeeps l hl (hu ▸ h l u howner')
      · rw [Function.update_of_ne hu]
        exact h l u howner'

end

end Manhattan.Lib
