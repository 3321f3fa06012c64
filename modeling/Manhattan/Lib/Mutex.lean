/-!
# A mutex, as the thread library implements it

A default pthread mutex does not check who unlocks it: `unlock` frees the lock
whatever its owner was. So the lock alone excludes nothing; it does so only while
every release is the holder's own. `foreign` remembers whether some release was
not.

`Tracks m Holds` is the invariant a well-behaved set of threads keeps: the owner
is exactly the thread whose program counter says it holds the lock, and no
release so far was a foreign one. It is kept by a lock taken, by a lock given
back by its holder, and by any step that changes nobody's claim to hold the
lock; and under it two holders are the same thread.
-/

namespace Manhattan.Lib

variable {τ : Type}

structure Mutex (τ : Type) where
  owner : Option τ
  /-- Some thread has released the lock without holding it. -/
  foreign : Bool
  deriving DecidableEq, Repr

def Mutex.free : Mutex τ := ⟨none, false⟩

/-- A thread that finds the lock taken waits: the step is not possible. -/
def Mutex.lock (m : Mutex τ) (t : τ) : Option (Mutex τ) :=
  match m.owner with
  | none => some ⟨some t, m.foreign⟩
  | some _ => none

def Mutex.unlock [DecidableEq τ] (m : Mutex τ) (t : τ) : Mutex τ :=
  ⟨none, m.foreign || decide (m.owner ≠ some t)⟩

theorem Mutex.lock_some {m m' : Mutex τ} {t : τ} (h : m.lock t = some m') :
    m.owner = none ∧ m' = ⟨some t, m.foreign⟩ := by
  unfold Mutex.lock at h
  split at h
  next ho => exact ⟨ho, (Option.some.inj h).symm⟩
  next => cases h

/-- The owner is the one thread that says it holds the lock, and only holders
have released it. -/
structure Tracks (m : Mutex τ) (Holds : τ → Prop) : Prop where
  owner : ∀ t, m.owner = some t ↔ Holds t
  clean : m.foreign = false

namespace Tracks

variable {m m' : Mutex τ} {Holds Holds' : τ → Prop} {t : τ}

theorem exclusive (h : Tracks m Holds) {u : τ} (ht : Holds t) (hu : Holds u) : t = u :=
  Option.some.inj (((h.owner t).mpr ht).symm.trans ((h.owner u).mpr hu))

/-- Nobody's claim changed. -/
theorem congr (h : Tracks m Holds) (he : ∀ t, Holds' t ↔ Holds t) : Tracks m Holds' :=
  ⟨fun t => (h.owner t).trans (he t).symm, h.clean⟩

theorem lock (h : Tracks m Holds) (hl : m.lock t = some m') (ht : Holds' t)
    (he : ∀ u, u ≠ t → (Holds' u ↔ Holds u)) : Tracks m' Holds' := by
  obtain ⟨ho, rfl⟩ := Mutex.lock_some hl
  refine ⟨fun u => ?_, h.clean⟩
  show some t = some u ↔ Holds' u
  constructor
  · intro e
    cases e
    exact ht
  · intro hu
    by_cases hut : u = t
    · rw [hut]
    · -- a second holder would own the lock that was free
      have := (h.owner u).mpr ((he u hut).mp hu)
      rw [ho] at this
      cases this

theorem unlock [DecidableEq τ] (h : Tracks m Holds) (ht : Holds t) (ht' : ¬ Holds' t)
    (he : ∀ u, u ≠ t → (Holds' u ↔ Holds u)) : Tracks (m.unlock t) Holds' := by
  have ho := (h.owner t).mpr ht
  refine ⟨fun u => ?_, ?_⟩
  · show (none : Option τ) = some u ↔ Holds' u
    constructor
    · intro e
      cases e
    · intro hu
      by_cases hut : u = t
      · rw [hut] at hu
        exact absurd hu ht'
      · exact absurd (h.exclusive ((he u hut).mp hu) ht) hut
  · show (m.foreign || decide (m.owner ≠ some t)) = false
    rw [h.clean, ho]
    simp

end Tracks

end Manhattan.Lib
