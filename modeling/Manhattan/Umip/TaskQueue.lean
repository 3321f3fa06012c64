import Mathlib.Data.List.Nodup
import Manhattan.Lib.Run

/-!
# The task queue of the mobile IPv6 daemon

Every timer of the daemon is an element of one queue (`tqueue.c`), sorted by the time at which
its task is due. A thread of its own, the runner, takes the first element when it is due and
runs its task with the mutex released; in between it sleeps on a condition, until the first
element is due or until it is woken because another one has become the first. All other threads,
and the tasks themselves, add and delete elements under the mutex.

A task is taken off the queue before it runs, so another thread can delete or add its element
while it waits for a lock. `curr` is there for that: a task asks `task_interrupted` once it has
its locks.

> `timers_refine`: in every interleaving the queue behaves like a set of timers: an element is
> taken only if it was added and neither deleted nor taken since, not before it is due, and
> never while an earlier one waits. Whenever the runner comes by and one is due it takes one,
> it never sleeps past the first of them, and for the one that it has taken it calls the
> function that was given last.
>
> `interrupted_iff`: `task_interrupted` is true for a running task exactly if its element has
> been deleted or added since it was taken.

Mirroring notes:
- `tsbefore(a, b)` of `util.h` holds if `a` is the later one.
- `list_del` leaves an element linked to itself, so deleting one that is not in the queue
  changes nothing. Adding an element that is in the queue unlinks it first if its time is set;
  with the time zero it would be linked twice, which is `none` here.
- The runner does not read the clock again between two tasks.
- The function of an element is read when the mutex has been released, so that between the two
  another thread can give the element another one: `Tasks` has the functions, `Tq` the rest.
- A wake-up may be spurious. What the runner does with the mutex held is one step.
-/

namespace Manhattan.Umip

open Manhattan.Lib

/-! ## Times -/

/-- `timespec` -/
structure Timespec where
  tvSec : Int
  tvNsec : Int
deriving DecidableEq, Repr

/-- `tsisset` -/
def tsisset (t : Timespec) : Bool := t.tvSec != 0 || t.tvNsec != 0

/-- `tsclear` -/
def tsclear : Timespec := ⟨0, 0⟩

/-- `tsbefore`: the first time is the later one. -/
def tsbefore (a b : Timespec) : Bool :=
  if a.tvSec = b.tvSec then decide (a.tvNsec > b.tvNsec) else decide (a.tvSec > b.tvSec)

theorem tsisset_tsclear : tsisset tsclear = false := rfl

theorem tsbefore_iff {a b : Timespec} :
    tsbefore a b = true ↔ b.tvSec < a.tvSec ∨ a.tvSec = b.tvSec ∧ b.tvNsec < a.tvNsec := by
  unfold tsbefore
  split
  · rw [decide_eq_true_iff]; omega
  · rw [decide_eq_true_iff]; omega

/-- `a` is not later than `b`. -/
def Timespec.Le (a b : Timespec) : Prop := tsbefore a b = false

namespace Timespec

variable {a b c : Timespec}

theorem le_iff : a.Le b ↔ a.tvSec < b.tvSec ∨ a.tvSec = b.tvSec ∧ a.tvNsec ≤ b.tvNsec := by
  rw [Le, ← Bool.not_eq_true, tsbefore_iff]
  omega

theorem Le.trans (hab : a.Le b) (hbc : b.Le c) : a.Le c := by
  rw [le_iff] at *
  omega

theorem le_refl (a : Timespec) : a.Le a := le_iff.mpr (.inr ⟨rfl, Int.le_refl _⟩)

theorem le_of_tsbefore (h : tsbefore b a = true) : a.Le b := by
  rw [tsbefore_iff] at h
  rw [le_iff]
  omega

end Timespec

/-! ## The queue -/

/-- Where the runner is: about to begin a round, on the condition without and with a time limit,
without the mutex because of an element that it has taken, or gone. -/
inductive Runner (ι : Type)
  | ready
  | idle
  | sleep (t : Timespec)
  | task (e : ι) (now : Timespec)
  | exited
deriving DecidableEq, Repr

structure Tq (ι : Type) where
  tqList : List ι := []
  expires : ι → Timespec := fun _ => tsclear
  curr : Option ι := none
  killed : Bool := false
  runner : Runner ι := .ready
  signalled : Bool := false

namespace Tq

variable {ι : Type}

/-- `sorted_insert` -/
def sortedInsert (expires : ι → Timespec) (e : ι) : List ι → List ι
  | [] => [e]
  | cur :: l =>
    if tsbefore (expires cur) (expires e) then e :: cur :: l
    else cur :: sortedInsert expires e l

section Functions

variable [DecidableEq ι]

/-- `del_task` -/
def delTask (q : Tq ι) (e : ι) : Tq ι :=
  { q with
    tqList := q.tqList.erase e
    expires := fun i => if i = e then tsclear else q.expires i
    curr := if q.curr = some e then none else q.curr }

/-- `add_task_abs` -/
def addTaskAbs (q : Tq ι) (e : ι) (t : Timespec) : Option (Tq ι) :=
  if tsisset (q.expires e) = false ∧ e ∈ q.tqList then none
  else
    let l := if tsisset (q.expires e) then q.tqList.erase e else q.tqList
    let expires := fun i => if i = e then t else q.expires i
    let l := sortedInsert expires e l
    some { q with
      tqList := l
      expires := expires
      curr := if q.curr = some e then none else q.curr
      -- the runner is woken if the element has become the first
      signalled := q.signalled || l.head? = some e }

/-- `task_interrupted` -/
def taskInterrupted (q : Tq ι) : Bool := q.curr.isNone

/-- `taskqueue_destroy` -/
def destroy (q : Tq ι) : Tq ι :=
  { q with
    tqList := []
    expires := fun i => if i ∈ q.tqList then tsclear else q.expires i
    killed := true
    signalled := true }

/-- The inner loop of `runner`, up to the next point at which it lets go of the mutex. -/
def inner (now : Timespec) (q : Tq ι) : Tq ι :=
  match q.tqList with
  | [] => if q.killed then { q with runner := .exited }
    else { q with runner := .idle, signalled := false }
  | first :: l =>
    if tsbefore (q.expires first) now then
      { q with runner := .sleep (q.expires first), signalled := false }
    else
      { q with
        tqList := l
        expires := fun i => if i = first then tsclear else q.expires i
        curr := some first
        runner := .task first now }

/-- The outer loop from its beginning. -/
def outer (now : Timespec) (q : Tq ι) : Tq ι :=
  if q.killed then { q with runner := .exited }
  else if q.tqList.isEmpty then { q with runner := .idle, signalled := false }
  else inner now q

/-- The runner has the mutex again, and it is `now`. -/
def pass (q : Tq ι) (now : Timespec) : Option (Tq ι) :=
  match q.runner with
  | .ready => some (outer now q)
  | .idle => some (inner now q)
  | .sleep _ => some (outer now q)
  | .task _ _ => none
  | .exited => none

/-- The task of the runner has returned. -/
def finish (q : Tq ι) : Option (Tq ι) :=
  match q.runner with
  | .task _ now => some (inner now { q with curr := none })
  | _ => none

inductive Act (ι : Type)
  | add (e : ι) (t : Timespec)
  | del (e : ι)
  | destroy
  | pass (now : Timespec)
  | finish

def step (q : Tq ι) : Act ι → Option (Tq ι)
  | .add e t => q.addTaskAbs e t
  | .del e => some (q.delTask e)
  | .destroy => some q.destroy
  | .pass now => q.pass now
  | .finish => q.finish

end Functions

/-- Elements are added with a time that is set. -/
def Act.Timed : Act ι → Prop
  | .add _ t => tsisset t = true
  | _ => True

/-! ## Timers

What the queue is for: a set of timers, the first of which fires when it is due. -/

/-- When each element fires. -/
abbrev Timers (ι : Type) := ι → Option Timespec

inductive Event (ι : Type)
  | arm (e : ι) (t : Timespec)
  | cancel (e : ι)
  | cancelAll
  | fire (e : ι) (now : Timespec)

def Timers.set [DecidableEq ι] (m : Timers ι) (e : ι) (t : Option Timespec) : Timers ι :=
  fun i => if i = e then t else m i

inductive Timers.Step [DecidableEq ι] : Timers ι → Event ι → Timers ι → Prop
  | arm {m : Timers ι} {e : ι} {t : Timespec} : Step m (.arm e t) (m.set e (some t))
  | cancel {m : Timers ι} {e : ι} : Step m (.cancel e) (m.set e none)
  | cancelAll {m : Timers ι} : Step m .cancelAll fun _ => none
  | fire {m : Timers ι} {e : ι} {t now : Timespec} (armed : m e = some t) (due : t.Le now)
      (first : ∀ e' t', m e' = some t' → t.Le t') : Step m (.fire e now) (m.set e none)

/-- The events of a set of timers, one after the other. -/
inductive Timers.Trace [DecidableEq ι] : Timers ι → List (Event ι) → Timers ι → Prop
  | nil {m : Timers ι} : Trace m [] m
  | cons {m m₁ m₂ : Timers ι} {e : Event ι} {es : List (Event ι)} (step : m.Step e m₁)
      (rest : Trace m₁ es m₂) : Trace m (e :: es) m₂

theorem Timers.Trace.append [DecidableEq ι] {m m₁ m₂ : Timers ι} {es es' : List (Event ι)}
    (h : Trace m es m₁) (h' : Trace m₁ es' m₂) : Trace m (es ++ es') m₂ := by
  induction h with
  | nil => exact h'
  | cons step _ ih => exact .cons step (ih h')

/-- The timers that are set. -/
def armed (f : ι → Timespec) : Timers ι := fun e => if tsisset (f e) then some (f e) else none

/-- The timers of a queue. -/
def timers (q : Tq ι) : Timers ι := armed q.expires

/-- What an action that led to `q` does to the timers. -/
def observe (q : Tq ι) : Act ι → List (Event ι)
  | .add e t => [.arm e t]
  | .del e => [.cancel e]
  | .destroy => [.cancelAll]
  | .pass _ | .finish =>
    match q.runner with
    | .task e now => [.fire e now]
    | _ => []

def trace [DecidableEq ι] (q : Tq ι) : List (Act ι) → List (Event ι)
  | [] => []
  | a :: as =>
    match q.step a with
    | none => []
    | some q' => q'.observe a ++ q'.trace as

/-! ## Insertion -/

variable {f g : ι → Timespec} {e i : ι} {l : List ι}

theorem sortedInsert_perm (f : ι → Timespec) (e : ι) (l : List ι) :
    (sortedInsert f e l).Perm (e :: l) := by
  induction l with
  | nil => exact .refl _
  | cons c l ih =>
    unfold sortedInsert
    split
    · exact .refl _
    · exact (ih.cons c).trans (.swap e c l)

/-- The elements of `l` are in the order of their times. -/
abbrev Sorted (f : ι → Timespec) (l : List ι) : Prop := l.Pairwise fun a b => (f a).Le (f b)

theorem Sorted.insert (h : Sorted f l) : Sorted f (sortedInsert f e l) := by
  induction l with
  | nil => exact List.pairwise_singleton _ _
  | cons c l ih =>
    rw [Sorted, List.pairwise_cons] at h
    unfold sortedInsert
    split
    · next hc =>
      have hec := Timespec.le_of_tsbefore hc
      refine List.pairwise_cons.mpr ⟨fun x hx => ?_, List.pairwise_cons.mpr h⟩
      rcases List.mem_cons.mp hx with rfl | hx
      · exact hec
      · exact hec.trans (h.1 x hx)
    · next hc =>
      refine List.pairwise_cons.mpr ⟨fun x hx => ?_, ih h.2⟩
      rcases List.mem_cons.mp ((sortedInsert_perm f e l).mem_iff.mp hx) with rfl | hx
      · exact Bool.not_eq_true _ |>.mp hc
      · exact h.1 x hx

/-- The order only depends on the times of what is in the list. -/
theorem Sorted.congr (h : Sorted f l) (hfg : ∀ i ∈ l, g i = f i) : Sorted g l := by
  refine List.Pairwise.imp_of_mem (fun ha hb hab => ?_) h
  rw [hfg _ ha, hfg _ hb]
  exact hab

/-- The first of the queue after an insertion is the new element or the first one before. -/
theorem head?_sortedInsert (f : ι → Timespec) (e : ι) (l : List ι) :
    (sortedInsert f e l).head? = some e ∨ ∃ c l', l = c :: l' ∧
      sortedInsert f e l = c :: sortedInsert f e l' := by
  cases l with
  | nil => exact .inl rfl
  | cons c l =>
    rw [sortedInsert]
    split
    · exact .inl rfl
    · exact .inr ⟨c, l, rfl, rfl⟩

/-! ## The invariant -/

/-- The runner sleeps no longer than it may, or it is about to be woken. -/
def Awake (q : Tq ι) : Prop :=
  q.signalled = true ∨
    (q.runner = .idle → q.tqList = []) ∧
    ∀ t, q.runner = .sleep t → ∀ e ∈ q.tqList, t.Le (q.expires e)

structure Inv (q : Tq ι) : Prop where
  nodup : q.tqList.Nodup
  sorted : Sorted q.expires q.tqList
  linked : ∀ e, e ∈ q.tqList ↔ tsisset (q.expires e) = true
  awake : q.Awake
  current : ∀ e, q.curr = some e → ∃ now, q.runner = .task e now

theorem init_inv : ({} : Tq ι).Inv where
  nodup := List.nodup_nil
  sorted := List.Pairwise.nil
  linked _ := by simp [tsisset_tsclear]
  awake := .inr ⟨nofun, nofun⟩
  current _ h := by cases h

theorem Inv.timers_eq_some_iff {q : Tq ι} (hI : q.Inv) {t : Timespec} :
    q.timers e = some t ↔ e ∈ q.tqList ∧ q.expires e = t := by
  unfold timers armed
  rw [hI.linked]
  split
  · next h => simp [h]
  · next h => simp [h]

/-- Without a signal on its way, the runner waits only without timers, and sleeps no longer than
the first of them. -/
theorem Inv.asleep {q : Tq ι} (hI : q.Inv) (hsig : q.signalled = false) :
    (q.runner = .idle → ∀ e, q.timers e = none) ∧
      ∀ t, q.runner = .sleep t → ∀ e t', q.timers e = some t' → t.Le t' := by
  rcases hI.awake with h | ⟨hidle, hsleep⟩
  · cases hsig.symm.trans h
  · refine ⟨fun hr e => ?_, fun t hr e t' he => ?_⟩
    · cases he : q.timers e with
      | none => rfl
      | some t =>
        have hmem := (hI.timers_eq_some_iff.mp he).1
        rw [hidle hr] at hmem
        exact absurd hmem List.not_mem_nil
    · obtain ⟨hmem, rfl⟩ := hI.timers_eq_some_iff.mp he
      exact hsleep t hr e hmem

/-- The invariant while the runner is in no task. -/
theorem Inv.rest {q : Tq ι} (hI : q.Inv) (hcurr : q.curr = none) (r : Runner ι) (b : Bool)
    (hr : Awake { q with runner := r, signalled := b }) :
    Inv { q with runner := r, signalled := b } := by
  refine ⟨hI.nodup, hI.sorted, hI.linked, hr, fun _ he => ?_⟩
  cases hcurr.symm.trans he

/-- The first element of the queue is not later than any other. -/
theorem Inv.first {q : Tq ι} {first : ι} {l : List ι} (hI : q.Inv)
    (hl : q.tqList = first :: l) :
    ∀ i ∈ q.tqList, (q.expires first).Le (q.expires i) := by
  intro i hi
  have hsorted := hI.sorted
  rw [hl] at hi hsorted
  rcases List.mem_cons.mp hi with rfl | hi
  · exact Timespec.le_refl _
  · exact (List.pairwise_cons.mp hsorted).1 i hi

/-- The invariant without the current element. -/
theorem Inv.clear {q : Tq ι} (hI : q.Inv) : Inv { q with curr := none } :=
  ⟨hI.nodup, hI.sorted, hI.linked, hI.awake, fun _ h => by cases h⟩

/-! ### Deleting -/

section Steps

variable [DecidableEq ι] {q : Tq ι}

theorem armed_set (f : ι → Timespec) (e : ι) (t : Timespec) :
    armed (fun i => if i = e then t else f i) =
      (armed f).set e (if tsisset t then some t else none) := by
  funext i
  unfold armed Timers.set
  by_cases hi : i = e
  · simp only [if_pos hi]
  · simp only [if_neg hi]

/-- Taking `e` off the queue. -/
theorem Inv.erase (hI : q.Inv) (e : ι) :
    let g := fun i => if i = e then tsclear else q.expires i
    (q.tqList.erase e).Nodup ∧ Sorted g (q.tqList.erase e) ∧
    ∀ i, i ∈ q.tqList.erase e ↔ tsisset (g i) = true := by
  have hmem (i : ι) : i ∈ q.tqList.erase e ↔ i ≠ e ∧ i ∈ q.tqList := hI.nodup.mem_erase_iff
  refine ⟨hI.nodup.erase e, ?_, fun i => ?_⟩
  · exact Sorted.congr (hI.sorted.sublist List.erase_sublist) fun i hi =>
      if_neg ((hmem i).mp hi).1
  · rw [hmem, hI.linked]
    by_cases hi : i = e
    · simp [hi, tsisset_tsclear]
    · simp [hi]

theorem Awake.delTask (h : q.Awake) (e : ι) (hI : q.Inv) : (q.delTask e).Awake := by
  refine h.imp id fun ⟨hidle, hsleep⟩ => ⟨fun hr => ?_, fun t hr i hi => ?_⟩
  · show q.tqList.erase e = []
    rw [hidle hr]
    rfl
  · obtain ⟨hne, hi⟩ := hI.nodup.mem_erase_iff.mp hi
    show Timespec.Le _ (if i = e then tsclear else q.expires i)
    rw [if_neg hne]
    exact hsleep t hr i hi

theorem Inv.delTask (hI : q.Inv) (e : ι) : (q.delTask e).Inv := by
  obtain ⟨hnodup, hsorted, hlinked⟩ := hI.erase e
  refine ⟨hnodup, hsorted, hlinked, hI.awake.delTask e hI, fun i hi => ?_⟩
  change (if q.curr = some e then none else q.curr) = some i at hi
  split at hi
  · cases hi
  · exact hI.current i hi

/-! ### Adding -/

/-- What `add_task_abs` does. -/
theorem Inv.addTaskAbs_eq (hI : q.Inv) (e : ι) (t : Timespec) :
    let g := fun i => if i = e then t else q.expires i
    let l := sortedInsert g e (q.tqList.erase e)
    q.addTaskAbs e t = some { q with
      tqList := l, expires := g, curr := if q.curr = some e then none else q.curr
      signalled := q.signalled || l.head? = some e } := by
  have herase : (if tsisset (q.expires e) = true then q.tqList.erase e else q.tqList) =
      q.tqList.erase e := by
    split
    · rfl
    · next h => exact (List.erase_of_not_mem fun he => h ((hI.linked e).mp he)).symm
  unfold addTaskAbs
  rw [if_neg fun h => absurd ((hI.linked e).mp h.2) (by rw [h.1]; exact Bool.false_ne_true)]
  dsimp only
  rw [herase]

theorem Inv.addTaskAbs (hI : q.Inv) (e : ι) {t : Timespec} (ht : tsisset t = true) :
    ∃ q', q.addTaskAbs e t = some q' ∧ q'.Inv ∧ q'.timers = q.timers.set e (some t) := by
  obtain ⟨hnodup, hsorted, -⟩ := hI.erase e
  have hmem (i : ι) : i ∈ q.tqList.erase e ↔ i ≠ e ∧ i ∈ q.tqList := hI.nodup.mem_erase_iff
  refine ⟨_, hI.addTaskAbs_eq e t, ?_, ?_⟩
  · generalize hg : (fun i => if i = e then t else q.expires i) = g
    have hne {i : ι} (hi : i ≠ e) : g i = q.expires i := by rw [← hg]; exact if_neg hi
    have he : g e = t := by rw [← hg]; exact if_pos rfl
    have hperm := sortedInsert_perm g e (q.tqList.erase e)
    have hsorted' : Sorted g (sortedInsert g e (q.tqList.erase e)) := by
      refine Sorted.insert (hsorted.congr fun i hi => ?_)
      rw [if_neg ((hmem i).mp hi).1, hne ((hmem i).mp hi).1]
    refine ⟨?_, hsorted', fun i => ?_, ?_, fun i hi => ?_⟩
    · refine hperm.nodup_iff.mpr (List.nodup_cons.mpr ⟨fun h => ?_, hnodup⟩)
      exact ((hmem e).mp h).1 rfl
    · dsimp only
      rw [hperm.mem_iff, List.mem_cons, hmem, hI.linked]
      by_cases hi : i = e
      · simp [hi, he, ht]
      · simp [hi, hne hi]
    · rcases head?_sortedInsert g e (q.tqList.erase e) with hhead | ⟨c, l', hl, hins⟩
      · -- the element is the first one now, and the runner is woken
        refine .inl ?_
        dsimp only
        rw [hhead, decide_eq_true rfl, Bool.or_true]
      · have hc := (hmem c).mp (hl ▸ List.mem_cons_self)
        refine hI.awake.imp (fun h => ?_) fun ⟨hidle, hsleep⟩ =>
          ⟨fun hr => ?_, fun t' hr i hi => ?_⟩
        · dsimp only
          rw [h, Bool.true_or]
        · rw [hidle hr] at hc
          exact absurd hc.2 List.not_mem_nil
        · have hfirst : t'.Le (g c) := by rw [hne hc.1]; exact hsleep t' hr c hc.2
          dsimp only at hi
          rw [hins] at hsorted' hi
          rcases List.mem_cons.mp hi with rfl | hi
          · exact hfirst
          · exact hfirst.trans ((List.pairwise_cons.mp hsorted').1 i hi)
    · dsimp only at hi
      split at hi
      · cases hi
      · exact hI.current i hi
  · show armed _ = _
    rw [armed_set, if_pos ht]
    rfl

/-! ### The runner -/

/-- What happens from the inner loop on. -/
inductive Inner (now : Timespec) (q : Tq ι) : Tq ι → Prop
  | exit (killed : q.killed = true) : Inner now q { q with runner := .exited }
  | wait (empty : q.tqList = []) : Inner now q { q with runner := .idle, signalled := false }
  | sleep {first : ι} {l : List ι} (list : q.tqList = first :: l)
      (later : tsbefore (q.expires first) now = true) :
    Inner now q { q with runner := .sleep (q.expires first), signalled := false }
  | take {first : ι} {l : List ι} (list : q.tqList = first :: l)
      (due : (q.expires first).Le now) :
    Inner now q { q with
      tqList := l, expires := fun i => if i = first then tsclear else q.expires i
      curr := some first, runner := .task first now }

theorem inner_inner (now : Timespec) (q : Tq ι) : Inner now q (inner now q) := by
  unfold inner
  split
  · next hl =>
    split
    · next hk => exact .exit hk
    · exact .wait hl
  · next first l hl =>
    split
    · next hlater => exact .sleep hl hlater
    · next hdue => exact .take hl (Bool.not_eq_true _ |>.mp hdue)

theorem outer_inner (now : Timespec) (q : Tq ι) : Inner now q (outer now q) := by
  unfold outer
  split
  · next hk => exact .exit hk
  · split
    · next hl => exact .wait (List.isEmpty_iff.mp hl)
    · exact inner_inner now q

theorem Inv.inner {q' : Tq ι} {now : Timespec} (hI : q.Inv) (hcurr : q.curr = none)
    (h : Inner now q q') :
    q'.Inv ∧ ((∃ e, q'.runner = .task e now ∧ q.timers.Step (.fire e now) q'.timers) ∨
      (∀ e n, q'.runner ≠ .task e n) ∧ q'.timers = q.timers) := by
  cases h with
  | exit => exact ⟨hI.rest hcurr .exited _ (.inr ⟨nofun, nofun⟩), .inr ⟨nofun, rfl⟩⟩
  | wait empty =>
    exact ⟨hI.rest hcurr .idle false (.inr ⟨fun _ => empty, nofun⟩), .inr ⟨nofun, rfl⟩⟩
  | @sleep first l list =>
    refine ⟨hI.rest hcurr _ false (.inr ⟨nofun, fun t ht => ?_⟩), .inr ⟨nofun, rfl⟩⟩
    cases ht
    exact hI.first list
  | @take first l list due =>
    obtain ⟨hnodup, hsorted, hlinked⟩ := hI.erase first
    rw [list, List.erase_cons_head] at hnodup hsorted hlinked
    refine ⟨⟨hnodup, hsorted, hlinked, .inr ⟨nofun, nofun⟩, fun e he => ?_⟩,
      .inl ⟨first, rfl, ?_⟩⟩
    · cases he
      exact ⟨now, rfl⟩
    · have hmem : first ∈ q.tqList := list ▸ List.mem_cons_self
      show Timers.Step _ _ (armed _)
      rw [armed_set]
      refine .fire (hI.timers_eq_some_iff.mpr ⟨hmem, rfl⟩) due fun e t he => ?_
      obtain ⟨hmem', rfl⟩ := hI.timers_eq_some_iff.mp he
      exact hI.first list e hmem'

/-- With an element that is due, the runner takes one. -/
theorem Inv.takes {q' : Tq ι} {now t : Timespec} (hI : q.Inv) (hk : q.killed = false)
    (he : q.timers e = some t) (hdue : t.Le now) (h : Inner now q q') :
    ∃ first, q'.runner = .task first now := by
  obtain ⟨hmem, rfl⟩ := hI.timers_eq_some_iff.mp he
  cases h with
  | exit killed => cases hk.symm.trans killed
  | wait empty =>
    rw [empty] at hmem
    cases hmem
  | sleep list later =>
    have hle : Timespec.Le _ now := (hI.first list e hmem).trans hdue
    cases hle.symm.trans later
  | @take first l list due => exact ⟨first, rfl⟩

/-- The time that the runner goes by when it has the mutex again. -/
def Act.clock (q : Tq ι) : Act ι → Option Timespec
  | .pass now => some now
  | .finish =>
    match q.runner with
    | .task _ now => some now
    | _ => none
  | _ => none

theorem clock_of_runs {q' : Tq ι} {a : Act ι} (ha : a = .finish ∨ ∃ now, a = .pass now)
    (hs : q.step a = some q') : ∃ now, a.clock q = some now := by
  rcases ha with rfl | ⟨now, rfl⟩
  · change q.finish = some q' at hs
    unfold finish at hs
    split at hs
    · next e now hr =>
      refine ⟨now, ?_⟩
      show (match q.runner with | .task _ now => some now | _ => none) = _
      rw [hr]
    · cases hs
  · exact ⟨now, rfl⟩

/-- Whenever the runner goes on, it does so with `curr` cleared. -/
theorem Inv.goes_on {q' : Tq ι} {a : Act ι} {now : Timespec} (hI : q.Inv)
    (ha : a.clock q = some now) (hs : q.step a = some q') :
    Inner now { q with curr := none } q' := by
  cases a with
  | finish =>
    change q.finish = some q' at hs
    unfold finish at hs
    unfold Act.clock at ha
    split at hs
    · next e now' hr =>
      rw [hr] at ha
      cases ha
      cases hs
      exact inner_inner _ _
    · cases hs
  | pass now =>
    cases ha
    change q.pass now = some q' at hs
    have hq (h : ∀ e n, q.runner ≠ .task e n) : { q with curr := none } = q := by
      cases hc : q.curr with
      | none => rw [← hc]
      | some e =>
        obtain ⟨n, hr⟩ := hI.current e hc
        exact absurd hr (h e n)
    unfold pass at hs
    split at hs
    · next hr => cases hs; rw [hq (by rw [hr]; nofun)]; exact outer_inner _ _
    · next hr => cases hs; rw [hq (by rw [hr]; nofun)]; exact inner_inner _ _
    · next hr => cases hs; rw [hq (by rw [hr]; nofun)]; exact outer_inner _ _
    · cases hs
    · cases hs
  | add e t => cases ha
  | del e => cases ha
  | destroy => cases ha

theorem Inv.step {q' : Tq ι} {a : Act ι} (hI : q.Inv) (ha : a.Timed) (hs : q.step a = some q') :
    q'.Inv ∧ q.timers.Trace (q'.observe a) q'.timers := by
  have hone {e : Event ι} (h : q.timers.Step e q'.timers) : q.timers.Trace [e] q'.timers :=
    .cons h .nil
  have hrunner (ha : a = .finish ∨ ∃ now, a = .pass now)
      (hobs : q'.observe a = match q'.runner with | .task e now => [.fire e now] | _ => []) :
      q'.Inv ∧ q.timers.Trace (q'.observe a) q'.timers := by
    obtain ⟨now, hclock⟩ := clock_of_runs ha hs
    obtain ⟨hq', ⟨e, hr, hfire⟩ | ⟨hr, htimers⟩⟩ := hI.clear.inner rfl (hI.goes_on hclock hs)
    · rw [hobs, hr]
      exact ⟨hq', hone hfire⟩
    · refine ⟨hq', ?_⟩
      rw [hobs]
      split
      · next e now hr' => exact absurd hr' (hr e now)
      · rw [htimers]; exact .nil
  cases a with
  | add e t =>
    obtain ⟨q₁, hq₁, hI₁, ht₁⟩ := hI.addTaskAbs e ha
    cases hq₁.symm.trans hs
    refine ⟨hI₁, hone ?_⟩
    rw [ht₁]
    exact .arm
  | del e =>
    cases hs
    refine ⟨hI.delTask e, hone ?_⟩
    have htimers : (q.delTask e).timers = q.timers.set e none := armed_set q.expires e tsclear
    rw [htimers]
    exact .cancel
  | destroy =>
    cases hs
    have hclear (i : ι) : tsisset (if i ∈ q.tqList then tsclear else q.expires i) = false := by
      split
      · rfl
      · next hi => exact Bool.not_eq_true _ |>.mp (mt (hI.linked i).mpr hi)
    refine ⟨⟨List.nodup_nil, .nil, fun i => ?_, .inl rfl, hI.current⟩, hone ?_⟩
    · show i ∈ [] ↔ tsisset (if i ∈ q.tqList then tsclear else q.expires i) = true
      rw [hclear i]
      simp
    · have hnone : q.destroy.timers = fun _ => none := by
        funext i
        exact if_neg (Bool.not_eq_true _ |>.mpr (hclear i))
      rw [hnone]
      exact .cancelAll
  | pass now => exact hrunner (.inr ⟨now, rfl⟩) rfl
  | finish => exact hrunner (.inl rfl) rfl

theorem Inv.run : ∀ (as : List (Act ι)) {q q' : Tq ι}, q.Inv → (∀ a ∈ as, a.Timed) →
    Lib.run Tq.step q as = some q' → q'.Inv ∧ q.timers.Trace (q.trace as) q'.timers := by
  intro as
  induction as with
  | nil => intro q q' hI _ hr; cases hr; exact ⟨hI, .nil⟩
  | cons a as ih =>
    intro q q' hI ha hr
    obtain ⟨q₁, hs, hr⟩ := run_cons hr
    obtain ⟨hI₁, ht₁⟩ := hI.step (ha a List.mem_cons_self) hs
    obtain ⟨hI', ht'⟩ := ih hI₁ (fun b hb => ha b (List.mem_cons_of_mem _ hb)) hr
    refine ⟨hI', ?_⟩
    rw [trace, hs]
    exact ht₁.append ht'

end Steps

/-! ## The functions -/

/-- The queue with the function of each element, and the one that the runner has called for the
element that it has taken. -/
structure Tasks (ι τ : Type) where
  q : Tq ι := {}
  task : ι → Option τ := fun _ => none
  called : Option τ := none

namespace Tasks

variable {τ : Type}

inductive Act (ι τ : Type)
  | add (e : ι) (t : Timespec) (task : τ)
  | del (e : ι)
  | destroy
  | pass (now : Timespec)
  | call
  | finish

/-- What an action does to the queue. -/
def Act.queue : Act ι τ → Option (Tq.Act ι)
  | .add e t _ => some (.add e t)
  | .del e => some (.del e)
  | .destroy => some .destroy
  | .pass now => some (.pass now)
  | .call => none
  | .finish => some .finish

def Act.Timed : Act ι τ → Prop
  | .add _ t _ => tsisset t = true
  | _ => True

/-- A step of the runner or of another thread; `first->task(first)` reads the function (`call`)
and returns (`finish`). -/
def step [DecidableEq ι] (s : Tasks ι τ) : Act ι τ → Option (Tasks ι τ)
  | .add e t f => (s.q.addTaskAbs e t).map fun q =>
    { s with q := q, task := fun i => if i = e then some f else s.task i }
  | .del e => some { s with q := s.q.delTask e }
  | .destroy => some { s with q := s.q.destroy }
  | .pass now => (s.q.pass now).map fun q => { s with q := q, called := none }
  | .call =>
    match s.q.runner, s.called with
    | .task e _, none => (s.task e).map fun f => { s with called := some f }
    | _, _ => none
  | .finish =>
    if s.called.isSome then s.q.finish.map fun q => { s with q := q, called := none } else none

/-- The function that is given with `e`, after another action. -/
def given [DecidableEq ι] (e : ι) (f : Option τ) : Act ι τ → Option τ
  | .add i _ g => if e = i then some g else f
  | _ => f

/-- A function is there for every element that is armed or taken. -/
structure Inv (s : Tasks ι τ) : Prop where
  queue : s.q.Inv
  armed : ∀ e t, s.q.timers e = some t → ∃ f, s.task e = some f
  taken : ∀ e now, s.q.runner = .task e now → ∃ f, s.task e = some f

theorem init_inv : ({} : Tasks ι τ).Inv where
  queue := Tq.init_inv
  armed e t h := by
    have hmem := (Tq.init_inv.timers_eq_some_iff.mp h).1
    cases hmem
  taken _ _ h := by cases h

theorem arm_of_observe {q : Tq ι} {b : Tq.Act ι} {e : ι} {t : Timespec}
    (h : .arm e t ∈ q.observe b) : b = .add e t := by
  have hfired (h : .arm e t ∈ match q.runner with
      | .task e now => [Event.fire e now] | _ => []) : False := by
    split at h
    · cases List.mem_singleton.mp h
    · cases h
  cases b with
  | add i u => cases List.mem_singleton.mp h; rfl
  | del i => cases List.mem_singleton.mp h
  | destroy => cases List.mem_singleton.mp h
  | pass now => exact (hfired h).elim
  | finish => exact (hfired h).elim

theorem Act.Timed.queue {a : Act ι τ} {b : Tq.Act ι} (ha : a.Timed) (hb : a.queue = some b) :
    b.Timed := by
  cases a <;> cases hb <;> exact ha

section Steps

variable [DecidableEq ι] {s s' : Tasks ι τ} {a : Act ι τ}

/-- A step is one of the queue, or none. -/
theorem step_queue (hs : s.step a = some s') :
    (∀ b, a.queue = some b → s.q.step b = some s'.q) ∧ (a.queue = none → s'.q = s.q) ∧
    ∀ e, s'.task e = given e (s.task e) a := by
  cases a with
  | add e t f =>
    obtain ⟨q, hq, rfl⟩ := Option.map_eq_some_iff.mp hs
    exact ⟨(fun b hb => by cases hb; exact hq), (fun h => by cases h), fun _ => rfl⟩
  | del e => cases hs; exact ⟨(fun b hb => by cases hb; rfl), (fun h => by cases h), fun _ => rfl⟩
  | destroy => cases hs; exact ⟨(fun b hb => by cases hb; rfl), (fun h => by cases h), fun _ => rfl⟩
  | pass now =>
    obtain ⟨q, hq, rfl⟩ := Option.map_eq_some_iff.mp hs
    exact ⟨(fun b hb => by cases hb; exact hq), (fun h => by cases h), fun _ => rfl⟩
  | call =>
    change (match s.q.runner, s.called with
      | .task e _, none => (s.task e).map fun f => { s with called := some f }
      | _, _ => none) = some s' at hs
    split at hs
    · obtain ⟨f, -, rfl⟩ := Option.map_eq_some_iff.mp hs
      exact ⟨(fun b hb => by cases hb), fun _ => rfl, fun _ => rfl⟩
    · cases hs
  | finish =>
    obtain ⟨-, hs⟩ := Option.ite_none_right_eq_some.mp hs
    obtain ⟨q, hq, rfl⟩ := Option.map_eq_some_iff.mp hs
    exact ⟨(fun b hb => by cases hb; exact hq), (fun h => by cases h), fun _ => rfl⟩

theorem given_of_some {e : ι} {f : Option τ} (h : ∃ g, f = some g) :
    ∃ g, given e f a = some g := by
  cases a with
  | add i t g =>
    show ∃ g', (if e = i then some g else f) = some g'
    split
    · exact ⟨g, rfl⟩
    · exact h
  | _ => exact h

/-- What is armed after an event was armed before it, or is armed by it. -/
theorem armed_of_step {m m' : Timers ι} {ev : Event ι} (h : m.Step ev m') {e : ι} {t : Timespec}
    (he : m' e = some t) : (∃ t, m e = some t) ∨ ev = .arm e t := by
  have hset {i : ι} {o : Option Timespec} (h : m.set i o e = some t) :
      e = i ∧ o = some t ∨ m e = some t := by
    unfold Timers.set at h
    split at h
    · next hi => exact .inl ⟨hi, h⟩
    · exact .inr h
  cases h with
  | arm =>
    rcases hset he with ⟨rfl, h⟩ | h
    · cases h
      exact .inr rfl
    · exact .inl ⟨t, h⟩
  | cancel =>
    rcases hset he with ⟨-, h⟩ | h
    · cases h
    · exact .inl ⟨t, h⟩
  | cancelAll => cases he
  | fire =>
    rcases hset he with ⟨-, h⟩ | h
    · cases h
    · exact .inl ⟨t, h⟩

theorem armed_of_fire {m m' : Timers ι} {e : ι} {now : Timespec} (h : m.Step (.fire e now) m') :
    ∃ t, m e = some t := by
  cases h with
  | fire armed => exact ⟨_, armed⟩

theorem armed_of_trace {m m' : Timers ι} {evs : List (Event ι)} (h : Timers.Trace m evs m') {e : ι}
    {t : Timespec} (he : m' e = some t) : (∃ t, m e = some t) ∨ ∃ t, .arm e t ∈ evs := by
  induction h with
  | nil => exact .inl ⟨t, he⟩
  | cons step _ ih =>
    rcases ih he with ⟨t', h⟩ | ⟨t', h⟩
    · rcases armed_of_step step h with h | rfl
      · exact .inl h
      · exact .inr ⟨t', List.mem_cons_self⟩
    · exact .inr ⟨t', List.mem_cons_of_mem _ h⟩

/-- The element in the hands of the runner was there before, or it is taken now. -/
theorem taken_of_step {q q' : Tq ι} {b : Tq.Act ι} (hI : q.Inv) (hs : q.step b = some q') {e : ι}
    {now : Timespec} (hr : q'.runner = .task e now) :
    q.runner = .task e now ∨ ∃ t, q.timers e = some t := by
  have hruns (hb : b = .finish ∨ ∃ now, b = .pass now) : ∃ t, q.timers e = some t := by
    obtain ⟨n, hclock⟩ := clock_of_runs hb hs
    obtain ⟨-, ⟨e', hr', hfire⟩ | ⟨hnot, -⟩⟩ := hI.clear.inner rfl (hI.goes_on hclock hs)
    · cases hr.symm.trans hr'
      exact armed_of_fire hfire
    · exact absurd hr (hnot e now)
  cases b with
  | add i t =>
    change q.addTaskAbs i t = some q' at hs
    rw [hI.addTaskAbs_eq] at hs
    cases hs
    exact .inl hr
  | del i => cases hs; exact .inl hr
  | destroy => cases hs; exact .inl hr
  | pass n => exact .inr (hruns (.inr ⟨n, rfl⟩))
  | finish => exact .inr (hruns (.inl rfl))

theorem Inv.step (hI : s.Inv) (ha : a.Timed) (hs : s.step a = some s') : s'.Inv := by
  obtain ⟨hq, hsame, htask⟩ := step_queue hs
  cases hb : a.queue with
  | none =>
    refine ⟨(hsame hb).symm ▸ hI.queue, fun e t he => ?_, fun e now hr => ?_⟩
    · rw [htask]
      exact given_of_some (hI.armed e t (hsame hb ▸ he))
    · rw [htask]
      exact given_of_some (hI.taken e now (hsame hb ▸ hr))
  | some b =>
    obtain ⟨hI', htrace⟩ := hI.queue.step (ha.queue hb) (hq b hb)
    refine ⟨hI', fun e t he => ?_, fun e now hr => ?_⟩
    · rcases armed_of_trace htrace he with ⟨t', h⟩ | ⟨t', h⟩
      · rw [htask]
        exact given_of_some (hI.armed e t' h)
      · -- it has been added in this step
        cases arm_of_observe h
        cases a <;> cases hb
        next g => exact ⟨g, (htask e).trans (if_pos rfl)⟩
    · rw [htask]
      rcases taken_of_step hI.queue (hq b hb) hr with h | ⟨t, h⟩
      · exact given_of_some (hI.taken e now h)
      · exact given_of_some (hI.armed e t h)

theorem Inv.run : ∀ (as : List (Act ι τ)) {s s' : Tasks ι τ}, s.Inv → (∀ a ∈ as, a.Timed) →
    Lib.run Tasks.step s as = some s' →
    s'.Inv ∧ s.q.timers.Trace (s.q.trace (as.filterMap Act.queue)) s'.q.timers ∧
    ∀ e, s'.task e = as.foldl (given e) (s.task e) := by
  intro as
  induction as with
  | nil => intro s s' hI _ hr; cases hr; exact ⟨hI, .nil, fun _ => rfl⟩
  | cons a as ih =>
    intro s s' hI ha hr
    obtain ⟨s₁, hs, hr⟩ := run_cons hr
    have hI₁ := hI.step (ha a List.mem_cons_self) hs
    obtain ⟨hI', htrace, htask⟩ := ih hI₁ (fun b hb => ha b (List.mem_cons_of_mem _ hb)) hr
    obtain ⟨hq, hsame, hgiven⟩ := step_queue hs
    refine ⟨hI', ?_, fun e => by rw [htask, hgiven, List.foldl_cons]⟩
    cases hb : a.queue with
    | none =>
      rw [List.filterMap_cons_none hb, ← hsame hb]
      exact htrace
    | some b =>
      have hbt := (ha a List.mem_cons_self).queue hb
      rw [List.filterMap_cons_some hb, trace, hq b hb]
      exact (hI.queue.step hbt (hq b hb)).2.append htrace

end Steps

/-- What the queue is after the actions `as`, as a set of timers with functions. -/
structure Refines [DecidableEq ι] (as : List (Act ι τ)) (s : Tasks ι τ) : Prop where
  /-- what has been done is what can be done to timers: each element that was taken was armed,
  was due and was the first -/
  trace : Timers.Trace (fun _ => none) (Tq.trace {} (as.filterMap Act.queue)) s.q.timers
  /-- elements can always be added -/
  adds : ∀ e t f, tsisset t = true → (s.step (.add e t f)).isSome = true
  /-- the runner sleeps no longer than until the first timer, unless it is about to be woken -/
  awake : s.q.signalled = false →
    (s.q.runner = .idle → ∀ e, s.q.timers e = none) ∧
    ∀ t, s.q.runner = .sleep t → ∀ e t', s.q.timers e = some t' → t.Le t'
  /-- it can go on whenever it waits, and when its task has been called -/
  goesOn : (∀ now, (∀ e n, s.q.runner ≠ .task e n) → s.q.runner ≠ .exited →
      (s.step (.pass now)).isSome = true) ∧
    ∀ e n, s.q.runner = .task e n → s.called.isSome = true → (s.step .finish).isSome = true
  /-- and takes an element then if one is due -/
  takes : ∀ a b now s', a.queue = some b → b.clock s.q = some now → s.step a = some s' →
    s.q.killed = false → (∃ e t, s.q.timers e = some t ∧ t.Le now) →
    ∃ e, s'.q.runner = .task e now
  /-- what is called for an element is what was given with it last -/
  calls : ∀ e now, s.q.runner = .task e now → s.called = none →
    ∃ f s', as.foldl (given e) none = some f ∧ s.step .call = some s' ∧ s'.called = some f

end Tasks

/-- **The queue is a set of timers.** In every interleaving of the threads with the runner, what
they do to the queue is what can be done to timers: each element that is taken was armed, is
due, and is the first. When the runner goes on and one is due, one is taken, and the function
that was given with it last is called. -/
theorem timers_refine [DecidableEq ι] {τ : Type} (as : List (Tasks.Act ι τ)) (s : Tasks ι τ)
    (has : ∀ a ∈ as, a.Timed) (hrun : Lib.run Tasks.step {} as = some s) :
    Tasks.Refines as s := by
  obtain ⟨hI, htrace, htask⟩ := Tasks.init_inv.run as has hrun
  refine ⟨htrace, fun e t f ht => ?_, fun hsig => ?_, ⟨fun now hnot hex => ?_, fun e n hr hc => ?_⟩,
    fun a b now s' hb hclock hs hk ⟨e, t, he, hdue⟩ => ?_, fun e now hr hc => ?_⟩
  · obtain ⟨q', hq', -⟩ := hI.queue.addTaskAbs e ht
    show ((s.q.addTaskAbs e t).map _).isSome = true
    rw [hq']
    rfl
  · exact hI.queue.asleep hsig
  · show ((s.q.pass now).map _).isSome = true
    rw [Option.isSome_map]
    unfold pass
    cases hr : s.q.runner with
    | task e n => exact absurd hr (hnot e n)
    | exited => exact absurd hr hex
    | _ => rfl
  · show (if s.called.isSome then s.q.finish.map _ else none).isSome = true
    rw [if_pos hc, Option.isSome_map, finish, hr]
    rfl
  · -- the queue does the same without the functions
    have hgo := hI.queue.goes_on hclock ((Tasks.step_queue hs).1 b hb)
    exact hI.queue.clear.takes hk he hdue hgo
  · obtain ⟨f, hf⟩ := hI.taken e now hr
    refine ⟨f, { s with called := some f }, (htask e).symm.trans hf, ?_, rfl⟩
    show (match s.q.runner, s.called with
      | .task e _, none => (s.task e).map fun f => { s with called := some f }
      | _, _ => none) = _
    rw [hr, hc]
    dsimp only
    rw [hf]
    rfl

/-- The later of two elements is added first; the earlier one is taken when it is due. Before it
is called it is given another function, which runs in the place of the first one. -/
theorem timers_refine_two :
    let as : List (Tasks.Act Nat Bool) := [.pass ⟨1, 0⟩, .add 7 ⟨9, 0⟩ true, .add 8 ⟨5, 0⟩ true,
      .pass ⟨6, 0⟩, .add 8 ⟨20, 0⟩ false]
    ∃ s s' : Tasks Nat Bool, Lib.run Tasks.step {} as = some s ∧ s.q.runner = .task 8 ⟨6, 0⟩ ∧
      s.step .call = some s' ∧ s'.called = some false := by
  intro as
  have has : ∀ a ∈ as, a.Timed := by
    intro a ha
    simp only [as, List.mem_cons, List.not_mem_nil, or_false] at ha
    rcases ha with rfl | rfl | rfl | rfl | rfl
    · trivial
    · rfl
    · rfl
    · trivial
    · rfl
  obtain ⟨f, s', hf, hs, hc⟩ := (timers_refine as _ has rfl).calls 8 ⟨6, 0⟩ rfl rfl
  cases hf
  exact ⟨_, s', rfl, rfl, hs, hc⟩

/-! ## Interruption -/

/-- The element of the action, if it adds or deletes one. -/
def Act.touches : Act ι → Option ι
  | .add e _ => some e
  | .del e => some e
  | _ => none

section Interruption

variable [DecidableEq ι] {q q' : Tq ι} {e : ι} {now : Timespec}

/-- The runner is in the task of `e`; nobody else's element is current. -/
structure Running (e : ι) (now : Timespec) (q : Tq ι) : Prop where
  runner : q.runner = .task e now
  current : ∀ i, q.curr = some i → i = e

/-- Clearing `curr` if it is the element `i`. -/
theorem Running.touch (h : Running e now q) (i : ι) :
    (∀ j, (if q.curr = some i then none else q.curr) = some j → j = e) ∧
    (if q.curr = some i then none else q.curr).isNone = (q.curr.isNone || decide (i = e)) := by
  split
  · next hi => simp [h.current i hi, hi]
  · next hi =>
    refine ⟨h.current, ?_⟩
    by_cases hie : i = e
    · cases hc : q.curr with
      | none => rfl
      | some j => exact absurd (hc.trans (congrArg some ((h.current j hc).trans hie.symm))) hi
    · rw [decide_eq_false hie, Bool.or_false]

theorem Running.step {a : Act ι} (h : Running e now q) (ha : a ≠ .finish)
    (hs : q.step a = some q') :
    Running e now q' ∧
    q'.taskInterrupted = (q.taskInterrupted || decide (a.touches = some e)) := by
  have htouch (i : ι) : decide (some i = some e) = decide (i = e) := by simp
  cases a with
  | add i t =>
    change q.addTaskAbs i t = some q' at hs
    unfold addTaskAbs at hs
    split at hs
    · cases hs
    · cases hs
      exact ⟨⟨h.runner, (h.touch i).1⟩, (h.touch i).2.trans (by rw [Act.touches, htouch]; rfl)⟩
  | del i =>
    cases hs
    exact ⟨⟨h.runner, (h.touch i).1⟩, (h.touch i).2.trans (by rw [Act.touches, htouch]; rfl)⟩
  | destroy => cases hs; exact ⟨⟨h.runner, h.current⟩, (Bool.or_false _).symm⟩
  | pass n =>
    -- the runner does not come by while it is in a task
    change q.pass n = some q' at hs
    unfold pass at hs
    rw [h.runner] at hs
    cases hs
  | finish => exact absurd rfl ha

theorem Running.run : ∀ (as : List (Act ι)) {q q' : Tq ι}, Running e now q →
    Act.finish ∉ as → Lib.run Tq.step q as = some q' →
    q'.taskInterrupted = (q.taskInterrupted || as.any fun a => a.touches = some e) := by
  intro as
  induction as with
  | nil => intro q q' _ _ hr; cases hr; exact (Bool.or_false _).symm
  | cons a as ih =>
    intro q q' h hnf hr
    obtain ⟨q₁, hs, hr⟩ := run_cons hr
    rw [List.mem_cons, not_or] at hnf
    obtain ⟨h₁, hi₁⟩ := h.step (Ne.symm hnf.1) hs
    rw [ih h₁ hnf.2 hr, hi₁, List.any_cons, Bool.or_assoc]

/-- An action that fires a timer leaves the runner in the task, not interrupted. -/
theorem Inv.fires {a : Act ι} (hI : q.Inv) (hs : q.step a = some q')
    (hfire : q'.observe a = [.fire e now]) : Running e now q' ∧ q'.taskInterrupted = false := by
  have hrunner (ha : a = .finish ∨ ∃ now, a = .pass now)
      (hobs : q'.observe a = match q'.runner with | .task e now => [.fire e now] | _ => []) :
      Running e now q' ∧ q'.taskInterrupted = false := by
    obtain ⟨n, hclock⟩ := clock_of_runs ha hs
    have h := hI.goes_on hclock hs
    rw [hobs] at hfire
    cases h with
    | exit => cases hfire
    | wait => cases hfire
    | sleep => cases hfire
    | take =>
      cases hfire
      exact ⟨⟨rfl, fun i hi => (Option.some.inj hi).symm⟩, rfl⟩
  cases a with
  | add i t => cases hfire
  | del i => cases hfire
  | destroy => cases hfire
  | pass n => exact hrunner (.inr ⟨n, rfl⟩) rfl
  | finish => exact hrunner (.inl rfl) rfl

end Interruption

/-- **A task finds out that it is interrupted** exactly if, since the runner has taken its
element, some thread or the task itself has added or deleted it. -/
theorem interrupted_iff [DecidableEq ι] (as bs : List (Act ι)) (a : Act ι) (q₀ q₁ q₂ : Tq ι)
    (e : ι) (now : Timespec) (has : ∀ a ∈ as, a.Timed) (hrun : Lib.run step {} as = some q₀)
    (htake : q₀.step a = some q₁) (hfire : q₁.observe a = [.fire e now])
    (hbs : Act.finish ∉ bs) (hrun' : Lib.run step q₁ bs = some q₂) :
    q₂.taskInterrupted = true ↔ ∃ b ∈ bs, b.touches = some e := by
  obtain ⟨hr, hnot⟩ := (init_inv.run as has hrun).1.fires htake hfire
  rw [hr.run bs hbs hrun', hnot, Bool.false_or, List.any_eq_true]
  simp only [decide_eq_true_iff]

/-- Another thread deletes the element whose task waits for a lock. -/
theorem interrupted_iff_deleted :
    ∃ q₀ q₁ q₂ : Tq Nat, Lib.run step {} [.add 7 ⟨5, 0⟩] = some q₀ ∧
      q₀.step (.pass ⟨6, 0⟩) = some q₁ ∧ Lib.run step q₁ [.add 8 ⟨9, 0⟩, .del 7] = some q₂ ∧
      q₂.taskInterrupted = true := by
  refine ⟨_, _, _, rfl, rfl, rfl, (interrupted_iff [.add 7 ⟨5, 0⟩] [.add 8 ⟨9, 0⟩, .del 7]
    (.pass ⟨6, 0⟩) _ _ _ 7 ⟨6, 0⟩ (fun a ha => ?_) rfl rfl rfl ?_ rfl).mpr ⟨.del 7, ?_, rfl⟩⟩
  · cases List.mem_singleton.mp ha
    rfl
  · simp
  · simp

end Tq

end Manhattan.Umip
