import Mathlib.Logic.Function.Basic
import Mathlib.Data.List.Nodup
import Manhattan.Lib.Run

/-!
# Whom `sine_exit` signals

`main` forks eight children and keeps their pids in `pids`; `sine_exit` walks the
array from its end, sends `SIGINT` to every entry that is not 0 and clears it. It is
called under the label `error:` (a failed `fork`, a failed initialisation, or the
return of `wait`) and from the signal handler, which may run in any thread and
interrupt another `sine_exit`.

The array may hold more than live children. A failed `fork` leaves its `-1` there
and jumps to `error:`, and `kill(-1, …)` means every process. `wait` has reaped a
child when it returns, and its pid stays in the array. And an entry is read three
times, by the test, by `kill` and by the store that clears it: two `sine_exit` side
by side may signal a child twice, or find 0 where the test found a pid.

Mirroring notes:
- `forked` are the positive pids `fork` has returned, by index; `reaped` those that
  `wait` has returned. The kernel does not hand out the pid of an unreaped child.
- `runs` are the calls of `sine_exit` so far, each with its program counter
  (`Pc.test (n + 1)` is about to look at `pids[n]`, `Pc.test 0` is done). Any of them
  may take the next step, which covers both nested handlers and other threads.
- `write` to the exit pipe may fail, also because a failure before `pipe` leaves the
  descriptor 0 there; `sine_exit` then calls `exit(1)`.
- `stray` records that `kill` was called with anything but a live child's pid.

`safe_of_exits` is what holds when forks succeed, `wait` returns a child only after
its entry was cleared, no two calls are at the same entry, and the pipe can be
written.
-/

namespace Manhattan.Sined.Children

open Manhattan.Lib

/-- `PID_NUM` -/
def pidNum : Nat := 8

/-- Where `main` is. -/
inductive Main where
  | forking
  /-- `pipe`, `sigaction` and the `init_` functions. -/
  | setup
  | waiting
  /-- At the label `error:`. -/
  | atError
  | joining
  deriving DecidableEq, Repr

/-- Where a call of `sine_exit` is. -/
inductive Pc where
  | flag
  | write
  | test (n : Nat)
  | kill (n : Nat)
  | clear (n : Nat)
  deriving DecidableEq, Repr

structure State where
  main : Main
  handlers : Bool
  exitFlag : Bool
  pids : Nat → Int
  forked : List Int
  reaped : List Int
  runs : List Pc
  /-- The arguments of `kill`, the latest first. -/
  kills : List Int
  stray : Bool
  /-- `exit(1)` has been called. -/
  dead : Bool

def init : State := ⟨.forking, false, false, fun _ => 0, [], [], [], [], false, false⟩

/-- The children that can be signalled: forked and not reaped. -/
def State.live (s : State) (pid : Int) : Prop := pid ∈ s.forked ∧ pid ∉ s.reaped

instance decLive (s : State) (pid : Int) : Decidable (s.live pid) :=
  inferInstanceAs (Decidable (pid ∈ s.forked ∧ pid ∉ s.reaped))

inductive Act where
  /-- `fork` returns in the parent. -/
  | fork (result : Int)
  /-- The handlers are in place. -/
  | install
  | initFails
  | initDone
  /-- `wait` returns a child's pid, or -1. -/
  | wait (child : Option Int)
  /-- `if (!exit_flag) sine_exit();` under `error:` -/
  | leave
  | signal
  /-- The next statement of a call of `sine_exit`. -/
  | exitStep (k : Nat) (writeOk : Bool)
  deriving DecidableEq, Repr

/-- One statement of `sine_exit`. -/
def exitStep (s : State) (k : Nat) (writeOk : Bool) : Option State :=
  match s.runs[k]? with
  | some .flag => some { s with exitFlag := true, runs := s.runs.set k .write }
  | some .write =>
    if writeOk then some { s with runs := s.runs.set k (.test pidNum) }
    else some { s with dead := true }
  | some (.test (n + 1)) =>
    some { s with runs := s.runs.set k (if s.pids n = 0 then .test n else .kill n) }
  | some (.kill n) =>
    some { s with
      kills := s.pids n :: s.kills
      stray := s.stray || !decide (s.live (s.pids n))
      runs := s.runs.set k (.clear n) }
  | some (.clear n) =>
    some { s with pids := Function.update s.pids n 0, runs := s.runs.set k (.test n) }
  | some (.test 0) => none
  | none => none

def step (s : State) (a : Act) : Option State :=
  if s.dead then none
  else
    match a with
    | .fork result =>
      if s.main = .forking then
        if result = -1 then
          some { s with pids := Function.update s.pids s.forked.length (-1), main := .atError }
        else if 0 < result ∧ result ∉ s.forked then
          some { s with
            pids := Function.update s.pids s.forked.length result
            forked := s.forked ++ [result]
            main := if s.forked.length + 1 = pidNum then .setup else .forking }
        else none
      else none
    | .install => if s.main = .setup then some { s with handlers := true } else none
    | .initFails => if s.main = .setup then some { s with main := .atError } else none
    | .initDone =>
      if s.main = .setup ∧ s.handlers then some { s with main := .waiting } else none
    | .wait none => if s.main = .waiting then some { s with main := .atError } else none
    | .wait (some child) =>
      if s.main = .waiting ∧ s.live child then
        some { s with reaped := child :: s.reaped, main := .atError }
      else none
    | .leave =>
      if s.main = .atError then
        some { s with
          main := .joining
          runs := if s.exitFlag then s.runs else s.runs ++ [.flag] }
      else none
    | .signal => if s.handlers then some { s with runs := s.runs ++ [.flag] } else none
    | .exitStep k writeOk => exitStep s k writeOk

/-- **Only live children are signalled, and each exactly once**: `kill` was never
called with anything else, no live child was signalled twice, and when a call of
`sine_exit` has ended, every live child has been signalled. -/
def Safe (s : State) : Prop :=
  s.stray = false ∧ (∀ p, s.live p → s.kills.count p ≤ 1) ∧
    ((s.dead = true ∨ Pc.test 0 ∈ s.runs) → ∀ p, s.live p → s.kills.count p = 1)

/-- The call has tested the entry and not yet cleared it. -/
def Pc.at (pc : Pc) (n : Nat) : Prop := pc = .kill n ∨ pc = .clear n

instance decAt (pc : Pc) (n : Nat) : Decidable (pc.at n) :=
  inferInstanceAs (Decidable (pc = .kill n ∨ pc = .clear n))

/-- A step of `sine_exit` that keeps its meaning: it does not come to an entry another
call is still at, and the exit pipe can be written while there are entries left. -/
def exitOk (s : State) (k : Nat) (writeOk : Bool) : Prop :=
  match s.runs[k]? with
  | some .write => writeOk = true ∨ ∀ n < pidNum, s.pids n = 0
  | some (.test (n + 1)) => ∀ pc ∈ s.runs.eraseIdx k, ¬ pc.at n
  | _ => True

instance decExitOk (s : State) (k : Nat) (writeOk : Bool) : Decidable (exitOk s k writeOk) :=
  match h : s.runs[k]? with
  | some .write =>
    decidable_of_iff (writeOk = true ∨ ∀ n < pidNum, s.pids n = 0) (by rw [exitOk, h])
  | some (.test (n + 1)) =>
    decidable_of_iff (∀ pc ∈ s.runs.eraseIdx k, ¬ pc.at n) (by rw [exitOk, h])
  | none | some .flag | some (.test 0) | some (.kill _) | some (.clear _) =>
    isTrue (by rw [exitOk, h]; trivial)

/-- Every `fork` succeeds, and `wait` returns a child whose entry has been cleared. -/
def ok (s : State) : Act → Prop
  | .fork result => result ≠ -1
  | .wait (some child) => ∀ n < pidNum, s.pids n ≠ child
  | .exitStep k writeOk => exitOk s k writeOk
  | _ => True

instance decOk (s : State) : (a : Act) → Decidable (ok s a)
  | .fork result => inferInstanceAs (Decidable (result ≠ -1))
  | .wait (some child) => inferInstanceAs (Decidable (∀ n < pidNum, s.pids n ≠ child))
  | .exitStep k writeOk => decExitOk s k writeOk
  | .wait none | .install | .initFails | .initDone | .leave | .signal => isTrue trivial

/-! ## The invariant -/

/-- How many entries a call has still to deal with. -/
def Pc.left : Pc → Nat
  | .flag | .write => pidNum
  | .test n => n
  | .kill n | .clear n => n + 1

structure Inv (s : State) : Prop where
  early : s.main = .forking →
    s.runs = [] ∧ s.handlers = false ∧ s.reaped = [] ∧ s.kills = [] ∧ s.forked.length < pidNum
  len : s.forked.length ≤ pidNum
  nodup : s.forked.Nodup
  pos : ∀ p ∈ s.forked, 0 < p
  /-- The array holds forked pids at their own index, and 0. -/
  entry : ∀ n, s.pids n ≠ 0 → s.forked[n]? = some (s.pids n)
  /-- A child is signalled between the test of its entry and its clearing. -/
  signalled : ∀ n p, s.forked[n]? = some p →
    (s.pids n = p ∧ s.kills.count p = if Pc.clear n ∈ s.runs then 1 else 0) ∨
      (s.pids n = 0 ∧ s.kills.count p = 1)
  alone : ∀ (i j : Nat) (pc pc' : Pc) (n : Nat), s.runs[i]? = some pc →
    s.runs[j]? = some pc' → pc.at n → pc'.at n → i = j
  window : ∀ pc ∈ s.runs, ∀ n, pc.at n → s.pids n ≠ 0
  passed : ∀ pc ∈ s.runs, ∀ n, pc.left ≤ n → s.pids n = 0
  sub : ∀ p ∈ s.reaped, p ∈ s.forked
  cleared : ∀ p ∈ s.reaped, ∀ n, s.pids n ≠ p
  straight : s.stray = false
  gone : s.dead = true → ∀ n, s.pids n = 0

theorem init_inv : Inv init where
  early := fun _ => ⟨rfl, rfl, rfl, rfl, by decide⟩
  len := Nat.zero_le _
  nodup := List.nodup_nil
  pos := fun p hp => nomatch hp
  entry := fun n hn => absurd rfl hn
  signalled := fun n p hp => nomatch hp
  alone := fun i j pc pc' n hi => nomatch hi
  window := fun pc hpc => nomatch hpc
  passed := fun pc hpc => nomatch hpc
  sub := fun p hp => nomatch hp
  cleared := fun p hp => nomatch hp
  straight := rfl
  gone := fun h => nomatch h

/-- Beyond the array there is nothing. -/
theorem Inv.pids_ge {s : State} (h : Inv s) {n : Nat} (hn : s.forked.length ≤ n) :
    s.pids n = 0 := by
  by_contra hne
  have := h.entry n hne
  rw [List.getElem?_eq_none hn] at this
  cases this

theorem mem_set_of_ne {runs : List Pc} {k : Nat} {old new pc : Pc} (hk : runs[k]? = some old)
    (hne : pc ≠ old) (hm : pc ∈ runs) : pc ∈ runs.set k new := by
  obtain ⟨i, hi⟩ := List.mem_iff_getElem?.mp hm
  have hik : k ≠ i := by
    intro e
    rw [← e, hk] at hi
    exact hne (Option.some.inj hi).symm
  exact List.mem_iff_getElem?.mpr ⟨i, by rw [List.getElem?_set_ne hik]; exact hi⟩

/-- A call moves on from a statement that does not clear an entry, or to one that
does not: the others are where they were. -/
theorem clear_mem_set {runs : List Pc} {k n : Nat} {old new : Pc} (hk : runs[k]? = some old)
    (hold : old ≠ .clear n) (hnew : new ≠ .clear n) :
    Pc.clear n ∈ runs.set k new ↔ Pc.clear n ∈ runs := by
  constructor
  · intro h
    rcases List.mem_or_eq_of_mem_set h with h | h
    · exact h
    · exact absurd h.symm hnew
  · exact mem_set_of_ne hk (Ne.symm hold)

/-- The call `k` comes to a statement at which it is at entry `n` at most, where no
other call is. -/
theorem alone_set {s : State} {k : Nat} {new : Pc} (h : Inv s)
    (hat : ∀ n, new.at n → ∀ j pc, j ≠ k → s.runs[j]? = some pc → ¬ pc.at n) :
    ∀ (i j : Nat) (pc pc' : Pc) (n : Nat), (s.runs.set k new)[i]? = some pc →
      (s.runs.set k new)[j]? = some pc' → pc.at n → pc'.at n → i = j := by
  intro i j pc pc' n hi hj hpc hpc'
  rw [List.getElem?_set] at hi hj
  by_cases hki : k = i
  · by_cases hkj : k = j
    · exact hki.symm.trans hkj
    · rw [if_neg hkj] at hj
      rw [if_pos hki] at hi
      split at hi
      next =>
        cases hi
        exact absurd hpc' (hat n hpc j pc' (Ne.symm hkj) hj)
      next => cases hi
  · rw [if_neg hki] at hi
    by_cases hkj : k = j
    · rw [if_pos hkj] at hj
      split at hj
      next =>
        cases hj
        exact absurd hpc (hat n hpc' i pc (Ne.symm hki) hi)
      next => cases hj
    · rw [if_neg hkj] at hj
      exact h.alone i j pc pc' n hi hj hpc hpc'

theorem Inv.notForking {s : State} (h : Inv s) {k : Nat} {pc : Pc} (hk : s.runs[k]? = some pc) :
    s.main ≠ .forking := by
  intro hm
  rw [(h.early hm).1] at hk
  cases hk

/-- A call takes a step that signals nobody and clears nothing. -/
theorem advance_inv {s s' : State} {k : Nat} {old new : Pc} (h : Inv s)
    (hk : s.runs[k]? = some old) (hmain : s'.main = s.main) (hpids : s'.pids = s.pids)
    (hforked : s'.forked = s.forked) (hreaped : s'.reaped = s.reaped) (hkills : s'.kills = s.kills)
    (hstray : s'.stray = s.stray) (hdead : s'.dead = s.dead) (hruns : s'.runs = s.runs.set k new)
    (hold : ∀ n, old ≠ .clear n) (hnew : ∀ n, new ≠ .clear n)
    (hat : ∀ n, new.at n → s.pids n ≠ 0 ∧ ∀ j pc, j ≠ k → s.runs[j]? = some pc → ¬ pc.at n)
    (hleft : ∀ n, new.left ≤ n → s.pids n = 0) : Inv s' where
  early := fun hm => absurd (hmain.symm.trans hm) (h.notForking hk)
  len := by rw [hforked]; exact h.len
  nodup := by rw [hforked]; exact h.nodup
  pos := by rw [hforked]; exact h.pos
  entry := by rw [hforked, hpids]; exact h.entry
  signalled := by
    intro n p hp
    rw [hpids, hkills, hruns]
    simp only [clear_mem_set hk (hold n) (hnew n)]
    exact h.signalled n p (hforked ▸ hp)
  alone := by rw [hruns]; exact alone_set h fun n hn => (hat n hn).2
  window := by
    intro pc hpc n hn
    rw [hpids]
    rw [hruns] at hpc
    rcases List.mem_or_eq_of_mem_set hpc with hmem | rfl
    · exact h.window pc hmem n hn
    · exact (hat n hn).1
  passed := by
    intro pc hpc n hn
    rw [hpids]
    rw [hruns] at hpc
    rcases List.mem_or_eq_of_mem_set hpc with hmem | rfl
    · exact h.passed pc hmem n hn
    · exact hleft n hn
  sub := by rw [hreaped, hforked]; exact h.sub
  cleared := by rw [hreaped, hpids]; exact h.cleared
  straight := hstray.trans h.straight
  gone := by rw [hdead, hpids]; exact h.gone

/-- A call signals the child of the entry it has tested. -/
theorem kill_inv {s : State} {k n : Nat} (h : Inv s) (hk : s.runs[k]? = some (.kill n)) :
    Inv { s with
      kills := s.pids n :: s.kills
      stray := s.stray || !decide (s.live (s.pids n))
      runs := s.runs.set k (.clear n) } := by
  have hlt : k < s.runs.length := (List.getElem?_eq_some_iff.mp hk).1
  have hne : s.pids n ≠ 0 := h.window _ (List.mem_of_getElem? hk) n (Or.inl rfl)
  have hchild : s.forked[n]? = some (s.pids n) := h.entry n hne
  have hfirst : Pc.clear n ∉ s.runs := by
    intro hm
    obtain ⟨j, hj⟩ := List.mem_iff_getElem?.mp hm
    have hkj := h.alone k j _ _ n hk hj (Or.inl rfl) (Or.inr rfl)
    rw [← hkj, hk] at hj
    cases hj
  have hlive : s.live (s.pids n) :=
    ⟨List.mem_of_getElem? hchild, fun hr => h.cleared _ hr n rfl⟩
  refine ⟨fun hm => absurd hm (h.notForking hk), h.len, h.nodup, h.pos, h.entry, ?_, ?_, ?_, ?_,
    h.sub, h.cleared, ?_, h.gone⟩
  · intro n' p hp
    by_cases hn : n' = n
    · subst hn
      have hpp : s.pids n' = p := Option.some.inj (hchild.symm.trans hp)
      have hcount : s.kills.count p = 0 := by
        rcases h.signalled n' p hp with ⟨-, hc⟩ | ⟨h0, -⟩
        · rw [if_neg hfirst] at hc
          exact hc
        · exact absurd h0 hne
      refine Or.inl ⟨hpp, ?_⟩
      show (s.pids n' :: s.kills).count p = if Pc.clear n' ∈ s.runs.set k (.clear n') then 1 else 0
      rw [if_pos (List.mem_set hlt _), hpp, List.count_cons_self, hcount]
    · have hpp : s.pids n ≠ p := by
        intro e
        rw [e] at hchild
        have hlen : n' < s.forked.length := (List.getElem?_eq_some_iff.mp hp).1
        exact hn ((List.getElem?_inj hlen h.nodup).mp (hp.trans hchild.symm))
      rw [List.count_cons_of_ne hpp]
      simp only [clear_mem_set hk (fun e => nomatch e)
        (fun e => hn (Pc.clear.inj e).symm : Pc.clear n ≠ .clear n')]
      exact h.signalled n' p hp
  · refine alone_set h fun m hm j pc hj hpc hat => ?_
    have hmn : m = n := by
      rcases hm with e | e
      · cases e
      · exact (Pc.clear.inj e).symm
    rw [hmn] at hat
    exact hj (h.alone j k _ _ n hpc hk hat (Or.inl rfl))
  · intro pc hpc m hm
    rcases List.mem_or_eq_of_mem_set hpc with hmem | rfl
    · exact h.window pc hmem m hm
    · rcases hm with e | e
      · cases e
      · cases e
        exact hne
  · intro pc hpc m hm
    rcases List.mem_or_eq_of_mem_set hpc with hmem | rfl
    · exact h.passed pc hmem m hm
    · exact h.passed _ (List.mem_of_getElem? hk) m hm
  · show (s.stray || !decide (s.live (s.pids n))) = false
    rw [h.straight, decide_eq_true hlive]
    rfl

/-- A call clears the entry of a child it has signalled. -/
theorem clear_inv {s : State} {k n : Nat} (h : Inv s) (hk : s.runs[k]? = some (.clear n)) :
    Inv { s with pids := Function.update s.pids n 0, runs := s.runs.set k (.test n) } := by
  have hmem : Pc.clear n ∈ s.runs := List.mem_of_getElem? hk
  have hother : ∀ {m}, m ≠ n → Function.update s.pids n 0 m = s.pids m := fun hm =>
    Function.update_of_ne hm _ _
  refine ⟨fun hm => absurd hm (h.notForking hk), h.len, h.nodup, h.pos, ?_, ?_, ?_, ?_, ?_,
    h.sub, ?_, h.straight, ?_⟩
  · intro m hm
    by_cases hmn : m = n
    · rw [hmn] at hm
      exact absurd (Function.update_self n 0 s.pids) hm
    · have hm' : Function.update s.pids n 0 m ≠ 0 := hm
      show s.forked[m]? = some (Function.update s.pids n 0 m)
      rw [hother hmn] at hm' ⊢
      exact h.entry m hm'
  · intro m p hp
    by_cases hmn : m = n
    · subst hmn
      refine Or.inr ⟨Function.update_self m 0 s.pids, ?_⟩
      rcases h.signalled m p hp with ⟨-, hc⟩ | ⟨-, hc⟩
      · rw [if_pos hmem] at hc
        exact hc
      · exact hc
    · simp only [hother hmn, clear_mem_set hk (fun e => hmn (Pc.clear.inj e).symm)
        (fun e => nomatch e : Pc.test n ≠ .clear m)]
      exact h.signalled m p hp
  · refine alone_set h fun m hm => ?_
    rcases hm with e | e <;> cases e
  · intro pc hpc m hm
    rcases List.mem_or_eq_of_mem_set hpc with hold | rfl
    · have hmn : m ≠ n := by
        -- the others at entry `n` would be this call, which has left it
        intro e
        subst e
        obtain ⟨j, hj⟩ := List.mem_iff_getElem?.mp hpc
        have hkj : k ≠ j := by
          intro e
          rw [← e, List.getElem?_set_self (List.getElem?_eq_some_iff.mp hk).1] at hj
          cases hj
          rcases hm with e | e <;> cases e
        rw [List.getElem?_set_ne hkj] at hj
        exact hkj (h.alone k j _ _ m hk hj (Or.inr rfl) hm)
      show Function.update s.pids n 0 m ≠ 0
      rw [hother hmn]
      exact h.window pc hold m hm
    · rcases hm with e | e <;> cases e
  · intro pc hpc m hm
    show Function.update s.pids n 0 m = 0
    by_cases hmn : m = n
    · rw [hmn, Function.update_self]
    · rw [hother hmn]
      rcases List.mem_or_eq_of_mem_set hpc with hold | rfl
      · exact h.passed pc hold m hm
      · have hle : n ≤ m := hm
        exact h.passed _ hmem m (by show n + 1 ≤ m; omega)
  · intro p hp m
    show Function.update s.pids n 0 m ≠ p
    by_cases hmn : m = n
    · rw [hmn, Function.update_self]
      exact Int.ne_of_lt (h.pos p (h.sub p hp))
    · rw [hother hmn]
      exact h.cleared p hp m
  · intro hd m
    show Function.update s.pids n 0 m = 0
    by_cases hmn : m = n
    · rw [hmn, Function.update_self]
    · rw [hother hmn]
      exact h.gone hd m

theorem exitStep_inv {s s' : State} {k : Nat} {writeOk : Bool} (h : Inv s)
    (hok : exitOk s k writeOk) (hs : exitStep s k writeOk = some s') : Inv s' := by
  unfold exitStep at hs
  unfold exitOk at hok
  split at hs
  next hk =>
    cases hs
    refine advance_inv h hk rfl rfl rfl rfl rfl rfl rfl rfl (fun n e => nomatch e)
      (fun n e => nomatch e) ?_ fun n hn => h.passed _ (List.mem_of_getElem? hk) n hn
    rintro n (e | e) <;> cases e
  next hk =>
    rw [hk] at hok
    split at hs
    next =>
      cases hs
      refine advance_inv h hk rfl rfl rfl rfl rfl rfl rfl rfl (fun n e => nomatch e)
        (fun n e => nomatch e) ?_ fun n hn => h.passed _ (List.mem_of_getElem? hk) n hn
      rintro n (e | e) <;> cases e
    next hw =>
      cases hs
      refine ⟨h.early, h.len, h.nodup, h.pos, h.entry, h.signalled, h.alone, h.window, h.passed,
        h.sub, h.cleared, h.straight, fun _ n => ?_⟩
      by_cases hn : n < pidNum
      · exact (hok.resolve_left hw) n hn
      · exact h.passed _ (List.mem_of_getElem? hk) n (Nat.not_lt.mp hn)
  next n hk =>
    rw [hk] at hok
    cases hs
    have hrest : ∀ m, n + 1 ≤ m → s.pids m = 0 := h.passed _ (List.mem_of_getElem? hk)
    by_cases h0 : s.pids n = 0
    · rw [if_pos h0]
      refine advance_inv h hk rfl rfl rfl rfl rfl rfl rfl rfl (fun n e => nomatch e)
        (fun n e => nomatch e) ?_ fun m hm => ?_
      · rintro n (e | e) <;> cases e
      · by_cases hmn : m = n
        · rw [hmn]
          exact h0
        · have hle : n ≤ m := hm
          exact hrest m (by omega)
    · rw [if_neg h0]
      refine advance_inv h hk rfl rfl rfl rfl rfl rfl rfl rfl (fun n e => nomatch e)
        (fun n e => nomatch e) ?_ hrest
      rintro m (e | e)
      · cases e
        refine ⟨h0, fun j pc hj hpc => ?_⟩
        exact hok pc (List.mem_eraseIdx_iff_getElem?.mpr ⟨j, hj, hpc⟩)
      · cases e
  next n hk => cases hs; exact kill_inv h hk
  next n hk => cases hs; exact clear_inv h hk
  next => cases hs
  next => cases hs

/-- `fork` has returned a child. -/
theorem fork_inv {s : State} {p : Int} {main : Main} (h : Inv s) (hd : s.dead = false)
    (hm : s.main = .forking)
    (hp : 0 < p) (hnew : p ∉ s.forked)
    (hmain : main = .forking → s.forked.length + 1 < pidNum) :
    Inv { s with
      pids := Function.update s.pids s.forked.length p
      forked := s.forked ++ [p]
      main := main } := by
  obtain ⟨hruns, hhandlers, hreaped, hkills, hlen⟩ := h.early hm
  have hself : Function.update s.pids s.forked.length p s.forked.length = p :=
    Function.update_self _ _ _
  have hother : ∀ {n}, n ≠ s.forked.length →
      Function.update s.pids s.forked.length p n = s.pids n := fun hn =>
    Function.update_of_ne hn _ _
  refine ⟨fun hm' => ⟨hruns, hhandlers, hreaped, hkills, ?_⟩, ?_, ?_, ?_, ?_, ?_, ?_, ?_, ?_, ?_,
    ?_, h.straight, fun hd' => nomatch hd.symm.trans hd'⟩
  · show (s.forked ++ [p]).length < pidNum
    rw [List.length_append]
    exact hmain hm'
  · show (s.forked ++ [p]).length ≤ pidNum
    rw [List.length_append]
    exact hlen
  · refine List.Nodup.append h.nodup (List.nodup_singleton p) ?_
    intro q hq hq'
    rw [List.mem_singleton.mp hq'] at hq
    exact hnew hq
  · intro q hq
    rcases List.mem_append.mp hq with hold | hq
    · exact h.pos q hold
    · rw [List.mem_singleton.mp hq]
      exact hp
  · intro n hn
    show (s.forked ++ [p])[n]? = some (Function.update s.pids s.forked.length p n)
    by_cases he : n = s.forked.length
    · rw [he, hself, List.getElem?_concat_length]
    · have hn' : s.pids n ≠ 0 := by
        intro e
        exact hn ((hother he).trans e)
      have hold := h.entry n hn'
      rw [hother he, List.getElem?_append_left (List.getElem?_eq_some_iff.mp hold).1]
      exact hold
  · intro n q hq
    have hq' : (s.forked ++ [p])[n]? = some q := hq
    refine Or.inl ?_
    show Function.update s.pids s.forked.length p n = q ∧
      s.kills.count q = if Pc.clear n ∈ s.runs then 1 else 0
    rw [hruns, hkills, if_neg List.not_mem_nil]
    refine ⟨?_, rfl⟩
    rcases Nat.lt_trichotomy n s.forked.length with hlt | he | hgt
    · rw [hother (Nat.ne_of_lt hlt)]
      rw [List.getElem?_append_left hlt] at hq'
      rcases h.signalled n q hq' with ⟨he, -⟩ | ⟨-, hc⟩
      · exact he
      · rw [hkills] at hc
        cases hc
    · rw [he, List.getElem?_concat_length] at hq'
      rw [he, hself]
      exact Option.some.inj hq'
    · rw [List.getElem?_eq_none (by rw [List.length_append]; exact hgt)] at hq'
      cases hq'
  · intro i j pc pc' n hi
    have hi' : s.runs[i]? = some pc := hi
    rw [hruns] at hi'
    cases hi'
  · intro pc hpc
    exact absurd (hruns ▸ hpc) List.not_mem_nil
  · intro pc hpc
    exact absurd (hruns ▸ hpc) List.not_mem_nil
  · intro q hq
    exact absurd (hreaped ▸ hq) List.not_mem_nil
  · intro q hq
    exact absurd (hreaped ▸ hq) List.not_mem_nil

/-- A call of `sine_exit` begins. -/
theorem start_inv {s : State} {main : Main} (h : Inv s) (hm : main ≠ .forking) :
    Inv { s with main := main, runs := s.runs ++ [.flag] } := by
  have hclear : ∀ n, Pc.clear n ∈ s.runs ++ [Pc.flag] ↔ Pc.clear n ∈ s.runs := by
    intro n
    simp
  -- only the calls before the new one are at an entry
  have hget : ∀ {i : Nat} {pc : Pc} {n : Nat}, (s.runs ++ [Pc.flag])[i]? = some pc → pc.at n →
      s.runs[i]? = some pc := by
    intro i pc n hi hat
    rw [List.getElem?_append] at hi
    split at hi
    next => exact hi
    next =>
      have : pc = .flag := List.mem_singleton.mp (List.mem_of_getElem? hi)
      rw [this] at hat
      rcases hat with e | e <;> cases e
  refine ⟨fun hm' => absurd hm' hm, h.len, h.nodup, h.pos, h.entry, ?_, ?_, ?_, ?_, h.sub,
    h.cleared, h.straight, h.gone⟩
  · intro n p hp
    simp only [hclear]
    exact h.signalled n p hp
  · intro i j pc pc' n hi hj hpc hpc'
    exact h.alone i j pc pc' n (hget hi hpc) (hget hj hpc') hpc hpc'
  · intro pc hpc n hn
    obtain ⟨i, hi⟩ := List.mem_iff_getElem?.mp hpc
    exact h.window pc (List.mem_of_getElem? (hget hi hn)) n hn
  · intro pc hpc n hn
    rcases List.mem_append.mp hpc with hold | hnew
    · exact h.passed pc hold n hn
    · rw [List.mem_singleton.mp hnew] at hn
      exact h.pids_ge (Nat.le_trans h.len hn)

/-- `main` moves on. -/
theorem main_inv {s : State} {main : Main} {handlers : Bool} (h : Inv s) (hm : main ≠ .forking) :
    Inv { s with main := main, handlers := handlers } :=
  ⟨fun hm' => absurd hm' hm, h.len, h.nodup, h.pos, h.entry, h.signalled, h.alone, h.window,
    h.passed, h.sub, h.cleared, h.straight, h.gone⟩

theorem reap_inv {s : State} {p : Int} (h : Inv s) (hp : s.live p)
    (hcleared : ∀ n < pidNum, s.pids n ≠ p) :
    Inv { s with reaped := p :: s.reaped, main := .atError } := by
  refine ⟨fun hm => (nomatch hm), h.len, h.nodup, h.pos, h.entry, h.signalled, h.alone, h.window,
    h.passed, ?_, ?_, h.straight, h.gone⟩
  · intro q hq
    rcases List.mem_cons.mp hq with rfl | hold
    · exact hp.1
    · exact h.sub q hold
  · intro q hq n
    rcases List.mem_cons.mp hq with rfl | hold
    · by_cases hn : n < pidNum
      · exact hcleared n hn
      · rw [h.pids_ge (Nat.le_trans h.len (Nat.not_lt.mp hn))]
        exact Int.ne_of_lt (h.pos q hp.1)
    · exact h.cleared q hold n

theorem step_inv {s s' : State} {a : Act} (h : Inv s) (hok : ok s a) (hs : step s a = some s') :
    Inv s' := by
  unfold step at hs
  split at hs
  next => cases hs
  next hd =>
    have hd' : s.dead = false := Bool.eq_false_iff.mpr hd
    cases a with
    | fork result =>
      obtain ⟨hm, hforked⟩ := Option.ite_none_right_eq_some.mp hs
      rw [if_neg hok] at hforked
      obtain ⟨hg, ⟨⟩⟩ := Option.ite_none_right_eq_some.mp hforked
      refine fork_inv h hd' hm hg.1 hg.2 fun hmain => ?_
      split at hmain
      next => cases hmain
      next hne =>
        have := (h.early hm).2.2.2.2
        omega
    | install =>
      obtain ⟨hm, ⟨⟩⟩ := Option.ite_none_right_eq_some.mp hs
      exact main_inv h (by rw [hm]; exact fun e => nomatch e)
    | initFails =>
      obtain ⟨-, ⟨⟩⟩ := Option.ite_none_right_eq_some.mp hs
      exact main_inv h fun e => nomatch e
    | initDone =>
      obtain ⟨-, ⟨⟩⟩ := Option.ite_none_right_eq_some.mp hs
      exact main_inv h fun e => nomatch e
    | wait child =>
      cases child with
      | none =>
        obtain ⟨-, ⟨⟩⟩ := Option.ite_none_right_eq_some.mp hs
        exact main_inv h fun e => nomatch e
      | some p =>
        obtain ⟨hg, ⟨⟩⟩ := Option.ite_none_right_eq_some.mp hs
        exact reap_inv h hg.2 hok
    | leave =>
      obtain ⟨-, ⟨⟩⟩ := Option.ite_none_right_eq_some.mp hs
      split
      next => exact main_inv h fun e => nomatch e
      next => exact start_inv h fun e => nomatch e
    | signal =>
      obtain ⟨hh, ⟨⟩⟩ := Option.ite_none_right_eq_some.mp hs
      refine start_inv h fun hm => ?_
      rw [(h.early hm).2.1] at hh
      cases hh
    | exitStep k writeOk => exact exitStep_inv h hok hs

/-- Two entries never hold the same child, so its own entry tells what it got. -/
theorem Inv.safe {s : State} (h : Inv s) : Safe s := by
  refine ⟨h.straight, fun p hp => ?_, fun hend p hp => ?_⟩
  · obtain ⟨n, hn⟩ := List.mem_iff_getElem?.mp hp.1
    rcases h.signalled n p hn with ⟨-, hc⟩ | ⟨-, hc⟩
    · rw [hc]
      split <;> omega
    · exact Nat.le_of_eq hc
  · obtain ⟨n, hn⟩ := List.mem_iff_getElem?.mp hp.1
    have hzero : s.pids n = 0 := by
      rcases hend with hd | hdone
      · exact h.gone hd n
      · exact h.passed _ hdone n (Nat.zero_le n)
    rcases h.signalled n p hn with ⟨he, -⟩ | ⟨-, hc⟩
    · exact absurd (he.symm.trans hzero) (Int.ne_of_gt (h.pos p hp.1))
    · exact hc

/-- **Signalling is confined to live children**, over every sequence of forks, deaths,
signals and failures: if every `fork` succeeds, `wait` returns only children whose
entry is cleared, no two calls of `sine_exit` are at the same entry, and the exit
pipe can be written while entries are left, then `kill` reaches live children only
and each of them exactly once. -/
theorem safe_of_exits (as : List Act) {s : State} (hok : Meets step ok init as)
    (hr : run step init as = some s) : Safe s :=
  (run_inv step_inv as init_inv hok hr).safe

/-- The start-up loop, with the children 101 to 108. -/
def forkAll : List Act := [101, 102, 103, 104, 105, 106, 107, 108].map Act.fork

/-- A signal ends the daemon; a second one arrives when the first entry is cleared,
and `wait` returns a child that has been signalled. -/
def orderlySignal : List Act :=
  forkAll ++ [.install, .initDone, .signal] ++ List.replicate 5 (.exitStep 0 true) ++ [.signal] ++
    List.replicate 21 (.exitStep 0 true) ++ [.wait (some 104), .leave] ++
    List.replicate 10 (.exitStep 1 true)

theorem safe_of_exits_orderlySignal :
    ∃ s, run step init orderlySignal = some s ∧
      s.kills = [101, 102, 103, 104, 105, 106, 107, 108] ∧ Safe s :=
  ⟨_, rfl, rfl, safe_of_exits orderlySignal (by decide) rfl⟩

/-- A child dies, `wait` returns its pid, and `error:` is reached. -/
def childDies : List Act :=
  forkAll ++ [.install, .initDone, .wait (some 103), .leave] ++
    List.replicate 26 (.exitStep 0 true)

/-- The second `fork` fails. -/
def forkFails : List Act :=
  [.fork 101, .fork (-1), .leave] ++ List.replicate 14 (.exitStep 0 true)

/-- **`kill` reaches others.** After the death of a child its pid, which is nobody's or
somebody else's by then, is signalled; after a failed `fork` every process is. -/
theorem reaped_child_is_signalled :
    (∃ s, run step init childDies = some s ∧ 103 ∈ s.reaped ∧ 103 ∈ s.kills ∧ ¬ Safe s) ∧
      ∃ s, run step init forkFails = some s ∧ s.kills = [101, -1] ∧ ¬ Safe s := by
  constructor
  · refine ⟨_, rfl, by decide, by decide, ?_⟩
    intro h
    exact absurd h.1 (by decide)
  · refine ⟨_, rfl, by decide, ?_⟩
    intro h
    exact absurd h.1 (by decide)

end Manhattan.Sined.Children
