import Mathlib.Logic.Function.Basic
import Manhattan.Lib.Run
import Manhattan.Lib.Buffer

/-!
# The proxy's byte streams (`forward_loop`)

One thread per connection copies bytes between the client's socket and the remote
one. It waits in `select`, serves the client's side first and then the remote side,
and uses one buffer for both: `recv` fills it from the start, `send` is given what
has just been received. `send` may take fewer bytes than it was given; the loop
then writes a warning and goes on, and the next `recv` overwrites the rest.

Mirroring notes:
- `received d` is what `recv` has returned from side `d` so far, `accepted d` what
  `send` has taken of it on the other side.
- `ready` is the list of the sides `select` reported and the iteration has still to
  serve, the client first.
- `warned d` records that the warning about a partial send of bytes from `d` has
  been written; the code keeps no such record.
- `select` is called without a timeout, so its result 0 is unlikely; the branch is
  there.

A direction keeps its bytes as long as nothing is sent in it after its warning:
`faithful_of_run`. In `shortSend` something is.
-/

namespace Manhattan.Sined.Forward

open Manhattan.Lib

/-- `SOCK_BUF_SIZE` -/
def sockBufSize : Nat := 8192

inductive Side where
  | cli
  | rem
  deriving DecidableEq, Repr

/-- Why the loop was left. -/
inductive Ending where
  | exitFlag
  | error
  | closed (side : Side)
  deriving DecidableEq, Repr

inductive Phase where
  /-- At `while (!exit_flag)`. -/
  | top
  | selecting
  /-- Before the `recv` of the first ready side. -/
  | serving (side : Side) (ready : List Side)
  /-- `len` bytes from `side` are in the buffer. -/
  | sending (side : Side) (len : Nat) (ready : List Side)
  | ended (why : Ending)
  deriving DecidableEq, Repr

inductive Selected where
  | failed
  | timeout
  | ready (cli rem : Bool)
  deriving DecidableEq, Repr

inductive Received where
  | failed
  | closed
  | data (bs : List UInt8)
  deriving DecidableEq, Repr

structure State where
  exitFlag : Bool
  phase : Phase
  buf : Mem
  received : Side → List UInt8
  accepted : Side → List UInt8
  warned : Side → Bool

/-- The thread's start, on whatever its stack holds. -/
def init (buf : Mem) : State := ⟨false, .top, buf, fun _ => [], fun _ => [], fun _ => false⟩

inductive Act where
  /-- `sine_exit` in another thread. -/
  | setExit
  /-- The loop's condition. -/
  | test
  | select (result : Selected)
  | recv (result : Received)
  | send (result : Int)
  deriving DecidableEq, Repr

/-- The next ready side, or the loop's condition again. -/
def Phase.next : List Side → Phase
  | [] => .top
  | side :: ready => .serving side ready

/-- `FD_ISSET`, the client first. -/
def readySides (cli rem : Bool) : List Side :=
  (if cli then [Side.cli] else []) ++ (if rem then [Side.rem] else [])

def step (s : State) : Act → Option State
  | .setExit => some { s with exitFlag := true }
  | .test =>
    match s.phase with
    | .top => some { s with phase := if s.exitFlag then .ended .exitFlag else .selecting }
    | _ => none
  | .select result =>
    match s.phase, result with
    | .selecting, .failed => some { s with phase := .ended .error }
    | .selecting, .timeout => some { s with phase := .top }
    | .selecting, .ready cli rem => some { s with phase := .next (readySides cli rem) }
    | _, _ => none
  | .recv result =>
    match s.phase, result with
    | .serving _ _, .failed => some { s with phase := .ended .error }
    | .serving side _, .closed => some { s with phase := .ended (.closed side) }
    | .serving side ready, .data bs =>
      if 0 < bs.length ∧ bs.length ≤ sockBufSize then
        some { s with
          phase := .sending side bs.length ready
          buf := overlay bs s.buf
          received := Function.update s.received side (s.received side ++ bs) }
      else none
    | _, _ => none
  | .send result =>
    match s.phase with
    | .sending side len ready =>
      if result ≤ 0 then some { s with phase := .ended .error }
      else if result ≤ len then
        some { s with
          phase := .next ready
          accepted := Function.update s.accepted side
            (s.accepted side ++ slice s.buf 0 result.toNat)
          -- `if (r != len) log_warn("sending exception - %d/%d", r, len)`
          warned := Function.update s.warned side (s.warned side || decide (result ≠ len)) }
      else none
    | _ => none

/-- **The streams are preserved.** In both directions the accepted bytes are a prefix
of the received ones, and all of them if the loop ended because that side closed. -/
def Faithful (s : State) : Prop :=
  ∀ d, s.accepted d <+: s.received d ∧
    (s.phase = .ended (.closed d) → s.accepted d = s.received d)

/-- The side that is being served. -/
def State.current (s : State) : Option Side :=
  match s.phase with
  | .serving side _ => some side
  | .sending side _ _ => some side
  | _ => none

/-- After a partial send of bytes from one side, no more bytes of that side are sent
and that side does not close. -/
def ok (s : State) : Act → Prop
  | .recv .closed => ∀ d ∈ s.current, s.warned d = false
  | .send result => 0 < result → ∀ d ∈ s.current, s.warned d = false
  | _ => True

instance decOk (s : State) : (a : Act) → Decidable (ok s a)
  | .recv .closed => inferInstanceAs (Decidable (∀ d ∈ s.current, s.warned d = false))
  | .send result => inferInstanceAs (Decidable (0 < result → ∀ d ∈ s.current, s.warned d = false))
  | .recv .failed | .recv (.data _) | .setExit | .test | .select _ => isTrue trivial

/-! ## The invariant -/

/-- What has been received from `d` and is waiting to be sent. -/
def State.held (s : State) (d : Side) : List UInt8 :=
  match s.phase with
  | .sending side len _ => if side = d then slice s.buf 0 len else []
  | _ => []

/-- One direction: nothing is out of order, and nothing is missing before the first
warning, unless the loop has been left on an error. -/
structure Kept (s : State) (d : Side) : Prop where
  ordered : s.accepted d <+: s.received d
  complete : s.warned d = false → s.phase ≠ .ended .error →
    s.accepted d ++ s.held d = s.received d
  quiet : s.phase = .ended (.closed d) → s.warned d = false

def Inv (s : State) : Prop := ∀ d, Kept s d

theorem init_inv (buf : Mem) : Inv (init buf) := by
  intro d
  exact ⟨List.prefix_refl _, fun _ _ => rfl, fun h => nomatch h⟩

theorem held_next {s : State} {ready : List Side} (h : s.phase = .next ready) (d : Side) :
    s.held d = [] := by
  unfold State.held
  rw [h]
  cases ready <;> rfl

theorem next_ne_ended (ready : List Side) (why : Ending) : Phase.next ready ≠ .ended why := by
  cases ready <;> exact fun h => nomatch h

/-- A step that moves the loop on and no bytes: nothing was waiting to be sent and
nothing is afterwards. -/
theorem move_inv {s s' : State} (h : Inv s) (hr : s'.received = s.received)
    (ha : s'.accepted = s.accepted) (hw : s'.warned = s.warned)
    (hheld : ∀ d, s.held d = []) (hheld' : ∀ d, s'.held d = [])
    (herr : s.phase ≠ .ended .error)
    (hclosed : ∀ d, s'.phase = .ended (.closed d) → s.warned d = false) : Inv s' := by
  intro d
  refine ⟨?_, ?_, ?_⟩
  · rw [hr, ha]
    exact (h d).ordered
  · intro hwd _
    rw [hw] at hwd
    have := (h d).complete hwd herr
    rw [hheld d] at this
    rw [hr, ha, hheld' d]
    exact this
  · intro hp
    rw [hw]
    exact hclosed d hp

/-- An error ends the loop, whatever was waiting to be sent. -/
theorem fail_inv {s : State} (h : Inv s) : Inv { s with phase := .ended .error } := by
  intro d
  exact ⟨(h d).ordered, fun _ hne => absurd rfl hne, fun hp => nomatch hp⟩

theorem recv_inv {s : State} {side : Side} {ready : List Side} {bs : List UInt8} (h : Inv s)
    (hp : s.phase = .serving side ready) :
    Inv { s with
      phase := .sending side bs.length ready
      buf := overlay bs s.buf
      received := Function.update s.received side (s.received side ++ bs) } := by
  have hheld : ∀ d, s.held d = [] := by
    intro d
    unfold State.held
    rw [hp]
  intro d
  by_cases hd : side = d
  · subst hd
    refine ⟨?_, ?_, fun hp' => nomatch hp'⟩
    · show s.accepted side <+: Function.update s.received side (s.received side ++ bs) side
      rw [Function.update_self]
      exact (h side).ordered.trans (List.prefix_append _ _)
    · intro hw _
      have hold := (h side).complete hw (by rw [hp]; exact fun e => nomatch e)
      rw [hheld side, List.append_nil] at hold
      show s.accepted side ++ (if side = side then slice (overlay bs s.buf) 0 bs.length else []) =
        Function.update s.received side (s.received side ++ bs) side
      rw [if_pos rfl, Function.update_self, hold, slice_overlay (by omega), List.drop_zero,
        List.take_length]
  · have hne : d ≠ side := fun e => hd e.symm
    refine ⟨?_, ?_, fun hp' => nomatch hp'⟩
    · show s.accepted d <+: Function.update s.received side (s.received side ++ bs) d
      rw [Function.update_of_ne hne]
      exact (h d).ordered
    · intro hw _
      have hold := (h d).complete hw (by rw [hp]; exact fun e => nomatch e)
      rw [hheld d] at hold
      show s.accepted d ++ (if side = d then slice (overlay bs s.buf) 0 bs.length else []) =
        Function.update s.received side (s.received side ++ bs) d
      rw [if_neg hd, Function.update_of_ne hne]
      exact hold

theorem send_inv {s : State} {side : Side} {len : Nat} {ready : List Side} {result : Int}
    (h : Inv s) (hp : s.phase = .sending side len ready) (hw : s.warned side = false)
    (hpos : ¬ result ≤ 0) (hle : result ≤ len) :
    Inv { s with
      phase := .next ready
      accepted := Function.update s.accepted side (s.accepted side ++ slice s.buf 0 result.toNat)
      warned := Function.update s.warned side (s.warned side || decide (result ≠ len)) } := by
  have hrun : s.phase ≠ .ended .error := by rw [hp]; exact fun e => nomatch e
  intro d
  by_cases hd : side = d
  · subst hd
    have hall : s.accepted side ++ slice s.buf 0 len = s.received side := by
      have := (h side).complete hw hrun
      unfold State.held at this
      rw [hp] at this
      simpa using this
    refine ⟨?_, ?_, fun hp' => absurd hp' (next_ne_ended _ _)⟩
    · show Function.update s.accepted side _ side <+: s.received side
      rw [Function.update_self, ← hall]
      exact (List.prefix_append_right_inj _).mpr (slice_take _ _ (by omega))
    · intro hw' _
      -- no new warning, so everything was taken
      have hlen : result = len := by
        have : (s.warned side || decide (result ≠ len)) = false := by
          simpa only [Function.update_self] using hw'
        rw [hw] at this
        simpa using this
      show Function.update s.accepted side _ side ++ _ = s.received side
      rw [Function.update_self, held_next rfl, List.append_nil, ← hall, hlen, Int.toNat_natCast]
  · have hne : d ≠ side := fun e => hd e.symm
    refine ⟨?_, ?_, fun hp' => absurd hp' (next_ne_ended _ _)⟩
    · show Function.update s.accepted side _ d <+: s.received d
      rw [Function.update_of_ne hne]
      exact (h d).ordered
    · intro hw' _
      have hwd : s.warned d = false := by simpa only [Function.update_of_ne hne] using hw'
      have hold := (h d).complete hwd hrun
      unfold State.held at hold
      rw [hp] at hold
      simp only [if_neg hd, List.append_nil] at hold
      show Function.update s.accepted side _ d ++ _ = s.received d
      rw [Function.update_of_ne hne, held_next rfl, List.append_nil]
      exact hold

theorem step_inv {s s' : State} {a : Act} (h : Inv s) (hok : ok s a) (hs : step s a = some s') :
    Inv s' := by
  cases a with
  | setExit => cases hs; exact fun d => ⟨(h d).ordered, (h d).complete, (h d).quiet⟩
  | test =>
    simp only [step] at hs
    split at hs
    next hp =>
      cases hs
      refine move_inv h rfl rfl rfl (fun d => by rw [State.held, hp]) (fun d => ?_)
        (by rw [hp]; exact fun e => nomatch e) fun d hd => ?_
      · cases hx : s.exitFlag <;> rfl
      · cases hx : s.exitFlag <;> rw [hx] at hd <;> cases hd
    next => cases hs
  | select result =>
    simp only [step] at hs
    split at hs
    next hp => cases hs; exact fail_inv h
    next hp =>
      cases hs
      exact move_inv h rfl rfl rfl (fun d => by rw [State.held, hp]) (fun _ => rfl)
        (by rw [hp]; exact fun e => nomatch e) fun d hd => nomatch hd
    next cli rem hp =>
      cases hs
      exact move_inv h rfl rfl rfl (fun d => by rw [State.held, hp]) (fun _ => held_next rfl _)
        (by rw [hp]; exact fun e => nomatch e) fun d hd => absurd hd (next_ne_ended _ _)
    next => cases hs
  | recv result =>
    simp only [step] at hs
    split at hs
    next => cases hs; exact fail_inv h
    next side ready hp =>
      cases hs
      refine move_inv h rfl rfl rfl (fun d => by rw [State.held, hp]) (fun _ => rfl)
        (by rw [hp]; exact fun e => nomatch e) fun d hd => ?_
      cases hd
      exact hok side (by rw [State.current, hp]; rfl)
    next side ready bs hp =>
      split at hs
      next => cases hs; exact recv_inv h hp
      next => cases hs
    next => cases hs
  | send result =>
    simp only [step] at hs
    split at hs
    next side len ready hp =>
      split at hs
      next => cases hs; exact fail_inv h
      next hpos =>
        split at hs
        next hle =>
          cases hs
          exact send_inv h hp (hok (by omega) side (by rw [State.current, hp]; rfl)) hpos hle
        next => cases hs
    next => cases hs

theorem Inv.faithful {s : State} (h : Inv s) : Faithful s := by
  intro d
  refine ⟨(h d).ordered, fun hp => ?_⟩
  have hall := (h d).complete ((h d).quiet hp) (by rw [hp]; exact fun e => nomatch e)
  unfold State.held at hall
  rw [hp, List.append_nil] at hall
  exact hall

/-- **Byte streams through the proxy**, for every sequence of `select`, `recv` and
`send` results: as long as nothing is sent from a side after a partial send of that
side's bytes, and that side does not close after one, both streams arrive in order
and, if their sender closed, in full. -/
theorem faithful_of_run (buf : Mem) (as : List Act) {s : State}
    (hok : Meets step ok (init buf) as) (hr : run step (init buf) as = some s) : Faithful s :=
  (run_inv step_inv as (init_inv buf) hok hr).faithful

/-- Both sides talk; the last send to the remote side is cut short, and the remote
side closes. -/
def bothTalk : List Act :=
  [.test, .select (.ready true true), .recv (.data [71, 69, 84]), .send 3,
   .recv (.data [79, 75]), .send 2, .test, .select (.ready true false),
   .recv (.data [88, 89]), .send 1, .test, .select (.ready false true), .recv .closed]

theorem faithful_of_run_bothTalk :
    ∃ s, run step (init fun _ => 0) bothTalk = some s ∧ s.phase = .ended (.closed .rem) ∧
      s.accepted .rem = [79, 75] ∧ s.accepted .cli = [71, 69, 84, 88] ∧ Faithful s :=
  ⟨_, rfl, rfl, rfl, rfl, faithful_of_run _ bothTalk (by decide) rfl⟩

/-- The remote socket takes one of three bytes, and then the client's next one. -/
def shortSend : List Act :=
  [.test, .select (.ready true false), .recv (.data [1, 2, 3]), .send 1, .test,
   .select (.ready true false), .recv (.data [4]), .send 1, .test,
   .select (.ready true false), .recv .closed]

/-- **A partial send loses bytes.** The remote side has got `1 4` of `1 2 3 4`. -/
theorem short_send_loses_bytes :
    ∃ s, run step (init fun _ => 0) shortSend = some s ∧ s.received .cli = [1, 2, 3, 4] ∧
      s.accepted .cli = [1, 4] ∧ s.phase = .ended (.closed .cli) ∧ ¬ Faithful s := by
  refine ⟨_, rfl, rfl, rfl, rfl, ?_⟩
  intro h
  exact absurd (h .cli).1 (by decide)

end Manhattan.Sined.Forward
