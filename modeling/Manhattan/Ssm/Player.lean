import Mathlib.Data.List.Nodup
import Mathlib.Logic.Function.Basic
import Manhattan.Lib.Run

/-!
# The session-mobility player (`ssm/vlc.c`)

A device plays a medium and can hand the display over to another: `forward` asks the other
device to open it and, on its answer, closes its own; `back` asks it to stop and opens the
own one again. The player is the global `mp`. `local_display` makes a player and stores it
there, whatever was there before; `close_display` releases the one that is there. A second
`open`, a `back` without a `forward` or two `forward`s to one device overwrite a pointer
to a player that is never released.

`one_display_iff` is the exact condition: a run leaves at most one player on each device exactly
if every `local_display` of the run found `mp` to be `NULL`.

Mirroring notes:
- A device is one thread. While it waits in `recv` for an answer it serves nobody; the
  connections that others open meanwhile wait in its backlog.
- A message or an answer is received as it was sent, or the connection fails. A failed
  `recv` of the asking device does not take back what it has asked for.
- `open_media` and the broadcast are not modelled beyond success or failure. A player that
  libvlc cannot make is a null pointer.
-/

namespace Manhattan.Ssm

open Manhattan.Lib

/-! ## The display of one device -/

/-- `mp`, and the players that were created and not yet released; the next one is named by
how many there were. -/
structure Display where
  mp : Option Nat
  live : List Nat
  created : Nat
  deriving DecidableEq, Repr

/-- `local_display`; `made` is whether libvlc makes the player. -/
def localDisplay (made : Bool) (p : Display) : Display :=
  if made then ⟨some p.created, p.live ++ [p.created], p.created + 1⟩ else { p with mp := none }

/-- `close_display` -/
def closeDisplay (p : Display) : Display :=
  match p.mp with
  | none => p
  | some player => { p with mp := none, live := p.live.erase player }

/-- One player if `mp` is not `NULL`, none otherwise. -/
def Tidy (p : Display) : Prop := p.live.length = if p.mp.isSome then 1 else 0

/-- `mp` is a player that is alive. -/
structure Display.Inv (p : Display) : Prop where
  nodup : p.live.Nodup
  lt : ∀ player ∈ p.live, player < p.created
  mp : ∀ player ∈ p.mp, player ∈ p.live

section

variable {p : Display}

theorem Display.Inv.localDisplay (h : p.Inv) (made : Bool) : (localDisplay made p).Inv := by
  cases made with
  | false => exact ⟨h.nodup, h.lt, fun player hmp => absurd hmp (Option.not_mem_none player)⟩
  | true =>
    have hfresh : p.created ∉ p.live := fun hmem => absurd (h.lt _ hmem) (Nat.lt_irrefl _)
    refine ⟨?_, ?_, ?_⟩
    · exact h.nodup.append (List.nodup_singleton _) (by simpa using hfresh)
    · intro player hmem
      rcases List.mem_append.mp hmem with hold | hnew
      · exact Nat.lt_succ_of_lt (h.lt player hold)
      · rw [List.mem_singleton.mp hnew]
        exact Nat.lt_succ_self _
    · intro player hmp
      rw [← Option.mem_some.mp hmp]
      exact List.mem_append_right _ List.mem_cons_self

theorem Display.Inv.closeDisplay (h : p.Inv) : (closeDisplay p).Inv := by
  unfold Ssm.closeDisplay
  split
  next => exact h
  next player hmp =>
    refine ⟨h.nodup.erase player, ?_, fun q hq => absurd hq (Option.not_mem_none q)⟩
    exact fun q hq => h.lt q (List.mem_of_mem_erase hq)

/-- A display with no player alive has no `mp`. -/
theorem Display.Inv.mp_none (h : p.Inv) (hlive : p.live.length = 0) : p.mp = none := by
  cases hmp : p.mp with
  | none => rfl
  | some player =>
    have hmem := h.mp player hmp
    rw [List.length_eq_zero_iff.mp hlive] at hmem
    cases hmem

/-- **Where a player is lost.** `local_display` keeps the display tidy exactly if there was
no player. -/
theorem tidy_localDisplay (h : p.Inv) (made : Bool) :
    Tidy (localDisplay made p) ↔ Tidy p ∧ p.mp = none := by
  have hiff : Tidy p ∧ p.mp = none ↔ p.live.length = 0 := by
    constructor
    · rintro ⟨htidy, hmp⟩
      rw [Tidy, hmp] at htidy
      exact htidy
    · intro hlive
      have hmp := h.mp_none hlive
      exact ⟨by rw [Tidy, hmp]; exact hlive, hmp⟩
  rw [hiff]
  cases made with
  | false => exact Iff.rfl
  | true =>
    -- the new player is the only one if there was none
    show (p.live ++ [p.created]).length = 1 ↔ _
    rw [List.length_append, List.length_singleton]
    omega

theorem tidy_closeDisplay (h : p.Inv) : Tidy (closeDisplay p) ↔ Tidy p := by
  unfold closeDisplay
  split
  next => exact Iff.rfl
  next player hmp =>
    have hmem := h.mp player hmp
    have hpos := List.length_pos_of_mem hmem
    show (p.live.erase player).length = 0 ↔ p.live.length = if p.mp.isSome then 1 else 0
    rw [hmp, List.length_erase_of_mem hmem]
    show _ ↔ p.live.length = 1
    omega

theorem closeDisplay_live (h : p.Inv) (ht : Tidy p) : (closeDisplay p).live = [] := by
  have ht' := (tidy_closeDisplay h).mpr ht
  have hnone : (closeDisplay p).mp = none := by
    unfold closeDisplay
    split
    next hmp => exact hmp
    next => rfl
  rw [Tidy, hnone] at ht'
  exact List.length_eq_zero_iff.mp ht'

end

/-! ## Two devices -/

inductive Dev where
  | one
  | two
  deriving DecidableEq, Repr

/-- The texts `"open"` and `"stop"`. -/
inductive Msg where
  | openMsg
  | stopMsg
  deriving DecidableEq, Repr

/-- What a device does with the answer it waits for. -/
inductive Command where
  | forward
  | back
  deriving DecidableEq, Repr

inductive Phase where
  /-- In `select`. -/
  | idle
  /-- In `recv` of `handle_user_input`, on this connection. -/
  | waiting (command : Command) (conn : Nat)
  deriving DecidableEq, Repr

structure Device where
  display : Display
  /-- `sa_device`, once a `forward` has set it. -/
  saDevice : Option Dev
  phase : Phase
  deriving DecidableEq, Repr

structure State where
  device : Dev → Device
  /-- The connections a device has not accepted yet, with the message sent on each. -/
  backlog : Dev → List (Nat × Msg)
  /-- The connections on which an answer `"1"` waits. -/
  answers : List Nat
  conns : Nat

def init : State := ⟨fun _ => ⟨⟨none, [], 0⟩, none, .idle⟩, fun _ => [], [], 0⟩

inductive Act where
  /-- `open`, with the results of `open_media` and of making the player. -/
  | userOpen (d : Dev) (media made : Bool)
  /-- `forward`, with the result of `connect`. -/
  | userForward (d target : Dev) (connected : Bool)
  | userStop (d : Dev)
  | userBack (d : Dev) (connected : Bool)
  /-- `handle_network_input`: whether the player is made, and the answer sent. -/
  | serve (d : Dev) (made sent : Bool)
  /-- `handle_network_input` of a connection that fails. -/
  | hangUp (d : Dev)
  /-- `recv` returns the answer. -/
  | answer (d : Dev) (made : Bool)
  /-- `recv` fails. -/
  | giveUp (d : Dev)
  deriving DecidableEq, Repr

def State.put (s : State) (d : Dev) (dev : Device) : State :=
  { s with device := Function.update s.device d dev }

/-- The display of a device changes. -/
def State.onDisplay (s : State) (d : Dev) (f : Display → Display) : State :=
  s.put d { s.device d with display := f (s.device d).display }

def State.enter (s : State) (d : Dev) (phase : Phase) : State :=
  s.put d { s.device d with phase }

/-- Only a device in `select` looks at its input. -/
def whenIdle (s : State) (d : Dev) (next : Option State) : Option State :=
  if (s.device d).phase = .idle then next else none

/-- Connect to `target`, send `msg`, and wait for the answer. -/
def ask (s : State) (d target : Dev) (msg : Msg) (command : Command) : State :=
  { s.enter d (.waiting command s.conns) with
    backlog := Function.update s.backlog target (s.backlog target ++ [(s.conns, msg)])
    conns := s.conns + 1 }

/-- What a message does to the display of the device that receives it. -/
def onMsg (made : Bool) : Msg → Display → Display
  | .openMsg => localDisplay made
  | .stopMsg => closeDisplay

/-- What an answer does to the display of the device that has asked. -/
def onAnswer (made : Bool) : Command → Display → Display
  | .forward => closeDisplay
  | .back => localDisplay made

def step (s : State) : Act → Option State
  | .userOpen d media made =>
    whenIdle s d (some (if media then s.onDisplay d (localDisplay made) else s))
  | .userForward d target connected =>
    let s' := s.put d { s.device d with saDevice := some target }
    whenIdle s d (some (if connected then ask s' d target .openMsg .forward else s'))
  | .userStop d => whenIdle s d (some (s.onDisplay d closeDisplay))
  | .userBack d connected =>
    whenIdle s d (some (match (s.device d).saDevice with
      | some target => if connected then ask s d target .stopMsg .back else s
      | none => s))
  | .serve d made sent =>
    match s.backlog d with
    | [] => none
    | (conn, msg) :: rest =>
      whenIdle s d (some { s.onDisplay d (onMsg made msg) with
        backlog := Function.update s.backlog d rest
        answers := if sent then conn :: s.answers else s.answers })
  | .hangUp d => whenIdle s d (some { s with
      backlog := Function.update s.backlog d (s.backlog d).tail })
  | .answer d made =>
    match (s.device d).phase with
    | .idle => none
    | .waiting command conn =>
      if conn ∈ s.answers then
        some { (s.onDisplay d (onAnswer made command)).enter d .idle with
          answers := s.answers.erase conn }
      else none
  | .giveUp d => if (s.device d).phase = .idle then none else some (s.enter d .idle)

/-- The device on which the action calls `local_display`. -/
def opens (s : State) : Act → Option Dev
  | .userOpen d media _ => if media then some d else none
  | .serve d _ _ =>
    match s.backlog d with
    | (_, .openMsg) :: _ => some d
    | _ => none
  | .answer d _ =>
    match (s.device d).phase with
    | .waiting .back _ => some d
    | _ => none
  | _ => none

/-- `local_display` is called only where `mp` is `NULL`. -/
def ok (s : State) (a : Act) : Prop := ∀ d ∈ opens s a, (s.device d).display.mp = none

instance decOk (s : State) (a : Act) : Decidable (ok s a) :=
  inferInstanceAs (Decidable (∀ d ∈ opens s a, (s.device d).display.mp = none))

/-! ## What a step does to the displays -/

section

variable {s s' : State} {a : Act} {d d' : Dev}

def State.display (s : State) (d : Dev) : Display := (s.device d).display

theorem put_display {dev : Device} :
    (s.put d dev).display d' = if d' = d then dev.display else s.display d' := by
  show (Function.update s.device d dev d').display = _
  by_cases h : d' = d
  · rw [if_pos h, h, Function.update_self]
  · rw [if_neg h, Function.update_of_ne h]
    rfl

theorem onDisplay_display {f : Display → Display} :
    (s.onDisplay d f).display d' = if d' = d then f (s.display d') else s.display d' := by
  rw [State.onDisplay, put_display]
  by_cases h : d' = d
  · rw [if_pos h, if_pos h, h]
    rfl
  · rw [if_neg h, if_neg h]

/-- Only the display of a device counts here. -/
theorem put_display_same {dev : Device} (h : dev.display = s.display d) :
    (s.put d dev).display d' = s.display d' := by
  rw [put_display]
  split
  case isTrue heq => rw [h, heq]
  case isFalse => rfl

theorem ask_display {target : Dev} {msg : Msg} {command : Command} :
    (ask s d target msg command).display d' = s.display d' :=
  put_display_same rfl

theorem whenIdle_some {next : Option State} (h : whenIdle s d next = some s') :
    next = some s' := by
  unfold whenIdle at h
  split at h
  case isTrue => exact h
  case isFalse => cases h

/-- What becomes of the display of `d`: a new one if the step opens one there, otherwise
it stays or is closed. -/
def Becomes (s : State) (a : Act) (s' : State) (d : Dev) : Prop :=
  (opens s a = some d ∧ ∃ made, s'.display d = localDisplay made (s.display d)) ∨
  (opens s a ≠ some d ∧
    (s'.display d = s.display d ∨ s'.display d = closeDisplay (s.display d)))

theorem becomes_same (hopens : opens s a = none) (h : s'.display d = s.display d) :
    Becomes s a s' d :=
  .inr ⟨by rw [hopens]; simp, .inl h⟩

theorem becomes_closed {e : Dev} (hopens : opens s a = none)
    (h : s'.display d = (s.onDisplay e closeDisplay).display d) : Becomes s a s' d := by
  refine .inr ⟨by rw [hopens]; simp, ?_⟩
  rw [h, onDisplay_display]
  split
  case isTrue => exact .inr rfl
  case isFalse => exact .inl rfl

theorem becomes_opened {e : Dev} {made : Bool} (hopens : opens s a = some e)
    (h : s'.display d = (s.onDisplay e (localDisplay made)).display d) : Becomes s a s' d := by
  rw [onDisplay_display] at h
  by_cases hd : d = e
  · rw [if_pos hd] at h
    exact .inl ⟨hd ▸ hopens, made, h⟩
  · rw [if_neg hd] at h
    refine .inr ⟨?_, .inl h⟩
    rw [hopens]
    exact fun heq => hd (Option.some.inj heq).symm

/-- **One step.** -/
theorem step_display (h : step s a = some s') (d : Dev) : Becomes s a s' d := by
  cases a with
  | userOpen e media made =>
    cases whenIdle_some h
    cases media with
    | false => exact becomes_same rfl rfl
    | true => exact becomes_opened rfl rfl
  | userForward e target connected =>
    -- the own display stays until the answer comes
    cases whenIdle_some h
    refine becomes_same rfl ?_
    split
    case isTrue => exact ask_display.trans (put_display_same rfl)
    case isFalse => exact put_display_same rfl
  | userStop e =>
    cases whenIdle_some h
    exact becomes_closed rfl rfl
  | userBack e connected =>
    cases whenIdle_some h
    refine becomes_same rfl ?_
    split
    next =>
      split
      case isTrue => exact ask_display
      case isFalse => rfl
    next => rfl
  | serve e made sent =>
    simp only [step] at h
    split at h
    next => cases h
    next conn msg rest hbacklog =>
      cases whenIdle_some h
      cases msg with
      | openMsg => exact becomes_opened (by simp only [opens, hbacklog]) rfl
      | stopMsg => exact becomes_closed (by simp only [opens, hbacklog]) rfl
  | hangUp e =>
    cases whenIdle_some h
    exact becomes_same rfl rfl
  | answer e made =>
    simp only [step] at h
    split at h
    next => cases h
    next command conn hphase =>
      split at h
      case isTrue =>
        cases h
        cases command with
        | forward => exact becomes_closed (by simp only [opens, hphase]) (put_display_same rfl)
        | back => exact becomes_opened (by simp only [opens, hphase]) (put_display_same rfl)
      case isFalse => cases h
  | giveUp e =>
    -- `recv` has failed; what was asked for may still happen on the other device
    simp only [step] at h
    split at h
    case isTrue => cases h
    case isFalse =>
      cases h
      exact becomes_same rfl (put_display_same rfl)

theorem step_inv (hinv : ∀ d, (s.display d).Inv) (h : step s a = some s') (d : Dev) :
    (s'.display d).Inv := by
  rcases step_display h d with ⟨-, made, hd⟩ | ⟨-, hd | hd⟩
  · exact hd ▸ (hinv d).localDisplay made
  · exact hd ▸ hinv d
  · exact hd ▸ (hinv d).closeDisplay

theorem step_tidy (hinv : ∀ d, (s.display d).Inv) (h : step s a = some s') (d : Dev) :
    Tidy (s'.display d) ↔ Tidy (s.display d) ∧ (opens s a = some d → (s.display d).mp = none) := by
  rcases step_display h d with ⟨hopens, made, hd⟩ | ⟨hopens, hd | hd⟩
  · rw [hd, tidy_localDisplay (hinv d) made]
    simp [hopens]
  · rw [hd]
    simp [hopens]
  · rw [hd, tidy_closeDisplay (hinv d)]
    simp [hopens]

theorem step_tidy_all (hinv : ∀ d, (s.display d).Inv) (h : step s a = some s') :
    (∀ d, Tidy (s'.display d)) ↔ (∀ d, Tidy (s.display d)) ∧ ok s a :=
  (forall_congr' (step_tidy hinv h)).trans forall_and

end

/-! ## Whole runs -/

/-- What a device promises: one player if `mp` is not `NULL` and none otherwise, none after
`close_display`, and none after an answered `forward`. -/
structure Promise (s : State) (d : Dev) : Prop where
  tidy : Tidy (s.display d)
  close : (closeDisplay (s.display d)).live = []
  forward : ∀ conn made s', (s.device d).phase = .waiting .forward conn →
    step s (.answer d made) = some s' → (s'.display d).live = []

theorem promise_iff {s : State} (hinv : ∀ d, (s.display d).Inv) (d : Dev) :
    Promise s d ↔ Tidy (s.display d) := by
  refine ⟨Promise.tidy, fun ht => ?_⟩
  have hclose := closeDisplay_live (hinv d) ht
  refine ⟨ht, hclose, fun conn made s' hphase hs => ?_⟩
  simp only [step, hphase] at hs
  split at hs
  case isTrue =>
    cases hs
    show (((s.onDisplay d closeDisplay).enter d .idle).display d).live = []
    have hdisplay : ((s.onDisplay d closeDisplay).enter d .idle).display d =
        closeDisplay (s.display d) := by
      refine Eq.trans (put_display_same rfl) ?_
      exact onDisplay_display.trans (if_pos rfl)
    rw [hdisplay, hclose]
  case isFalse => cases hs

theorem init_inv (d : Dev) : (init.display d).Inv where
  nodup := List.nodup_nil
  lt := fun _ hmem => absurd hmem List.not_mem_nil
  mp := fun player hmp => absurd hmp (Option.not_mem_none player)

/-- **At most one display per device, exactly if** `local_display` never finds one. -/
theorem one_display_iff (acts : List Act) (s : State) (hr : run step init acts = some s) :
    (∀ d, Promise s d) ↔ Meets step ok init acts := by
  have hinv : ∀ d, (s.display d).Inv :=
    run_inv_all (I := fun s => ∀ d, (s.display d).Inv) step_inv acts init_inv hr
  have hrun := run_iff (I := fun s => ∀ d, (s.display d).Inv)
    (P := fun s => ∀ d, Tidy (s.display d)) step_inv step_tidy_all acts init_inv hr
  rw [forall_congr' (promise_iff hinv), hrun]
  exact and_iff_right fun d => rfl

/-- Device one opens a medium, hands the display over, and takes it back. -/
def thereAndBack : List Act :=
  [.userOpen .one true true, .userForward .one .two true, .serve .two true true,
   .answer .one true, .userBack .one true, .serve .two true true, .answer .one true]

theorem one_display_iff_thereAndBack :
    ∃ s, run step init thereAndBack = some s ∧ (∀ d, Promise s d) ∧
      (s.display .one).live = [1] ∧ (s.display .two).live = [] :=
  ⟨_, rfl, (one_display_iff thereAndBack _ rfl).mpr (by decide), rfl, rfl⟩

/-- **A second `open` loses a player**: there are two, and `close_display` leaves one. -/
theorem second_open_leaks :
    ∃ s, run step init [.userOpen .one true true, .userOpen .one true true] = some s ∧
      (s.display .one).live.length = 2 ∧ (closeDisplay (s.display .one)).live.length = 1 ∧
      ¬ Promise s .one :=
  ⟨_, rfl, rfl, rfl, fun h => absurd (show 2 = 1 from h.tidy) (by decide)⟩

end Manhattan.Ssm
