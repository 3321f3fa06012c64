import Mathlib.Logic.Function.Basic
import Manhattan.Lib.Run
import Manhattan.Sined.Conmgr

/-!
# Whose acknowledgement is it? (`sine_sendto_conmgr`)

A process talks to the connection manager over one datagram socket `lib_sock`,
shared by all its threads and bound to the path `/tmp/libsine_<pid>`. A call of
`sine_sendto_conmgr` opens and binds the socket if there is none, sends its
message, and takes the first datagram that arrives for the acknowledgement; when
none arrives for five seconds, or anything else fails, it closes `lib_sock` and
returns -1. The connection manager reads one datagram at a time, works on it as
long as it likes (`add_connection` evaluates policies) and sends one `int` to the
*path name* the datagram came from. Neither direction carries a request number.

Mirroring notes:
- A socket is a number that is never reused; `lib_sock` holds one or is negative
  (`none`). Every use of the C variable reads it again, so a call may send on one
  socket and receive on another.
- `path` is the socket the path name leads to. It is set by `bind`, and it is not
  unset by `close`: a socket that a thread is blocked on lives on, and a dead one
  is not read by anybody, so what is delivered to it does not matter.
- The test of `lib_sock` and the call of `socket` are one step, `openSock`: that two
  threads both find no socket, and the second replaces what the first has opened, is not
  modelled.
- `bind` fails on a socket that already has a name, which happens when the socket a
  thread has opened is closed by another one and opened and bound anew by a third.
- Messages of other processes (`call = none`) share the connection manager's
  queue; their acknowledgements go elsewhere.

`late_ack_is_taken` is the run in which a call returns on the acknowledgement of
the call that timed out before it. `ack_of_run` shows that a call can trust its
return value in every run in which, when a call sends, no earlier message of the
process is waiting or being worked on and no acknowledgement lies unread in the
socket. (`netmgr_send_info`, which gets a new port from the kernel each time it
reopens its socket, does not need the second half of that: see `Query`.)
-/

namespace Manhattan.Sined.Ack

open Manhattan.Lib

/-- A call of `sine_sendto_conmgr`: before the test of `lib_sock`, between
`socket` and `bind`, before `sendto`, before `recvfrom`, inside `recvfrom`. -/
inductive Phase where
  | idle
  | entered
  | created
  | ready
  | sent
  | blocked (sock : Nat)
  | returned (r : Int)
  deriving DecidableEq, Repr

/-- A datagram for the connection manager. Only a bound socket puts a return
address (`named`) on it. -/
structure Req where
  call : Option Nat
  named : Bool
  len : Nat
  deriving DecidableEq, Repr

/-- `conmgr_main_loop`: in `select`, in the `switch`, before `sendto`, left. -/
inductive Cm where
  | waiting
  | busy (m : Req)
  | acking (m : Req)
  | stopped
  deriving DecidableEq, Repr

structure State where
  libSock : Option Nat
  nextSock : Nat
  bound : List Nat
  path : Option Nat
  inbox : Nat → List Int
  phase : Nat → Phase
  queue : List Req
  cm : Cm
  processed : List Nat

def init : State :=
  ⟨none, 0, [], none, fun _ => [], fun _ => .idle, [], .waiting, []⟩

inductive Act where
  | enter (c : Nat)
  | openSock (c : Nat)
  | socketFails (c : Nat)
  | bind (c : Nat)
  | bindFails (c : Nat)
  | optFails (c : Nat)
  | send (c len : Nat)
  | sendFails (c : Nat)
  | recv (c : Nat)
  | take (c : Nat)
  | timeout (c : Nat)
  | foreign (len : Nat)
  | receive
  | finish
  | ack
  | ackFails
  deriving DecidableEq, Repr

def State.goto (s : State) (c : Nat) (p : Phase) : State :=
  { s with phase := Function.update s.phase c p }

/-- The `error:` label: close `lib_sock`, return -1. -/
def State.fail (s : State) (c : Nat) : State :=
  { s.goto c (.returned (-1)) with libSock := none }

def step (s : State) : Act → Option State
  | .enter c => if s.phase c = .idle then some (s.goto c .entered) else none
  | .openSock c =>
    if s.phase c = .entered then
      match s.libSock with
      | some _ => some (s.goto c .ready)
      | none =>
        some { s.goto c .created with libSock := some s.nextSock, nextSock := s.nextSock + 1 }
    else none
  | .socketFails c =>
    if s.phase c = .entered ∧ s.libSock = none then some (s.fail c) else none
  | .bind c =>
    if s.phase c = .created then
      match s.libSock with
      | some k =>
        if k ∈ s.bound then some { s.fail c with path := none }
        else some { s.goto c .ready with bound := k :: s.bound, path := some k }
      | none => some { s.fail c with path := none }
    else none
  | .bindFails c => if s.phase c = .created then some { s.fail c with path := none } else none
  | .optFails c =>
    if s.phase c = .created then
      match s.libSock with
      | some k =>
        if k ∈ s.bound then none
        else some { s.fail c with bound := k :: s.bound, path := some k }
      | none => none
    else none
  | .send c len =>
    if s.phase c = .ready then
      match s.libSock with
      | some k =>
        some { s.goto c .sent with queue := s.queue ++ [⟨some c, decide (k ∈ s.bound), len⟩] }
      | none => some (s.fail c)
    else none
  | .sendFails c => if s.phase c = .ready then some (s.fail c) else none
  | .recv c =>
    if s.phase c = .sent then
      match s.libSock with
      | some k => some (s.goto c (.blocked k))
      | none => some (s.fail c)
    else none
  | .take c =>
    match s.phase c with
    | .blocked k =>
      match s.inbox k with
      | r :: rest =>
        some { s.goto c (.returned r) with inbox := Function.update s.inbox k rest }
      | [] => none
    | _ => none
  | .timeout c =>
    match s.phase c with
    | .blocked _ => some (s.fail c)
    | _ => none
  | .foreign len => some { s with queue := s.queue ++ [⟨none, true, len⟩] }
  | .receive =>
    match s.cm, s.queue with
    | .waiting, m :: q =>
      -- `check(r > 0, ..)`: an empty datagram ends the loop
      some { s with queue := q, cm := if m.len = 0 then .stopped else .busy m }
    | _, _ => none
  | .finish =>
    match s.cm with
    | .busy m => some { s with cm := .acking m, processed := m.call.toList ++ s.processed }
    | _ => none
  | .ack =>
    match s.cm with
    | .acking m =>
      match m.call, m.named, s.path with
      | some _, true, some k =>
        some { s with
          cm := .waiting
          inbox := Function.update s.inbox k (s.inbox k ++ [((min m.len conmsgSize : Nat) : Int)]) }
      | _, _, _ => some { s with cm := .waiting }
    | _ => none
  | .ackFails =>
    match s.cm with
    | .acking _ => some { s with cm := .waiting }
    | _ => none

/-! ## The specification -/

/-- A call that returned a non-negative value has had its own message processed. -/
def Matched (s : State) : Prop :=
  ∀ c r, s.phase c = .returned r → 0 ≤ r → c ∈ s.processed

/-- What the connection manager has in hand. -/
def Cm.held : Cm → List Req
  | .busy m => [m]
  | .acking m => [m]
  | _ => []

/-- A call sends only when the process has no earlier message waiting or in the
connection manager's hands, and no unread acknowledgement in the socket. -/
def ok (s : State) : Act → Prop
  | .send _ _ =>
    (∀ m ∈ s.cm.held ++ s.queue, m.call = none) ∧ ∀ k ∈ s.libSock, s.inbox k = []
  | _ => True

instance decOk (s : State) : (a : Act) → Decidable (ok s a)
  | .send _ _ => inferInstanceAs (Decidable
      ((∀ m ∈ s.cm.held ++ s.queue, m.call = none) ∧ ∀ k ∈ s.libSock, s.inbox k = []))
  | .enter _ | .openSock _ | .socketFails _ | .bind _ | .bindFails _ | .optFails _ | .sendFails _
  | .recv _ | .take _ | .timeout _ | .foreign _ | .receive | .finish | .ack | .ackFails =>
    isTrue trivial

/-! ## The invariant -/

/-- The call has sent its message, and the connection manager has not been through
with it. -/
def Pending (s : State) (c : Nat) : Prop :=
  (s.phase c = .sent ∨ ∃ k, s.phase c = .blocked k) ∧ c ∉ s.processed

/-- A call that has not moved is pending if it is pending afterwards. -/
theorem Pending.of_phase {s s' : State} {c : Nat} (h : Pending s' c)
    (hphase : s'.phase c = s.phase c) (hprocessed : s'.processed = s.processed) :
    Pending s c := by
  unfold Pending at h
  rw [hphase, hprocessed] at h
  exact h

/-- The message the connection manager is working on. -/
def Cm.unserved : Cm → List Req
  | .busy m => [m]
  | _ => []

/-- Nothing but the call's own message can produce an acknowledgement it could
read: it is the only one of the process that is not served (unless nobody serves
any more), none is about to be acknowledged, and the sockets it may read from are
empty. -/
structure Alone (s : State) (c : Nat) : Prop where
  req : s.cm = .stopped ∨ (s.cm.unserved ++ s.queue).filterMap Req.call = [c]
  ack : ∀ m, s.cm = .acking m → m.call = none
  lib : ∀ k, s.libSock = some k → s.inbox k = []
  blk : ∀ k, s.phase c = .blocked k → s.inbox k = []

structure Inv (s : State) : Prop where
  fresh : ∀ k, s.nextSock ≤ k → s.inbox k = []
  path : ∀ k, s.path = some k → k < s.nextSock
  lib : ∀ k, s.libSock = some k → k < s.nextSock
  pend : ∀ c, Pending s c → Alone s c
  ret : Matched s

theorem init_inv : Inv init where
  fresh := fun _ _ => rfl
  path := by intro k h; cases h
  lib := by intro k h; cases h
  pend := by
    intro c h
    rcases h.1 with h | ⟨k, h⟩ <;> cases h
  ret := by intro c r h; cases h

/-- A step of a call that neither sends nor takes: mail, connection manager and
inboxes stay, `lib_sock` is kept, given up or new, and the only way into
`recvfrom` is through `lib_sock`. -/
structure Quiet (s s' : State) : Prop where
  queue : s'.queue = s.queue
  cm : s'.cm = s.cm
  processed : s'.processed = s.processed
  inbox : s'.inbox = s.inbox
  next : s.nextSock ≤ s'.nextSock
  path : ∀ k, s'.path = some k → s.path = some k ∨ s.libSock = some k
  lib : ∀ k, s'.libSock = some k → s.libSock = some k ∨ k = s.nextSock ∧ k < s'.nextSock
  phase : ∀ c, (s'.phase c = .sent → s.phase c = .sent) ∧
    (∀ k, s'.phase c = .blocked k →
      s.phase c = .blocked k ∨ s.phase c = .sent ∧ s.libSock = some k) ∧
    ∀ r, s'.phase c = .returned r → 0 ≤ r → s.phase c = .returned r

theorem Inv.quiet {s s' : State} (h : Inv s) (q : Quiet s s') : Inv s' := by
  have hpend : ∀ c, Pending s' c → Pending s c := by
    intro c hc
    obtain ⟨hsent, hblk, -⟩ := q.phase c
    refine ⟨?_, by rw [← q.processed]; exact hc.2⟩
    rcases hc.1 with hs | ⟨k, hk⟩
    · exact Or.inl (hsent hs)
    · rcases hblk k hk with h' | h'
      · exact Or.inr ⟨k, h'⟩
      · exact Or.inl h'.1
  refine ⟨?_, ?_, ?_, ?_, ?_⟩
  · intro k hk
    rw [q.inbox]
    exact h.fresh k (Nat.le_trans q.next hk)
  · intro k hk
    rcases q.path k hk with hp | hl
    · exact Nat.lt_of_lt_of_le (h.path k hp) q.next
    · exact Nat.lt_of_lt_of_le (h.lib k hl) q.next
  · intro k hk
    rcases q.lib k hk with hl | ⟨-, hn⟩
    · exact Nat.lt_of_lt_of_le (h.lib k hl) q.next
    · exact hn
  · intro c hc
    have ha := h.pend c (hpend c hc)
    refine ⟨by rw [q.cm, q.queue]; exact ha.req, by rw [q.cm]; exact ha.ack, ?_, ?_⟩
    · intro k hk
      rw [q.inbox]
      rcases q.lib k hk with hl | ⟨hn, -⟩
      · exact ha.lib k hl
      · exact h.fresh k (Nat.le_of_eq hn.symm)
    · intro k hk
      rw [q.inbox]
      rcases (q.phase c).2.1 k hk with hb | ⟨-, hl⟩
      · exact ha.blk k hb
      · exact ha.lib k hl
  · intro c r hr hnn
    rw [q.processed]
    exact h.ret c r ((q.phase c).2.2 r hr hnn) hnn

/-- Moving a call to a place that is neither sent, nor in `recvfrom`, nor a
non-negative return. -/
theorem goto_phase {s : State} {c : Nat} {p : Phase} (hs : p ≠ .sent) (hb : ∀ k, p ≠ .blocked k)
    (hr : ∀ r, p = .returned r → r < 0) (c' : Nat) :
    ((s.goto c p).phase c' = .sent → s.phase c' = .sent) ∧
    (∀ k, (s.goto c p).phase c' = .blocked k →
      s.phase c' = .blocked k ∨ s.phase c' = .sent ∧ s.libSock = some k) ∧
    ∀ r, (s.goto c p).phase c' = .returned r → 0 ≤ r → s.phase c' = .returned r := by
  unfold State.goto
  by_cases hc : c' = c
  · subst hc
    simp only [Function.update_self]
    refine ⟨fun h => absurd h hs, fun k h => absurd h (hb k), fun r h hnn => ?_⟩
    exact absurd (hr r h) (by omega)
  · simp only [Function.update_of_ne hc]
    exact ⟨id, fun k h => Or.inl h, fun r h _ => h⟩

/-- The error path, whatever happened to the path name. -/
theorem fail_quiet {s s' : State} {c : Nat} (hq : s'.queue = s.queue) (hcm : s'.cm = s.cm)
    (hp : s'.processed = s.processed) (hi : s'.inbox = s.inbox) (hn : s'.nextSock = s.nextSock)
    (hpath : ∀ k, s'.path = some k → s.path = some k ∨ s.libSock = some k)
    (hl : s'.libSock = none) (hph : s'.phase = (s.goto c (.returned (-1))).phase) : Quiet s s' := by
  refine ⟨hq, hcm, hp, hi, Nat.le_of_eq hn.symm, hpath, ?_, ?_⟩
  · intro k hk
    rw [hl] at hk
    cases hk
  · rw [hph]
    exact goto_phase (by simp) (by simp) (by intro r hr; cases hr; decide)

/-- A step that keeps the calls where they are, `lib_sock` and the inboxes; the
served calls only grow. -/
theorem mail_inv {s s' : State} (h : Inv s) (hph : s'.phase = s.phase)
    (hl : s'.libSock = s.libSock) (hi : s'.inbox = s.inbox) (hn : s'.nextSock = s.nextSock)
    (hpath : s'.path = s.path) (hproc : ∀ c ∈ s.processed, c ∈ s'.processed)
    (halone : ∀ c, Pending s' c → Alone s c →
      (s'.cm = .stopped ∨ (s'.cm.unserved ++ s'.queue).filterMap Req.call = [c]) ∧
      ∀ m, s'.cm = .acking m → m.call = none) : Inv s' := by
  refine ⟨by rw [hi, hn]; exact h.fresh, by rw [hpath, hn]; exact h.path,
    by rw [hl, hn]; exact h.lib, ?_, ?_⟩
  · intro c hc
    have hc' : Pending s c := ⟨by rw [← hph]; exact hc.1, fun hm => hc.2 (hproc c hm)⟩
    have ha := h.pend c hc'
    obtain ⟨hreq, hack⟩ := halone c hc ha
    exact ⟨hreq, hack, by rw [hl, hi]; exact ha.lib, by rw [hph, hi]; exact ha.blk⟩
  · intro c r hr hnn
    rw [hph] at hr
    exact hproc c (h.ret c r hr hnn)

/-- Sending with a clean slate: the new message is the only one of the process,
and nobody else was pending. -/
theorem send_inv {s : State} {c k len : Nat} (h : Inv s) (hl : s.libSock = some k)
    (hclean : ∀ m ∈ s.cm.held ++ s.queue, m.call = none) (hempty : s.inbox k = []) :
    Inv { s.goto c .sent with
      queue := s.queue ++ [⟨some c, decide (k ∈ s.bound), len⟩] } := by
  have hnone : (s.cm.unserved ++ s.queue).filterMap Req.call = [] := by
    rw [List.filterMap_eq_nil_iff]
    intro m hm
    refine hclean m ?_
    rcases List.mem_append.mp hm with hcm | hq
    · refine List.mem_append_left _ ?_
      cases hcmv : s.cm with
      | busy m' => rw [hcmv] at hcm; exact hcm
      | _ => rw [hcmv] at hcm; cases hcm
    · exact List.mem_append_right _ hq
  refine ⟨h.fresh, h.path, h.lib, ?_, ?_⟩
  · intro c' hc'
    have hack : ∀ m, s.cm = .acking m → m.call = none := by
      intro m hm
      exact hclean m (List.mem_append_left _ (by rw [hm]; exact List.mem_singleton_self m))
    by_cases hcc : c' = c
    · subst hcc
      refine ⟨Or.inr ?_, hack, ?_, ?_⟩
      · show (s.cm.unserved ++ (s.queue ++ _)).filterMap Req.call = [c']
        rw [← List.append_assoc, List.filterMap_append, hnone]
        rfl
      · intro k' hk'
        have hkk : k' = k := Option.some.inj (hk'.symm.trans hl)
        rw [hkk]
        exact hempty
      · intro k' hk'
        have : (Function.update s.phase c' Phase.sent) c' = .blocked k' := hk'
        rw [Function.update_self] at this
        cases this
    · -- an earlier call would have its message among the unserved ones
      have hph : (Function.update s.phase c Phase.sent) c' = s.phase c' :=
        Function.update_of_ne hcc _ _
      have ha := h.pend c' (hc'.of_phase hph rfl)
      refine ⟨Or.inl ?_, hack, ha.lib, ?_⟩
      · rcases ha.req with hst | hreq
        · exact hst
        · rw [hnone] at hreq
          cases hreq
      · intro k' hk'
        refine ha.blk k' ?_
        simpa only [State.goto, hph] using hk'
  · intro c' r hr hnn
    have hr' : (Function.update s.phase c Phase.sent) c' = .returned r := hr
    by_cases hcc : c' = c
    · rw [hcc, Function.update_self] at hr'
      cases hr'
    · rw [Function.update_of_ne hcc] at hr'
      exact h.ret c' r hr' hnn

/-- Taking an acknowledgement: a pending call has an empty socket before it, so the
call that takes one has been served. -/
theorem take_inv {s : State} {c k : Nat} {r : Int} {rest : List Int} (h : Inv s)
    (hp : s.phase c = .blocked k) (hk : s.inbox k = r :: rest) :
    Inv { s.goto c (.returned r) with inbox := Function.update s.inbox k rest } := by
  have hserved : c ∈ s.processed := by
    by_contra hn
    have hempty := (h.pend c ⟨Or.inr ⟨k, hp⟩, hn⟩).blk k hp
    rw [hk] at hempty
    cases hempty
  have hshrink : ∀ k', s.inbox k' = [] → (Function.update s.inbox k rest) k' = [] := by
    intro k' he
    have hne : k' ≠ k := by
      intro e
      rw [e, hk] at he
      cases he
    rw [Function.update_of_ne hne]
    exact he
  refine ⟨fun k' hk' => hshrink k' (h.fresh k' hk'), h.path, h.lib, ?_, ?_⟩
  · intro c' hc'
    have hcc : c' ≠ c := fun e => hc'.2 (e ▸ hserved)
    have hph : (Function.update s.phase c (Phase.returned r)) c' = s.phase c' :=
      Function.update_of_ne hcc _ _
    have ha := h.pend c' (hc'.of_phase hph rfl)
    refine ⟨ha.req, ha.ack, fun k' hk' => hshrink k' (ha.lib k' hk'), fun k' hk' => ?_⟩
    refine hshrink k' (ha.blk k' ?_)
    simpa only [State.goto, hph] using hk'
  · intro c' r' hr' hnn
    have hr'' : (Function.update s.phase c (Phase.returned r)) c' = .returned r' := hr'
    by_cases hcc : c' = c
    · rw [hcc]
      exact hserved
    · rw [Function.update_of_ne hcc] at hr''
      exact h.ret c' r' hr'' hnn

/-- Delivering an acknowledgement: nobody is pending beside it. -/
theorem ack_inv {s : State} {m : Req} {c₀ k : Nat} {r : Int} (h : Inv s) (hcm : s.cm = .acking m)
    (hm : m.call = some c₀) (hpath : s.path = some k) :
    Inv { s with
      cm := .waiting
      inbox := Function.update s.inbox k (s.inbox k ++ [r]) } := by
  refine ⟨?_, h.path, h.lib, ?_, h.ret⟩
  · intro k' hk'
    have hne : k' ≠ k := by
      have := h.path k hpath
      have hk'' : s.nextSock ≤ k' := hk'
      omega
    show (Function.update s.inbox k _) k' = []
    rw [Function.update_of_ne hne]
    exact h.fresh k' hk'
  · intro c hc
    have hforeign := (h.pend c hc).ack m hcm
    rw [hm] at hforeign
    cases hforeign

/-- While the connection manager works, a pending call's message is the only one of
the process that is not served. -/
theorem Alone.unserved {s : State} {c : Nat} (ha : Alone s c) (hcm : s.cm ≠ .stopped) :
    (s.cm.unserved ++ s.queue).filterMap Req.call = [c] :=
  ha.req.resolve_left hcm

/-- An acknowledgement that reaches nobody of the process. -/
theorem dropAck_inv {s : State} {m : Req} (h : Inv s) (hcm : s.cm = .acking m) :
    Inv { s with cm := .waiting } := by
  refine mail_inv h rfl rfl rfl rfl rfl (fun _ hc => hc) fun c _ ha => ?_
  refine ⟨Or.inr ?_, fun m' hm' => nomatch hm'⟩
  have hreq := ha.unserved (by rw [hcm]; exact fun e => nomatch e)
  rw [hcm] at hreq
  exact hreq

/-- The connection manager reads a message; an empty one ends it. -/
theorem receive_inv {s : State} {m : Req} {q : List Req} (h : Inv s) (hcm : s.cm = .waiting)
    (hq : s.queue = m :: q) :
    Inv { s with queue := q, cm := if m.len = 0 then .stopped else .busy m } := by
  refine mail_inv h rfl rfl rfl rfl rfl (fun _ hc => hc) fun c _ ha => ?_
  by_cases hlen : m.len = 0
  · rw [if_pos hlen]
    exact ⟨Or.inl rfl, fun m' hm' => nomatch hm'⟩
  · rw [if_neg hlen]
    refine ⟨Or.inr ?_, fun m' hm' => nomatch hm'⟩
    have hreq := ha.unserved (by rw [hcm]; exact fun e => nomatch e)
    rw [hcm, hq] at hreq
    exact hreq

/-- The connection manager is through with a message: the call's own, and it is not
pending any more, or another process's. -/
theorem finish_inv {s : State} {m : Req} (h : Inv s) (hcm : s.cm = .busy m) :
    Inv { s with cm := .acking m, processed := m.call.toList ++ s.processed } := by
  refine mail_inv h rfl rfl rfl rfl rfl (fun _ hc => List.mem_append_right _ hc) ?_
  intro c hc ha
  have hreq : (m :: s.queue).filterMap Req.call = [c] := by
    have := ha.unserved (by rw [hcm]; exact fun e => nomatch e)
    rw [hcm] at this
    exact this
  cases hcall : m.call with
  | none =>
    rw [List.filterMap_cons, hcall] at hreq
    refine ⟨Or.inr hreq, fun m' hm' => ?_⟩
    cases hm'
    exact hcall
  | some c' =>
    rw [List.filterMap_cons, hcall] at hreq
    have hcc : c' = c := (List.cons.inj hreq).1
    refine absurd ?_ hc.2
    show c ∈ m.call.toList ++ s.processed
    rw [hcall, hcc]
    exact List.mem_append_left _ (List.mem_singleton_self c)

/-- A message of another process arrives. -/
theorem foreign_inv {s : State} {m : Req} (h : Inv s) (hm : m.call = none) :
    Inv { s with queue := s.queue ++ [m] } := by
  refine mail_inv h rfl rfl rfl rfl rfl (fun _ hc => hc) fun c _ ha => ⟨?_, ha.ack⟩
  refine ha.req.imp_right fun hreq => ?_
  show (s.cm.unserved ++ (s.queue ++ [m])).filterMap Req.call = [c]
  rw [← List.append_assoc, List.filterMap_append, hreq, List.filterMap_cons, hm]
  rfl

/-- A call that has sent enters `recvfrom` on the process's socket. -/
theorem recv_inv {s : State} {c k : Nat} (h : Inv s) (hp : s.phase c = .sent)
    (hl : s.libSock = some k) : Inv (s.goto c (.blocked k)) := by
  refine h.quiet ⟨rfl, rfl, rfl, rfl, Nat.le_refl _, fun _ hk => Or.inl hk,
    fun _ hk => Or.inl hk, fun c' => ?_⟩
  unfold State.goto
  by_cases hcc : c' = c
  · subst hcc
    simp only [Function.update_self]
    refine ⟨(fun h => nomatch h), fun k' hk' => ?_, (fun r h => nomatch h)⟩
    cases hk'
    exact Or.inr ⟨hp, hl⟩
  · simp only [Function.update_of_ne hcc]
    exact ⟨id, fun _ hb => Or.inl hb, fun _ hr _ => hr⟩

/-- The steps of a call other than sending and taking. -/
theorem goto_quiet {s : State} {c : Nat} {p : Phase} (hs : p ≠ .sent) (hb : ∀ k, p ≠ .blocked k)
    (hr : ∀ r, p = .returned r → r < 0) : Quiet s (s.goto c p) :=
  ⟨rfl, rfl, rfl, rfl, Nat.le_refl _, fun _ hk => Or.inl hk, fun _ hk => Or.inl hk,
    goto_phase hs hb hr⟩

theorem fail_inv {s : State} {c : Nat} (h : Inv s) : Inv (s.fail c) :=
  h.quiet (fail_quiet (c := c) rfl rfl rfl rfl rfl (fun _ hk => Or.inl hk) rfl rfl)

theorem failUnlinked_inv {s : State} {c : Nat} (h : Inv s) : Inv { s.fail c with path := none } :=
  h.quiet (fail_quiet (c := c) rfl rfl rfl rfl rfl (by intro k hk; cases hk) rfl rfl)

/-- A new socket has a number nobody has used. -/
theorem open_inv {s : State} {c : Nat} (h : Inv s) :
    Inv { s.goto c .created with libSock := some s.nextSock, nextSock := s.nextSock + 1 } := by
  refine h.quiet ⟨rfl, rfl, rfl, rfl, Nat.le_succ _, fun _ hk => Or.inl hk, ?_,
    goto_phase (by simp) (by simp) (by simp)⟩
  intro k hk
  cases hk
  exact Or.inr ⟨rfl, Nat.lt_succ_self _⟩

/-- The path leads to the process's socket once it is bound. -/
theorem bind_inv {s : State} {c k : Nat} (h : Inv s) (hl : s.libSock = some k) :
    Inv { s.goto c .ready with bound := k :: s.bound, path := some k } := by
  refine h.quiet ⟨rfl, rfl, rfl, rfl, Nat.le_refl _, ?_, fun _ hk => Or.inl hk,
    goto_phase (by simp) (by simp) (by simp)⟩
  intro k' hk'
  cases hk'
  exact Or.inr hl

theorem failBound_inv {s : State} {c k : Nat} (h : Inv s) (hl : s.libSock = some k) :
    Inv { s.fail c with bound := k :: s.bound, path := some k } := by
  refine h.quiet (fail_quiet (c := c) rfl rfl rfl rfl rfl ?_ rfl rfl)
  intro k' hk'
  cases hk'
  exact Or.inr hl

/-- One `ok` step preserves the invariant. -/
theorem step_inv {s s' : State} {a : Act} (h : Inv s) (hok : ok s a) (hs : step s a = some s') :
    Inv s' := by
  cases a with
  | enter c =>
    simp only [step] at hs
    split at hs
    next => cases hs; exact h.quiet (goto_quiet (by simp) (by simp) (by simp))
    next => cases hs
  | openSock c =>
    simp only [step] at hs
    split at hs
    next =>
      split at hs
      next => cases hs; exact h.quiet (goto_quiet (by simp) (by simp) (by simp))
      next => cases hs; exact open_inv h
    next => cases hs
  | socketFails c =>
    simp only [step] at hs
    split at hs
    next => cases hs; exact fail_inv h
    next => cases hs
  | bind c =>
    simp only [step] at hs
    split at hs
    next =>
      split at hs
      next k hl =>
        split at hs
        next => cases hs; exact failUnlinked_inv h
        next => cases hs; exact bind_inv h hl
      next => cases hs; exact failUnlinked_inv h
    next => cases hs
  | bindFails c =>
    simp only [step] at hs
    split at hs
    next => cases hs; exact failUnlinked_inv h
    next => cases hs
  | optFails c =>
    simp only [step] at hs
    split at hs
    next =>
      split at hs
      next k hl =>
        split at hs
        next => cases hs
        next => cases hs; exact failBound_inv h hl
      next => cases hs
    next => cases hs
  | send c len =>
    simp only [step] at hs
    split at hs
    next =>
      split at hs
      next k hl =>
        cases hs
        exact send_inv h hl hok.1 (hok.2 k (by rw [hl]; rfl))
      next => cases hs; exact fail_inv h
    next => cases hs
  | sendFails c =>
    simp only [step] at hs
    split at hs
    next => cases hs; exact fail_inv h
    next => cases hs
  | recv c =>
    simp only [step] at hs
    split at hs
    next hp =>
      split at hs
      next k hl => cases hs; exact recv_inv h hp hl
      next => cases hs; exact fail_inv h
    next => cases hs
  | take c =>
    simp only [step] at hs
    split at hs
    next k hp =>
      split at hs
      next r rest hk => cases hs; exact take_inv h hp hk
      next => cases hs
    next => cases hs
  | timeout c =>
    simp only [step] at hs
    split at hs
    next => cases hs; exact fail_inv h
    next => cases hs
  | foreign len => cases hs; exact foreign_inv h rfl
  | receive =>
    simp only [step] at hs
    split at hs
    next m q hcm hq => cases hs; exact receive_inv h hcm hq
    next => cases hs
  | finish =>
    simp only [step] at hs
    split at hs
    next m hcm => cases hs; exact finish_inv h hcm
    next => cases hs
  | ack =>
    simp only [step] at hs
    split at hs
    next m hcm =>
      split at hs
      next c₀ k hcall hnamed hpath => cases hs; exact ack_inv h hcm hcall hpath
      next => cases hs; exact dropAck_inv h hcm
    next => cases hs
  | ackFails =>
    simp only [step] at hs
    split at hs
    next m hcm => cases hs; exact dropAck_inv h hcm
    next => cases hs

/-- **Acknowledgements match.** Over every interleaving of the threads of a process,
their timeouts and re-binds, the other processes and the connection manager: if no
call sends while an earlier message of the process is waiting or in the connection
manager's hands, or while an acknowledgement lies unread in the socket, then a call
that returns a non-negative value has had its own message processed. -/
theorem ack_of_run (as : List Act) {s : State} (hok : Meets step ok init as)
    (hr : run step init as = some s) : Matched s := by
  have h : Inv s := run_inv step_inv as init_inv hok hr
  exact h.ret

/-- Two calls after each other over one socket. -/
def oneByOne : List Act :=
  [.enter 0, .openSock 0, .bind 0, .send 0 144, .recv 0, .receive, .finish, .ack, .take 0,
   .enter 1, .openSock 1, .send 1 144, .recv 1, .receive, .finish, .ack, .take 1]

theorem ack_of_run_oneByOne :
    ∃ s, run step init oneByOne = some s ∧ Matched s ∧ s.phase 1 = .returned 144 :=
  ⟨_, rfl, ack_of_run oneByOne (by decide) rfl, by decide⟩

/-- One thread, two calls; the connection manager is still busy with the first
message when the first call gives up. -/
def lateAck : List Act :=
  [.enter 0, .openSock 0, .bind 0, .send 0 144, .recv 0, .receive, .timeout 0,
   .enter 1, .openSock 1, .bind 1, .send 1 144, .recv 1, .finish, .ack, .take 1]

/-- **A late acknowledgement is taken.** The second call's socket is bound to the
same path, the acknowledgement of the first message is delivered there, and the
second call returns while its own message has not even been read. -/
theorem late_ack_is_taken : ∃ s, run step init lateAck = some s ∧ ¬ Matched s := by
  refine ⟨_, rfl, ?_⟩
  intro h
  have hserved := h 1 144 (by decide) (by decide)
  exact absurd hserved (by decide)

end Manhattan.Sined.Ack
