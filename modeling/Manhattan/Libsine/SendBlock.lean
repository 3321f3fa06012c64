import Mathlib.Data.List.Nodup
import Mathlib.Logic.Function.Basic
import Manhattan.Lib.Buffer
import Manhattan.Lib.Run

/-!
# The blocking send of `libsine`

`sine_send_block` sends a message and waits for an integer; `sine_recv_ack` of the peer
receives the message and sends back how many bytes it got. Nothing ties the one to the
other. The answer has no number, the caller takes the first datagram on its socket from
whoever it comes, and `recvfrom` writes the sender's address over `*to_sa`. On a socket
that outlives the call (`from_sock >= 0`) a call that has timed out leaves its answer to
the next.

`send_block_answered` says when the calls are answered: nobody else writes to the socket, and
a call begins only when the answer to every earlier one has been read, or will never be sent.

Mirroring notes:
- Messages are their lengths. A call is named by its number, a message and an answer by the
  call they belong to; the programs do not see these names.
- A datagram shorter than an integer leaves the rest of `res` as it was.
- A sender without a name leaves `*to_sa` alone.
- At first `*to_sa` holds the path that the peer is bound to. Under another name for it,
  the peer's own answer would replace it.
- A call can fail at any point: in `sendto`, or after it in `sine_set_timeout` or, by
  timeout, in `recvfrom`.
- The peer's `recvfrom` and its `sendto` are two steps. Several of its threads may be between
  the two, each with the value it will return.
-/

namespace Manhattan.Libsine

open Manhattan.Lib

/-- The four bytes of an integer. -/
def le32 (n : Nat) : List UInt8 :=
  [UInt8.ofNat n, UInt8.ofNat (n / 256), UInt8.ofNat (n / 65536), UInt8.ofNat (n / 16777216)]

/-- A size as an `int`. -/
def asInt (n : Nat) : Int := i32le (bytes (le32 n)) 0

/-- A datagram on the caller's socket, and the call it answers. -/
structure Answer where
  src : Option String
  buf : List UInt8
  call : Option Nat
  deriving DecidableEq, Repr

/-- A call that has returned, with `*to_sa` before and after. -/
structure Returned where
  call : Nat
  before : String
  after : String
  result : Int
  deriving DecidableEq, Repr

structure State where
  /-- The path in `*to_sa`. -/
  toSa : String
  /-- How many calls have begun. -/
  calls : Nat
  /-- The call in progress, and the path it was given. -/
  inCall : Option (Nat × String)
  /-- The datagrams on the caller's socket. -/
  queue : List Answer
  /-- The messages on the peer's socket: the call, and the length. -/
  inbox : List (Nat × Nat)
  /-- The messages the peer has received and not yet answered: the call, and `r`. -/
  acking : List (Nat × Nat)
  /-- What `sine_recv_ack` returns for the message of each call. -/
  value : Nat → Option Int
  returned : List Returned

def init (peer : String) : State := ⟨peer, 0, none, [], [], [], fun _ => none, []⟩

inductive Act where
  /-- `sendto`, of a message of this length. -/
  | send (len : Nat)
  | sendFails
  /-- The call fails after `sendto`. -/
  | fail
  /-- `recvfrom` returns; `res` held `garbage`. -/
  | recv (garbage : Mem)
  /-- `recvfrom` in `sine_recv_ack` of the peer, with a buffer of this length. -/
  | peerRecv (len : Nat)
  /-- `sendto` in the `i`-th `sine_recv_ack` in progress, and whether it succeeds. -/
  | peerAck (i : Nat) (sent : Bool)
  /-- A datagram of another process. -/
  | other (src : Option String) (buf : List UInt8)

/-- The call returns. -/
def State.ret (s : State) (call : Nat) (before : String) (result : Int) : State :=
  { s with inCall := none, returned := s.returned ++ [⟨call, before, s.toSa, result⟩] }

def step (peer : String) (s : State) : Act → Option State
  | .send len =>
    if s.inCall = none then
      some { s with
        calls := s.calls + 1
        inCall := some (s.calls, s.toSa)
        inbox := if s.toSa = peer then s.inbox ++ [(s.calls, len)] else s.inbox }
    else none
  | .sendFails =>
    if s.inCall = none then some { s.ret s.calls s.toSa (-1) with calls := s.calls + 1 } else none
  | .fail =>
    match s.inCall with
    | some (call, before) => some (s.ret call before (-1))
    | none => none
  | .recv garbage =>
    match s.inCall, s.queue with
    | some (call, before), answer :: rest =>
      some ({ s with queue := rest, toSa := answer.src.getD s.toSa }.ret call before
        (i32le (overlay (answer.buf.take 4) garbage) 0))
    | _, _ => none
  | .peerRecv len =>
    match s.inbox with
    | (call, msgLen) :: rest =>
      let r := min msgLen len
      some { s with
        inbox := rest
        acking := s.acking ++ [(call, r)]
        value := Function.update s.value call (some (asInt r)) }
    | [] => none
  | .peerAck i sent =>
    match s.acking[i]? with
    | some (call, r) =>
      some { s with
        acking := s.acking.eraseIdx i
        queue := if sent then s.queue ++ [⟨some peer, le32 r, some call⟩] else s.queue }
    | none => none
  | .other src buf => some { s with queue := s.queue ++ [⟨src, buf, none⟩] }

/-- **The calls are answered**: a call that returns a size returns what the peer's
`sine_recv_ack` returns for its message, and no call changes `*to_sa`. -/
def Answered (s : State) : Prop :=
  ∀ r ∈ s.returned, (0 ≤ r.result → s.value r.call = some r.result) ∧ r.after = r.before

instance decAnswered (s : State) : Decidable (Answered s) :=
  inferInstanceAs (Decidable (∀ r ∈ s.returned,
    (0 ≤ r.result → s.value r.call = some r.result) ∧ r.after = r.before))

/-- Nobody else writes to the socket, and a call begins with nothing left of earlier ones:
no answer on the socket, no message at the peer, no answer of the peer to come. -/
def ok (s : State) : Act → Prop
  | .send _ => s.queue = [] ∧ s.inbox = [] ∧ s.acking = []
  | .other _ _ => False
  | _ => True

instance decOk (s : State) : (a : Act) → Decidable (ok s a)
  | .send _ => inferInstanceAs (Decidable (s.queue = [] ∧ s.inbox = [] ∧ s.acking = []))
  | .other _ _ => isFalse id
  | .sendFails | .fail | .recv _ | .peerRecv _ | .peerAck _ _ => isTrue trivial

/-! ## The invariant -/

/-- The answer is the peer's to some call, and says what it returned for it. -/
def Genuine (peer : String) (s : State) (a : Answer) : Prop :=
  a.src = some peer ∧ ∃ r call, a.buf = le32 r ∧ a.call = some call ∧ s.value call = some (asInt r)

/-- Everything on its way belongs to the call in progress. -/
structure Current (s : State) (call : Nat) : Prop where
  queue : ∀ a ∈ s.queue, a.call = some call
  inbox : ∀ m ∈ s.inbox, m.1 = call
  acking : ∀ m ∈ s.acking, m.1 = call

structure Inv (peer : String) (s : State) : Prop where
  toSa : s.toSa = peer
  inCall : ∀ call before, s.inCall = some (call, before) → before = peer ∧ Current s call
  queue : ∀ a ∈ s.queue, Genuine peer s a
  /-- What the peer is about to answer is what it returns. -/
  acking : ∀ m ∈ s.acking, s.value m.1 = some (asInt m.2)
  nodup : (s.inbox.map Prod.fst).Nodup
  /-- A message that waits has not been received. -/
  inbox : ∀ m ∈ s.inbox, s.value m.1 = none ∧ m.1 < s.calls
  fresh : ∀ call, s.calls ≤ call → s.value call = none
  answered : Answered s

theorem init_inv (peer : String) : Inv peer (init peer) where
  toSa := rfl
  inCall := fun _ _ h => nomatch h
  queue := fun _ h => absurd h List.not_mem_nil
  acking := fun _ h => absurd h List.not_mem_nil
  nodup := List.nodup_nil
  inbox := fun _ h => absurd h List.not_mem_nil
  fresh := fun _ _ => rfl
  answered := fun _ h => absurd h List.not_mem_nil

section

variable {peer : String} {s s' : State} {a : Act} {call : Nat} {before : String}

/-- A whole integer fills `res`. -/
theorem recv_le32 (r : Nat) (garbage : Mem) :
    i32le (overlay ((le32 r).take 4) garbage) 0 = asInt r := by
  refine i32le_congr fun i _ hi => ?_
  have hlt : i < (le32 r).length := hi
  exact overlay_eq_bytes hlt garbage

/-- A call that returns is answered if its result is the peer's, or an error. -/
theorem answered_ret (h : Answered s) {result : Int}
    (hresult : 0 ≤ result → s.value call = some result) (hafter : s.toSa = before) :
    Answered (s.ret call before result) := by
  intro r hr
  rcases List.mem_append.mp hr with hold | hnew
  · exact h r hold
  · rw [List.mem_singleton.mp hnew]
    exact ⟨hresult, hafter⟩

/-- The invariant after a call has returned. -/
theorem Inv.ret (h : Inv peer s) {result : Int}
    (hresult : 0 ≤ result → s.value call = some result) (hbefore : before = peer) :
    Inv peer (s.ret call before result) where
  toSa := h.toSa
  inCall := fun _ _ hin => nomatch hin
  queue := h.queue
  acking := h.acking
  nodup := h.nodup
  inbox := h.inbox
  fresh := h.fresh
  answered := answered_ret h.answered hresult (h.toSa.trans hbefore.symm)

theorem send_inv (h : Inv peer s) (hqueue : s.queue = []) (hacking : s.acking = []) (len : Nat) :
    Inv peer { s with
      calls := s.calls + 1, inCall := some (s.calls, s.toSa), inbox := [(s.calls, len)] } where
  toSa := h.toSa
  inCall := by
    intro call before hin
    cases hin
    refine ⟨h.toSa, ⟨?_, ?_, ?_⟩⟩
    · -- no late answer is waiting
      intro a ha
      rw [show s.queue = [] from hqueue] at ha
      cases ha
    · intro m hm
      rw [List.mem_singleton.mp hm]
    · -- and none will come
      intro m hm
      rw [show s.acking = [] from hacking] at hm
      cases hm
  queue := h.queue
  acking := h.acking
  nodup := List.nodup_singleton _
  inbox := by
    intro m hm
    rw [List.mem_singleton.mp hm]
    exact ⟨h.fresh s.calls (Nat.le_refl _), Nat.lt_succ_self _⟩
  fresh := fun call hcall => h.fresh call (Nat.le_of_succ_le hcall)
  answered := h.answered

theorem sendFails_inv (h : Inv peer s) :
    Inv peer { s.ret s.calls s.toSa (-1) with calls := s.calls + 1 } where
  toSa := h.toSa
  inCall := fun _ _ hin => nomatch hin
  queue := h.queue
  acking := h.acking
  nodup := h.nodup
  inbox := fun m hm => ⟨(h.inbox m hm).1, Nat.lt_succ_of_lt (h.inbox m hm).2⟩
  fresh := fun call hcall => h.fresh call (Nat.le_of_succ_le hcall)
  answered := answered_ret h.answered (fun hneg => absurd hneg (by decide)) rfl

/-- The first answer is to the call in progress. -/
theorem recv_inv (h : Inv peer s) {answer : Answer} {rest : List Answer}
    (hin : s.inCall = some (call, before)) (hqueue : s.queue = answer :: rest) (garbage : Mem) :
    Inv peer ({ s with queue := rest, toSa := answer.src.getD s.toSa }.ret call before
      (i32le (overlay (answer.buf.take 4) garbage) 0)) := by
  have hhead : answer ∈ s.queue := hqueue ▸ List.mem_cons_self
  have hrest : ∀ a ∈ rest, a ∈ s.queue := fun a ha => hqueue ▸ List.mem_cons_of_mem answer ha
  obtain ⟨hbefore, hcurrent⟩ := h.inCall call before hin
  obtain ⟨hsrc, r, call', hbuf, hcall', hvalue⟩ := h.queue answer hhead
  have hcall : call' = call := Option.some.inj (hcall'.symm.trans (hcurrent.queue answer hhead))
  have hpeer : answer.src.getD s.toSa = peer := by rw [hsrc]; rfl
  rw [hpeer]
  -- `*to_sa` is overwritten with what it was
  have htaken : Inv peer { s with queue := rest, toSa := peer } := by
    refine ⟨rfl, ?_, fun a ha => h.queue a (hrest a ha), h.acking, h.nodup, h.inbox, h.fresh,
      h.answered⟩
    intro call₁ before₁ hin₁
    obtain ⟨hb, hc⟩ := h.inCall call₁ before₁ hin₁
    exact ⟨hb, fun a ha => hc.queue a (hrest a ha), hc.inbox, hc.acking⟩
  refine htaken.ret (fun _ => ?_) hbefore
  rw [hbuf, recv_le32]
  exact hcall ▸ hvalue

/-- Nothing that was received is received again. -/
theorem value_update {call' : Nat} {v : Int} {w : Option Int} (hnone : s.value call = none)
    (h : s.value call' = some v) : Function.update s.value call w call' = some v := by
  have hne : call' ≠ call := by
    rintro rfl
    rw [hnone] at h
    cases h
  rw [Function.update_of_ne hne, h]

theorem peerRecv_inv (h : Inv peer s) {msgLen : Nat} {rest : List (Nat × Nat)}
    (hinbox : s.inbox = (call, msgLen) :: rest) (r : Nat) :
    Inv peer { s with
      inbox := rest
      acking := s.acking ++ [(call, r)]
      value := Function.update s.value call (some (asInt r)) } := by
  have hhead : (call, msgLen) ∈ s.inbox := hinbox ▸ List.mem_cons_self
  have hrest : ∀ m ∈ rest, m ∈ s.inbox := fun m hm => hinbox ▸ List.mem_cons_of_mem _ hm
  obtain ⟨hnone, hlt⟩ := h.inbox _ hhead
  have hnodup := h.nodup
  rw [hinbox, List.map_cons, List.nodup_cons] at hnodup
  refine ⟨h.toSa, ?_, ?_, ?_, hnodup.2, ?_, ?_, ?_⟩
  · -- the message was the current call's, and so will be the answer
    intro call₁ before₁ hin
    obtain ⟨hbefore, hcurrent⟩ := h.inCall call₁ before₁ hin
    refine ⟨hbefore, hcurrent.queue, fun m hm => hcurrent.inbox m (hrest m hm), fun m hm => ?_⟩
    rcases List.mem_append.mp hm with hold | hnew
    · exact hcurrent.acking m hold
    · rw [List.mem_singleton.mp hnew]
      exact hcurrent.inbox (call, msgLen) hhead
  · intro a ha
    obtain ⟨hsrc, r', call', hbuf, hcall', hvalue⟩ := h.queue a ha
    exact ⟨hsrc, r', call', hbuf, hcall', value_update hnone hvalue⟩
  · intro m hm
    rcases List.mem_append.mp hm with hold | hnew
    · exact value_update hnone (h.acking m hold)
    · rw [List.mem_singleton.mp hnew]
      exact Function.update_self ..
  · -- the other messages are of other calls
    intro m hm
    have hmem : m.1 ∈ rest.map Prod.fst := List.mem_map_of_mem hm
    have hne : m.1 ≠ call := fun heq => hnodup.1 (heq ▸ hmem)
    obtain ⟨hm₀, hm₁⟩ := h.inbox m (hrest m hm)
    exact ⟨(Function.update_of_ne hne ..).trans hm₀, hm₁⟩
  · intro call₁ hcall₁
    have hne : call₁ ≠ call := Nat.ne_of_gt (Nat.lt_of_lt_of_le hlt hcall₁)
    exact (Function.update_of_ne hne ..).trans (h.fresh call₁ hcall₁)
  · intro ret hret
    obtain ⟨hvalue, hafter⟩ := h.answered ret hret
    exact ⟨fun hpos => value_update hnone (hvalue hpos), hafter⟩

theorem peerAck_inv (h : Inv peer s) {i r : Nat} (hi : s.acking[i]? = some (call, r))
    (sent : Bool) :
    Inv peer { s with
      acking := s.acking.eraseIdx i
      queue := if sent then s.queue ++ [⟨some peer, le32 r, some call⟩] else s.queue } := by
  have hmem : (call, r) ∈ s.acking := List.mem_of_getElem? hi
  have hrest : ∀ m ∈ s.acking.eraseIdx i, m ∈ s.acking := fun m hm => List.mem_of_mem_eraseIdx hm
  -- the queue is the old one, and perhaps the new answer
  have hqueue : ∀ a ∈ (if sent then s.queue ++ [⟨some peer, le32 r, some call⟩] else s.queue),
      a ∈ s.queue ∨ a = ⟨some peer, le32 r, some call⟩ := by
    intro a ha
    cases sent with
    | false => exact .inl ha
    | true => exact (List.mem_append.mp ha).imp_right List.mem_singleton.mp
  refine ⟨h.toSa, ?_, ?_, fun m hm => h.acking m (hrest m hm), h.nodup, h.inbox, h.fresh,
    h.answered⟩
  · intro call₁ before₁ hin
    obtain ⟨hbefore, hcurrent⟩ := h.inCall call₁ before₁ hin
    refine ⟨hbefore, fun a ha => ?_, hcurrent.inbox, fun m hm => hcurrent.acking m (hrest m hm)⟩
    rcases hqueue a ha with hold | rfl
    · exact hcurrent.queue a hold
    · exact congrArg some (hcurrent.acking _ hmem)
  · intro a ha
    rcases hqueue a ha with hold | rfl
    · exact h.queue a hold
    · exact ⟨rfl, r, call, rfl, rfl, h.acking _ hmem⟩

theorem step_inv (h : Inv peer s) (hok : ok s a) (hs : step peer s a = some s') :
    Inv peer s' := by
  cases a with
  | send len =>
    simp only [step] at hs
    split at hs
    case isTrue =>
      cases hs
      obtain ⟨hqueue, hinbox, hacking⟩ := hok
      rw [if_pos h.toSa, hinbox]
      exact send_inv h hqueue hacking len
    case isFalse => cases hs
  | sendFails =>
    simp only [step] at hs
    split at hs
    case isTrue =>
      cases hs
      exact sendFails_inv h
    case isFalse => cases hs
  | fail =>
    simp only [step] at hs
    split at hs
    next call before hin =>
      cases hs
      exact h.ret (fun hneg => absurd hneg (by decide)) (h.inCall call before hin).1
    next => cases hs
  | recv garbage =>
    simp only [step] at hs
    split at hs
    next call before answer rest hin hqueue =>
      cases hs
      exact recv_inv h hin hqueue garbage
    next => cases hs
  | peerRecv len =>
    simp only [step] at hs
    split at hs
    next call msgLen rest hinbox =>
      cases hs
      exact peerRecv_inv h hinbox (min msgLen len)
    next => cases hs
  | peerAck i sent =>
    simp only [step] at hs
    split at hs
    next call r hi =>
      cases hs
      exact peerAck_inv h hi sent
    next => cases hs
  | other src buf => exact absurd hok id

end

/-- **The calls are answered** in every run in which nobody else writes to the socket and a
call begins only when every earlier one has had its answer read, or will have none. -/
theorem send_block_answered (peer : String) (acts : List Act) (s : State)
    (hok : Meets (step peer) ok (init peer) acts)
    (hr : run (step peer) (init peer) acts = some s) : Answered s :=
  (run_inv (I := Inv peer) step_inv acts (init_inv peer) hok hr).answered

/-- Two calls, one after the other. -/
def oneByOne : List Act :=
  [.send 5, .peerRecv 256, .peerAck 0 true, .recv fun _ => 0,
    .send 7, .peerRecv 6, .peerAck 0 true, .recv fun _ => 0]

theorem send_block_answered_oneByOne :
    ∃ s, Meets (step "peer") ok (init "peer") oneByOne ∧
      run (step "peer") (init "peer") oneByOne = some s ∧
      s.returned = [⟨0, "peer", "peer", 5⟩, ⟨1, "peer", "peer", 6⟩] ∧ Answered s :=
  have hok : Meets (step "peer") ok (init "peer") oneByOne := by decide
  ⟨_, hok, rfl, by decide, send_block_answered "peer" oneByOne _ hok rfl⟩

/-- The first call times out; its answer comes while the second waits. -/
def lateAnswer : List Act :=
  [.send 5, .fail, .send 7, .peerRecv 256, .peerAck 0 true, .recv fun _ => 0, .peerRecv 256,
    .peerAck 0 true]

/-- A datagram of another process is on the socket before the answer. -/
def strangersFirst : List Act :=
  [.send 5, .other (some "stranger") [9, 0, 0, 0], .peerRecv 256, .peerAck 0 true,
    .recv fun _ => 0]

/-- **A call takes the answer to another**, or what a stranger has sent, and then sends its
next message to the stranger. -/
theorem wrong_answer_is_taken :
    (∃ s, run (step "peer") (init "peer") lateAnswer = some s ∧
      s.returned = [⟨0, "peer", "peer", -1⟩, ⟨1, "peer", "peer", 5⟩] ∧ s.value 1 = some 7 ∧
      ¬ Answered s) ∧
    ∃ s, run (step "peer") (init "peer") strangersFirst = some s ∧
      s.returned = [⟨0, "peer", "stranger", 9⟩] ∧ s.value 0 = some 5 ∧ ¬ Answered s :=
  ⟨⟨_, rfl, by decide, by decide, by decide⟩, _, rfl, by decide, by decide, by decide⟩

end Manhattan.Libsine
