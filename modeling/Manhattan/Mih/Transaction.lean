/-!
# The transactions of the MIH function

A message to a peer is the work of a source transaction, and one from a peer that of a
destination transaction (`transaction.hpp`, `src_transaction.cpp`, `dst_transaction.cpp`).
Both carry the same two acknowledgement machines: the requestor repeats `out` every five
seconds until an acknowledgement has come in, the responder answers each copy of `in` with
an acknowledgement or with the response once more. A timer calls `dec` for every
transaction of the pool once a second.

Here are the two machines and the pool; `SrcTransaction` and `DstTransaction` add the
machine that drives them. The labels of a machine are functions, in the reverse order of
the jumps. What is handed to `_netsap.send` and to `process_message` is kept in `log`.

> `Law.dec_timed`: a driving machine that leaves the timers alone is taken out of the pool
> at its fifteenth tick.

Mirroring notes:
- `find` looks a transaction up by peer and `tid`, and the message is handled by the
  transaction it gives; here a message that is meant for another one changes nothing. The
  sets of the pool order their elements by a relation that is no order
  (`transaction_compare`), which is well defined for one element at a time.
- `dup = out` makes two names for one object. `dupIsOut` says whether it still is one.
- The handler gets references to both messages: `Answer` says what it left in them.
- `rtxctr` is set when the requestor starts and not read before.
- Of the header of a message the machines read the two flags, the operation code and the
  transaction identifier.
- The lock of the pool is not held while a machine runs. Here an event is one step.
-/

namespace Manhattan.Mih.Transaction

inductive Operation
  | confirm | request | response | indication
deriving DecidableEq, Repr

/-- The three fields of `_mid`. -/
structure Mid where
  sid : Nat := 0
  opcode : Operation := .confirm
  aid : Nat := 0
deriving DecidableEq, Repr

abbrev Id := List UInt8

/-- `meta_message`, with the values of its constructor. -/
structure Message where
  ackreq : Bool := false
  ackrsp : Bool := false
  mid : Mid := {}
  tid : UInt16 := 0
  source : Id := []
  destination : Id := []
  payload : List UInt8 := []
  ip : List UInt8 := []
  scope : UInt16 := 0
  port : UInt16 := 0
deriving DecidableEq, Repr

def Message.opcode (m : Message) : Operation := m.mid.opcode

/-- The next `_tid`; zero is left out. -/
def nextTid (t : UInt16) : UInt16 := if t + 1 = 0 then 1 else t + 1

/-- `utils::is_multicast` -/
def Message.isMulticast (m : Message) : Bool := m.destination.isEmpty

def Message.hasServiceSpecificTlv (m : Message) : Bool := !m.payload.isEmpty

/-- `m` is to be acknowledged. -/
def Message.owesAck (m : Message) : Bool := m.ackreq && !m.isMulticast

/-- What `process_message(in, out)` returns, and the two messages after the call. -/
structure Answer where
  rsp : Bool
  input : Message
  out : Message

abbrev Handler := Message → Message → Answer

inductive Status
  | ongoing | success | failure
deriving DecidableEq, Repr

inductive AckResponderState
  | init | returnAck | piggybacking | returnDuplicate
deriving DecidableEq, Repr

inductive AckRequestorState
  | init | waitAck | retransmit | success | failure
deriving DecidableEq, Repr

/-- What a transaction does to the outside: `_netsap.send` of `out`, of `ack` and of `dup`,
and `process_message` with its `in`. -/
inductive Effect
  | sent (m : Message)
  | acked (m : Message)
  | duplicated (m : Message)
  | processed (m : Message)
deriving DecidableEq, Repr

/-- `transaction_t`, with the values of its constructor. -/
structure T where
  opcode : Operation := .confirm
  ackRequestorStatus : Status := .ongoing
  transactionStopWhen : Nat := 0
  retransmissionWhen : Nat := 0
  tid : UInt16 := 0
  myMihfId : Id := []
  peerMihfId : Id := []
  input : Message := {}
  msgInAvail : Bool := false
  out : Message := {}
  msgOutAvail : Bool := false
  transactionStatus : Status := .ongoing
  startAckRequestor : Bool := false
  startAckResponder : Bool := false
  isMulticast : Bool := false
  responseReceived : Bool := false
  ackReqState : AckRequestorState := .init
  ackRspState : AckResponderState := .init
  dup : Message := {}
  dupIsOut : Bool := false
  ack : Message := {}
  rtxctr : Nat := 0
  log : List Effect := []

namespace T

def does (t : T) (e : Effect) : T := { t with log := t.log ++ [e] }

/-- The message behind the pointer `dup`. -/
def dupMessage (t : T) : Message := if t.dupIsOut then t.out else t.dup

/-- `t->out = out`: the old object stays behind `dup`. -/
def putOut (t : T) (m : Message) : T :=
  { t with out := m, dup := t.dupMessage, dupIsOut := false, msgOutAvail := true }

/-- `t->in = in` -/
def putIn (t : T) (m : Message) : T := { t with input := m, msgInAvail := true }

/-- `process_message(in, out)` -/
def processMessage (h : Handler) (t : T) : T :=
  { t.does (.processed t.input) with
    input := (h t.input t.out).input, out := (h t.input t.out).out }

/-! ## The responder -/

def rspReturnDuplicate (t : T) : T :=
  let t := { t with ackRspState := .returnDuplicate }
  if t.msgInAvail then { t.does (.duplicated t.dupMessage) with msgInAvail := false } else t

def rspPiggybacking (t : T) : T :=
  let t := { t with ackRspState := .piggybacking,
                    out := { t.out with ackrsp := true }, dupIsOut := true }
  if t.msgInAvail then t.rspReturnDuplicate else t

def rspReturnAck (t : T) : T :=
  let t := { t with ackRspState := .returnAck }
  if t.msgInAvail then { t.does (.acked t.ack) with msgInAvail := false }
  else if t.msgOutAvail then t.rspPiggybacking
  else t

/-- The acknowledgement of `in`. Its operation code is set twice, by itself and with
`mid`. -/
def theAck (t : T) : Message :=
  { t.ack with
    ackreq := false, ackrsp := true, tid := t.tid, mid := t.input.mid
    source := t.myMihfId, destination := t.peerMihfId
    ip := t.input.ip, port := t.input.port }

def rspInit (t : T) : T :=
  let t := { t with ack := t.theAck }
  if t.msgOutAvail then t.rspPiggybacking
  else rspReturnAck { t.does (.acked t.ack) with msgInAvail := false }

def ackResponder (t : T) : T :=
  match t.ackRspState with
  | .init => t.rspInit
  | .returnAck => t.rspReturnAck
  | .piggybacking => t.rspPiggybacking
  | .returnDuplicate => t.rspReturnDuplicate

/-! ## The requestor -/

def reqSuccess (t : T) : T := { t with ackReqState := .success, ackRequestorStatus := .success }

def reqFailure (t : T) : T := { t with ackReqState := .failure, ackRequestorStatus := .failure }

/-- The second test of `_req_wait_ack_lbl_`. -/
def reqAwait (t : T) : T := if t.msgInAvail && t.input.ackrsp then t.reqSuccess else t

/-- The counter is five here, so the first test of `_req_wait_ack_lbl_` fails. -/
def reqWaitAckBegin (t : T) : T :=
  reqAwait { t with ackReqState := .waitAck, retransmissionWhen := 5 }

def reqRetransmit (t : T) : T :=
  reqWaitAckBegin { t.does (.sent t.out) with
    ackReqState := .retransmit, rtxctr := t.rtxctr + 1 }

def reqWaitAck (t : T) : T :=
  if t.retransmissionWhen = 0 then
    if t.rtxctr < 2 then t.reqRetransmit else t.reqFailure
  else t.reqAwait

def reqInit (t : T) : T := reqWaitAckBegin { t with ackRequestorStatus := .ongoing, rtxctr := 0 }

def ackRequestor (t : T) : T :=
  match t.ackReqState with
  | .init => t.reqInit
  | .waitAck => t.reqWaitAck
  | .retransmit => t.reqRetransmit
  | .success => t.reqSuccess
  | .failure => t.reqFailure

/-- `if (start_ack_requestor) ack_requestor();` -/
def requestAck (t : T) : T := if t.startAckRequestor then t.ackRequestor else t

/-- `if (start_ack_responder) ack_responder();` -/
def respondAck (t : T) : T := if t.startAckResponder then t.ackResponder else t

end T

/-- `--` on an `unsigned`. -/
def pred32 (n : Nat) : Nat := if n = 0 then 4294967295 else n - 1

theorem pred32_eq_zero {n : Nat} : pred32 n = 0 ↔ n = 1 := by
  unfold pred32
  split <;> omega

/-! ## The pool -/

/-- A transaction with the state of its driving machine, and whether the pool holds it. -/
structure Tr (σ : Type) extends T where
  state : σ
  pooled : Bool := false

/-- What can happen to a transaction. -/
inductive Event
  | messageIn (m : Message) (h : Handler)
  | messageOut (m : Message) (h : Handler)
  | tick (h : Handler)

def Event.isTick : Event → Bool
  | .tick _ => true
  | _ => false

def ticks (es : List Event) : Nat := es.countP Event.isTick

theorem ticks_cons (e : Event) (es : List Event) : ticks (e :: es) = ticks [e] + ticks es :=
  (List.countP_append : ([e] ++ es).countP Event.isTick = _)

/-- The test of `message_in` for the messages of a source transaction. -/
def forSource (m : Message) : Bool :=
  (m.ackrsp && (m.opcode == .request || m.opcode == .indication)) ||
  (!m.ackrsp && m.opcode == .response) ||
  (m.ackrsp && m.opcode == .response && m.hasServiceSpecificTlv)

namespace Tr

variable {σ : Type}

/-- `find` gives this transaction. -/
def matched (s : Tr σ) (peer : Id) (tid : UInt16) : Bool :=
  s.pooled && s.peerMihfId == peer && s.tid == tid

/-- `if (t->transaction_status != ONGOING && t->ack_requestor_status != ONGOING)
_tpool.del(t)` -/
def delIfDone (s : Tr σ) : Tr σ :=
  if s.transactionStatus ≠ .ongoing ∧ s.ackRequestorStatus ≠ .ongoing then
    { s with pooled := false }
  else s

/-- `if (t->transaction_status == ONGOING) t->run()` -/
def runOngoing (run : Tr σ → Tr σ) (s : Tr σ) : Tr σ :=
  if s.transactionStatus = .ongoing then run s else s

/-- The first half of the body of `dec`: the transaction has run out of time. -/
def decStop (run : Tr σ → Tr σ) (s : Tr σ) : Tr σ :=
  let s := { s with transactionStopWhen := pred32 s.transactionStopWhen }
  if s.transactionStopWhen = 0 then
    let s := run s
    if s.transactionStatus = .ongoing then { s with pooled := false } else s
  else s

/-- The second half: the requestor has. -/
def decRetransmission (run : Tr σ → Tr σ) (s : Tr σ) : Tr σ :=
  if s.ackRequestorStatus = .ongoing then
    let s : Tr σ := { s with retransmissionWhen := pred32 s.retransmissionWhen }
    if s.retransmissionWhen = 0 then run { s with toT := s.toT.ackRequestor } else s
  else s

/-- The body of the loop of `dec`, which is a template over the two sets. -/
def dec (run : Tr σ → Tr σ) (s : Tr σ) : Tr σ :=
  let s := (s.decStop run).decRetransmission run
  if s.transactionStatus ≠ .ongoing then { s with pooled := false } else s

end Tr

/-! ## What the machines can do -/

def Effect.isSent : Effect → Bool
  | .sent _ => true
  | _ => false

def Effect.isAnswer : Effect → Bool
  | .acked _ => true
  | .duplicated _ => true
  | _ => false

/-- How often `out` has been sent. -/
def copies (log : List Effect) : Nat := log.countP Effect.isSent

theorem copies_append (l l' : List Effect) : copies (l ++ l') = copies l + copies l' :=
  List.countP_append

namespace T

/-- The responder works on its own variables, on the flag of `out` and on whether `in` is
new, and answers once at most. -/
def Responded (t t' : T) : Prop :=
  ∃ st ack dupIsOut out avail answers,
    t' = { t with ackRspState := st, ack := ack, dupIsOut := dupIsOut, out := out,
                  msgInAvail := avail, log := t.log ++ answers } ∧
    (avail = true → t.msgInAvail = true) ∧
    answers.length ≤ 1 ∧ ∀ e ∈ answers, e.isAnswer = true

theorem rspReturnDuplicate_responded (t : T) : Responded t t.rspReturnDuplicate := by
  unfold rspReturnDuplicate
  dsimp only
  split
  · exact ⟨_, _, _, _, _, [_], rfl, by simp, by simp, by simp [Effect.isAnswer]⟩
  · exact ⟨_, _, _, _, _, [], by rw [List.append_nil], id, by simp, by simp⟩

theorem rspPiggybacking_responded (t : T) : Responded t t.rspPiggybacking := by
  unfold rspPiggybacking
  dsimp only
  split
  · exact rspReturnDuplicate_responded _
  · exact ⟨_, _, _, _, _, [], by rw [List.append_nil], id, by simp, by simp⟩

theorem rspReturnAck_responded (t : T) : Responded t t.rspReturnAck := by
  unfold rspReturnAck
  dsimp only
  split
  · exact ⟨_, _, _, _, _, [_], rfl, by simp, by simp, by simp [Effect.isAnswer]⟩
  · split
    · exact rspPiggybacking_responded _
    · exact ⟨_, _, _, _, _, [], by rw [List.append_nil], id, by simp, by simp⟩

theorem rspInit_responded (t : T) : Responded t t.rspInit := by
  unfold rspInit
  dsimp only
  split
  · exact rspPiggybacking_responded _
  · next hout =>
    -- the acknowledgement has gone out, and `in` is no longer new for the next label
    refine ⟨.returnAck, t.theAck, t.dupIsOut, t.out, false, [.acked t.theAck], ?_, by simp, by simp,
      by simp [Effect.isAnswer]⟩
    simp [rspReturnAck, does, hout]

theorem ackResponder_responded (t : T) : Responded t t.ackResponder := by
  unfold ackResponder
  split
  · exact rspInit_responded t
  · exact rspReturnAck_responded t
  · exact rspPiggybacking_responded t
  · exact rspReturnDuplicate_responded t

/-- The requestor works on its own variables. It sends `out` once more when its time is
up, twice at most, and has its acknowledgement only when one is there. -/
def Requested (t t' : T) : Prop :=
  ∃ st status timer ctr log,
    t' = { t with ackReqState := st, ackRequestorStatus := status,
                  retransmissionWhen := timer, rtxctr := ctr, log := log } ∧
    st ≠ .init ∧ st ≠ .retransmit ∧
    (log = t.log ∧ ctr = t.rtxctr ∧ timer = t.retransmissionWhen ∧
        (st = .waitAck → t.ackReqState = .waitAck ∧ t.retransmissionWhen ≠ 0) ∨
      t.ackReqState = .waitAck ∧ t.retransmissionWhen = 0 ∧ t.rtxctr < 2 ∧
        log = t.log ++ [.sent t.out] ∧ ctr = t.rtxctr + 1 ∧ timer = 5) ∧
    (st = .success ∨ status = .success →
      t.ackReqState = .success ∨ t.ackRequestorStatus = .success ∨
        t.msgInAvail = true ∧ t.input.ackrsp = true)

theorem reqAwait_requested {t : T} (h : t.ackReqState = .waitAck)
    (h₀ : t.retransmissionWhen ≠ 0) : Requested t t.reqAwait := by
  unfold reqAwait
  split
  · next hin =>
    refine ⟨.success, .success, _, _, _, rfl, by simp, by simp, .inl ⟨rfl, rfl, rfl, nofun⟩,
      fun _ => ?_⟩
    exact .inr (.inr (Bool.and_eq_true_iff.mp hin))
  · refine ⟨_, _, _, _, _, rfl, by simp [h], by simp [h], .inl ⟨rfl, rfl, rfl, fun _ => ⟨h, h₀⟩⟩,
      fun h => ?_⟩
    exact h.imp_right .inl

theorem reqRetransmit_requested {t : T} (h : t.ackReqState = .waitAck)
    (h₀ : t.retransmissionWhen = 0) (h₂ : t.rtxctr < 2) : Requested t t.reqRetransmit := by
  unfold reqRetransmit reqWaitAckBegin reqAwait
  split
  · next hin =>
    refine ⟨.success, .success, 5, t.rtxctr + 1, _, rfl, by simp, by simp,
      .inr ⟨h, h₀, h₂, rfl, rfl, rfl⟩, fun _ => ?_⟩
    exact .inr (.inr (Bool.and_eq_true_iff.mp hin))
  · refine ⟨.waitAck, t.ackRequestorStatus, 5, t.rtxctr + 1, _, rfl, by simp, by simp,
      .inr ⟨h, h₀, h₂, rfl, rfl, rfl⟩, fun hs => ?_⟩
    rcases hs with hs | hs
    · cases hs
    · exact .inr (.inl hs)

/-- What a requestor that has been started does when it is called again. -/
theorem ackRequestor_requested {t : T} (h₁ : t.ackReqState ≠ .init)
    (h₂ : t.ackReqState ≠ .retransmit) : Requested t t.ackRequestor := by
  cases hst : t.ackReqState with
  | init => exact absurd hst h₁
  | retransmit => exact absurd hst h₂
  | waitAck =>
    simp only [ackRequestor, hst, reqWaitAck]
    split
    · next h₀ =>
      split
      · next hfew => exact reqRetransmit_requested hst h₀ hfew
      · exact ⟨.failure, .failure, _, _, _, rfl, by simp, by simp, .inl ⟨rfl, rfl, rfl, nofun⟩,
          by simp⟩
    · next h₀ => exact reqAwait_requested hst h₀
  | success =>
    simp only [ackRequestor, hst]
    exact ⟨.success, .success, _, _, _, rfl, by simp, by simp, .inl ⟨rfl, rfl, rfl, nofun⟩,
      fun _ => .inl hst⟩
  | failure =>
    simp only [ackRequestor, hst]
    exact ⟨.failure, .failure, _, _, _, rfl, by simp, by simp, .inl ⟨rfl, rfl, rfl, nofun⟩,
      by simp⟩

end T

/-! ## What holds of the machines -/

def Effect.processed? : Effect → Option Message
  | .processed m => some m
  | _ => none

/-- What the handler has been given. -/
def handed (log : List Effect) : List Message := log.filterMap Effect.processed?

theorem handed_append (l l' : List Effect) : handed (l ++ l') = handed l ++ handed l' :=
  List.filterMap_append

/-- The two machines of a transaction that has `heard` these messages. -/
structure T.Inv (heard : List Message) (t : T) : Prop where
  counted : copies t.log ≤ 1 + t.rtxctr
  few : t.rtxctr ≤ 2
  started : t.startAckRequestor = true → t.ackReqState ≠ .init ∧ t.ackReqState ≠ .retransmit
  idle : t.startAckRequestor = false → t.ackReqState = .init ∧ t.ackRequestorStatus = .ongoing
  avail : t.msgInAvail = true → t.input ∈ heard
  acked : t.ackReqState = .success ∨ t.ackRequestorStatus = .success →
    ∃ a ∈ heard, a.ackrsp = true

namespace T

variable {heard : List Message} {t : T}

theorem Inv.ackRequestor (hI : t.Inv heard) (hs : t.startAckRequestor = true) :
    t.ackRequestor.Inv heard := by
  obtain ⟨st, status, timer, ctr, log, ht, h₁, h₂, hlog, hsucc⟩ :=
    ackRequestor_requested (hI.started hs).1 (hI.started hs).2
  rw [ht]
  have hacked : st = .success ∨ status = .success → ∃ a ∈ heard, a.ackrsp = true := by
    intro h
    rcases hsucc h with h | h | ⟨havail, hrsp⟩
    · exact hI.acked (.inl h)
    · exact hI.acked (.inr h)
    · exact ⟨t.input, hI.avail havail, hrsp⟩
  have hoff : t.startAckRequestor = false → st = .init ∧ status = .ongoing :=
    fun h => absurd (hs.symm.trans h) Bool.true_eq_false.mp
  rcases hlog with ⟨rfl, rfl, -⟩ | ⟨-, -, hfew, rfl, rfl, -⟩
  · exact ⟨hI.counted, hI.few, fun _ => ⟨h₁, h₂⟩, hoff, hI.avail, hacked⟩
  · refine ⟨?_, hfew, fun _ => ⟨h₁, h₂⟩, hoff, hI.avail, hacked⟩
    rw [copies_append]
    exact Nat.add_le_add_right hI.counted 1

theorem Inv.requestAck (hI : t.Inv heard) : t.requestAck.Inv heard := by
  unfold T.requestAck
  split
  · next hs => exact hI.ackRequestor hs
  · exact hI

theorem copies_answers {l : List Effect} (h : ∀ e ∈ l, e.isAnswer = true) : copies l = 0 := by
  refine List.countP_eq_zero.mpr fun e he => ?_
  cases e with
  | sent m => cases h _ he
  | acked m => exact Bool.false_ne_true
  | duplicated m => exact Bool.false_ne_true
  | processed m => exact Bool.false_ne_true

theorem handed_answers {l : List Effect} (h : ∀ e ∈ l, e.isAnswer = true) : handed l = [] := by
  refine List.filterMap_eq_nil_iff.mpr fun e he => ?_
  cases e with
  | sent m => rfl
  | acked m => rfl
  | duplicated m => rfl
  | processed m => cases h _ he

theorem Inv.ackResponder (hI : t.Inv heard) : t.ackResponder.Inv heard := by
  obtain ⟨st, ack, dupIsOut, out, avail, answers, ht, havail, -, hanswers⟩ :=
    ackResponder_responded t
  rw [ht]
  refine ⟨?_, hI.few, hI.started, hI.idle, fun h => hI.avail (havail h), hI.acked⟩
  rw [copies_append, copies_answers hanswers]
  exact hI.counted

theorem Inv.respondAck (hI : t.Inv heard) : t.respondAck.Inv heard := by
  unfold T.respondAck
  split
  · exact hI.ackResponder
  · exact hI

/-- A new message; it has been heard. -/
theorem Inv.putIn (hI : t.Inv heard) {m : Message} (hm : m ∈ heard) : (t.putIn m).Inv heard :=
  ⟨hI.counted, hI.few, hI.started, hI.idle, fun _ => hm, hI.acked⟩

theorem Inv.putOut (hI : t.Inv heard) (m : Message) : (t.putOut m).Inv heard :=
  ⟨hI.counted, hI.few, hI.started, hI.idle, hI.avail, hI.acked⟩

theorem Inv.withStatus (hI : t.Inv heard) (st : Status) :
    T.Inv heard { t with transactionStatus := st } :=
  ⟨hI.counted, hI.few, hI.started, hI.idle, hI.avail, hI.acked⟩

/-- What the two machines leave to the machine that calls them. -/
structure Kept (t t' : T) : Prop where
  peer : t'.peerMihfId = t.peerMihfId
  tid : t'.tid = t.tid
  opcode : t'.opcode = t.opcode
  start : t'.startAckRequestor = t.startAckRequestor
  respond : t'.startAckResponder = t.startAckResponder
  status : t'.transactionStatus = t.transactionStatus
  stop : t'.transactionStopWhen = t.transactionStopWhen
  received : t'.responseReceived = t.responseReceived
  log : t.log <+: t'.log
  given : handed t'.log = handed t.log
  silent : t.startAckRequestor = false → copies t'.log = copies t.log ∧
    t'.retransmissionWhen = t.retransmissionWhen

theorem Kept.rfl {t : T} : Kept t t :=
  ⟨.refl _, .refl _, .refl _, .refl _, .refl _, .refl _, .refl _, .refl _, List.prefix_rfl, .refl _,
    fun _ => ⟨.refl _, .refl _⟩⟩

theorem Kept.trans {t u v : T} (h : Kept t u) (h' : Kept u v) : Kept t v :=
  ⟨h'.peer.trans h.peer, h'.tid.trans h.tid, h'.opcode.trans h.opcode, h'.start.trans h.start,
    h'.respond.trans h.respond, h'.status.trans h.status, h'.stop.trans h.stop,
    h'.received.trans h.received, h.log.trans h'.log, h'.given.trans h.given,
    fun hs =>
      ⟨(h'.silent (h.start.trans hs)).1.trans (h.silent hs).1,
        (h'.silent (h.start.trans hs)).2.trans (h.silent hs).2⟩⟩

theorem Kept.of_putIn {t u : T} {m : Message} (h : Kept (t.putIn m) u) : Kept t u :=
  ⟨h.peer, h.tid, h.opcode, h.start, h.respond, h.status, h.stop, h.received, h.log,
    h.given, h.silent⟩

theorem Kept.of_putOut {t u : T} {m : Message} (h : Kept (t.putOut m) u) : Kept t u :=
  ⟨h.peer, h.tid, h.opcode, h.start, h.respond, h.status, h.stop, h.received, h.log,
    h.given, h.silent⟩

theorem Inv.ackRequestor_kept (hI : t.Inv heard) (hs : t.startAckRequestor = true) :
    Kept t t.ackRequestor := by
  obtain ⟨st, status, timer, ctr, log, ht, -, -, hlog, -⟩ :=
    ackRequestor_requested (hI.started hs).1 (hI.started hs).2
  rw [ht]
  have hoff {p : Prop} (h : t.startAckRequestor = false) : p :=
    absurd (hs.symm.trans h) Bool.true_eq_false.mp
  rcases hlog with ⟨rfl, -⟩ | ⟨-, -, -, rfl, -⟩
  · exact ⟨rfl, rfl, rfl, rfl, rfl, rfl, rfl, rfl, List.prefix_rfl, rfl, hoff⟩
  · exact ⟨rfl, rfl, rfl, rfl, rfl, rfl, rfl, rfl, List.prefix_append _ _,
      (handed_append _ _).trans (List.append_nil _), hoff⟩

theorem Inv.requestAck_kept (hI : t.Inv heard) : Kept t t.requestAck := by
  unfold T.requestAck
  split
  · next hs => exact hI.ackRequestor_kept hs
  · exact Kept.rfl

theorem ackResponder_kept (t : T) : Kept t t.ackResponder := by
  obtain ⟨st, ack, dupIsOut, out, avail, answers, ht, -, -, hanswers⟩ := ackResponder_responded t
  rw [ht]
  refine ⟨rfl, rfl, rfl, rfl, rfl, rfl, rfl, rfl, List.prefix_append _ _, ?_, fun _ => ⟨?_, rfl⟩⟩
  · rw [handed_append, handed_answers hanswers, List.append_nil]
  · rw [copies_append, copies_answers hanswers, Nat.add_zero]

theorem respondAck_kept (t : T) : Kept t t.respondAck := by
  unfold T.respondAck
  split
  · exact ackResponder_kept t
  · exact Kept.rfl

theorem respondAck_input (t : T) : t.respondAck.input = t.input := by
  unfold T.respondAck
  split
  · obtain ⟨st, ack, dupIsOut, out, avail, answers, ht, -⟩ := ackResponder_responded t
    rw [ht]
  · rfl

end T

/-! ## The timers -/

namespace Tr

variable {σ : Type} {s s' s'' : Tr σ}

/-- `s'` has the time that `s` had, unless it has started its requestor. -/
structure SameTime (s s' : Tr σ) : Prop where
  stop : s'.transactionStopWhen = s.transactionStopWhen
  off : s'.startAckRequestor = false →
    s.startAckRequestor = false ∧ s'.retransmissionWhen = s.retransmissionWhen
  pool : s'.pooled = true → s.pooled = true

theorem SameTime.rfl : SameTime s s := ⟨.refl _, fun h => ⟨h, .refl _⟩, id⟩

theorem SameTime.trans (h : SameTime s s') (h' : SameTime s' s'') : SameTime s s'' :=
  ⟨h'.stop.trans h.stop,
    fun hs => ⟨(h.off (h'.off hs).1).1, (h'.off hs).2.trans (h.off (h'.off hs).1).2⟩,
    fun hp => h.pool (h'.pool hp)⟩

theorem sameTime_of_kept {t : T} (h : T.Kept s.toT t) : SameTime s { s with toT := t } :=
  ⟨h.stop, fun hs => ⟨h.start.symm.trans hs, (h.silent (h.start.symm.trans hs)).2⟩, id⟩

theorem delIfDone_toT (s : Tr σ) : s.delIfDone.toT = s.toT := by
  unfold delIfDone
  split <;> rfl

theorem delIfDone_state (s : Tr σ) : s.delIfDone.state = s.state := by
  unfold delIfDone
  split <;> rfl

theorem delIfDone_sameTime (s : Tr σ) : SameTime s s.delIfDone := by
  unfold delIfDone
  split
  · exact ⟨Eq.refl _, fun h => ⟨h, Eq.refl _⟩, fun hp => absurd hp Bool.false_ne_true⟩
  · exact SameTime.rfl

/-- After `n` ticks; a requestor that has not been started counts down from zero. -/
def Timed (n : Nat) (s : Tr σ) : Prop :=
  s.pooled = true → n < 15 ∧ s.transactionStopWhen + n = 15 ∧
    (s.startAckRequestor = false → s.retransmissionWhen = (4294967296 - n) % 4294967296)

theorem SameTime.timed {n : Nat} (h : SameTime s s') (ht : Timed n s) : Timed n s' := by
  intro hp
  obtain ⟨hlt, hstop, hoff⟩ := ht (h.pool hp)
  exact ⟨hlt, h.stop ▸ hstop, fun hs => (h.off hs).2.trans (hoff (h.off hs).1)⟩

/-- What a driving machine has to do for `dec`: `run()` keeps its invariant and the timers,
and a transaction that is over stays so. -/
structure Law (heard : List Message) (run : Tr σ → Tr σ) (I : Tr σ → Prop) : Prop where
  inv : ∀ {s}, I s → s.toT.Inv heard
  keeps : ∀ {s}, I s → I (run s)
  time : ∀ {s}, I s → SameTime s (run s)
  ended : ∀ {s}, I s → s.transactionStatus ≠ .ongoing → (run s).transactionStatus ≠ .ongoing
  machines : ∀ {s : Tr σ} {t : T}, I s → t.Inv heard → T.Kept s.toT t → I { s with toT := t }
  timers : ∀ {s : Tr σ} (n k : Nat), I s →
    I { s with transactionStopWhen := n, retransmissionWhen := k }
  pool : ∀ {s : Tr σ} (b : Bool), I s → I { s with pooled := b }

namespace Law

variable {heard : List Message} {run : Tr σ → Tr σ} {I : Tr σ → Prop}

theorem delIfDone (law : Law heard run I) (hI : I s) : I s.delIfDone := by
  unfold Tr.delIfDone
  split
  · exact law.pool false hI
  · exact hI

/-- The machines have been called for a message, and `run()` where it is due. -/
theorem after {t : T} (law : Law heard run I) (hI : I s) (ht : t.Inv heard)
    (hk : T.Kept s.toT t) (c : Prop) [Decidable c] :
    let s' : Tr σ := { s with toT := t }
    I (if c then run s' else s').delIfDone ∧ SameTime s (if c then run s' else s').delIfDone := by
  have hmach := law.machines hI ht hk
  have hsame := sameTime_of_kept hk
  dsimp only
  split
  · exact ⟨law.delIfDone (law.keeps hmach),
      (hsame.trans (law.time hmach)).trans (delIfDone_sameTime _)⟩
  · exact ⟨law.delIfDone hmach, hsame.trans (delIfDone_sameTime _)⟩

theorem decStop (law : Law heard run I) (hI : I s) (hpos : 0 < s.transactionStopWhen) :
    I (s.decStop run) ∧
    (s.decStop run).transactionStopWhen = s.transactionStopWhen - 1 ∧
    ((s.decStop run).startAckRequestor = false → s.startAckRequestor = false ∧
      (s.decStop run).retransmissionWhen = s.retransmissionWhen) ∧
    (s.transactionStopWhen = 1 →
      (s.decStop run).pooled = false ∨ (s.decStop run).transactionStatus ≠ .ongoing) := by
  have hpred : pred32 s.transactionStopWhen = s.transactionStopWhen - 1 :=
    if_neg (Nat.pos_iff_ne_zero.mp hpos)
  have hI' := law.timers (s.transactionStopWhen - 1) s.retransmissionWhen hI
  have htime := law.time hI'
  unfold Tr.decStop
  dsimp only
  rw [hpred]
  split
  · split
    · exact ⟨law.pool false (law.keeps hI'), htime.stop, htime.off, fun _ => .inl rfl⟩
    · next hover => exact ⟨law.keeps hI', htime.stop, htime.off, fun _ => .inr hover⟩
  · next hne => exact ⟨hI', rfl, fun h => ⟨h, rfl⟩, fun h => absurd (by rw [h]) hne⟩

theorem decRetransmission (law : Law heard run I) (hI : I s)
    (hoff : s.startAckRequestor = false → s.retransmissionWhen ≠ 1) :
    I (s.decRetransmission run) ∧
    (s.decRetransmission run).transactionStopWhen = s.transactionStopWhen ∧
    ((s.decRetransmission run).startAckRequestor = false → s.startAckRequestor = false ∧
      (s.decRetransmission run).retransmissionWhen = pred32 s.retransmissionWhen) ∧
    ((s.decRetransmission run).pooled = true → s.pooled = true) ∧
    (s.transactionStatus ≠ .ongoing → (s.decRetransmission run).transactionStatus ≠ .ongoing) := by
  have hI' := law.timers s.transactionStopWhen (pred32 s.retransmissionWhen) hI
  unfold Tr.decRetransmission
  dsimp only
  split
  · split
    · next hzero =>
      -- time for another copy, so the requestor has been started
      have hs : s.startAckRequestor = true :=
        Bool.not_eq_false _ |>.mp fun hs => hoff hs (pred32_eq_zero.mp hzero)
      have hk := (law.inv hI').ackRequestor_kept hs
      have hreq := law.machines hI' ((law.inv hI').ackRequestor hs) hk
      have htime := law.time hreq
      refine ⟨law.keeps hreq, htime.stop.trans hk.stop, fun h => ?_, htime.pool,
        fun hover => law.ended hreq ?_⟩
      · exact absurd (hs.symm.trans (hk.start.symm.trans (htime.off h).1)) Bool.true_eq_false.mp
      · exact fun h => hover (hk.status.symm.trans h)
    · exact ⟨hI', rfl, fun h => ⟨h, rfl⟩, id, id⟩
  · next hdone =>
    exact ⟨hI, rfl, fun hs => absurd ((law.inv hI).idle hs).2 hdone, id, id⟩

/-- **One second.** At the fifteenth tick the transaction is over or has not ended, and is
taken out of the pool in both cases. -/
theorem dec_timed {n : Nat} (law : Law heard run I) (hI : I s) (ht : Timed n s)
    (hp : s.pooled = true) : I (s.dec run) ∧ Timed (n + 1) (s.dec run) := by
  obtain ⟨hlt, hstop, hoff⟩ := ht hp
  obtain ⟨hI₁, hstop₁, hre₁, hover₁⟩ := law.decStop hI (by omega)
  have hne : (s.decStop run).startAckRequestor = false →
      (s.decStop run).retransmissionWhen ≠ 1 := by
    intro hs
    rw [(hre₁ hs).2, hoff (hre₁ hs).1]
    omega
  obtain ⟨hI₂, hstop₂, hre₂, hpool₂, hover₂⟩ := law.decRetransmission hI₁ hne
  unfold Tr.dec
  dsimp only
  split
  · exact ⟨law.pool false hI₂, fun h => absurd h Bool.false_ne_true⟩
  · next hgoing =>
    refine ⟨hI₂, fun hpooled => ⟨?_, ?_, fun hs => ?_⟩⟩
    · refine Nat.lt_of_not_le fun hlast => ?_
      rcases hover₁ (by omega) with hout | hover
      · exact absurd (hout.symm.trans (hpool₂ hpooled)) Bool.false_ne_true
      · exact hgoing (hover₂ hover)
    · omega
    · have hs₁ := (hre₂ hs).1
      rw [(hre₂ hs).2, (hre₁ hs₁).2, hoff (hre₁ hs₁).1]
      unfold pred32
      split <;> omega

end Law

end Tr

end Manhattan.Mih.Transaction
