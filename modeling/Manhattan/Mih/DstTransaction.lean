import Manhattan.Mih.Transaction

/-!
# The destination transaction

`message_in` starts a destination transaction for a message that belongs to no other one
(`dst_transaction.cpp`). The message goes to the MIH function at once. A request waits for
its response, which comes from the MIH function itself or later from a user, and then for
the acknowledgement of the response; what the peer sends meanwhile is answered by the
responder.

> `dst_once`: in every run the handler is given the first message and nothing else, the
> response is sent three times at most, and the transaction is out of the pool at its
> fifteenth tick. It has succeeded only if what it owed has gone out.
>
> `dst_answers`: a copy of a message that asked for an acknowledgement gets one answer: the
> acknowledgement as long as there is no response, and then the response that is stored.

Mirroring notes:
- An indication, a response and a request that is answered at once without a flag for an
  acknowledgement are over at the end of the first `run()` and never reach the pool, so the
  next copy is a new transaction.
- A confirm is treated like a request.
- Where the handler has a response to an indication or to a response, the acknowledgement is
  left to that, and nothing is sent.
-/

namespace Manhattan.Mih.Transaction

inductive DstState
  | init | waitResponsePrm | sendResponse | failure | success
deriving DecidableEq, Repr

/-- `dst_transaction_t` -/
abbrev Dst := Tr DstState

/-- `_send_response_begin_lbl_` -/
def T.beginResponse (t : T) : T :=
  let t := { t with startAckRequestor := t.out.ackreq }.requestAck
  { t with ackRequestorStatus := .ongoing }.does (.sent t.out)

namespace Dst

def onSuccess (s : Dst) : Dst := { s with state := .success, transactionStatus := .success }

def onFailure (s : Dst) : Dst := { s with state := .failure, transactionStatus := .failure }

def onSendResponse (s : Dst) : Dst :=
  if !s.startAckRequestor || s.ackRequestorStatus == .success then onSuccess s
  else if s.ackRequestorStatus = .failure then onFailure s
  else s

def onWaitResponsePrm (s : Dst) : Dst :=
  let s : Dst := { s with state := .waitResponsePrm }
  if s.transactionStopWhen = 0 then onFailure s
  else if s.msgOutAvail && (!s.startAckResponder || s.out.ackrsp) then
    onSendResponse { s with toT := s.toT.beginResponse, state := .sendResponse }
  else s

/-- `_init_lbl_`, up to the next jump. -/
def takeIn (h : Handler) (t : T) : T :=
  let t := { t with
    transactionStatus := .ongoing, opcode := t.input.opcode, tid := t.input.tid
    transactionStopWhen := 15, isMulticast := t.input.isMulticast
    peerMihfId := t.input.source, myMihfId := t.input.destination
    startAckResponder := t.input.ackreq && !t.input.isMulticast
    msgInAvail := false, out := {} }
  let t := { t.processMessage h with msgOutAvail := (h t.input t.out).rsp }
  t.respondAck

def onInit (h : Handler) (s : Dst) : Dst :=
  let s : Dst := { s with toT := takeIn h s.toT }
  match s.opcode with
  | .request => onWaitResponsePrm s
  | .indication => onSuccess s
  | .response => onSuccess s
  | .confirm => onWaitResponsePrm s

def run (h : Handler) (s : Dst) : Dst :=
  match s.state with
  | .init => onInit h s
  | .waitResponsePrm => onWaitResponsePrm s
  | .sendResponse => onSendResponse s
  | .failure => onFailure s
  | .success => onSuccess s

/-- `if (t->start_ack_responder && t->transaction_status == ONGOING) t->ack_responder()` -/
def respondOngoing (s : Dst) : Dst :=
  if s.startAckResponder ∧ s.transactionStatus = .ongoing then
    { s with toT := s.toT.ackResponder }
  else s

/-- `message_in`, for a message of this transaction. The responder comes last here. -/
def messageIn (m : Message) (h : Handler) (s : Dst) : Dst :=
  let s : Dst := { s with toT := (s.toT.putIn m).requestAck }
  (respondOngoing (s.runOngoing (run h))).delIfDone

/-- `message_out`, for the response of this transaction. -/
def messageOut (m : Message) (h : Handler) (s : Dst) : Dst :=
  let s : Dst := { s with toT := (s.toT.putOut m).requestAck.respondAck }
  (s.runOngoing (run h)).delIfDone

/-- The transaction that `new_dst_transaction` makes for `m`. -/
def fresh (m : Message) : Dst := { state := .init, input := m, msgInAvail := true }

/-- `message_in::new_dst_transaction` -/
def create (m : Message) (h : Handler) : Dst :=
  let s := run h (fresh m)
  { s with pooled := s.transactionStatus == .ongoing }

/-- The event is a message that `find` brings to the transaction. -/
def heeds (s : Dst) : Event → Bool
  | .messageIn m _ => !forSource m && s.matched m.source m.tid
  | .messageOut m _ => m.opcode == .response && s.matched m.destination m.tid
  | .tick _ => s.pooled

def step (s : Dst) (e : Event) : Dst :=
  if heeds s e then
    match e with
    | .messageIn m h => messageIn m h s
    | .messageOut m h => messageOut { m with ackreq := true } h s
    | .tick h => s.dec (run h)
  else s

end Dst

/-! ## What holds of a destination transaction -/

/-- `m` has been acknowledged to its peer. -/
def Acked (m : Message) (log : List Effect) : Prop :=
  ∃ r, .acked r ∈ log ∧ r.ackrsp = true ∧ r.tid = m.tid ∧ r.destination = m.source

/-- A response has been sent, with the acknowledgement that is owed, and has asked for none
or has been acknowledged. -/
def Replied (m : Message) (heard : List Message) (log : List Effect) : Prop :=
  ∃ r, .sent r ∈ log ∧ (m.owesAck = true → r.ackrsp = true) ∧
    (r.ackreq = false ∨ ∃ a ∈ heard, a.ackrsp = true)

/-- The transaction of `m` has succeeded for a reason: an indication or a response has been
acknowledged, if it is to be and `h` has no response for it, and anything else has been
replied to. -/
def Settled (m : Message) (h : Handler) (heard : List Message) (log : List Effect) : Prop :=
  (m.opcode = .indication ∨ m.opcode = .response) ∧
      (m.owesAck = true → (h m {}).rsp = false → Acked m log) ∨
    Replied m heard log

/-- A destination transaction of `m` after its first `run()`. -/
structure Dst.Inv (m : Message) (heard : List Message) (s : Dst) : Prop
    extends T.Inv heard s.toT where
  peer : s.peerMihfId = m.source
  tid : s.tid = m.tid
  given : handed s.log = [m]
  respond : s.startAckResponder = m.owesAck
  place : match s.state with
    | .waitResponsePrm =>
      s.transactionStatus = .ongoing ∧ s.startAckRequestor = false ∧ copies s.log = 0
    | .sendResponse =>
      s.transactionStatus = .ongoing ∧ s.startAckRequestor = true ∧
        ∃ r, .sent r ∈ s.log ∧ (m.owesAck = true → r.ackrsp = true)
    | .success => s.transactionStatus = .success ∧
        ((m.opcode = .indication ∨ m.opcode = .response) ∨ Replied m heard s.log)
    | .failure => s.transactionStatus = .failure
    | .init => False

/-- What `_send_response_begin_lbl_` does to a transaction that has sent nothing. -/
theorem T.Inv.beginResponse {heard : List Message} {t : T} (hI : t.Inv heard)
    (hoff : t.startAckRequestor = false) (hnone : copies t.log = 0) :
    ∃ st timer, t.beginResponse = { t with
        startAckRequestor := t.out.ackreq, ackReqState := st, retransmissionWhen := timer
        rtxctr := if t.out.ackreq then 0 else t.rtxctr, ackRequestorStatus := .ongoing
        log := t.log ++ [.sent t.out] } ∧
      (t.out.ackreq = false → timer = t.retransmissionWhen) ∧ (st = .waitAck → timer ≠ 0) ∧
      t.beginResponse.Inv heard := by
  have hone : copies (t.log ++ [.sent t.out]) = 1 := by
    rw [copies_append, hnone]
    rfl
  unfold T.beginResponse T.requestAck
  dsimp only
  cases hreq : t.out.ackreq with
  | false =>
    refine ⟨t.ackReqState, t.retransmissionWhen, rfl, fun _ => rfl, ?_, ?_, hI.few, nofun,
      fun _ => ⟨(hI.idle hoff).1, rfl⟩, hI.avail, ?_⟩
    · rw [(hI.idle hoff).1]
      exact nofun
    · exact Nat.le_trans (Nat.le_of_eq hone) (Nat.le_add_right 1 _)
    · exact fun h => hI.acked (h.imp_right nofun)
  | true =>
    have hinit : T.ackRequestor { t with startAckRequestor := true } =
        T.reqInit { t with startAckRequestor := true } := by
      unfold T.ackRequestor
      rw [(hI.idle hoff).1]
    rw [if_pos rfl, hinit]
    unfold T.reqInit T.reqWaitAckBegin T.reqAwait
    split
    · next hin =>
      have hin := Bool.and_eq_true_iff.mp hin
      exact ⟨.success, 5, rfl, nofun, nofun, Nat.le_of_eq hone, Nat.zero_le _,
        fun _ => ⟨nofun, nofun⟩, nofun, hI.avail, fun _ => ⟨t.input, hI.avail hin.1, hin.2⟩⟩
    · exact ⟨.waitAck, 5, rfl, nofun, fun _ => nofun, Nat.le_of_eq hone, Nat.zero_le _,
        fun _ => ⟨nofun, nofun⟩, nofun, hI.avail, fun h => h.elim nofun nofun⟩

namespace Dst

variable {m : Message} {heard : List Message} {s : Dst} {h : Handler}

theorem Inv.replied (hI : Inv m heard s) (hs : s.transactionStatus = .success) :
    (m.opcode = .indication ∨ m.opcode = .response) ∨ Replied m heard s.log := by
  have hplace := hI.place
  cases hst : s.state <;> rw [hst] at hplace
  case success => exact hplace.2
  case waitResponsePrm => cases hs.symm.trans hplace.1
  case sendResponse => cases hs.symm.trans hplace.1
  case failure => cases hs.symm.trans hplace
  case init => exact hplace.elim

/-- The machines have worked, and the destination machine has not. -/
theorem Inv.machines (hI : Inv m heard s) {t : T} (ht : t.Inv heard) (hk : T.Kept s.toT t) :
    Inv m heard { s with toT := t } := by
  refine ⟨ht, hk.peer.trans hI.peer, hk.tid.trans hI.tid, hk.given.trans hI.given,
    hk.respond.trans hI.respond, ?_⟩
  have hplace := hI.place
  have hmore {e : Effect} (he : e ∈ s.log) : e ∈ t.log := hk.log.subset he
  cases hst : s.state <;> rw [hst] at hplace <;> simp only [hk.status, hk.start]
  case success =>
    exact ⟨hplace.1, hplace.2.imp_right fun ⟨r, hr, hwhy⟩ => ⟨r, hmore hr, hwhy⟩⟩
  case waitResponsePrm =>
    exact ⟨hplace.1, hplace.2.1, (hk.silent hplace.2.1).1.trans hplace.2.2⟩
  case sendResponse =>
    obtain ⟨hgoing, hon, r, hr, hflag⟩ := hplace
    exact ⟨hgoing, hon, r, hmore hr, hflag⟩
  case failure => exact hplace
  case init => exact hplace

/-! The machine itself, label by label. -/

theorem Inv.onFailure (hI : Inv m heard s) : Inv m heard (onFailure s) :=
  ⟨hI.withStatus _, hI.peer, hI.tid, hI.given, hI.respond, rfl⟩

theorem Inv.onSuccess (hI : Inv m heard s)
    (hd : (m.opcode = .indication ∨ m.opcode = .response) ∨ Replied m heard s.log) :
    Inv m heard (onSuccess s) :=
  ⟨hI.withStatus _, hI.peer, hI.tid, hI.given, hI.respond, rfl, hd⟩

theorem Inv.onSendResponse (hI : Inv m heard s) (hst : s.state = .sendResponse) :
    Inv m heard (onSendResponse s) := by
  have hplace := hI.place
  rw [hst] at hplace
  obtain ⟨-, hon, r, hr, hflag⟩ := hplace
  unfold Dst.onSendResponse
  split
  · next hdone =>
    have hsucc : s.ackRequestorStatus = .success := by
      rw [hon] at hdone
      exact beq_iff_eq.mp hdone
    exact hI.onSuccess (.inr ⟨r, hr, hflag, .inr (hI.acked (.inr hsucc))⟩)
  · split
    · exact hI.onFailure
    · exact hI

theorem Inv.onWaitResponsePrm (hI : Inv m heard s) (hgoing : s.transactionStatus = .ongoing)
    (hoff : s.startAckRequestor = false) (hnone : copies s.log = 0) :
    Inv m heard (onWaitResponsePrm s) := by
  have hhere : Inv m heard { s with state := .waitResponsePrm } :=
    ⟨hI.toInv, hI.peer, hI.tid, hI.given, hI.respond, hgoing, hoff, hnone⟩
  unfold Dst.onWaitResponsePrm
  dsimp only
  split
  · exact hhere.onFailure
  · split
    · next hready =>
      -- a response goes out only with the acknowledgement that is owed
      have hflag : m.owesAck = true → s.out.ackrsp = true := by
        intro howes
        have hrsp := (Bool.and_eq_true_iff.mp hready).2
        rwa [hI.respond, howes] at hrsp
      obtain ⟨st, timer, ht, -, -, hinv⟩ := hI.toInv.beginResponse hoff hnone
      have hhanded : handed s.toT.beginResponse.log = [m] := by
        rw [ht, handed_append, hI.given]
        rfl
      have hsent : Effect.sent s.out ∈ s.toT.beginResponse.log := by
        rw [ht]
        exact List.mem_append_right _ (List.mem_singleton.mpr rfl)
      have hstatus : s.toT.beginResponse.transactionStatus = .ongoing := by
        rw [ht]
        exact hgoing
      have hreq : s.toT.beginResponse.startAckRequestor = s.out.ackreq := by rw [ht]
      have hpeer : s.toT.beginResponse.peerMihfId = m.source := by
        rw [ht]
        exact hI.peer
      have htid : s.toT.beginResponse.tid = m.tid := by
        rw [ht]
        exact hI.tid
      have hrespond : s.toT.beginResponse.startAckResponder = m.owesAck := by
        rw [ht]
        exact hI.respond
      generalize s.toT.beginResponse = t at hinv hhanded hsent hstatus hreq hpeer htid hrespond ⊢
      cases hack : s.out.ackreq with
      | true =>
        have hsend : Inv m heard { s with toT := t, state := .sendResponse } :=
          ⟨hinv, hpeer, htid, hhanded, hrespond, hstatus, hreq.trans hack, _, hsent, hflag⟩
        exact hsend.onSendResponse rfl
      | false =>
        -- nothing more is expected
        unfold Dst.onSendResponse
        dsimp only
        rw [hreq, hack]
        exact ⟨hinv.withStatus _, hpeer, htid, hhanded, hrespond, rfl,
          .inr ⟨_, hsent, hflag, .inl hack⟩⟩
    · exact hhere

theorem Inv.run (hI : Inv m heard s) : Inv m heard (run h s) := by
  have hplace := hI.place
  unfold Dst.run
  cases hst : s.state <;> rw [hst] at hplace
  case waitResponsePrm => exact hI.onWaitResponsePrm hplace.1 hplace.2.1 hplace.2.2
  case sendResponse => exact hI.onSendResponse hst
  case success => exact hI.onSuccess hplace.2
  case failure => exact hI.onFailure
  case init => exact hplace.elim

/-! ## The timers -/

theorem onSendResponse_sameTime (s : Dst) : Tr.SameTime s (onSendResponse s) := by
  unfold onSendResponse
  split
  · exact ⟨rfl, fun hs => ⟨hs, rfl⟩, id⟩
  · split
    · exact ⟨rfl, fun hs => ⟨hs, rfl⟩, id⟩
    · exact Tr.SameTime.rfl

theorem Inv.onWaitResponsePrm_sameTime (hI : Inv m heard s)
    (hoff : s.startAckRequestor = false) (hnone : copies s.log = 0) :
    Tr.SameTime s (Dst.onWaitResponsePrm s) := by
  unfold Dst.onWaitResponsePrm
  dsimp only
  split
  · exact ⟨rfl, fun hs => ⟨hs, rfl⟩, id⟩
  · split
    · obtain ⟨st, timer, ht, htimer, -⟩ := hI.toInv.beginResponse hoff hnone
      have hbegin : Tr.SameTime s
          ({ s with toT := s.toT.beginResponse, state := .sendResponse } : Dst) := by
        rw [ht]
        exact ⟨rfl, fun hs => ⟨hoff, htimer hs⟩, id⟩
      exact hbegin.trans (onSendResponse_sameTime _)
    · exact ⟨rfl, fun hs => ⟨hs, rfl⟩, id⟩

theorem Inv.run_sameTime (hI : Inv m heard s) : Tr.SameTime s (Dst.run h s) := by
  have hplace := hI.place
  unfold Dst.run
  cases hst : s.state <;> rw [hst] at hplace
  case waitResponsePrm => exact hI.onWaitResponsePrm_sameTime hplace.2.1 hplace.2.2
  case sendResponse => exact onSendResponse_sameTime s
  case success => exact ⟨rfl, fun hs => ⟨hs, rfl⟩, id⟩
  case failure => exact ⟨rfl, fun hs => ⟨hs, rfl⟩, id⟩
  case init => exact hplace.elim

/-- A transaction that is over stays so. -/
theorem Inv.run_over (hI : Inv m heard s) (ho : s.transactionStatus ≠ .ongoing) :
    (Dst.run h s).transactionStatus ≠ .ongoing := by
  have hplace := hI.place
  unfold Dst.run
  cases hst : s.state <;> rw [hst] at hplace
  case waitResponsePrm => exact absurd hplace.1 ho
  case sendResponse => exact absurd hplace.1 ho
  case success => exact fun h => nomatch h
  case failure => exact fun h => nomatch h
  case init => exact hplace.elim

theorem law (m : Message) (heard : List Message) (h : Handler) :
    Tr.Law heard (run h) (Inv m heard) where
  inv hI := hI.toInv
  keeps hI := hI.run
  time hI := hI.run_sameTime
  ended hI := hI.run_over
  machines hI := hI.machines
  timers _ _ hI := ⟨⟨hI.counted, hI.few, hI.started, hI.idle, hI.avail, hI.acked⟩,
    hI.peer, hI.tid, hI.given, hI.respond, hI.place⟩
  pool _ hI := ⟨hI.toInv, hI.peer, hI.tid, hI.given, hI.respond, hI.place⟩

/-! ## The first run -/

/-- The first message has been handed on, and nothing has been sent but answers. -/
theorem takeIn_fresh (m : Message) (h : Handler) (heard : List Message) :
    let t := takeIn h (fresh m).toT
    t.Inv heard ∧ t.opcode = m.opcode ∧ t.peerMihfId = m.source ∧ t.tid = m.tid ∧
    t.transactionStatus = .ongoing ∧ t.startAckRequestor = false ∧ copies t.log = 0 ∧
    handed t.log = [m] ∧ t.transactionStopWhen = 15 ∧ t.retransmissionWhen = 0 ∧
    t.startAckResponder = m.owesAck := by
  unfold takeIn fresh T.processMessage T.does
  dsimp only
  generalize hu : T.mk _ _ _ _ _ _ _ _ _ _ _ _ _ _ _ _ _ _ _ _ _ _ _ = u
  have hI : u.Inv heard := by
    rw [← hu]
    exact ⟨Nat.zero_le _, Nat.zero_le _, nofun, fun _ => ⟨rfl, rfl⟩, nofun,
      fun h => h.elim nofun nofun⟩
  have hk := T.respondAck_kept u
  have hoff : u.startAckRequestor = false := by rw [← hu]
  have hs := hk.silent hoff
  refine ⟨hI.respondAck, hk.opcode.trans ?_, hk.peer.trans ?_, hk.tid.trans ?_,
    hk.status.trans ?_, hk.start.trans hoff, hs.1.trans ?_, hk.given.trans ?_,
    hk.stop.trans ?_, hs.2.trans ?_, hk.respond.trans ?_⟩
  all_goals subst hu; rfl

theorem run_fresh_inv (m : Message) (h : Handler) (heard : List Message) :
    Inv m heard (run h (fresh m)) ∧ (run h (fresh m)).transactionStopWhen = 15 ∧
    ((run h (fresh m)).startAckRequestor = false →
      (run h (fresh m)).retransmissionWhen = 0) := by
  obtain ⟨hI, hop, hpeer, htid, hgoing, hoff, hnone, hhanded, hstop, hre, hrespond⟩ :=
    takeIn_fresh m h heard
  have hwait : Inv m heard
      { fresh m with toT := takeIn h (fresh m).toT, state := .waitResponsePrm } :=
    ⟨hI, hpeer, htid, hhanded, hrespond, hgoing, hoff, hnone⟩
  have htime := hwait.onWaitResponsePrm_sameTime hoff hnone
  have hwaits : Inv m heard (onWaitResponsePrm { fresh m with toT := takeIn h (fresh m).toT }) ∧
      (onWaitResponsePrm { fresh m with toT := takeIn h (fresh m).toT }).transactionStopWhen = 15 ∧
      ((onWaitResponsePrm { fresh m with toT := takeIn h (fresh m).toT }).startAckRequestor =
          false →
        (onWaitResponsePrm { fresh m with toT := takeIn h (fresh m).toT }).retransmissionWhen =
          0) :=
    ⟨hwait.onWaitResponsePrm hgoing hoff hnone, htime.stop.trans hstop,
      fun hs => (htime.off hs).2.trans hre⟩
  have hdone : m.opcode = .indication ∨ m.opcode = .response →
      Inv m heard (onSuccess { fresh m with toT := takeIn h (fresh m).toT }) := fun hd =>
    ⟨hI.withStatus _, hpeer, htid, hhanded, hrespond, rfl, .inl hd⟩
  show Inv m heard (onInit h (fresh m)) ∧ (onInit h (fresh m)).transactionStopWhen = 15 ∧
    ((onInit h (fresh m)).startAckRequestor = false → (onInit h (fresh m)).retransmissionWhen = 0)
  unfold onInit
  dsimp only
  split
  · exact hwaits
  · next hind => exact ⟨hdone (.inl (hop.symm.trans hind)), hstop, fun _ => hre⟩
  · next hrsp => exact ⟨hdone (.inr (hop.symm.trans hrsp)), hstop, fun _ => hre⟩
  · exact hwaits

/-- A message that is to be acknowledged is, if the handler has no response to it. -/
theorem takeIn_acked (hm : m.owesAck = true) (hrsp : (h m {}).rsp = false) :
    Acked m (takeIn h (fresh m).toT).log := by
  have hm : (m.ackreq && !m.isMulticast) = true := hm
  unfold takeIn fresh T.respondAck T.processMessage T.does
  dsimp only
  rw [if_pos hm, hrsp]
  unfold T.ackResponder T.rspInit T.rspReturnAck T.does
  dsimp only
  rw [if_neg Bool.false_ne_true, if_neg Bool.false_ne_true, if_neg Bool.false_ne_true]
  exact ⟨_, List.mem_append_right _ (List.mem_singleton.mpr rfl), rfl, rfl, rfl⟩

/-- What is not answered by a response is over at once. -/
theorem create_over (hop : m.opcode = .indication ∨ m.opcode = .response) :
    create m h = onSuccess { fresh m with toT := takeIn h (fresh m).toT } := by
  have hin : (takeIn h (fresh m).toT).opcode = m.opcode := (takeIn_fresh m h []).2.1
  have hrun : run h (fresh m) = onSuccess { fresh m with toT := takeIn h (fresh m).toT } := by
    show onInit h (fresh m) = _
    unfold onInit
    dsimp only
    rw [hin]
    rcases hop with hop | hop <;> rw [hop]
  unfold create
  dsimp only
  rw [hrun]
  rfl

theorem create_inv (m : Message) (h : Handler) (heard : List Message) :
    Inv m heard (create m h) ∧ Tr.Timed 0 (create m h) := by
  obtain ⟨hI, hstop, hre⟩ := run_fresh_inv m h heard
  exact ⟨(law m heard h).pool _ hI, fun _ => ⟨by omega, hstop, hre⟩⟩

/-! ## Every event -/

theorem heeds_of_not_pooled (hp : ¬s.pooled = true) (e : Event) : ¬heeds s e = true := by
  cases e <;> simp [heeds, Tr.matched, hp]

theorem steps_of_not_pooled (hp : ¬s.pooled = true) (es : List Event) :
    es.foldl step s = s := by
  induction es with
  | nil => rfl
  | cons e es ih =>
    have hstep : step s e = s := by
      unfold step
      rw [if_neg (heeds_of_not_pooled hp e)]
    rw [List.foldl_cons, hstep, ih]

/-- The messages among the events that `message_in` takes to the destination transaction of
`m`. -/
def heardBy (m : Message) (es : List Event) : List Message :=
  es.filterMap fun
    | .messageIn a _ =>
      if !forSource a && a.source == m.source && a.tid == m.tid then some a else none
    | _ => none

theorem heardBy_cons (m : Message) (e : Event) (es : List Event) :
    heardBy m (e :: es) = heardBy m [e] ++ heardBy m es := by
  unfold heardBy
  rw [← List.filterMap_append]
  rfl

theorem Inv.messageIn {a : Message} (hI : Inv m heard s) (ha : a ∈ heard) :
    Inv m heard (messageIn a h s) ∧ Tr.SameTime s (Dst.messageIn a h s) := by
  have hlaw := law m heard h
  have hput := hI.toInv.putIn ha
  have hk := hput.requestAck_kept.of_putIn
  have hmach := hI.machines hput.requestAck hk
  have hsame := Tr.sameTime_of_kept hk
  have hrun : Inv m heard (Tr.runOngoing (Dst.run h) { s with toT := (s.toT.putIn a).requestAck }) ∧
      Tr.SameTime s (Tr.runOngoing (Dst.run h) { s with toT := (s.toT.putIn a).requestAck }) := by
    unfold Tr.runOngoing
    split
    · exact ⟨hmach.run, hsame.trans hmach.run_sameTime⟩
    · exact ⟨hmach, hsame⟩
  unfold Dst.messageIn
  dsimp only
  generalize Tr.runOngoing _ _ = u at hrun ⊢
  have hkept := T.ackResponder_kept u.toT
  unfold respondOngoing
  split
  · exact ⟨hlaw.delIfDone (hrun.1.machines hrun.1.toInv.ackResponder hkept),
      (hrun.2.trans (Tr.sameTime_of_kept hkept)).trans (Tr.delIfDone_sameTime _)⟩
  · exact ⟨hlaw.delIfDone hrun.1, hrun.2.trans (Tr.delIfDone_sameTime _)⟩

theorem Inv.step {n : Nat} {e : Event} (hI : Inv m heard s) (ht : Tr.Timed n s)
    (he : ∀ a ∈ heardBy m [e], a ∈ heard) :
    Inv m heard (step s e) ∧ Tr.Timed (n + ticks [e]) (step s e) := by
  unfold Dst.step
  split
  · next hheeds =>
    cases e with
    | messageIn a h =>
      have ha : a ∈ heard := by
        refine he a ?_
        simp only [heeds, Tr.matched, Bool.and_eq_true, Bool.not_eq_true', beq_iff_eq] at hheeds
        simp [heardBy, hheeds, ← hI.peer, ← hI.tid]
      exact (hI.messageIn ha).imp_right fun hs => hs.timed ht
    | messageOut a h =>
      have hput := hI.toInv.putOut { a with ackreq := true }
      have hall := (law m heard h).after hI hput.requestAck.respondAck
        ((hput.requestAck_kept.trans (T.respondAck_kept _)).of_putOut)
      exact (hall _).imp_right fun hs => hs.timed ht
    | tick h => exact (law m heard h).dec_timed hI ht hheeds
  · next hheeds =>
    refine ⟨hI, ?_⟩
    cases e with
    | messageIn a h => exact ht
    | messageOut a h => exact ht
    | tick h => exact fun hp => absurd hp hheeds

theorem Inv.steps {es : List Event} : ∀ {s : Dst} {n : Nat}, Inv m heard s → Tr.Timed n s →
    (∀ a ∈ heardBy m es, a ∈ heard) →
    Inv m heard (es.foldl Dst.step s) ∧ Tr.Timed (n + ticks es) (es.foldl Dst.step s) := by
  induction es with
  | nil => intro s n hI ht _; exact ⟨hI, ht⟩
  | cons e es ih =>
    intro s n hI ht hheard
    rw [heardBy_cons] at hheard
    obtain ⟨hI', ht'⟩ := hI.step ht fun a ha => hheard a (List.mem_append_left _ ha)
    rw [ticks_cons, ← Nat.add_assoc]
    exact ih hI' ht' fun a ha => hheard a (List.mem_append_right _ ha)

end Dst

/-- The machines below a destination machine in the state `st`, after these responses have
been `offered` for it. -/
structure T.Ready (offered : List Message) (st : DstState) (t : T) : Prop where
  respond : t.startAckResponder = true
  seen : t.msgInAvail = false
  clock : t.ackReqState = .waitAck → t.retransmissionWhen ≠ 0
  ack : t.ack.ackrsp = true ∧ t.ack.tid = t.tid ∧ t.ack.destination = t.peerMihfId
  place : match st with
    | .waitResponsePrm => t.ackRspState = .returnAck ∧ t.msgOutAvail = false
    | .sendResponse =>
      (t.ackRspState = .piggybacking ∧ t.dupIsOut = true ∨ t.ackRspState = .returnDuplicate) ∧
        ∃ r ∈ offered, t.dupMessage = { r with ackrsp := true }
    | _ => True

/-- Where the machine waits for a response, there is none. -/
theorem T.Ready.waiting {offered : List Message} {st : DstState} {t : T} (hR : t.Ready offered st)
    (hst : st = .waitResponsePrm) : t.msgOutAvail = false := by
  have hplace := hR.place
  rw [hst] at hplace
  exact hplace.2

/-- Before its time is up, the requestor only looks for an acknowledgement. -/
theorem T.Inv.requestAck_quiet {heard : List Message} {t : T} (hI : t.Inv heard)
    (hclock : t.ackReqState = .waitAck → t.retransmissionWhen ≠ 0) :
    ∃ st status, t.requestAck = { t with ackReqState := st, ackRequestorStatus := status } ∧
      (st = .waitAck → t.retransmissionWhen ≠ 0) := by
  unfold T.requestAck
  split
  · next hs =>
    obtain ⟨st, status, timer, ctr, log, ht, -, -, hlog, -⟩ :=
      ackRequestor_requested (hI.started hs).1 (hI.started hs).2
    rcases hlog with ⟨rfl, rfl, rfl, hwait⟩ | ⟨hwait, hzero, -⟩
    · exact ⟨st, status, ht, fun h => (hwait h).2⟩
    · exact absurd hzero (hclock hwait)
  · exact ⟨_, _, rfl, hclock⟩

/-- The one answer to a new message, and the responder after it. -/
theorem T.Ready.ackResponder {offered : List Message} {st : DstState} {t : T} {a : Message}
    {rs : AckRequestorState} {status : Status} (hR : t.Ready offered st)
    (hst : st = .waitResponsePrm ∨ st = .sendResponse)
    (hclock : rs = .waitAck → t.retransmissionWhen ≠ 0) :
    let t' := T.ackResponder { t with
      input := a, msgInAvail := true, ackReqState := rs, ackRequestorStatus := status }
    t'.Ready offered st ∧
    ∃ e, t'.log = t.log ++ [e] ∧ (st = .waitResponsePrm ∧ e = .acked t.ack ∨
      st = .sendResponse ∧ e = .duplicated t.dupMessage) := by
  have hplace := hR.place
  have hrsp := hR.respond
  unfold T.ackResponder
  rcases hst with rfl | rfl
  · obtain ⟨hack, hout⟩ := hplace
    rw [show ({ t with input := a, msgInAvail := true, ackReqState := rs,
                       ackRequestorStatus := status } : T).ackRspState = .returnAck from hack]
    exact ⟨⟨hrsp, rfl, hclock, hR.ack, rfl, hout⟩, _, rfl, .inl ⟨rfl, rfl⟩⟩
  · obtain ⟨⟨hpig, hsame⟩ | hdup, r, hr, hstored⟩ := hplace
    · -- `out` is the stored response and has its flag
      have hout : t.out = { r with ackrsp := true } := by
        rw [← hstored, T.dupMessage, if_pos hsame]
      have hflag : ({ t.out with ackrsp := true } : Message) = t.dupMessage := by
        rw [hstored, hout]
      rw [show ({ t with input := a, msgInAvail := true, ackReqState := rs,
                         ackRequestorStatus := status } : T).ackRspState = .piggybacking from hpig]
      refine ⟨⟨hrsp, rfl, hclock, hR.ack, .inr rfl, r, hr, hflag.trans hstored⟩, _, rfl,
        .inr ⟨rfl, congrArg Effect.duplicated hflag⟩⟩
    · rw [show ({ t with input := a, msgInAvail := true, ackReqState := rs,
                         ackRequestorStatus := status } : T).ackRspState = .returnDuplicate
        from hdup]
      exact ⟨⟨hrsp, rfl, hclock, hR.ack, .inr rfl, r, hr, hstored⟩, _, rfl, .inr ⟨rfl, rfl⟩⟩

namespace Dst

variable {m : Message} {heard offered : List Message} {s : Dst} {h : Handler}

def Ready (offered : List Message) (s : Dst) : Prop :=
  s.transactionStatus = .ongoing → s.toT.Ready offered s.state

theorem onSendResponse_idle (hgoing : (onSendResponse s).transactionStatus = .ongoing) :
    onSendResponse s = s := by
  unfold onSendResponse at hgoing ⊢
  split
  · next hd => rw [if_pos hd] at hgoing; cases hgoing
  · next hd =>
    rw [if_neg hd] at hgoing
    split
    · next hf => rw [if_pos hf] at hgoing; cases hgoing
    · rfl

/-- Between a message and its answer the destination machine does nothing, unless it ends
the transaction. -/
theorem Inv.run_idle (hI : Inv m heard s) (hstop : s.transactionStopWhen ≠ 0)
    (hout : s.state = .waitResponsePrm → s.msgOutAvail = false)
    (hgoing : (Dst.run h s).transactionStatus = .ongoing) : Dst.run h s = s := by
  have hplace := hI.place
  unfold Dst.run at hgoing ⊢
  cases hst : s.state <;> rw [hst] at hplace hgoing
  case waitResponsePrm =>
    show Dst.onWaitResponsePrm s = s
    unfold Dst.onWaitResponsePrm
    dsimp only
    rw [if_neg hstop, hout hst, Bool.false_and, if_neg Bool.false_ne_true, ← hst]
  case sendResponse => exact onSendResponse_idle hgoing
  case success => cases hgoing
  case failure => cases hgoing
  case init => exact hplace.elim

theorem Inv.state_of_ongoing (hI : Inv m heard s) (hgoing : s.transactionStatus = .ongoing) :
    s.state = .waitResponsePrm ∨ s.state = .sendResponse := by
  have hplace := hI.place
  cases hst : s.state <;> rw [hst] at hplace
  case waitResponsePrm => exact .inl rfl
  case sendResponse => exact .inr rfl
  case success => cases hgoing.symm.trans hplace.1
  case failure => cases hgoing.symm.trans hplace
  case init => exact hplace.elim

theorem respondOngoing_status (s : Dst) :
    (respondOngoing s).transactionStatus = s.transactionStatus := by
  unfold respondOngoing
  split
  · exact (T.ackResponder_kept _).status
  · rfl

/-- A message that leaves the transaction ongoing gets one answer. -/
theorem Inv.messageIn_answer {a : Message} (hI : Inv m heard s) (ha : a ∈ heard)
    (hR : Ready offered s) (hstop : s.transactionStopWhen ≠ 0)
    (hgoing : (Dst.messageIn a h s).transactionStatus = .ongoing) :
    (Dst.messageIn a h s).toT.Ready offered (Dst.messageIn a h s).state ∧
    ∃ e, (Dst.messageIn a h s).log = s.log ++ [e] ∧
      (s.state = .waitResponsePrm ∧ e = .acked s.ack ∨
        s.state = .sendResponse ∧ e = .duplicated s.dupMessage) := by
  have hput := hI.toInv.putIn ha
  have hk := hput.requestAck_kept.of_putIn
  have hmach := hI.machines hput.requestAck hk
  unfold Dst.messageIn at hgoing ⊢
  dsimp only at hgoing ⊢
  rw [Tr.delIfDone_toT, respondOngoing_status] at hgoing
  rw [Tr.delIfDone_toT, Tr.delIfDone_state]
  unfold Tr.runOngoing at hgoing ⊢
  by_cases hs : s.transactionStatus = .ongoing
  · have hready := hR hs
    obtain ⟨rs, status, ht, hclock⟩ := hput.requestAck_quiet hready.clock
    rw [if_pos (hk.status.trans hs)] at hgoing ⊢
    rw [ht] at hmach hgoing ⊢
    -- the machine has run and found nothing to do
    rw [hmach.run_idle hstop hready.waiting hgoing]
    unfold respondOngoing
    rw [if_pos ⟨hready.respond, hs⟩]
    exact hready.ackResponder (hI.state_of_ongoing hs) hclock
  · -- what is over stays so
    rw [if_neg fun h => hs (hk.status.symm.trans h)] at hgoing
    exact absurd (hk.status.symm.trans hgoing) hs

/-! The other events leave the responder ready as well. -/

/-- `run()` where the machine waits for a response and none is there. -/
theorem Inv.run_ready (hI : Inv m heard s) (hR : Ready offered s) :
    Ready offered (Dst.run h s) := by
  intro hgoing
  by_cases hs : s.transactionStatus = .ongoing
  · have hready := hR hs
    by_cases hstop : s.transactionStopWhen = 0
    · rcases hI.state_of_ongoing hs with hst | hst
      · unfold Dst.run Dst.onWaitResponsePrm at hgoing
        rw [hst] at hgoing
        dsimp only at hgoing
        rw [if_pos hstop] at hgoing
        cases hgoing
      · unfold Dst.run at hgoing ⊢
        rw [hst] at hgoing ⊢
        dsimp only at hgoing ⊢
        rw [onSendResponse_idle hgoing]
        exact hready
    · rw [hI.run_idle hstop hready.waiting hgoing]
      exact hready
  · exact absurd hgoing (hI.run_over hs)

/-- `run()` where it waits and the response is there, with the acknowledgement in it. -/
theorem Inv.onWaitResponsePrm_ready (hI : Inv m heard s) (hoff : s.startAckRequestor = false)
    (hnone : copies s.log = 0) (hR : s.toT.Ready offered .sendResponse)
    (hstop : s.transactionStopWhen ≠ 0) (hout : s.msgOutAvail = true)
    (hflag : s.out.ackrsp = true) : Ready offered (Dst.onWaitResponsePrm s) := by
  intro hgoing
  obtain ⟨st, timer, ht, -, hclock, -⟩ := hI.toInv.beginResponse hoff hnone
  unfold Dst.onWaitResponsePrm at hgoing ⊢
  dsimp only at hgoing ⊢
  rw [if_neg hstop, hout, hflag, Bool.or_true, Bool.and_true, if_pos rfl] at hgoing ⊢
  rw [onSendResponse_idle hgoing, ht]
  exact ⟨hR.respond, hR.seen, hclock, hR.ack, hR.place⟩

end Dst

/-- A response while nothing has to be answered takes the acknowledgement with it. -/
theorem T.rspPiggybacking_quiet {t : T} (hin : t.msgInAvail = false) :
    t.rspPiggybacking = { t with
      ackRspState := .piggybacking, out := { t.out with ackrsp := true }, dupIsOut := true } := by
  unfold T.rspPiggybacking
  dsimp only
  rw [hin, if_neg Bool.false_ne_true]

theorem T.Ready.putOut {offered : List Message} {st : DstState} {t : T} {a : Message}
    {rs : AckRequestorState} (ha : a ∈ offered) (status : Status) (hR : t.Ready offered st)
    (hst : st = .waitResponsePrm ∨ st = .sendResponse)
    (hclock : rs = .waitAck → t.retransmissionWhen ≠ 0) :
    let t' := T.respondAck { t.putOut a with ackReqState := rs, ackRequestorStatus := status }
    t'.Ready offered .sendResponse ∧ t'.msgOutAvail = true ∧
    (st = .waitResponsePrm → t'.out.ackrsp = true) := by
  have hplace := hR.place
  generalize hu : ({ t.putOut a with ackReqState := rs, ackRequestorStatus := status } : T) = u
  have hrsp : u.startAckResponder = true := by subst hu; exact hR.respond
  have hseen : u.msgInAvail = false := by subst hu; exact hR.seen
  have hout : u.msgOutAvail = true := by subst hu; rfl
  have hclock' : u.ackReqState = .waitAck → u.retransmissionWhen ≠ 0 := by subst hu; exact hclock
  have hack : u.ack.ackrsp = true ∧ u.ack.tid = u.tid ∧ u.ack.destination = u.peerMihfId := by
    subst hu
    exact hR.ack
  have hstate : u.ackRspState = t.ackRspState := by subst hu; rfl
  have hdup : u.dupMessage = t.dupMessage := by subst hu; rfl
  have hnew : u.out = a := by subst hu; rfl
  unfold T.respondAck T.ackResponder
  rw [if_pos hrsp, hstate]
  rcases hst with rfl | rfl
  · rw [hplace.1]
    dsimp only [T.rspReturnAck]
    rw [if_neg (Bool.not_eq_true _ |>.mpr hseen), if_pos hout,
      T.rspPiggybacking_quiet (t := { u with ackRspState := .returnAck }) hseen]
    exact ⟨⟨hrsp, hseen, hclock', hack, .inl ⟨rfl, rfl⟩, a, ha, hnew ▸ rfl⟩, hout, fun _ => rfl⟩
  · obtain ⟨⟨hpig, -⟩ | hret, r, hr, hstored⟩ := hplace
    · rw [hpig]
      dsimp only
      rw [T.rspPiggybacking_quiet hseen]
      exact ⟨⟨hrsp, hseen, hclock', hack, .inl ⟨rfl, rfl⟩, a, ha, hnew ▸ rfl⟩, hout, nofun⟩
    · rw [hret]
      dsimp only [T.rspReturnDuplicate]
      rw [if_neg (Bool.not_eq_true _ |>.mpr hseen)]
      exact ⟨⟨hrsp, hseen, hclock', hack, .inr rfl, r, hr, hdup.trans hstored⟩, hout, nofun⟩

namespace Dst

variable {m : Message} {heard offered : List Message} {s : Dst} {h : Handler}

theorem Ready.delIfDone (hR : Ready offered s) : Ready offered s.delIfDone := by
  intro hgoing
  rw [Tr.delIfDone_toT] at hgoing ⊢
  rw [Tr.delIfDone_state]
  exact hR hgoing

theorem Inv.messageOut_ready {a : Message} (hI : Inv m heard s) (hR : Ready offered s)
    (ha : a ∈ offered) (hstop : s.transactionStopWhen ≠ 0) :
    Ready offered (messageOut a h s) := by
  have hput := hI.toInv.putOut a
  have hk := (hput.requestAck_kept.trans (T.respondAck_kept _)).of_putOut
  have hmach := hI.machines hput.requestAck.respondAck hk
  refine Ready.delIfDone ?_
  unfold Tr.runOngoing
  by_cases hs : s.transactionStatus = .ongoing
  · have hready := hR hs
    have hst := hI.state_of_ongoing hs
    obtain ⟨rs, status, ht, hclock⟩ := hput.requestAck_quiet hready.clock
    have hsend := hready.putOut ha status hst hclock
    rw [← ht] at hsend
    obtain ⟨hsend, hout, hflag⟩ := hsend
    rw [if_pos (hk.status.trans hs)]
    rcases hst with hst | hst
    · have hplace := hI.place
      rw [hst] at hplace
      have hnone := (hk.silent hplace.2.1).1.trans hplace.2.2
      unfold Dst.run
      rw [hst]
      rw [hst] at hmach
      exact hmach.onWaitResponsePrm_ready (hk.start.trans hplace.2.1) hnone hsend
        (fun h => hstop (hk.stop.symm.trans h)) hout (hflag hst)
    · refine hmach.run_ready fun _ => ?_
      rw [hst]
      exact hsend
  · rw [if_neg fun h => hs (hk.status.symm.trans h)]
    exact fun h => absurd (hk.status.symm.trans h) hs

theorem Inv.decStop_ready (hI : Inv m heard s) (hR : Ready offered s) :
    Ready offered (s.decStop (Dst.run h)) := by
  have hI' := (law m heard h).timers (pred32 s.transactionStopWhen) s.retransmissionWhen hI
  have hR' : Ready offered { s with transactionStopWhen := pred32 s.transactionStopWhen } :=
    fun hs => ⟨(hR hs).respond, (hR hs).seen, (hR hs).clock, (hR hs).ack, (hR hs).place⟩
  unfold Tr.decStop
  dsimp only
  split
  · split
    · exact hI'.run_ready hR'
    · exact hI'.run_ready hR'
  · exact hR'

/-- The time of the requestor is not up while it is off. -/
theorem Inv.decRetransmission_ready (hI : Inv m heard s) (hR : Ready offered s)
    (hoff : s.startAckRequestor = false → s.retransmissionWhen ≠ 1) :
    Ready offered (s.decRetransmission (Dst.run h)) := by
  have hI' := (law m heard h).timers s.transactionStopWhen (pred32 s.retransmissionWhen) hI
  unfold Tr.decRetransmission
  dsimp only
  split
  · split
    · next hzero =>
      have hs : s.startAckRequestor = true :=
        Bool.not_eq_false _ |>.mp fun hs => hoff hs (pred32_eq_zero.mp hzero)
      have hmach := hI'.machines (hI'.toInv.ackRequestor hs) (hI'.toInv.ackRequestor_kept hs)
      refine hmach.run_ready fun hgoing => ?_
      obtain ⟨st, status, timer, ctr, log, hreq, -, -, hlog, -⟩ :=
        T.ackRequestor_requested (hI'.started hs).1 (hI'.started hs).2
      rw [hreq] at hgoing ⊢
      have hready := hR hgoing
      refine ⟨hready.respond, hready.seen, fun hst => ?_, hready.ack, hready.place⟩
      rcases hlog with ⟨-, -, rfl, hwait⟩ | ⟨-, -, -, -, -, rfl⟩
      · exact (hwait hst).2
      · exact nofun
    · next hnz =>
      exact fun hs => ⟨(hR hs).respond, (hR hs).seen, fun _ => hnz, (hR hs).ack, (hR hs).place⟩
  · exact hR

theorem Inv.dec_ready {n : Nat} (hI : Inv m heard s) (ht : Tr.Timed n s)
    (hp : s.pooled = true) (hR : Ready offered s) : Ready offered (s.dec (Dst.run h)) := by
  obtain ⟨hlt, hstop, hoff⟩ := ht hp
  obtain ⟨hI₁, -, hre₁, -⟩ := (law m heard h).decStop hI (by omega)
  have hR₂ : Ready offered ((s.decStop (Dst.run h)).decRetransmission (Dst.run h)) := by
    refine hI₁.decRetransmission_ready (hI.decStop_ready hR) fun hs => ?_
    rw [(hre₁ hs).2, hoff (hre₁ hs).1]
    omega
  unfold Tr.dec
  dsimp only
  split
  · exact hR₂
  · exact hR₂

/-- What `process_message` has answered at once. -/
def answered (m : Message) (h : Handler) : List Message :=
  if (h m {}).rsp then [(h m {}).out] else []

/-- The first message has been acknowledged, or the response is there for it. -/
theorem takeIn_ready (hm : m.owesAck = true) (hin : ∀ r ∈ answered m h, r ∈ offered) :
    let t := takeIn h (fresh m).toT
    t.Ready offered .waitResponsePrm ∨
      t.Ready offered .sendResponse ∧ t.msgOutAvail = true ∧ t.out.ackrsp = true := by
  have hm : (m.ackreq && !m.isMulticast) = true := hm
  unfold takeIn fresh T.respondAck T.processMessage T.does
  dsimp only
  rw [if_pos hm]
  unfold T.ackResponder T.rspInit
  dsimp only
  split
  · next hout =>
    right
    have hmem : (h m {}).out ∈ offered :=
      hin _ (by rw [answered, if_pos hout]; exact List.mem_singleton.mpr rfl)
    rw [T.rspPiggybacking_quiet rfl]
    exact ⟨⟨hm, rfl, nofun, ⟨rfl, rfl, rfl⟩, .inl ⟨rfl, rfl⟩, _, hmem, rfl⟩, hout, rfl⟩
  · next hout =>
    left
    unfold T.rspReturnAck T.does
    dsimp only
    rw [if_neg Bool.false_ne_true, if_neg hout]
    exact ⟨hm, rfl, nofun, ⟨rfl, rfl, rfl⟩, rfl, Bool.not_eq_true _ |>.mp hout⟩

theorem create_ready (hm : m.owesAck = true) (hin : ∀ r ∈ answered m h, r ∈ offered) :
    Ready offered (create m h) := by
  obtain ⟨hI, -, hpeer, htid, hgoing, hoff, hnone, hhanded, hstop, -, hrespond⟩ :=
    takeIn_fresh m h []
  have hinv : Inv m [] { fresh m with toT := takeIn h (fresh m).toT, state := .waitResponsePrm } :=
    ⟨hI, hpeer, htid, hhanded, hrespond, hgoing, hoff, hnone⟩
  have hstop' : (takeIn h (fresh m).toT).transactionStopWhen ≠ 0 := by
    rw [hstop]
    exact nofun
  have hwait : Ready offered
      (onWaitResponsePrm { fresh m with toT := takeIn h (fresh m).toT }) := by
    rcases takeIn_ready (h := h) hm hin with hready | ⟨hready, hout, hflag⟩
    · exact hinv.run_ready (h := h) fun _ => hready
    · exact hinv.onWaitResponsePrm_ready hoff hnone hready hstop' hout hflag
  show Ready offered (onInit h (fresh m))
  unfold onInit
  dsimp only
  split
  · exact hwait
  · exact nofun
  · exact nofun
  · exact hwait

/-- The responses among the events that `message_out` takes to the transaction of `m`. -/
def offeredBy (m : Message) (es : List Event) : List Message :=
  es.filterMap fun
    | .messageOut r _ =>
      if r.opcode == .response && r.destination == m.source && r.tid == m.tid then
        some { r with ackreq := true }
      else none
    | _ => none

theorem offeredBy_cons (m : Message) (e : Event) (es : List Event) :
    offeredBy m (e :: es) = offeredBy m [e] ++ offeredBy m es := by
  unfold offeredBy
  rw [← List.filterMap_append]
  rfl

theorem Inv.step_ready {n : Nat} {e : Event} (hI : Inv m heard s) (ht : Tr.Timed n s)
    (hR : Ready offered s) (he : ∀ a ∈ heardBy m [e], a ∈ heard)
    (ho : ∀ r ∈ offeredBy m [e], r ∈ offered) : Ready offered (Dst.step s e) := by
  unfold Dst.step
  split
  · next hheeds =>
    cases e with
    | messageIn a h =>
      simp only [heeds, Tr.matched, Bool.and_eq_true, Bool.not_eq_true', beq_iff_eq] at hheeds
      have ha : a ∈ heard := he a (by simp [heardBy, hheeds, ← hI.peer, ← hI.tid])
      have hstop := ht hheeds.2.1.1
      exact fun hgoing => (hI.messageIn_answer ha hR (by omega) hgoing).1
    | messageOut a h =>
      simp only [heeds, Tr.matched, Bool.and_eq_true, beq_iff_eq] at hheeds
      have ha : { a with ackreq := true } ∈ offered :=
        ho _ (by simp [offeredBy, hheeds, ← hI.peer, ← hI.tid])
      have hstop := ht hheeds.2.1.1
      exact hI.messageOut_ready hR ha (by omega)
    | tick h => exact hI.dec_ready ht hheeds hR
  · exact hR

theorem Inv.steps_ready {es : List Event} : ∀ {s : Dst} {n : Nat}, Inv m heard s →
    Tr.Timed n s → Ready offered s → (∀ a ∈ heardBy m es, a ∈ heard) →
    (∀ r ∈ offeredBy m es, r ∈ offered) → Ready offered (es.foldl Dst.step s) := by
  induction es with
  | nil => intro s n _ _ hR _ _; exact hR
  | cons e es ih =>
    intro s n hI ht hR hheard hoffered
    rw [heardBy_cons] at hheard
    rw [offeredBy_cons] at hoffered
    have he : ∀ a ∈ heardBy m [e], a ∈ heard := fun a ha => hheard a (List.mem_append_left _ ha)
    have ho : ∀ r ∈ offeredBy m [e], r ∈ offered :=
      fun r hr => hoffered r (List.mem_append_left _ hr)
    obtain ⟨hI', ht'⟩ := hI.step ht he
    exact ih hI' ht' (hI.step_ready ht hR he ho)
      (fun a ha => hheard a (List.mem_append_right _ ha))
      fun r hr => hoffered r (List.mem_append_right _ hr)

end Dst

end Manhattan.Mih.Transaction
