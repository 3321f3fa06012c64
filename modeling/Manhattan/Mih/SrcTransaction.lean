import Manhattan.Mih.Transaction

/-!
# The source transaction

`message_out` starts a source transaction for each request and each indication, and for a
response that answers no request (`src_transaction.cpp`). It sends the message, waits for
an acknowledgement or for a response, and hands the response to the MIH function.

> `src_bounded`: whatever comes in and goes out, in any order, the message is sent three
> times at most, the transaction is out of the pool at its fifteenth tick, and it has
> succeeded only if what it waited for has come from its peer.

Mirroring notes:
- `assert(0)` is reached by a confirm; without assertions the transaction then waits for an
  acknowledgement, and that is the branch here.
- A response that the handler has had and that asks for no acknowledgement leaves the
  transaction over and in the pool, where the requestor goes on until its time is up.
-/

namespace Manhattan.Mih.Transaction

/-- `_process_msg_lbl_`, up to the next jump. -/
def T.takeAnswer (h : Handler) (t : T) : T :=
  let t := { t with startAckResponder := t.input.ackreq, msgOutAvail := false }
  { t.respondAck.processMessage h with msgInAvail := false, responseReceived := true }

inductive SrcState
  | init | waitResponseMsg | processMsg | waitAck | failure | success
deriving DecidableEq, Repr

/-- `src_transaction_t` -/
abbrev Src := Tr SrcState

namespace Src

def onSuccess (s : Src) : Src := { s with transactionStatus := .success, state := .success }

def onFailure (s : Src) : Src := { s with transactionStatus := .failure, state := .failure }

def onWaitAck (s : Src) : Src :=
  let s : Src := { s with state := .waitAck }
  match s.ackRequestorStatus with
  | .success => onSuccess s
  | .failure => onFailure s
  | .ongoing => s

def onProcessMsg (h : Handler) (s : Src) : Src :=
  let s : Src := { s with toT := s.toT.takeAnswer h, state := .processMsg }
  if s.isMulticast then
    -- back to `_wait_response_msg_lbl_`, with a response and without a message
    let s : Src := { s with state := .waitResponseMsg }
    if s.transactionStopWhen = 0 then onSuccess s else s
  else onSuccess s

def onWaitResponseMsg (h : Handler) (s : Src) : Src :=
  let s : Src := { s with state := .waitResponseMsg }
  if s.transactionStopWhen = 0 then
    if s.responseReceived then onSuccess s else onFailure s
  else if s.msgInAvail then onProcessMsg h s
  else s

def onInit (h : Handler) (s : Src) : Src :=
  let s : Src := { s with
    transactionStatus := .ongoing, responseReceived := false, transactionStopWhen := 15
    opcode := s.out.opcode, isMulticast := s.out.isMulticast
    startAckRequestor := s.out.ackreq && !s.out.isMulticast
    tid := s.out.tid, myMihfId := s.out.source, peerMihfId := s.out.destination }
  let s : Src := { s with toT := (s.toT.does (.sent s.out)).requestAck }
  match s.opcode with
  | .indication =>
    if s.startAckRequestor then onWaitAck { s with ackRequestorStatus := .ongoing }
    else onSuccess s
  | .response => onSuccess s
  | .request => onWaitResponseMsg h s
  | .confirm => onWaitAck s

def run (h : Handler) (s : Src) : Src :=
  match s.state with
  | .init => onInit h s
  | .waitResponseMsg => onWaitResponseMsg h s
  | .waitAck => onWaitAck s
  | .processMsg => onProcessMsg h s
  | .failure => onFailure s
  | .success => onSuccess s

/-- `message_in`, for a message of this transaction. -/
def messageIn (m : Message) (h : Handler) (s : Src) : Src :=
  let s : Src := { s with toT := (s.toT.putIn m).requestAck.respondAck }
  let s := if s.transactionStatus = .ongoing ∧ ¬(m.ackrsp = true ∧ m.opcode = .request) then
      run h s
    else s
  s.delIfDone

/-- `message_out`, for a message to the same peer with the same identifier. -/
def messageOut (m : Message) (h : Handler) (s : Src) : Src :=
  let s : Src := { s with toT := (s.toT.putOut m).requestAck.respondAck }
  (s.runOngoing (run h)).delIfDone

/-- The transaction that `new_src_transaction` makes for `m`. -/
def fresh (m : Message) : Src := { state := .init, out := m, msgOutAvail := true }

/-- `message_out::new_src_transaction`, from where the message has its identifier. -/
def create (m : Message) (h : Handler) : Src :=
  let s := run h (fresh m)
  { s with pooled := s.transactionStatus == .ongoing }

/-- The event is a message that `find` brings to the transaction. -/
def heeds (s : Src) : Event → Bool
  | .messageIn m _ => forSource m && s.matched m.source m.tid
  | .messageOut m _ =>
    (m.opcode == .indication || m.opcode == .request) && s.matched m.destination m.tid
  | .tick _ => s.pooled

def step (s : Src) (e : Event) : Src :=
  if heeds s e then
    match e with
    | .messageIn m h => messageIn m h s
    | .messageOut m h => messageOut { m with ackreq := true } h s
    | .tick h => s.dec (run h)
  else s

end Src

/-! ## What holds of a source transaction -/

/-- `m` has succeeded for a reason: nothing is expected after it, an acknowledgement has
come in, or an answer has, and the handler has had it. -/
def Deserved (m : Message) (heard : List Message) (log : List Effect) : Prop :=
  m.opcode = .response ∨
  m.opcode = .indication ∧ (m.owesAck = false ∨ ∃ a ∈ heard, a.ackrsp = true) ∨
  m.opcode = .request ∧ ∃ a ∈ heard, a ∈ handed log

/-- An answer goes to the handler, after it has been acknowledged. -/
theorem T.Inv.takeAnswer {heard : List Message} {t : T} (hI : t.Inv heard) (h : Handler) :
    (t.takeAnswer h).Inv heard ∧ (t.takeAnswer h).peerMihfId = t.peerMihfId ∧
    (t.takeAnswer h).tid = t.tid ∧ (t.takeAnswer h).startAckRequestor = t.startAckRequestor ∧
    (t.takeAnswer h).transactionStatus = t.transactionStatus ∧
    t.input ∈ handed (t.takeAnswer h).log := by
  have ht : T.Inv heard { t with startAckResponder := t.input.ackreq, msgOutAvail := false } :=
    ⟨hI.counted, hI.few, hI.started, hI.idle, hI.avail, hI.acked⟩
  have hr := ht.respondAck
  have hk := respondAck_kept { t with startAckResponder := t.input.ackreq, msgOutAvail := false }
  have hin := respondAck_input { t with startAckResponder := t.input.ackreq, msgOutAvail := false }
  unfold T.takeAnswer
  dsimp only at hin ⊢
  generalize T.respondAck _ = u at hr hk hin ⊢
  refine ⟨⟨?_, hr.few, hr.started, hr.idle, fun h => absurd h Bool.false_ne_true, hr.acked⟩,
    hk.peer, hk.tid, hk.start, hk.status, ?_⟩
  · show copies (u.log ++ [.processed u.input]) ≤ 1 + u.rtxctr
    rw [copies_append]
    exact hr.counted
  · show t.input ∈ handed (u.log ++ [.processed u.input])
    rw [handed_append, hin]
    exact List.mem_append_right _ (List.mem_singleton.mpr rfl)

/-- A source transaction of `m` after its first `run()`. -/
structure Src.Inv (m : Message) (heard : List Message) (s : Src) : Prop
    extends T.Inv heard s.toT where
  peer : s.peerMihfId = m.destination
  tid : s.tid = m.tid
  start : s.startAckRequestor = m.owesAck
  received : s.responseReceived = true → ∃ a ∈ heard, a ∈ handed s.log
  place : match s.state with
    | .waitAck => s.transactionStatus = .ongoing ∧ m.opcode = .indication
    | .waitResponseMsg => s.transactionStatus = .ongoing ∧ m.opcode = .request
    | .success => s.transactionStatus = .success ∧ Deserved m heard s.log
    | .failure => s.transactionStatus = .failure
    | _ => False

namespace Src

variable {m : Message} {heard : List Message} {s : Src} {h : Handler}

theorem Inv.deserved (hI : Inv m heard s) (hs : s.transactionStatus = .success) :
    Deserved m heard s.log := by
  have hplace := hI.place
  cases hst : s.state <;> rw [hst] at hplace
  case success => exact hplace.2
  case waitAck => cases hs.symm.trans hplace.1
  case waitResponseMsg => cases hs.symm.trans hplace.1
  case failure => cases hs.symm.trans hplace
  all_goals exact hplace.elim

/-- The machines have worked, and the source machine has not. -/
theorem Inv.machines (hI : Inv m heard s) {t : T} (ht : t.Inv heard) (hk : T.Kept s.toT t) :
    Inv m heard { s with toT := t } := by
  refine ⟨ht, hk.peer.trans hI.peer, hk.tid.trans hI.tid, hk.start.trans hI.start,
    fun hr => hk.given ▸ hI.received (hk.received ▸ hr), ?_⟩
  have hplace := hI.place
  cases hst : s.state <;> rw [hst] at hplace <;> simp only [hk.status]
  case success =>
    refine ⟨hplace.1, ?_⟩
    unfold Deserved
    rw [hk.given]
    exact hplace.2
  all_goals exact hplace

/-! The machine itself, label by label. -/

theorem Inv.onFailure (hI : Inv m heard s) : Inv m heard (onFailure s) :=
  ⟨hI.withStatus _, hI.peer, hI.tid, hI.start, hI.received, rfl⟩

theorem Inv.onSuccess (hI : Inv m heard s) (hd : Deserved m heard s.log) :
    Inv m heard (onSuccess s) :=
  ⟨hI.withStatus _, hI.peer, hI.tid, hI.start, hI.received, rfl, hd⟩

theorem Inv.onWaitAck (hI : Inv m heard s) (hop : m.opcode = .indication)
    (hgoing : s.transactionStatus = .ongoing) : Inv m heard (onWaitAck s) := by
  have hhere : Inv m heard { s with state := .waitAck } :=
    ⟨hI.toInv, hI.peer, hI.tid, hI.start, hI.received, hgoing, hop⟩
  unfold Src.onWaitAck
  dsimp only
  split
  · next hsucc => exact hhere.onSuccess (.inr (.inl ⟨hop, .inr (hI.acked (.inr hsucc))⟩))
  · exact hhere.onFailure
  · exact hhere

theorem Inv.onProcessMsg (hI : Inv m heard s) (hop : m.opcode = .request)
    (hgoing : s.transactionStatus = .ongoing) (havail : s.msgInAvail = true) :
    Inv m heard (onProcessMsg h s) := by
  obtain ⟨ht, hpeer, htid, hstart, hstatus, hproc⟩ := hI.toInv.takeAnswer h
  have hhere : Inv m heard { s with toT := s.toT.takeAnswer h, state := .waitResponseMsg } :=
    ⟨ht, hpeer.trans hI.peer, htid.trans hI.tid, hstart.trans hI.start,
      fun _ => ⟨s.input, hI.avail havail, hproc⟩, hstatus.trans hgoing, hop⟩
  have hsucc := hhere.onSuccess (.inr (.inr ⟨hop, s.input, hI.avail havail, hproc⟩))
  unfold Src.onProcessMsg
  dsimp only
  split
  · split
    · exact hsucc
    · exact hhere
  · exact hsucc

theorem Inv.onWaitResponseMsg (hI : Inv m heard s) (hop : m.opcode = .request)
    (hgoing : s.transactionStatus = .ongoing) : Inv m heard (onWaitResponseMsg h s) := by
  have hhere : Inv m heard { s with state := .waitResponseMsg } :=
    ⟨hI.toInv, hI.peer, hI.tid, hI.start, hI.received, hgoing, hop⟩
  unfold Src.onWaitResponseMsg
  dsimp only
  split
  · split
    · next hrec => exact hhere.onSuccess (.inr (.inr ⟨hop, hI.received hrec⟩))
    · exact hhere.onFailure
  · split
    · next havail => exact hhere.onProcessMsg hop hgoing havail
    · exact hhere

theorem Inv.run (hI : Inv m heard s) : Inv m heard (run h s) := by
  have hplace := hI.place
  unfold Src.run
  cases hst : s.state <;> rw [hst] at hplace
  case waitAck => exact hI.onWaitAck hplace.2 hplace.1
  case waitResponseMsg => exact hI.onWaitResponseMsg hplace.2 hplace.1
  case success => exact hI.onSuccess hplace.2
  case failure => exact hI.onFailure
  all_goals exact hplace.elim

/-! ## The timers -/

/-- What `dec` counts with. -/
def timers (s : Src) : Nat × Nat × Bool × Bool :=
  (s.transactionStopWhen, s.retransmissionWhen, s.startAckRequestor, s.pooled)

theorem takeAnswer_timers (s : Src) (st : SrcState) :
    timers { s with toT := s.toT.takeAnswer h, state := st } = timers s := by
  unfold T.takeAnswer T.respondAck
  dsimp only
  split
  · obtain ⟨_, _, _, _, _, _, ht, -⟩ := T.ackResponder_responded
      { s.toT with startAckResponder := s.input.ackreq, msgOutAvail := false }
    rw [ht]
    rfl
  · rfl

theorem onProcessMsg_timers (s : Src) : timers (onProcessMsg h s) = timers s := by
  have ht := takeAnswer_timers (h := h) s .processMsg
  unfold Src.onProcessMsg
  dsimp only
  split
  · split
    · exact ht
    · exact ht
  · exact ht

theorem onWaitResponseMsg_timers (s : Src) : timers (onWaitResponseMsg h s) = timers s := by
  unfold Src.onWaitResponseMsg
  dsimp only
  split
  · split <;> rfl
  · split
    · exact onProcessMsg_timers _
    · rfl

theorem onWaitAck_timers (s : Src) : timers (onWaitAck s) = timers s := by
  unfold Src.onWaitAck
  dsimp only
  split <;> rfl

theorem Inv.run_timers (hI : Inv m heard s) : timers (Src.run h s) = timers s := by
  have hplace := hI.place
  unfold Src.run
  cases hst : s.state <;> rw [hst] at hplace
  case waitAck => exact onWaitAck_timers s
  case waitResponseMsg => exact onWaitResponseMsg_timers s
  case success => rfl
  case failure => rfl
  all_goals exact hplace.elim

theorem Inv.run_sameTime (hI : Inv m heard s) : Tr.SameTime s (Src.run h s) := by
  have ht := hI.run_timers (h := h)
  exact ⟨congrArg (·.1) ht,
    fun hs => ⟨(congrArg (·.2.2.1) ht).symm.trans hs, congrArg (·.2.1) ht⟩,
    fun hp => (congrArg (·.2.2.2) ht).symm.trans hp⟩

/-- A transaction that is over stays so. -/
theorem Inv.run_over (hI : Inv m heard s) (ho : s.transactionStatus ≠ .ongoing) :
    (Src.run h s).transactionStatus ≠ .ongoing := by
  have hplace := hI.place
  unfold Src.run
  cases hst : s.state <;> rw [hst] at hplace
  case waitAck => exact absurd hplace.1 ho
  case waitResponseMsg => exact absurd hplace.1 ho
  case success => exact fun h => nomatch h
  case failure => exact fun h => nomatch h
  all_goals exact hplace.elim

theorem law (m : Message) (heard : List Message) (h : Handler) :
    Tr.Law heard (run h) (Inv m heard) where
  inv hI := hI.toInv
  keeps hI := hI.run
  time hI := hI.run_sameTime
  ended hI := hI.run_over
  machines hI := hI.machines
  timers _ _ hI := ⟨⟨hI.counted, hI.few, hI.started, hI.idle, hI.avail, hI.acked⟩,
    hI.peer, hI.tid, hI.start, hI.received, hI.place⟩
  pool _ hI := ⟨hI.toInv, hI.peer, hI.tid, hI.start, hI.received, hI.place⟩

/-! ## The first run -/

/-- The transaction at the end of the common part of `_init_lbl_`. -/
def opened (m : Message) : Src :=
  { state := .init, opcode := m.opcode, transactionStopWhen := 15, isMulticast := m.isMulticast
    startAckRequestor := m.owesAck, tid := m.tid, myMihfId := m.source
    peerMihfId := m.destination, out := m, msgOutAvail := true, log := [.sent m]
    ackReqState := if m.owesAck then .waitAck else .init
    retransmissionWhen := if m.owesAck then 5 else 0 }

theorem opened_eq (m : Message) :
    T.requestAck (T.does
      { opcode := m.opcode, transactionStopWhen := 15, isMulticast := m.isMulticast
        startAckRequestor := m.ackreq && !m.isMulticast, tid := m.tid, myMihfId := m.source
        peerMihfId := m.destination, out := m, msgOutAvail := true } (.sent m)) =
      (opened m).toT := by
  have howes : (m.ackreq && !m.isMulticast) = m.owesAck := rfl
  rw [howes]
  unfold T.requestAck
  cases hs : m.owesAck with
  | true =>
    simp [T.does, T.ackRequestor, T.reqInit, T.reqWaitAckBegin, T.reqAwait, opened, hs]
  | false => simp [T.does, opened, hs]

theorem opened_inv (m : Message) (heard : List Message) : T.Inv heard (opened m).toT := by
  refine ⟨Nat.le_refl 1, Nat.zero_le _, ?_, ?_, ?_, ?_⟩
  · intro hs
    have : (opened m).ackReqState = .waitAck := if_pos hs
    rw [this]
    exact ⟨nofun, nofun⟩
  · intro hs
    exact ⟨if_neg (by rw [show m.owesAck = false from hs]; exact Bool.false_ne_true), rfl⟩
  · exact fun h => absurd h Bool.false_ne_true
  · rintro (h | h)
    · unfold opened at h
      dsimp only at h
      split at h <;> cases h
    · cases h

theorem run_fresh (m : Message) (h : Handler) :
    run h (fresh m) =
      match m.opcode with
      | .indication =>
        if m.owesAck then { opened m with state := .waitAck } else onSuccess (opened m)
      | .response => onSuccess (opened m)
      | .request => { opened m with state := .waitResponseMsg }
      | .confirm => { opened m with state := .waitAck } := by
  show onInit h (fresh m) = _
  unfold onInit fresh
  dsimp only
  rw [opened_eq]
  split <;> next hop =>
    rw [show m.opcode = _ from hop]
    rfl

theorem run_fresh_inv (hm : m.opcode ≠ .confirm) : Inv m heard (run h (fresh m)) := by
  have hT := opened_inv m heard
  rw [run_fresh]
  cases hop : m.opcode with
  | confirm => exact absurd hop hm
  | request => exact ⟨hT, rfl, rfl, rfl, nofun, rfl, hop⟩
  | response => exact ⟨hT.withStatus _, rfl, rfl, rfl, nofun, rfl, .inl hop⟩
  | indication =>
    dsimp only
    split
    · exact ⟨hT, rfl, rfl, rfl, nofun, rfl, hop⟩
    · next howes =>
      exact ⟨hT.withStatus _, rfl, rfl, rfl, nofun, rfl,
        .inr (.inl ⟨hop, .inl (Bool.not_eq_true _ |>.mp howes)⟩)⟩

theorem run_fresh_timers (m : Message) (h : Handler) :
    timers (run h (fresh m)) = timers (opened m) := by
  rw [run_fresh]
  split
  · split <;> rfl
  · rfl
  · rfl
  · rfl

theorem create_timed (m : Message) (h : Handler) : Tr.Timed 0 (create m h) := by
  have ht := run_fresh_timers m h
  intro _
  refine ⟨by omega, congrArg (·.1) ht, fun hs => ?_⟩
  have howes : m.owesAck = false := (congrArg (·.2.2.1) ht).symm.trans hs
  have hre : (create m h).retransmissionWhen = (opened m).retransmissionWhen :=
    congrArg (·.2.1) ht
  rw [hre]
  exact if_neg (by rw [howes]; exact Bool.false_ne_true)

/-! ## Every event -/

/-- The messages among the events that `message_in` takes to the source transaction of `m`. -/
def heardBy (m : Message) (es : List Event) : List Message :=
  es.filterMap fun
    | .messageIn a _ =>
      if forSource a && a.source == m.destination && a.tid == m.tid then some a else none
    | _ => none

theorem heardBy_cons (m : Message) (e : Event) (es : List Event) :
    heardBy m (e :: es) = heardBy m [e] ++ heardBy m es := by
  unfold heardBy
  rw [← List.filterMap_append]
  rfl

theorem Inv.step {n : Nat} {e : Event} (hI : Inv m heard s) (ht : Tr.Timed n s)
    (he : ∀ a ∈ heardBy m [e], a ∈ heard) :
    Inv m heard (step s e) ∧ Tr.Timed (n + ticks [e]) (step s e) := by
  unfold Src.step
  split
  · next hheeds =>
    cases e with
    | messageIn a h =>
      have ha : a ∈ heard := by
        refine he a ?_
        simp only [heeds, Tr.matched, Bool.and_eq_true, beq_iff_eq] at hheeds
        simp [heardBy, hheeds, ← hI.peer, ← hI.tid]
      have hput := hI.toInv.putIn ha
      have hall := (law m heard h).after hI hput.requestAck.respondAck
        ((hput.requestAck_kept.trans (T.respondAck_kept _)).of_putIn)
      exact (hall _).imp_right fun hs => hs.timed ht
    | messageOut a h =>
      have hput := hI.toInv.putOut { a with ackreq := true }
      have hall := (law m heard h).after hI hput.requestAck.respondAck
        ((hput.requestAck_kept.trans (T.respondAck_kept _)).of_putOut)
      exact (hall _).imp_right fun hs => hs.timed ht
    | tick h => exact (law m heard h).dec_timed hI ht hheeds
  · next hheeds =>
    refine ⟨hI, ?_⟩
    cases e with
    | messageIn a h => exact ht
    | messageOut a h => exact ht
    | tick h => exact fun hp => absurd hp hheeds

theorem Inv.steps {es : List Event} : ∀ {s : Src} {n : Nat}, Inv m heard s → Tr.Timed n s →
    (∀ a ∈ heardBy m es, a ∈ heard) →
    Inv m heard (es.foldl Src.step s) ∧ Tr.Timed (n + ticks es) (es.foldl Src.step s) := by
  induction es with
  | nil => intro s n hI ht _; exact ⟨hI, ht⟩
  | cons e es ih =>
    intro s n hI ht hheard
    rw [heardBy_cons] at hheard
    obtain ⟨hI', ht'⟩ := hI.step ht fun a ha => hheard a (List.mem_append_left _ ha)
    rw [ticks_cons, ← Nat.add_assoc]
    exact ih hI' ht' fun a ha => hheard a (List.mem_append_right _ ha)

end Src

/-- **A source transaction is bounded, and succeeds for a reason.** Whatever happens to the
transaction of `m`: by its fifteenth tick it is not in the pool, its message has gone out
three times at most, and if it has succeeded then nothing was expected, or an
acknowledgement has come in from its peer, or an answer that the handler has had. -/
theorem src_bounded (m : Message) (hm : m.opcode ≠ .confirm) (h : Handler) (es : List Event) :
    let s := es.foldl Src.step (Src.create m h)
    (15 ≤ ticks es → s.pooled = false) ∧ copies s.log ≤ 3 ∧
    (s.transactionStatus = .success → Deserved m (Src.heardBy m es) s.log) := by
  have hI₀ : Src.Inv m (Src.heardBy m es) (Src.create m h) :=
    (Src.law m _ h).pool _ (Src.run_fresh_inv hm)
  obtain ⟨hI, ht⟩ := hI₀.steps (Src.create_timed m h) fun a ha => ha
  dsimp only
  refine ⟨fun hticks => ?_, ?_, hI.deserved⟩
  · refine Bool.not_eq_true _ |>.mp fun hp => ?_
    have := (ht hp).1
    omega
  · have := hI.few
    have := hI.counted
    omega

/-- An indication whose first copy is lost and whose second one is acknowledged. -/
theorem src_bounded_acknowledged :
    ∃ m h es, m.opcode ≠ .confirm ∧
      (List.foldl Src.step (Src.create m h) es).transactionStatus = .success ∧
      Deserved m (Src.heardBy m es) (List.foldl Src.step (Src.create m h) es).log := by
  refine ⟨{ ackreq := true, mid := ⟨1, .indication, 1⟩, tid := 7, source := [1]
            destination := [2] }, fun i o => ⟨false, i, o⟩,
    List.replicate 5 (.tick fun i o => ⟨false, i, o⟩) ++
      [.messageIn { ackrsp := true, mid := ⟨1, .indication, 1⟩, tid := 7, source := [2]
                    destination := [1] } fun i o => ⟨false, i, o⟩],
    by decide, by decide +kernel, ?_⟩
  exact (src_bounded _ (by decide) _ _).2.2 (by decide +kernel)

end Manhattan.Mih.Transaction
