import Manhattan.Lib.Run
import Manhattan.Mih.SrcTransaction
import Manhattan.Mih.DstTransaction

/-!
# Two MIH functions and a network between them

A node is the pools of `message_in` and `message_out`. A message that has been sent can
reach the peer any number of times, at any later time and in any order, or never; ticks and
answers of users come in between as they like.

> `exchange_delivered`: whatever the network does, the peer never works on two copies of a
> request at a time, and when the source transaction succeeds the peer has been given the
> message.

Mirroring notes:
- `find` goes through a set; here the first transaction that the message belongs to gets it.
- The two nodes take part in one exchange: the source has one message to send. The users at
  the peer respond, to what they like and as often and as late as they like, once the peer has
  been given a message; a response that no transaction waits for starts one of its own.
- The identifiers that `_lpool` keeps for the users are not part of a node.
-/

namespace Manhattan.Mih.Transaction

open Manhattan.Lib

/-- What a transaction has put on the network. -/
def sends (log : List Effect) : List Message :=
  log.filterMap fun
    | .sent m => some m
    | .acked m => some m
    | .duplicated m => some m
    | .processed _ => none

/-- The event goes to the first transaction that heeds it. -/
def dispatch {τ : Type} (heeds : τ → Event → Bool) (step : τ → Event → τ) (e : Event) :
    List τ → Option (List τ)
  | [] => none
  | t :: ts => if heeds t e then some (step t e :: ts) else (dispatch heeds step e ts).map (t :: ·)

structure Node where
  tid : UInt16 := 0
  srcs : List Src := []
  dsts : List Dst := []

namespace Node

def sends (n : Node) : List Message :=
  n.srcs.flatMap (fun s => Transaction.sends s.log) ++
    n.dsts.flatMap fun d => Transaction.sends d.log

/-- `message_in::operator()` -/
def messageIn (m : Message) (h : Handler) (n : Node) : Node :=
  let new := { n with dsts := Dst.create m h :: n.dsts }
  if forSource m then
    match dispatch Src.heeds Src.step (.messageIn m h) n.srcs with
    | some srcs => { n with srcs := srcs }
    | none => new
  else
    match dispatch Dst.heeds Dst.step (.messageIn m h) n.dsts with
    | some dsts => { n with dsts := dsts }
    | none => new

/-- `message_out::new_src_transaction` -/
def newSrcTransaction (m : Message) (h : Handler) (n : Node) : Node :=
  let tid := nextTid n.tid
  { n with tid := tid, srcs := Src.create { m with tid := tid } h :: n.srcs }

/-- `message_out::operator()` -/
def messageOut (m : Message) (h : Handler) (n : Node) : Node :=
  match m.opcode with
  | .response =>
    match dispatch Dst.heeds Dst.step (.messageOut m h) n.dsts with
    | some dsts => { n with dsts := dsts }
    | none => n.newSrcTransaction { m with ackreq := true } h
  | .confirm => n
  | _ =>
    match dispatch Src.heeds Src.step (.messageOut m h) n.srcs with
    | some srcs => { n with srcs := srcs }
    | none => n.newSrcTransaction { m with ackreq := true } h

/-- `transaction_pool::tick` -/
def tick (h : Handler) (n : Node) : Node :=
  { n with srcs := n.srcs.map (Src.step · (.tick h)), dsts := n.dsts.map (Dst.step · (.tick h)) }

end Node

/-- The node that sends first, and its peer. -/
structure Net where
  here : Node
  peer : Node

inductive NetAction
  | arriveAtPeer (m : Message) (h : Handler)
  | arriveHere (m : Message) (h : Handler)
  | answer (m : Message) (h : Handler)
  | tickHere (h : Handler)
  | tickPeer (h : Handler)

namespace Net

def start (m : Message) (h : Handler) : Net :=
  { here := { srcs := [Src.create m h] }, peer := {} }

def step (n : Net) : NetAction → Option Net
  | .arriveAtPeer m h =>
    if m ∈ n.here.sends then some { n with peer := n.peer.messageIn m h } else none
  | .arriveHere m h =>
    if m ∈ n.peer.sends then some { n with here := n.here.messageIn m h } else none
  | .answer m h =>
    -- a user responds when there has been something to respond to
    if m.opcode = .response ∧ n.peer.dsts.isEmpty = false then
      some { n with peer := n.peer.messageOut m h }
    else none
  | .tickHere h => some { n with here := n.here.tick h }
  | .tickPeer h => some { n with peer := n.peer.tick h }

end Net

/-! ## The transactions of a node -/

/-- A destination transaction of `m`, at any time of its life. -/
def Dst.Reached (m : Message) (d : Dst) : Prop :=
  ∃ h es, d = List.foldl Dst.step (Dst.create m h) es

theorem Dst.Reached.step {m : Message} {d : Dst} (hd : Reached m d) (e : Event) :
    Reached m (Dst.step d e) := by
  obtain ⟨h, es, rfl⟩ := hd
  exact ⟨h, es ++ [e], by rw [List.foldl_append]; rfl⟩

theorem Dst.Reached.facts {m : Message} {d : Dst} (hd : Reached m d) :
    d.peerMihfId = m.source ∧ d.tid = m.tid ∧ handed d.log = [m] := by
  obtain ⟨h, es, rfl⟩ := hd
  obtain ⟨hI₀, ht₀⟩ := Dst.create_inv m h (Dst.heardBy m es)
  have hI := (hI₀.steps ht₀ fun a ha => ha).1
  exact ⟨hI.peer, hI.tid, hI.given⟩

/-- What `dispatch` gives: one transaction has been changed, which heeded the event. -/
theorem dispatch_eq_some {τ : Type} {heeds : τ → Event → Bool} {step : τ → Event → τ}
    {e : Event} : ∀ {ts ts' : List τ}, dispatch heeds step e ts = some ts' →
    ∃ l t r, ts = l ++ t :: r ∧ ts' = l ++ step t e :: r ∧ heeds t e = true := by
  intro ts
  induction ts with
  | nil => intro ts' h; cases h
  | cons t ts ih =>
    intro ts' h
    unfold dispatch at h
    split at h
    · next hh =>
      cases h
      exact ⟨[], t, ts, rfl, rfl, hh⟩
    · obtain ⟨ts₁, h₁, rfl⟩ := Option.map_eq_some_iff.mp h
      obtain ⟨l, u, r, rfl, rfl, hh⟩ := ih h₁
      exact ⟨t :: l, u, r, rfl, rfl, hh⟩

theorem dispatch_eq_none {τ : Type} {heeds : τ → Event → Bool} {step : τ → Event → τ}
    {e : Event} : ∀ {ts : List τ}, dispatch heeds step e ts = none →
    ∀ t ∈ ts, heeds t e = false := by
  intro ts
  induction ts with
  | nil => intro _ t ht; cases ht
  | cons t ts ih =>
    intro h u hu
    unfold dispatch at h
    split at h
    · cases h
    · next hh =>
      rcases List.mem_cons.mp hu with rfl | hu
      · exact Bool.not_eq_true _ |>.mp hh
      · exact ih (Option.map_eq_none_iff.mp h) u hu

/-! ## The peer -/

/-- How many transactions the pool of the peer holds for `m`. -/
def working (m : Message) (ds : List Dst) : Nat :=
  ds.countP fun d => d.pooled && handed d.log == [m]

theorem working_append (m : Message) (l r : List Dst) :
    working m (l ++ r) = working m l + working m r :=
  List.countP_append

theorem working_cons (m : Message) (d : Dst) (ds : List Dst) :
    working m (d :: ds) = working m [d] + working m ds :=
  working_append m [d] ds

theorem working_singleton (m : Message) (d : Dst) : working m [d] ≤ 1 :=
  List.countP_le_length

theorem Dst.pooled_of_step {d : Dst} {e : Event} (h : (Dst.step d e).pooled = true) :
    d.pooled = true := by
  by_cases hp : d.pooled = true
  · exact hp
  · unfold Dst.step at h
    rwa [if_neg (Dst.heeds_of_not_pooled hp e)] at h

/-- No event brings a transaction back, or gives it another message. -/
theorem Dst.Reached.working_step {a : Message} {d : Dst} (hd : Reached a d) (m : Message)
    (e : Event) : working m [Dst.step d e] ≤ working m [d] := by
  refine Nat.le_trans ?_ (Nat.le_refl _)
  by_cases hw : working m [Dst.step d e] = 0
  · rw [hw]
    exact Nat.zero_le _
  · obtain ⟨d', hmem, hwork⟩ := List.countP_pos_iff.mp (Nat.pos_iff_ne_zero.mpr hw)
    cases List.mem_singleton.mp hmem
    have hwork := Bool.and_eq_true_iff.mp hwork
    have hhanded : handed d.log = [m] :=
      hd.facts.2.2.trans ((hd.step e).facts.2.2.symm.trans (beq_iff_eq.mp hwork.2))
    have hone : 0 < working m [d] := by
      refine List.countP_pos_iff.mpr ⟨d, List.mem_singleton.mpr rfl, ?_⟩
      exact Bool.and_eq_true_iff.mpr ⟨Dst.pooled_of_step hwork.1, beq_iff_eq.mpr hhanded⟩
    exact Nat.le_trans (working_singleton m _) hone

/-- Each transaction of the peer has been made for a message, and at most one works on `m`. -/
structure Node.PeerInv (m : Message) (n : Node) : Prop where
  reached : ∀ d ∈ n.dsts, ∃ a, Dst.Reached a d
  once : working m n.dsts ≤ 1

namespace Node

variable {m a : Message} {n : Node} {h : Handler}

/-- A transaction of the peer takes an event. -/
theorem PeerInv.dispatch {e : Event} {ds : List Dst} (hP : n.PeerInv m)
    (hd : dispatch Dst.heeds Dst.step e n.dsts = some ds) :
    PeerInv m { n with dsts := ds } ∧
    ((∃ d ∈ n.dsts, handed d.log = [m]) → ∃ d ∈ ds, handed d.log = [m]) := by
  obtain ⟨l, d, r, hds, rfl, -⟩ := dispatch_eq_some hd
  have hmem : d ∈ n.dsts := by rw [hds]; exact List.mem_append_right _ List.mem_cons_self
  obtain ⟨a, ha⟩ := hP.reached d hmem
  have honce := hP.once
  have hle := ha.working_step m e
  rw [hds, working_append, working_cons] at honce
  refine ⟨⟨fun d' hd' => ?_, ?_⟩, ?_⟩
  · rcases List.mem_append.mp hd' with hl | hr
    · exact hP.reached d' (by rw [hds]; exact List.mem_append_left _ hl)
    · rcases List.mem_cons.mp hr with rfl | hr
      · exact ⟨a, ha.step e⟩
      · exact hP.reached d'
          (by rw [hds]; exact List.mem_append_right _ (List.mem_cons_of_mem _ hr))
  · show working m (l ++ Dst.step d e :: r) ≤ 1
    rw [working_append, working_cons]
    omega
  · rintro ⟨d', hd', hhanded⟩
    rw [hds] at hd'
    rcases List.mem_append.mp hd' with hl | hr
    · exact ⟨d', List.mem_append_left _ hl, hhanded⟩
    · rcases List.mem_cons.mp hr with rfl | hr
      · refine ⟨_, List.mem_append_right _ List.mem_cons_self, ?_⟩
        exact (ha.step e).facts.2.2.trans (ha.facts.2.2.symm.trans hhanded)
      · exact ⟨d', List.mem_append_right _ (List.mem_cons_of_mem _ hr), hhanded⟩

/-- A new transaction; for `m` only if none in the pool works on it. -/
theorem PeerInv.create (hP : n.PeerInv m) (hfree : a = m → working m n.dsts = 0) :
    PeerInv m { n with dsts := Dst.create a h :: n.dsts } := by
  have hnew : Dst.Reached a (Dst.create a h) := ⟨h, [], rfl⟩
  refine ⟨fun d hd => ?_, ?_⟩
  · rcases List.mem_cons.mp hd with rfl | hd
    · exact ⟨a, hnew⟩
    · exact hP.reached d hd
  · show working m (Dst.create a h :: n.dsts) ≤ 1
    have honce := hP.once
    have hone := working_singleton m (Dst.create a h)
    rw [working_cons]
    by_cases ham : a = m
    · have := hfree ham
      omega
    · have hother : working m [Dst.create a h] = 0 := by
        refine List.countP_eq_zero.mpr fun d hd => ?_
        cases List.mem_singleton.mp hd
        rw [hnew.facts.2.2]
        simp [ham]
      omega

/-- A message that no transaction of the pool heeds is not worked on there. -/
theorem PeerInv.working_eq_zero (hP : n.PeerInv m) (hfor : forSource m = false)
    (hnone : ∀ d ∈ n.dsts, Dst.heeds d (.messageIn m h) = false) : working m n.dsts = 0 := by
  refine List.countP_eq_zero.mpr fun d hd hwork => ?_
  have hwork := Bool.and_eq_true_iff.mp hwork
  obtain ⟨a, ha⟩ := hP.reached d hd
  obtain ⟨hpeer, htid, hhanded⟩ := ha.facts
  cases List.head_eq_of_cons_eq (hhanded.symm.trans (beq_iff_eq.mp hwork.2))
  have hheeds : Dst.heeds d (.messageIn m h) = true := by
    simp [Dst.heeds, Tr.matched, hfor, hwork.1, hpeer, htid]
  exact absurd (hheeds.symm.trans (hnone d hd)) Bool.true_eq_false.mp

/-- A message arrives at the peer. If it is `m`, a transaction has been given `m` now. -/
theorem PeerInv.messageIn (hP : n.PeerInv m) (hfor : forSource m = false) :
    PeerInv m (n.messageIn a h) ∧
    ((∃ d ∈ n.dsts, handed d.log = [m]) → ∃ d ∈ (n.messageIn a h).dsts, handed d.log = [m]) ∧
    (a = m → n.dsts = [] → ∃ d ∈ (n.messageIn a h).dsts, handed d.log = [m]) := by
  have hnew : Dst.Reached a (Dst.create a h) := ⟨h, [], rfl⟩
  have hkeep : (∃ d ∈ n.dsts, handed d.log = [m]) →
      ∃ d ∈ Dst.create a h :: n.dsts, handed d.log = [m] := fun ⟨d, hd, hh⟩ =>
    ⟨d, List.mem_cons_of_mem _ hd, hh⟩
  have hgot : a = m → n.dsts = [] → ∃ d ∈ Dst.create a h :: n.dsts, handed d.log = [m] :=
    fun ham _ => ⟨_, List.mem_cons_self, ham ▸ hnew.facts.2.2⟩
  unfold Node.messageIn
  dsimp only
  split
  · next hsrc =>
    have hother : a ≠ m := by
      rintro rfl
      exact absurd (hsrc.symm.trans hfor) Bool.true_eq_false.mp
    split
    · exact ⟨⟨hP.reached, hP.once⟩, fun hgiven => hgiven, fun ham => absurd ham hother⟩
    · exact ⟨hP.create fun ham => absurd ham hother, hkeep, hgot⟩
  · split
    · next ds hd =>
      refine ⟨(hP.dispatch hd).1, (hP.dispatch hd).2, fun _ hnil => ?_⟩
      rw [hnil] at hd
      cases hd
    · next hnone =>
      refine ⟨hP.create fun ham => ?_, hkeep, hgot⟩
      subst ham
      exact hP.working_eq_zero hfor (dispatch_eq_none hnone)

/-- A response of a user, for which there is a transaction or not. -/
theorem PeerInv.messageOut (hP : n.PeerInv m) (hop : a.opcode = .response) :
    PeerInv m (n.messageOut a h) ∧
    ((∃ d ∈ n.dsts, handed d.log = [m]) → ∃ d ∈ (n.messageOut a h).dsts, handed d.log = [m]) := by
  unfold Node.messageOut
  rw [hop]
  dsimp only
  split
  · next ds hd => exact hP.dispatch hd
  · exact ⟨⟨hP.reached, hP.once⟩, fun hgiven => hgiven⟩

theorem PeerInv.tick (hP : n.PeerInv m) :
    PeerInv m (n.tick h) ∧
    ((∃ d ∈ n.dsts, handed d.log = [m]) → ∃ d ∈ (n.tick h).dsts, handed d.log = [m]) := by
  obtain ⟨hreached, honce⟩ := hP
  have hle : ∀ ds : List Dst, (∀ d ∈ ds, ∃ a, Dst.Reached a d) →
      working m (ds.map (Dst.step · (.tick h))) ≤ working m ds := by
    intro ds hr
    induction ds with
    | nil => exact Nat.le_refl _
    | cons d ds ih =>
      obtain ⟨a, ha⟩ := hr d List.mem_cons_self
      have := ih fun d' hd' => hr d' (List.mem_cons_of_mem _ hd')
      have := ha.working_step m (.tick h)
      rw [List.map_cons, working_cons, working_cons m d ds]
      omega
  refine ⟨⟨fun d hd => ?_, Nat.le_trans (hle _ hreached) honce⟩, ?_⟩
  · obtain ⟨d', hd', rfl⟩ := List.mem_map.mp hd
    obtain ⟨a, ha⟩ := hreached d' hd'
    exact ⟨a, ha.step _⟩
  · rintro ⟨d, hd, hh⟩
    obtain ⟨a, ha⟩ := hreached d hd
    refine ⟨_, List.mem_map_of_mem hd, ?_⟩
    exact (ha.step _).facts.2.2.trans (ha.facts.2.2.symm.trans hh)

end Node

/-! ## The source before it has heard anything -/

/-- The source transaction of `m` has sent `m` and nothing else, and has heard nothing. -/
structure Src.Quiet (m : Message) (s : Src) : Prop where
  inv : Src.Inv m [] s
  timed : ∃ n, Tr.Timed n s
  out : s.out = m
  log : ∀ e ∈ s.log, e = .sent m

namespace Src

variable {m : Message} {s : Src} {h : Handler}

/-- With nothing in `in`, the source machine only moves its own state. -/
theorem Inv.run_still (hI : Inv m [] s) :
    (Src.run h s).out = s.out ∧ (Src.run h s).log = s.log := by
  have hplace := hI.place
  have hin : s.msgInAvail = false :=
    Bool.not_eq_true _ |>.mp fun h => List.not_mem_nil (hI.avail h)
  unfold Src.run
  cases hst : s.state <;> rw [hst] at hplace
  case waitAck =>
    show (Src.onWaitAck s).out = _ ∧ (Src.onWaitAck s).log = _
    unfold Src.onWaitAck
    dsimp only
    split <;> exact ⟨rfl, rfl⟩
  case waitResponseMsg =>
    show (Src.onWaitResponseMsg h s).out = _ ∧ (Src.onWaitResponseMsg h s).log = _
    unfold Src.onWaitResponseMsg
    dsimp only
    rw [hin, if_neg Bool.false_ne_true]
    split
    · split <;> exact ⟨rfl, rfl⟩
    · exact ⟨rfl, rfl⟩
  case success => exact ⟨rfl, rfl⟩
  case failure => exact ⟨rfl, rfl⟩
  all_goals exact hplace.elim

theorem Inv.dec_still {n : Nat} (hI : Inv m [] s) (ht : Tr.Timed n s) (hp : s.pooled = true)
    (hlog : ∀ e ∈ s.log, e = .sent s.out) :
    (s.dec (Src.run h)).out = s.out ∧ ∀ e ∈ (s.dec (Src.run h)).log, e = .sent s.out := by
  obtain ⟨hlt, hstop, hoff⟩ := ht hp
  have hlaw := law m [] h
  obtain ⟨hI₁, -, hre₁, -⟩ := hlaw.decStop hI (by omega)
  have hne : (s.decStop (Src.run h)).startAckRequestor = false →
      (s.decStop (Src.run h)).retransmissionWhen ≠ 1 := by
    intro hs
    rw [(hre₁ hs).2, hoff (hre₁ hs).1]
    omega
  have h₁ : (s.decStop (Src.run h)).out = s.out ∧ (s.decStop (Src.run h)).log = s.log := by
    have hrun := (hlaw.timers (pred32 s.transactionStopWhen) s.retransmissionWhen hI).run_still
      (h := h)
    unfold Tr.decStop
    dsimp only
    split
    · split
      · exact hrun
      · exact hrun
    · exact ⟨rfl, rfl⟩
  have h₂ : ((s.decStop (Src.run h)).decRetransmission (Src.run h)).out = s.out ∧
      ∀ e ∈ ((s.decStop (Src.run h)).decRetransmission (Src.run h)).log, e = .sent s.out := by
    generalize s.decStop (Src.run h) = u at hI₁ hne h₁ ⊢
    have hI' := hlaw.timers u.transactionStopWhen (pred32 u.retransmissionWhen) hI₁
    unfold Tr.decRetransmission
    dsimp only
    split
    · split
      · next hzero =>
        have hs : u.startAckRequestor = true :=
          Bool.not_eq_false _ |>.mp fun hs => hne hs (pred32_eq_zero.mp hzero)
        have hmach := hI'.machines (hI'.toInv.ackRequestor hs) (hI'.toInv.ackRequestor_kept hs)
        obtain ⟨hout, hsame⟩ := hmach.run_still (h := h)
        obtain ⟨st, status, timer, ctr, log, hreq, -, -, hmore, -⟩ :=
          T.ackRequestor_requested (hI'.started hs).1 (hI'.started hs).2
        rw [hsame, hout, hreq]
        refine ⟨h₁.1, fun e he => ?_⟩
        rcases hmore with ⟨rfl, -⟩ | ⟨-, -, -, rfl, -⟩
        · exact hlog e (h₁.2 ▸ he)
        · rcases List.mem_append.mp he with he | he
          · exact hlog e (h₁.2 ▸ he)
          · exact (List.mem_singleton.mp he).trans (congrArg _ h₁.1)
      · exact ⟨h₁.1, fun e he => hlog e (h₁.2 ▸ he)⟩
    · exact ⟨h₁.1, fun e he => hlog e (h₁.2 ▸ he)⟩
  unfold Tr.dec
  dsimp only
  split
  · exact h₂
  · exact h₂

theorem Quiet.tick (hq : Quiet m s) : Quiet m (Src.step s (.tick h)) := by
  obtain ⟨n, ht⟩ := hq.timed
  obtain ⟨hI, ht'⟩ := hq.inv.step (e := .tick h) ht fun a ha => ha
  suffices h : (Src.step s (.tick h)).out = m ∧ ∀ e ∈ (Src.step s (.tick h)).log, e = .sent m from
    ⟨hI, ⟨_, ht'⟩, h.1, h.2⟩
  unfold Src.step
  split
  · next hp =>
    have hstill := hq.inv.dec_still (h := h) ht hp (hq.out.symm ▸ hq.log)
    rw [hq.out] at hstill
    exact hstill
  · exact ⟨hq.out, hq.log⟩

theorem create_quiet (hm : m.opcode ≠ .confirm) : Quiet m (create m h) := by
  refine ⟨(law m [] h).pool _ (run_fresh_inv hm), ⟨0, create_timed m h⟩, ?_, ?_⟩
  · show (run h (fresh m)).out = m
    rw [run_fresh]
    split
    · split <;> rfl
    all_goals rfl
  · show ∀ e ∈ (run h (fresh m)).log, e = .sent m
    have hlog : (run h (fresh m)).log = [.sent m] := by
      rw [run_fresh]
      split
      · split <;> rfl
      all_goals rfl
    rw [hlog]
    exact fun e he => List.mem_singleton.mp he

/-- What is expected back from `m` has not come. -/
theorem Quiet.not_success (hq : Quiet m s)
    (hm : m.opcode = .request ∨ m.opcode = .indication ∧ m.owesAck = true) :
    s.transactionStatus ≠ .success := by
  intro hs
  rcases hq.inv.deserved hs with hop | ⟨hop, howes | ⟨a, ha, -⟩⟩ | ⟨-, a, ha, -⟩
  · rcases hm with h | h
    · cases hop.symm.trans h
    · cases hop.symm.trans h.1
  · rcases hm with h | h
    · cases hop.symm.trans h
    · exact absurd (howes.symm.trans h.2) Bool.false_ne_true
  · cases ha
  · cases ha

end Src

/-! ## The exchange -/

/-- Either the peer has been given `m`, or nothing has happened yet but ticks. -/
structure Net.Inv (m : Message) (n : Net) : Prop where
  peer : n.peer.PeerInv m
  here : (∃ d ∈ n.peer.dsts, handed d.log = [m]) ∨
    (n.peer.dsts = [] ∧ n.peer.srcs = []) ∧ n.here.dsts = [] ∧ ∀ s ∈ n.here.srcs, Src.Quiet m s

namespace Net

variable {m : Message} {n n' : Net} {e : NetAction}

/-- A node with only quiet source transactions has sent nothing but `m`. -/
theorem sends_quiet {node : Node} {a : Message} (hd : node.dsts = [])
    (hq : ∀ s ∈ node.srcs, Src.Quiet m s) (ha : a ∈ node.sends) : a = m := by
  unfold Node.sends at ha
  rw [hd, List.flatMap_nil, List.append_nil] at ha
  obtain ⟨s, hs, ha⟩ := List.mem_flatMap.mp ha
  obtain ⟨e, he, hea⟩ := List.mem_filterMap.mp ha
  rw [(hq s hs).log e he] at hea
  exact (Option.some.inj hea).symm

theorem Inv.step (hfor : forSource m = false) (hI : n.Inv m) (h : n.step e = some n') :
    n'.Inv m := by
  cases e with
  | arriveAtPeer a hd =>
    obtain ⟨ha, ⟨⟩⟩ := Option.ite_none_right_eq_some.mp h
    obtain ⟨hP, hkeep, hgot⟩ := hI.peer.messageIn (a := a) (h := hd) hfor
    refine ⟨hP, .inl ?_⟩
    rcases hI.here with hgiven | ⟨hnil, hdsts, hq⟩
    · exact hkeep hgiven
    · -- all that has been sent from here is `m`, and the peer has no transaction for it
      exact hgot (sends_quiet hdsts hq ha) hnil.1
  | arriveHere a hd =>
    obtain ⟨ha, ⟨⟩⟩ := Option.ite_none_right_eq_some.mp h
    refine ⟨hI.peer, .inl ?_⟩
    rcases hI.here with hgiven | ⟨hnil, -, -⟩
    · exact hgiven
    · -- a peer that has been given nothing has sent nothing
      unfold Node.sends at ha
      rw [hnil.1, hnil.2] at ha
      cases ha
  | answer a hd =>
    obtain ⟨⟨hop, hsome⟩, ⟨⟩⟩ := Option.ite_none_right_eq_some.mp h
    obtain ⟨hP, hkeep⟩ := hI.peer.messageOut (h := hd) hop
    refine ⟨hP, .inl ?_⟩
    rcases hI.here with hgiven | ⟨hnil, -, -⟩
    · exact hkeep hgiven
    · rw [hnil.1] at hsome
      cases hsome
  | tickHere hd =>
    cases h
    refine ⟨hI.peer, hI.here.imp_right fun ⟨hnil, hdsts, hq⟩ => ⟨hnil, ?_, fun s hs => ?_⟩⟩
    · show n.here.dsts.map _ = []
      rw [hdsts]
      rfl
    · obtain ⟨s', hs', rfl⟩ := List.mem_map.mp hs
      exact (hq s' hs').tick
  | tickPeer hd =>
    cases h
    obtain ⟨hP, hkeep⟩ := hI.peer.tick (h := hd)
    refine ⟨hP, hI.here.imp hkeep fun ⟨hnil, hrest⟩ => ⟨⟨?_, ?_⟩, hrest⟩⟩
    · show n.peer.dsts.map _ = []
      rw [hnil.1]
      rfl
    · show n.peer.srcs.map _ = []
      rw [hnil.2]
      rfl

end Net

/-- **At least once, and one at a time.** Let `m` be a request, or an indication that is to
be acknowledged, and the only message that is sent from here. Over a network that loses,
repeats, delays and reorders messages as it likes, with users at the peer that respond in
time, late or twice, the peer never has two transactions for `m` in its pool, and the source
transaction of `m` succeeds only after the peer's MIH function has been given `m`. -/
theorem exchange_delivered (m : Message) (h : Handler) (acts : List NetAction) (n : Net)
    (hm : m.opcode = .request ∨ m.opcode = .indication ∧ m.owesAck = true)
    (hack : m.ackrsp = false) (hrun : run Net.step (Net.start m h) acts = some n) :
    working m n.peer.dsts ≤ 1 ∧
    ((∃ s ∈ n.here.srcs, s.transactionStatus = .success) →
      ∃ d ∈ n.peer.dsts, handed d.log = [m]) := by
  have hop : m.opcode ≠ .confirm ∧ m.opcode ≠ .response := by
    rcases hm with h | ⟨h, -⟩ <;> rw [h] <;> exact ⟨nofun, nofun⟩
  have hfor : forSource m = false := by
    simp [forSource, hack, hop.2]
  have hstart : (Net.start m h).Inv m := by
    refine ⟨⟨fun d hd => absurd hd List.not_mem_nil, Nat.zero_le 1⟩,
      .inr ⟨⟨rfl, rfl⟩, rfl, fun s hs => ?_⟩⟩
    cases List.mem_singleton.mp hs
    exact Src.create_quiet hop.1
  have hI := run_inv_all (I := Net.Inv m) (fun hI h => hI.step hfor h) acts hstart hrun
  refine ⟨hI.peer.once, fun ⟨s, hs, hsucc⟩ => ?_⟩
  rcases hI.here with hgiven | ⟨-, -, hq⟩
  · exact hgiven
  · exact absurd hsucc ((hq s hs).not_success hm)

/-- A request that the peer answers at once; the answer arrives. -/
theorem exchange_delivered_answered :
    let m : Message := { mid := ⟨1, .request, 1⟩, tid := 1, source := [1], destination := [2] }
    let r : Message := { mid := ⟨1, .response, 1⟩, tid := 1, source := [2], destination := [1] }
    ∃ n, run Net.step (Net.start m fun i o => ⟨false, i, o⟩)
        [.arriveAtPeer m fun i _ => ⟨true, i, r⟩, .arriveHere r fun i o => ⟨false, i, o⟩] = some n ∧
      (∃ s ∈ n.here.srcs, s.transactionStatus = .success) ∧
      ∃ d ∈ n.peer.dsts, handed d.log = [m] := by
  intro m r
  refine ⟨_, rfl, ⟨_, .head _, rfl⟩, ?_⟩
  exact (exchange_delivered m (fun i o => ⟨false, i, o⟩)
    [.arriveAtPeer m fun i _ => ⟨true, i, r⟩, .arriveHere r fun i o => ⟨false, i, o⟩] _
    (.inl rfl) rfl rfl).2 ⟨_, .head _, rfl⟩

end Manhattan.Mih.Transaction
