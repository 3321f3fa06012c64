import Manhattan.Middleware.PolicyModel

/-!
# Asking the network manager (`nm.cpp`)

The evaluator learns about interfaces through `ipc_nm`: the request is sent from a
buffer, the reply is received into the same buffer, and where no reply comes the
caller is to get a null pointer and an empty buffer. `sine_getCost` and
`sine_getBandwidth` turn that into values no bound accepts.

The test for a missing reply can never be true. `recvfrom` returns -1, but the
result is kept in an `unsigned int` before it is compared with 0, so that the call
goes on: a terminator is stored 4294967295 characters behind the start of the
buffer, and the buffer is returned with the request still in it. `atoi` makes 0 of
that, which is a good price.

Mirroring notes:
- `Outcome` is what the socket calls give. A failing `sendto` is not noticed by the
  source and ends like a request that nobody answers.
- The store behind the buffer is recorded (`Exchange.terminator`); what else it hits
  is left out. The buffers are taken to be long enough for request and reply.
- `sine_getInfo` is not called by the evaluator and is left out.
-/

namespace Manhattan.Middleware.NetworkQuery

open Manhattan.Lib PolicyModel

/-- `INT_MAX` -/
def intMax : Int := 2147483647

inductive Outcome where
  | socketFails
  | noReply
  | reply (datagram : Text)
  deriving DecidableEq, Repr

/-- What `recvfrom` returns; it takes at most 1000 characters. -/
def Outcome.received : Outcome → Int
  | .reply datagram => (min datagram.length 1000 : Nat)
  | _ => -1

/-- The characters in the buffer once `recvfrom` has returned. -/
def Outcome.overwrite (buf : Text) : Outcome → Text
  | .reply datagram => datagram.take 1000 ++ buf.drop (min datagram.length 1000)
  | _ => buf

/-- What a call of `ipc_nm` leaves. -/
structure Exchange where
  /-- The result is not a null pointer. -/
  returned : Bool
  buf : Text
  /-- The index of the last store into `buf`. -/
  terminator : Nat
  deriving DecidableEq, Repr

/-- `ipc_nm(buf, -1)` -/
def ipcNm (buf : Text) (o : Outcome) : Exchange :=
  if o = .socketFails then ⟨false, [], 0⟩
  else
    let buflen := UInt32.ofInt o.received
    if buflen < 0 then ⟨false, [], 0⟩
    else ⟨true, cstr ((o.overwrite buf).set buflen.toNat nul), buflen.toNat⟩

/-- `sine_getIfStatus`, the string in `result`. -/
def sineGetIfStatus (ifname : Text) (o : Outcome) : Text :=
  let r := ipcNm ('e' :: ' ' :: ifname) o
  if r.returned then r.buf else []

/-- The common part of `sine_getCost` and `sine_getBandwidth`. -/
def number (cmd : Char) (missing : Int) (ifname : Text) (o : Outcome) : Int :=
  let r := ipcNm (cmd :: ' ' :: ifname) o
  if !r.returned || r.buf = [] then missing else atoi r.buf

/-- `sine_getCost` -/
def sineGetCost (ifname : Text) (o : Outcome) : Int := number 'c' intMax ifname o

/-- `sine_getBandwidth` -/
def sineGetBandwidth (ifname : Text) (o : Outcome) : Int := number 'b' (-1) ifname o

/-- The evaluator's environment with these functions in it; every query has an
outcome of its own. -/
def asking (env : Env) (outcome : List Event → Outcome) : Env :=
  { env with
    getIfStatus := fun log name => sineGetIfStatus name (outcome log)
    getBandwidth := fun log name => sineGetBandwidth name (outcome log)
    getCost := fun log name => sineGetCost name (outcome log) }

/-! ## The functions for each outcome -/

/-- The test after `recvfrom` is never true. -/
theorem ipcNm_of_socket {o : Outcome} (h : o ≠ .socketFails) (buf : Text) :
    ipcNm buf o = ⟨true, cstr ((o.overwrite buf).set (UInt32.ofInt o.received).toNat nul),
      (UInt32.ofInt o.received).toNat⟩ := by
  unfold ipcNm
  rw [if_neg h, if_neg UInt32.not_lt_zero]

/-- Without a reply the request is still there, at least its first characters. -/
theorem ipcNm_noReply (buf : Text) :
    ipcNm buf .noReply = ⟨true, (cstr buf).take 4294967295, 4294967295⟩ := by
  have hlen : (UInt32.ofInt Outcome.noReply.received).toNat = 4294967295 := by decide
  have hsocket : Outcome.noReply ≠ .socketFails := nofun
  rw [ipcNm_of_socket hsocket, hlen, ← cstr_set]
  rfl

theorem sineGetIfStatus_socketFails (ifname : Text) : sineGetIfStatus ifname .socketFails = [] :=
  rfl

theorem number_socketFails (cmd : Char) (missing : Int) (ifname : Text) :
    number cmd missing ifname .socketFails = missing := rfl

/-- A request begins with a letter, and so `atoi` reads no digit in it. -/
theorem number_noReply {cmd : Char} (hcmd : cmd ≠ nul) (hatoi : ∀ t, atoi (cmd :: t) = 0)
    (missing : Int) (ifname : Text) : number cmd missing ifname .noReply = 0 := by
  have hbuf : (cstr (cmd :: ' ' :: ifname)).take 4294967295 =
      cmd :: (cstr (' ' :: ifname)).take 4294967294 := by
    unfold cstr
    rw [List.takeWhile_cons_of_pos (by simpa using hcmd), List.take_succ_cons]
  unfold number
  rw [ipcNm_noReply, hbuf]
  exact hatoi _

theorem sineGetCost_noReply (ifname : Text) : sineGetCost ifname .noReply = 0 :=
  number_noReply (by decide) (fun _ => rfl) _ _

theorem sineGetBandwidth_noReply (ifname : Text) : sineGetBandwidth ifname .noReply = 0 :=
  number_noReply (by decide) (fun _ => rfl) _ _

/-! ## What the evaluator makes of it -/

section Clauses

variable (env : Env) (outcome : List Event → Outcome) (log : List Event) (act : Action)
  (data : Text)

theorem evaluate_inter :
    (evaluate (asking env outcome) log act ⟨.inter, data⟩).1 =
      decide (sineGetIfStatus data (outcome log) = "up".toList) := rfl

theorem evaluate_cost :
    (evaluate (asking env outcome) log act ⟨.cost, data⟩).1 =
      decide (sineGetCost act.interface (outcome log) ≤
        (bound (env.strOffset log) data).1 + (bound (env.strOffset log) data).2) := rfl

theorem evaluate_band :
    (evaluate (asking env outcome) log act ⟨.band, data⟩).1 =
      decide ((bound (env.strOffset log) data).1 - (bound (env.strOffset log) data).2 ≤
        sineGetBandwidth act.interface (outcome log)) := rfl

end Clauses

/-- A missing answer is a failure everywhere: a null pointer for the caller, values
that no bound accepts, and so clauses that are rejected. -/
structure FailsClosed (o : Outcome) : Prop where
  null : ∀ buf, (ipcNm buf o).returned = false
  status : ∀ ifname, sineGetIfStatus ifname o = []
  cost : ∀ ifname, sineGetCost ifname o = intMax
  bandwidth : ∀ ifname, sineGetBandwidth ifname o = -1
  interClause : ∀ env outcome log act data, outcome log = o →
    (evaluate (asking env outcome) log act ⟨.inter, data⟩).1 = false
  costClause : ∀ (env : Env) outcome log act data, outcome log = o →
    (bound (env.strOffset log) data).1 + (bound (env.strOffset log) data).2 < intMax →
    (evaluate (asking env outcome) log act ⟨.cost, data⟩).1 = false
  bandClause : ∀ (env : Env) outcome log act data, outcome log = o →
    0 ≤ (bound (env.strOffset log) data).1 - (bound (env.strOffset log) data).2 →
    (evaluate (asking env outcome) log act ⟨.band, data⟩).1 = false

theorem failsClosed_socketFails : FailsClosed .socketFails where
  null _ := rfl
  status := sineGetIfStatus_socketFails
  cost := number_socketFails 'c' intMax
  bandwidth := number_socketFails 'b' (-1)
  interClause env outcome log act data ho := by
    rw [evaluate_inter, ho]
    rfl
  costClause env outcome log act data ho hb := by
    rw [evaluate_cost, ho, decide_eq_false_iff_not]
    exact Int.not_le.mpr hb
  bandClause env outcome log act data ho hb := by
    have hnone : sineGetBandwidth act.interface .socketFails = -1 := rfl
    rw [evaluate_band, ho, decide_eq_false_iff_not, hnone]
    omega

/-- Without a reply a price limit is met whenever it is not negative, and a
bandwidth whenever none is required. -/
theorem evaluate_noReply (env : Env) {outcome : List Event → Outcome} {log : List Event}
    (h : outcome log = .noReply) (act : Action) (data : Text) :
    (evaluate (asking env outcome) log act ⟨.cost, data⟩).1 =
      decide (0 ≤ (bound (env.strOffset log) data).1 + (bound (env.strOffset log) data).2) ∧
    (evaluate (asking env outcome) log act ⟨.band, data⟩).1 =
      decide ((bound (env.strOffset log) data).1 - (bound (env.strOffset log) data).2 ≤ 0) := by
  rw [evaluate_cost, evaluate_band, h, sineGetCost_noReply, sineGetBandwidth_noReply]
  exact ⟨rfl, rfl⟩

/-- Of the two ways to get no reply, the evaluator is safe against the one where
there is no socket to send from. -/
theorem failsClosed_iff (o : Outcome) :
    ((∀ datagram, o ≠ .reply datagram) → FailsClosed o) ↔ o ≠ .noReply := by
  constructor
  · intro h ho
    subst ho
    have hnull := (h nofun).null []
    rw [ipcNm_noReply] at hnull
    cases hnull
  · intro ho hnone
    cases o with
    | socketFails => exact failsClosed_socketFails
    | noReply => exact absurd rfl ho
    | reply datagram => exact absurd rfl (hnone datagram)

/-- Nobody answers about `eth0`: `ipc_nm` succeeds with the request in the buffer,
the price and the bandwidth are 0, and `cost 5-0` and `band 0-0` hold. -/
theorem noReply_accepted :
    ipcNm "c eth0".toList .noReply = ⟨true, "c eth0".toList, 4294967295⟩ ∧
    sineGetIfStatus "eth0".toList .noReply = "e eth0".toList ∧
    sineGetCost "eth0".toList .noReply = 0 ∧ sineGetBandwidth "eth0".toList .noReply = 0 ∧
    ∀ env : Env,
      (evaluate (asking env fun _ => .noReply) [] ⟨"eth0".toList, true⟩
        ⟨.cost, "5-0".toList⟩).1 = true ∧
      (evaluate (asking env fun _ => .noReply) [] ⟨"eth0".toList, true⟩
        ⟨.band, "0-0".toList⟩).1 = true := by
  refine ⟨by decide, by decide, by decide, by decide, fun env => ?_⟩
  have h := @evaluate_noReply env (fun _ => .noReply) [] rfl ⟨"eth0".toList, true⟩
  rw [(h _).1, (h _).2]
  exact ⟨rfl, rfl⟩

end Manhattan.Middleware.NetworkQuery
