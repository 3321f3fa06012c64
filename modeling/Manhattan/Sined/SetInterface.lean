import Mathlib.Logic.Function.Basic
import Manhattan.Sined.Netmgr
import Manhattan.Sined.Query
import Manhattan.Mih.SocketHandler

/-!
# Setting a daemon's interface (`netmgr_set_interface`)

Three processes are behind one call. `sined` sends `h` and then `g` (or `m`) to the
MIH user and waits five seconds for each answer; the MIH user passes the command
on to a daemon and answers when that call has returned, which for the HIP daemon
may take ten; the daemon accepts the interface or not. `netmgr_set_interface`
returns 0 when every answer came and -1 when one did not.

Two things come apart here. The answer says nothing about the daemon: the handler
ignores what `send_hipd` and `send_mip6d` return, and they ignore what the daemon
said. And a call that is given up is not undone: the MIH user still handles the
query, and the daemon may still accept it.

Mirroring notes:
- The environment of one exchange (`Exchange`) fixes every outcome and delay:
  `sined`'s own system calls, the loss of either datagram, the time until the
  handler gets to the query (it may be busy with earlier ones), the daemon call,
  the way back.
- That the text received is the reply to this very query is `replies_matched` of
  `Query`. As there, names of more than 29 characters are not modelled: with the command
  and the terminator they overrun the 32 bytes of the caller's buffer.
- What a daemon prefers is a name; the handler's `pref` command sets it. The value
  "before the call" is the one after the earlier calls' queries, which the handler
  takes first.

`truthful_iff` is the exact condition under which the return value tells the
truth.
-/

namespace Manhattan.Sined.SetInterface

open Manhattan.Mih
open Manhattan.Sined.Query (request)

/-- `SINE_TIMEOUT`, in milliseconds. -/
def sineTimeout : Nat := 5000

/-- What one call of `netmgr_send_info` meets. -/
structure Exchange where
  /-- `info_sock` is open, or opens with its timeout set. -/
  socketOk : Bool
  sendOk : Bool
  /-- The query reaches the MIH user. -/
  arrives : Bool
  /-- Until the handler takes it. -/
  wait : Nat
  links : List String
  hipd : HipdEnv
  mip6d : Mip6dEnv
  /-- The reply is sent and reaches `sined`. -/
  replyOk : Bool
  travel : Nat
  deriving DecidableEq, Repr

/-- The daemon call a query leads to, if any. -/
def Exchange.call (e : Exchange) : Job → Option (Daemon × String × Called)
  | .hip target => some (.hip, target, sendHipd e.hipd)
  | .mip target => some (.mipv6, target, sendMip6d e.mip6d)
  | _ => none

/-- The time the handler spends on a query. -/
def Exchange.elapsed (e : Exchange) (buf : List Char) : Option Nat :=
  match e.call (job buf) with
  | some (_, _, called) => called.elapsed
  | none => some 0

/-- What the daemons prefer once the query has been handled. -/
def Exchange.prefs (e : Exchange) (buf : List Char) (pref : Daemon → String) : Daemon → String :=
  match e.call (job buf) with
  | some (d, target, called) => if called.accepted then Function.update pref d target else pref
  | none => pref

/-- The query gets to the MIH user. -/
def Exchange.asked (e : Exchange) : Bool := e.socketOk && e.sendOk && e.arrives

/-- `netmgr_send_info`: the text left in `buf`, and the daemons' preferences after
the MIH user has handled the query, be it too late. -/
def netmgrSendInfo (e : Exchange) (buf : List Char) (pref : Daemon → String) :
    String × (Daemon → String) :=
  if e.asked then
    (match e.elapsed buf, (job buf).reply e.links with
      | some t, some text =>
        if e.replyOk && e.wait + t + e.travel < sineTimeout then text else ""
      | _, _ => "",
     e.prefs buf pref)
  else ("", pref)

/-- `netmgr_set_interface`; the second exchange is the one of `g`. -/
def netmgrSetInterface (addr : List UInt8) (ifname : Option String) (e₁ e₂ : Exchange)
    (pref : Daemon → String) : Int × (Daemon → String) :=
  if isHipAddr addr then
    let (buf, pref) := netmgrSendInfo e₁ (request 'h' ifname) pref
    if buf = "" then (-1, pref)
    else
      let (buf, pref) := netmgrSendInfo e₂ (request 'g' ifname) pref
      if buf = "" then (-1, pref) else (0, pref)
  else if saFamily addr = afInet6 then
    let (buf, pref) := netmgrSendInfo e₁ (request 'm' ifname) pref
    if buf = "" then (-1, pref) else (0, pref)
  else (0, pref)

/-- The interface the daemon is asked to prefer. -/
def target (ifname : Option String) : String := prefTarget (printed ifname).toList

/-- The daemon was reached and accepted the interface. -/
def accepted (d : Daemon) (e : Exchange) : Bool :=
  e.asked && match d with
    | .hip => (sendHipd e.hipd).accepted
    | .mipv6 => (sendMip6d e.mip6d).accepted

/-- The reply to a query comes within the timeout, when the handler spends `t` on
it. -/
def inTime (e : Exchange) (t : Option Nat) : Bool :=
  e.asked && e.replyOk && match t with
    | some t => e.wait + t + e.travel < sineTimeout
    | none => false

/-- All replies of a call come in time. -/
def answered (e₁ e₂ : Exchange) : Daemon → Bool
  | .hip => inTime e₁ (sendHipd e₁.hipd).elapsed && inTime e₂ (some 0)
  | .mipv6 => inTime e₁ (sendMip6d e₁.mip6d).elapsed

/-- **The return value is truthful.** 0 is returned for an address a daemon serves
only if that daemon accepted the interface, and after -1 the daemons prefer what
they preferred before, once everything in flight has been handled. -/
def Truthful (addr : List UInt8) (ifname : Option String) (e₁ e₂ : Exchange)
    (pref : Daemon → String) : Prop :=
  ((netmgrSetInterface addr ifname e₁ e₂ pref).1 = 0 →
    ∀ d, daemonOf addr = some d → accepted d e₁ = true) ∧
  ((netmgrSetInterface addr ifname e₁ e₂ pref).1 = -1 →
    ∀ d, (netmgrSetInterface addr ifname e₁ e₂ pref).2 d = pref d)

/-! ## One exchange -/

/-- A query is answered `ack` in time, or leaves `buf` empty. -/
theorem sendInfo_text (e : Exchange) (buf : List Char) (pref : Daemon → String)
    (hack : (job buf).reply e.links = some "ack") :
    (netmgrSendInfo e buf pref).1 = if inTime e (e.elapsed buf) then "ack" else "" := by
  unfold netmgrSendInfo inTime
  rw [hack]
  cases e.asked with
  | false => rfl
  | true =>
    cases e.elapsed buf with
    | none => simp
    | some t => simp

/-- The preferences after a query whose daemon call is known. -/
theorem sendInfo_prefs (e : Exchange) (buf : List Char) {d : Daemon} {name : String}
    {called : Called} (pref : Daemon → String) (hcall : e.call (job buf) = some (d, name, called)) :
    (netmgrSendInfo e buf pref).2 =
      if e.asked && called.accepted then Function.update pref d name else pref := by
  unfold netmgrSendInfo Exchange.prefs
  rw [hcall]
  cases e.asked with
  | false => rfl
  | true => rfl

/-- The confirmation changes nothing. -/
theorem sendInfo_confirm (e : Exchange) (ifname : Option String) (pref : Daemon → String) :
    (netmgrSendInfo e (request 'g' ifname) pref).2 = pref := by
  unfold netmgrSendInfo
  split <;> rfl

/-- **What a call returns and leaves behind**, for an address a daemon serves. -/
theorem setInterface_eq {addr : List UInt8} {d : Daemon} (hd : daemonOf addr = some d)
    (ifname : Option String) (e₁ e₂ : Exchange) (pref : Daemon → String) :
    netmgrSetInterface addr ifname e₁ e₂ pref =
      (if answered e₁ e₂ d then 0 else -1,
       if accepted d e₁ then Function.update pref d (target ifname) else pref) := by
  unfold daemonOf at hd
  unfold netmgrSetInterface
  by_cases hhip : isHipAddr addr = true
  · rw [if_pos hhip] at hd
    cases hd
    rw [if_pos hhip]
    have htext := sendInfo_text e₁ (request 'h' ifname) pref rfl
    have hpref := sendInfo_prefs e₁ (request 'h' ifname) pref rfl
    cases h₁ : inTime e₁ (e₁.elapsed (request 'h' ifname)) with
    | false =>
      -- no reply to `h`: `g` is not sent
      have hempty : (netmgrSendInfo e₁ (request 'h' ifname) pref).1 = "" := by
        rw [htext, h₁]
        rfl
      have hans : answered e₁ e₂ .hip = false := by
        unfold answered
        rw [show inTime e₁ (sendHipd e₁.hipd).elapsed = false from h₁, Bool.false_and]
      dsimp only
      rw [if_pos hempty, hans, hpref]
      rfl
    | true =>
      have hne : (netmgrSendInfo e₁ (request 'h' ifname) pref).1 ≠ "" := by
        rw [htext, h₁]
        decide
      have htext₂ := sendInfo_text e₂ (request 'g' ifname)
        (netmgrSendInfo e₁ (request 'h' ifname) pref).2 rfl
      have hans : answered e₁ e₂ .hip = inTime e₂ (e₂.elapsed (request 'g' ifname)) := by
        unfold answered
        rw [show inTime e₁ (sendHipd e₁.hipd).elapsed = true from h₁, Bool.true_and]
        rfl
      dsimp only
      rw [if_neg hne, sendInfo_confirm, htext₂, hans, hpref]
      cases inTime e₂ (e₂.elapsed (request 'g' ifname)) with
      | false => rfl
      | true => rfl
  · rw [if_neg hhip] at hd
    rw [if_neg hhip]
    by_cases hv6 : saFamily addr = afInet6
    · rw [if_pos hv6] at hd
      cases hd
      rw [if_pos hv6]
      have htext := sendInfo_text e₁ (request 'm' ifname) pref rfl
      have hpref := sendInfo_prefs e₁ (request 'm' ifname) pref rfl
      dsimp only
      rw [htext, hpref,
        show answered e₁ e₂ .mipv6 = inTime e₁ (e₁.elapsed (request 'm' ifname)) from rfl]
      cases inTime e₁ (e₁.elapsed (request 'm' ifname)) with
      | false => rfl
      | true => rfl
    · rw [if_neg hv6] at hd
      cases hd

/-- Nothing is asked for the other addresses. -/
theorem setInterface_none {addr : List UInt8} (hd : daemonOf addr = none) (ifname : Option String)
    (e₁ e₂ : Exchange) (pref : Daemon → String) :
    netmgrSetInterface addr ifname e₁ e₂ pref = (0, pref) := by
  unfold daemonOf at hd
  unfold netmgrSetInterface
  by_cases hhip : isHipAddr addr = true
  · rw [if_pos hhip] at hd
    cases hd
  · rw [if_neg hhip] at hd
    by_cases hv6 : saFamily addr = afInet6
    · rw [if_pos hv6] at hd
      cases hd
    · rw [if_neg hhip, if_neg hv6]

/-- **When the return value is truthful**: for every address, name, outcome and
delay, exactly when the replies come in time only after a daemon call the daemon
accepted, and do come in time after such a call, unless the interface was the
preferred one already. -/
theorem truthful_iff (addr : List UInt8) (ifname : Option String) (e₁ e₂ : Exchange)
    (pref : Daemon → String) :
    Truthful addr ifname e₁ e₂ pref ↔
      ∀ d, daemonOf addr = some d →
        (answered e₁ e₂ d = true → accepted d e₁ = true) ∧
        (accepted d e₁ = true → answered e₁ e₂ d = true ∨ pref d = target ifname) := by
  unfold Truthful
  cases hd : daemonOf addr with
  | none =>
    rw [setInterface_none hd]
    constructor
    · intro _ d h
      cases h
    · intro _
      exact ⟨(fun _ d h => nomatch h), fun _ _ => rfl⟩
  | some d =>
    rw [setInterface_eq hd]
    cases hans : answered e₁ e₂ d with
    | true =>
      -- the call returns 0
      constructor
      · rintro ⟨hzero, -⟩ d' hd'
        cases hd'
        exact ⟨fun _ => hzero rfl d rfl, fun _ => Or.inl hans⟩
      · intro h
        refine ⟨fun _ d' hd' => ?_, fun hneg => absurd (show (0 : Int) = -1 from hneg) (by decide)⟩
        cases hd'
        exact (h d rfl).1 hans
    | false =>
      -- it returns -1, and the daemon has taken the interface over or not
      constructor
      · rintro ⟨-, hneg⟩ d' hd'
        cases hd'
        refine ⟨fun h => ?_, fun hacc => Or.inr ?_⟩
        · rw [hans] at h
          cases h
        · have := hneg rfl d
          rw [hacc] at this
          dsimp only at this
          rw [if_pos rfl, Function.update_self] at this
          exact this.symm
      · intro h
        refine ⟨fun hzero => absurd (show (-1 : Int) = 0 from hzero) (by decide), fun _ d' => ?_⟩
        dsimp only
        split
        next hacc =>
          have hpref : pref d = target ifname := by
            rcases (h d rfl).2 hacc with ht | hp
            · rw [hans] at ht
              cases ht
            · exact hp
          by_cases hdd : d' = d
          · rw [hdd, Function.update_self, hpref]
          · rw [Function.update_of_ne hdd]
        next => rfl

/-! ## A refusal that is acknowledged, and an acceptance that is not -/

/-- A connection to `1.2.3.4`, in the HIP range. -/
def hipPeer : List UInt8 := [2, 0, 0, 22, 1, 2, 3, 4]

/-- The HIP daemon answers after the given time. -/
def hipAnswers (accepts : Bool) (t : Nat) : Exchange :=
  ⟨true, true, true, 0, ["eth0", "wlan0"], ⟨true, true, true, true, accepts, some t⟩,
   ⟨false, false, none, false, false, none⟩, true, 0⟩

/-- **The return value is not truthful.** The HIP daemon refuses the interface at
once and the call returns 0; it accepts the interface after six seconds and the
call has returned -1. -/
theorem refusal_is_acknowledged :
    ¬ Truthful hipPeer (some "wlan0") (hipAnswers false 10) (hipAnswers false 10)
      (fun _ => "eth0") ∧
    (netmgrSetInterface hipPeer (some "wlan0") (hipAnswers false 10) (hipAnswers false 10)
      fun _ => "eth0").1 = 0 ∧
    ¬ Truthful hipPeer (some "wlan0") (hipAnswers true 6000) (hipAnswers true 6000)
      (fun _ => "eth0") ∧
    (netmgrSetInterface hipPeer (some "wlan0") (hipAnswers true 6000) (hipAnswers true 6000)
      fun _ => "eth0").1 = -1 := by
  refine ⟨?_, by decide, ?_, by decide⟩
  · intro h
    exact absurd (h.1 (by decide) .hip (by decide)) (by decide)
  · intro h
    exact absurd (h.2 (by decide) .hip) (by decide)

end Manhattan.Sined.SetInterface
