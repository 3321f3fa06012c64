import Manhattan.Lib.Text
import Manhattan.Sined.Query

/-!
# The message buffer of the network manager (`sined/src/netmgr.c`)

`netmgr_interface_on` and `netmgr_set_interface` print a request into an array of
`IPC_BUF_SIZE` characters, and `netmgr_send_info` receives the reply into the same
array and puts a terminator behind it. Neither side looks at the size: the name in
the request is the text of a policy's `interface` element, and the terminator goes
to the index that `recvfrom` returned.

Mirroring notes:
- `Buf` keeps the string in the array beside every index written so far. A write
  outside the array is recorded and the call goes on as if the array were longer;
  up to the first such write this is what the program does.
- A reply is the datagram as it was sent; `recvfrom` hands over its first
  `IPC_BUF_SIZE` characters. `none` stands for every way to the `error` label
  (socket, option, `sendto`, `recvfrom` or the timeout).
- A character is a byte.

`indices_below_iff` says which names and replies the array has room for: two
characters of every request are the command, so 29 are left for the name, and a
reply of 32 characters or more is already terminated outside.
-/

namespace Manhattan.Sined.IpcBuffer

open Manhattan.Lib (Text nul)
open Manhattan.Sined.Query (request)

/-- `IPC_BUF_SIZE` -/
def ipcBufSize : Nat := 32

/-- `char buf[IPC_BUF_SIZE]`: its string, and the indices written so far. -/
structure Buf where
  text : Text
  written : List Nat
  deriving DecidableEq, Repr

/-- The array at the start of a call. -/
def Buf.fresh : Buf := ⟨[], []⟩

/-- `sprintf(buf, ...)` writes the text and its terminator. -/
def Buf.print (b : Buf) (t : Text) : Buf := ⟨t, b.written ++ List.range (t.length + 1)⟩

/-- `netmgr_send_info` -/
def netmgrSendInfo (reply : Option Text) (b : Buf) : Buf :=
  match reply with
  | none => ⟨[], b.written ++ [0]⟩
  | some datagram =>
    let r := min datagram.length ipcBufSize
    ⟨Lib.cstr (datagram.take r), b.written ++ List.range r ++ [r]⟩

/-- One request and its reply. -/
def exchange (cmd : Char) (ifname : Option String) (reply : Option Text) (b : Buf) : Buf :=
  netmgrSendInfo reply (b.print (request cmd ifname))

/-- `netmgr_interface_on` -/
def netmgrInterfaceOn (ifname : Option String) (reply : Option Text) : Int × Buf :=
  let b := exchange 'e' ifname reply .fresh
  (if b.text = ['u', 'p'] then 1 else 0, b)

/-- `netmgr_set_interface`; the second reply is the one to `g`. -/
def netmgrSetInterface (addr : List UInt8) (ifname : Option String)
    (reply₁ reply₂ : Option Text) : Int × Buf :=
  if isHipAddr addr then
    let b := exchange 'h' ifname reply₁ .fresh
    if b.text = [] then (-1, b)
    else
      let b := exchange 'g' ifname reply₂ b
      if b.text = [] then (-1, b) else (0, b)
  else if saFamily addr = afInet6 then
    let b := exchange 'm' ifname reply₁ .fresh
    if b.text = [] then (-1, b) else (0, b)
  else (0, .fresh)

/-- No index outside the array was written. -/
def Buf.InRange (b : Buf) : Prop := ∀ i ∈ b.written, i < ipcBufSize

/-- The name fits behind a command, and the replies leave room for the terminator. -/
def Fits (ifname : Option String) (replies : List (Option Text)) : Prop :=
  (printed ifname).length ≤ 29 ∧ ∀ d, some d ∈ replies → d.length < ipcBufSize

/-- The reply puts a string into the array that is not empty. -/
def answers : Option Text → Bool
  | some (c :: _) => c != nul
  | _ => false

/-- The replies `netmgr_set_interface` waits for. -/
def awaited (addr : List UInt8) (reply₁ reply₂ : Option Text) : List (Option Text) :=
  if isHipAddr addr then if answers reply₁ then [reply₁, reply₂] else [reply₁]
  else if saFamily addr = afInet6 then [reply₁]
  else []

theorem fresh_inRange : Buf.fresh.InRange := by
  intro i hi
  cases hi

theorem print_inRange (b : Buf) (t : Text) :
    (b.print t).InRange ↔ b.InRange ∧ t.length < ipcBufSize := by
  unfold Buf.InRange Buf.print
  simp only [List.mem_append, List.mem_range]
  constructor
  · intro h
    exact ⟨fun i hi => h i (.inl hi), h _ (.inr (Nat.lt_succ_self _))⟩
  · intro h i hi
    obtain hi | hi := hi
    · exact h.1 i hi
    · omega

/-- The terminator is the only write that can miss: `recvfrom` stops at the size. -/
theorem sendInfo_inRange (reply : Option Text) (b : Buf) :
    (netmgrSendInfo reply b).InRange ↔
      b.InRange ∧ ∀ d, reply = some d → d.length < ipcBufSize := by
  unfold Buf.InRange netmgrSendInfo
  cases reply with
  | none =>
    simp only [List.mem_append, List.mem_singleton, reduceCtorEq, false_implies, implies_true,
      and_true]
    constructor
    · intro h i hi
      exact h i (.inl hi)
    · intro h i hi
      obtain hi | hi := hi
      · exact h i hi
      · rw [hi]
        exact Nat.succ_pos _
  | some d =>
    simp only [List.mem_append, List.mem_range, List.mem_singleton, Option.some.injEq]
    constructor
    · intro h
      refine ⟨fun i hi => h i (.inl (.inl hi)), fun d' hd' => ?_⟩
      have := h _ (.inr rfl)
      subst hd'
      omega
    · intro h i hi
      have hd := h.2 d rfl
      obtain (hi | hi) | hi := hi
      · exact h.1 i hi
      · omega
      · omega

theorem exchange_inRange (cmd : Char) (ifname : Option String) (reply : Option Text) (b : Buf) :
    (exchange cmd ifname reply b).InRange ↔ b.InRange ∧ Fits ifname [reply] := by
  have hlen : (request cmd ifname).length = (printed ifname).length + 2 := by
    unfold request
    rw [List.length_cons, List.length_cons, String.length_toList]
  have hrep : (∀ d, some d ∈ [reply] → d.length < ipcBufSize) ↔
      ∀ d, reply = some d → d.length < ipcBufSize := by
    simp only [List.mem_singleton, eq_comm]
  have hname : (printed ifname).length + 2 < ipcBufSize ↔ (printed ifname).length ≤ 29 := by
    unfold ipcBufSize
    omega
  unfold exchange Fits
  rw [sendInfo_inRange, print_inRange, hlen, hname, hrep, and_assoc]

theorem exchange_text (cmd : Char) (ifname : Option String) (reply : Option Text) (b : Buf) :
    (exchange cmd ifname reply b).text = [] ↔ answers reply = false := by
  unfold exchange netmgrSendInfo
  match reply with
  | none => exact ⟨fun _ => rfl, fun _ => rfl⟩
  | some [] => exact ⟨fun _ => rfl, fun _ => rfl⟩
  | some (c :: d) =>
    have hr : min (c :: d).length ipcBufSize = min d.length 31 + 1 := by
      rw [List.length_cons]
      unfold ipcBufSize
      omega
    simp only [hr, List.take_succ_cons, answers, Lib.cstr, List.takeWhile_cons]
    by_cases hc : c = nul
    · simp [hc]
    · simp [hc]

theorem fits_pair (ifname : Option String) (reply₁ reply₂ : Option Text) :
    Fits ifname [reply₁, reply₂] ↔ Fits ifname [reply₁] ∧ Fits ifname [reply₂] := by
  unfold Fits
  simp only [List.mem_cons, List.not_mem_nil, or_false, or_imp, forall_and]
  tauto

/-- Every index that the two callers and `netmgr_send_info` write is inside `buf`,
exactly for the names and replies that fit; an address without a daemon writes
nothing. -/
theorem indices_below_iff (addr : List UInt8) (ifname : Option String)
    (reply reply₁ reply₂ : Option Text) :
    ((netmgrInterfaceOn ifname reply).2.InRange ↔ Fits ifname [reply]) ∧
    ((netmgrSetInterface addr ifname reply₁ reply₂).2.InRange ↔
      awaited addr reply₁ reply₂ = [] ∨ Fits ifname (awaited addr reply₁ reply₂)) := by
  have hone : ∀ cmd r, (exchange cmd ifname r .fresh).InRange ↔ Fits ifname [r] := by
    intro cmd r
    rw [exchange_inRange]
    exact and_iff_right fresh_inRange
  refine ⟨hone 'e' reply, ?_⟩
  unfold netmgrSetInterface awaited
  by_cases hhip : isHipAddr addr = true
  · rw [if_pos hhip, if_pos hhip]
    cases ha : answers reply₁ with
    | false =>
      simp only [(exchange_text 'h' ifname reply₁ .fresh).mpr ha, if_true, hone, reduceCtorEq,
        false_or, Bool.false_eq_true, if_false]
    | true =>
      have hb : (exchange 'h' ifname reply₁ .fresh).text ≠ [] := by
        rw [Ne, exchange_text, ha]
        exact Bool.noConfusion
      simp only [hb, if_false, if_true, reduceCtorEq, false_or, fits_pair]
      -- both ends of the second exchange leave the same array
      rw [← hone 'h' reply₁, ← exchange_inRange 'g' ifname reply₂]
      split <;> rfl
  · rw [if_neg hhip, if_neg hhip]
    split
    · simp only [reduceCtorEq, false_or, ← hone 'm' reply₁]
      split <;> rfl
    · simp only [true_or, iff_true]
      exact fresh_inRange

/-- A name of 30 characters already puts the terminator of the request behind the
array, and so does a reply of 32 characters to a request that fits. -/
theorem indices_outside :
    (32 ∈ (netmgrInterfaceOn (some "interface-name-of-30-character") none).2.written) ∧
    (32 ∈ (netmgrInterfaceOn (some "eth0")
      (some "interface-eth0-is-up-and-running".toList)).2.written) := by
  decide

end Manhattan.Sined.IpcBuffer
