import Manhattan.Libsine.SendBlock
import Manhattan.Sined.Datagram
import Manhattan.Sined.Netmgr

/-!
# Who asks for an entry of the connection table

Two programs send `CONMGR_CMD_ADD`: an application through `sine_connect` of `libsine`, and
the SOCKS server at the end of `socks_establish`. Both have a `conmsg_t` on their stack, set
fields of it and send all 144 bytes. The SOCKS server sets the address and its length.
`sine_connect` is called with them, hands them to `connect` and puts neither into the message:
what the connection manager records is what the application's stack held at their place.

Mirroring notes:
- The stack of the producer is a `Mem` with `con_msg` at offset 0, the stack of the
  connection manager another one; the offsets are those of `Datagram`.
- `pid` and `sockfd` are given as their 32 bits.
- The SOCKS server connects to a `sockaddr_in` or a `sockaddr_in6`; an application may
  connect to any address.
-/

namespace Manhattan.Sined

open Manhattan.Lib
open Manhattan.Libsine (le32)

/-- `sizeof(struct sockaddr_storage)`, the size of the message's address field. -/
def addrSize : Nat := 128

inductive Producer where
  | sineConnect
  | socksEstablish
  deriving DecidableEq, Repr

/-- `con_msg` in `sine_connect`. The destination is not used. -/
def sineConnectMsg (pid sockfd : Nat) (m : Mem) : Mem :=
  writeAt 8 (le32 sockfd) (writeAt 4 (le32 pid) (writeAt 0 (le32 0) m))

/-- `con_msg` in `socks_establish`. -/
def socksEstablishMsg (pid sockfd : Nat) (dest : List UInt8) (m : Mem) : Mem :=
  writeAt 12 (le32 dest.length) (writeAt 16 dest
    (writeAt 8 (le32 sockfd) (writeAt 4 (le32 pid) (writeAt 0 (le32 0) m))))

/-- The message a producer builds on its stack for a connection to `dest`. -/
def Producer.message (p : Producer) (pid sockfd : Nat) (dest : List UInt8) (m : Mem) : Mem :=
  match p with
  | .sineConnect => sineConnectMsg pid sockfd m
  | .socksEstablish => socksEstablishMsg pid sockfd dest m

/-- `sine_sendto_conmgr(&con_msg, sizeof(conmsg_t))` -/
def sent (m : Mem) : Datagram :=
  ⟨slice m 0 conmsgSize, fun h => by
    have hlen := slice_length m 0 conmsgSize
    rw [h] at hlen
    cases hlen⟩

/-- The entry has the destination's length and address, so it is taken for a HIP address
exactly if the destination is one. -/
structure Recorded (dest : List UInt8) (conn : Connection) : Prop where
  addrlen : conn.addrlen = dest.length
  fits : conn.addrlen ≤ addrSize
  addr : conn.addr = dest
  hip : isHipAddr conn.addr = isHipAddr dest

/-- The stack held the destination already, where the message has its address. -/
def Held (dest : List UInt8) (m : Mem) : Prop :=
  dest.length ≤ addrSize ∧ u32le m 12 = dest.length ∧ slice m 16 dest.length = dest

/-- All of the message arrives. -/
theorem recvMsg_sent {i : Nat} (h : i < conmsgSize) (m stack : Mem) :
    recvMsg (sent m).val stack i = m i := by
  have hlen : (slice m 0 conmsgSize).length = conmsgSize := slice_length m 0 conmsgSize
  have hget : (slice m 0 conmsgSize)[i]? = some (m (0 + i)) := slice_getElem? m h
  show overlay ((slice m 0 conmsgSize).take conmsgSize) stack i = m i
  rw [List.take_of_length_le (Nat.le_of_eq hlen), overlay_lt (by rw [hlen]; exact h),
    List.getD_eq_getElem?_getD, hget, Nat.zero_add]
  rfl

theorem u32le_writeAt {n : Nat} (h : n < 4294967296) (off : Nat) (m : Mem) :
    u32le (writeAt off (le32 n) m) off = n := by
  have h₀ : writeAt off (le32 n) m off = UInt8.ofNat n := writeAt_inside (i := 0) (by simp [le32]) m
  have h₁ : writeAt off (le32 n) m (off + 1) = UInt8.ofNat (n / 256) :=
    writeAt_inside (by simp [le32]) m
  have h₂ : writeAt off (le32 n) m (off + 2) = UInt8.ofNat (n / 65536) :=
    writeAt_inside (by simp [le32]) m
  have h₃ : writeAt off (le32 n) m (off + 3) = UInt8.ofNat (n / 16777216) :=
    writeAt_inside (by simp [le32]) m
  unfold u32le
  rw [h₀, h₁, h₂, h₃]
  simp only [UInt8.toNat_ofNat']
  omega

/-- An `ADD` makes an entry with the length and the address of the message. -/
theorem receive_add {m : Mem} (hcmd : u32le m 0 = 0) {env : AddEnv} (henv : env.mallocs = true)
    (s : Mgr) : ∃ conn, (receive env (sent m) s).table = s.table ++ [conn] ∧
      conn.addrlen = u32le m 12 ∧
      conn.addr = slice (recvMsg (sent m).val s.stack) 16 (u32le m 12) := by
  have hsame : ∀ off, off + 4 ≤ conmsgSize →
      u32le (recvMsg (sent m).val s.stack) off = u32le m off :=
    fun off h => u32le_congr fun i _ hi => recvMsg_sent (by omega) m s.stack
  have hadd : (decode (recvMsg (sent m).val s.stack)).cmd = cmdAdd := by
    show i32le _ 0 = cmdAdd
    unfold i32le
    rw [hsame 0 (by decide), hcmd]
    rfl
  unfold receive handleMsg
  dsimp only
  rw [if_pos hadd, addConnection, makeConnection, if_pos henv]
  refine ⟨_, rfl, hsame 12 (by decide), ?_⟩
  show (slice _ 16 (u32le _ 12)).take (u32le _ 12) = _
  rw [List.take_of_length_le (Nat.le_of_eq (slice_length _ _ _)), hsame 12 (by decide)]

/-- The entry records the destination exactly if the message holds it. -/
theorem receive_recorded_iff {m : Mem} (hcmd : u32le m 0 = 0) {env : AddEnv}
    (henv : env.mallocs = true) (s : Mgr) (dest : List UInt8) :
    (∃ conn, (receive env (sent m) s).table = s.table ++ [conn] ∧ Recorded dest conn) ↔
      Held dest m := by
  obtain ⟨conn, htable, hlen, haddr⟩ := receive_add hcmd henv s
  have hslice : u32le m 12 ≤ addrSize →
      slice (recvMsg (sent m).val s.stack) 16 (u32le m 12) = slice m 16 (u32le m 12) := by
    intro hle
    unfold addrSize at hle
    exact slice_congr fun i _ hi => recvMsg_sent (by unfold conmsgSize; omega) m s.stack
  constructor
  · intro ⟨conn', htable', hrec⟩
    have heq : conn' = conn := by
      have hlists := htable'.symm.trans htable
      rw [List.append_cancel_left_eq, List.singleton_inj] at hlists
      exact hlists
    rw [heq] at hrec
    have hdest : u32le m 12 = dest.length := hlen.symm.trans hrec.addrlen
    have hfits : u32le m 12 ≤ addrSize := hlen ▸ hrec.fits
    refine ⟨hdest ▸ hfits, hdest, ?_⟩
    rw [← hdest, ← hslice hfits, ← haddr, hrec.addr]
  · intro ⟨hfits, hdest, hbytes⟩
    have haddr' : conn.addr = dest := by
      rw [haddr, hslice (hdest ▸ hfits), hdest, hbytes]
    exact ⟨conn, htable, hlen.trans hdest, (hlen.trans hdest) ▸ hfits, haddr',
      congrArg isHipAddr haddr'⟩

/-! ## The two producers -/

/-- The first three fields end at offset 12. -/
theorem sineConnectMsg_of_ge {i : Nat} (h : 12 ≤ i) (pid sockfd : Nat) (m : Mem) :
    sineConnectMsg pid sockfd m i = m i := by
  have hlen : ∀ n, (le32 n).length = 4 := fun _ => rfl
  unfold sineConnectMsg
  rw [writeAt_outside (by rw [hlen]; omega), writeAt_outside (by rw [hlen]; omega),
    writeAt_outside (by rw [hlen]; omega)]

theorem sineConnectMsg_cmd (pid sockfd : Nat) (m : Mem) :
    u32le (sineConnectMsg pid sockfd m) 0 = 0 := by
  refine Eq.trans (u32le_congr fun i _ hi => ?_) (u32le_writeAt (n := 0) (by omega) 0 m)
  unfold sineConnectMsg
  rw [writeAt_outside (by omega), writeAt_outside (by omega)]

theorem Producer.message_cmd (p : Producer) (pid sockfd : Nat) (dest : List UInt8) (m : Mem) :
    u32le (p.message pid sockfd dest m) 0 = 0 := by
  cases p with
  | sineConnect => exact sineConnectMsg_cmd pid sockfd m
  | socksEstablish =>
    refine Eq.trans (u32le_congr fun i _ hi => ?_) (sineConnectMsg_cmd pid sockfd m)
    show socksEstablishMsg pid sockfd dest m i = _
    unfold socksEstablishMsg
    rw [writeAt_outside (by omega), writeAt_outside (by omega)]
    rfl

theorem held_sineConnectMsg (pid sockfd : Nat) (dest : List UInt8) (m : Mem) :
    Held dest (sineConnectMsg pid sockfd m) ↔ Held dest m := by
  unfold Held
  rw [u32le_congr fun i hi _ => sineConnectMsg_of_ge hi pid sockfd m,
    slice_congr fun i hi _ => sineConnectMsg_of_ge (by omega) pid sockfd m]

theorem held_socksEstablishMsg (pid sockfd : Nat) {dest : List UInt8}
    (h : dest.length ≤ addrSize) (m : Mem) : Held dest (socksEstablishMsg pid sockfd dest m) := by
  unfold addrSize at h
  refine ⟨h, u32le_writeAt (by omega) 12 _, ?_⟩
  have hlen : (le32 dest.length).length = 4 := rfl
  refine Eq.trans (slice_congr fun i hi _ => ?_)
    (slice_writeAt 16 dest (sineConnectMsg pid sockfd m))
  exact writeAt_outside (by rw [hlen]; omega) _

/-- An entry records the destination exactly if the SOCKS server made the message or the
application's stack happened to hold the destination. -/
theorem add_recorded_iff (p : Producer) (pid sockfd : Nat) (dest : List UInt8)
    (hdest : p = .socksEstablish → dest.length = 16 ∨ dest.length = 28) (m : Mem) {env : AddEnv}
    (henv : env.mallocs = true) (s : Mgr) :
    (∃ conn, (receive env (sent (p.message pid sockfd dest m)) s).table = s.table ++ [conn] ∧
      Recorded dest conn) ↔ p = .socksEstablish ∨ Held dest m := by
  rw [receive_recorded_iff (p.message_cmd pid sockfd dest m) henv]
  cases p with
  | sineConnect =>
    rw [show Producer.sineConnect.message pid sockfd dest m = sineConnectMsg pid sockfd m from rfl,
      held_sineConnectMsg]
    exact (or_iff_right (by intro h; cases h)).symm
  | socksEstablish =>
    have hfits : dest.length ≤ addrSize := by
      have := hdest rfl
      unfold addrSize
      omega
    exact iff_of_true (held_socksEstablishMsg pid sockfd hfits m) (Or.inl rfl)

/-- The destination 1.0.0.5, a HIP address, port 80. -/
def hipDest : List UInt8 := [2, 0, 0, 80, 1, 0, 0, 5, 0, 0, 0, 0, 0, 0, 0, 0]

theorem add_recorded_socks :
    ∃ conn, (receive ⟨true, true, true, none, fun _ => 0⟩
        (sent (Producer.socksEstablish.message 4711 5 hipDest fun _ => 170))
        ⟨fun _ => 0, []⟩).table = [] ++ [conn] ∧ Recorded hipDest conn :=
  (add_recorded_iff .socksEstablish 4711 5 hipDest (fun _ => Or.inl rfl) (fun _ => 170)
    rfl ⟨fun _ => 0, []⟩).mpr (Or.inl rfl)

/-- `sine_connect` to the same address on a stack of zeros: no address at all is recorded,
and the connection is not taken for a HIP connection. -/
theorem add_not_recorded :
    ∃ conn, (receive ⟨true, true, true, none, fun _ => 0⟩
        (sent (Producer.sineConnect.message 4711 5 hipDest fun _ => 0))
        ⟨fun _ => 0, []⟩).table = [conn] ∧ conn.addrlen = 0 ∧ conn.addr = [] ∧
      isHipAddr conn.addr = false ∧ isHipAddr hipDest = true :=
  ⟨_, rfl, rfl, rfl, rfl, rfl⟩

end Manhattan.Sined
