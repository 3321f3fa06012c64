import Manhattan.Lib.Buffer
import Manhattan.Sined.Conmgr

/-!
# One datagram of the connection manager

`conmgr_main_loop` has one `conmsg_t` on its stack for all its iterations. A
`recvfrom` writes at most `sizeof(conmsg_t)` bytes of the datagram into it, fewer
when the datagram is shorter, and the only check made is `r > 0`. The `switch`
then acts on the whole structure: what the datagram did not bring is what the
previous datagrams, or the stack before the first one, have left there, and
`add_connection` copies `addrlen` bytes from `con_msg.addr` on, past the end of
the structure if it is told to.

Mirroring notes:
- The stack is a `Mem` with `con_msg` at offset 0; the fields are at the offsets
  the compiler gives them (`cmd` 0, `pid` 4, `sockfd` 8, `addrlen` 12, `addr` 16),
  the machine is little-endian.
- `con_msg` is never initialised, so a run may start from any stack.
- A datagram without bytes ends the loop (`TableLife`), hence the subtype
  `Datagram`.

`independent_iff` says which datagrams have an effect that depends on their own
bytes only: those that bring every byte their command makes the connection
manager read.
-/

namespace Manhattan.Sined

open Manhattan.Lib

/-- A datagram `recvfrom` does not report as an error: one byte at least. -/
abbrev Datagram := { d : List UInt8 // d ≠ [] }

/-- `con_msg` as the `switch` of `conmgr_main_loop` reads it. -/
def decode (m : Mem) : ConMsg :=
  ⟨i32le m 0, i32le m 4, i32le m 8, u32le m 12, slice m 16 (u32le m 12)⟩

/-- The stack after `recvfrom(conmgr_sock, &con_msg, sizeof(conmsg_t), …)`. -/
def recvMsg (d : List UInt8) (m : Mem) : Mem := overlay (d.take conmsgSize) m

/-- What the connection manager carries from one datagram to the next. -/
structure Mgr where
  stack : Mem
  table : List Connection

/-- One iteration of the loop on a datagram. -/
def receive (env : AddEnv) (d : Datagram) (s : Mgr) : Mgr :=
  let m := recvMsg d.val s.stack
  ⟨m, handleMsg env (decode m) s.table⟩

/-- The loop on a sequence of datagrams, each with what the heap, `/proc` and the
policy engine answered. -/
def receiveAll (history : List (AddEnv × Datagram)) (s : Mgr) : Mgr :=
  history.foldl (fun s e => receive e.1 e.2 s) s

/-- The request a message makes: what the `switch` acts on. -/
inductive Request where
  | add (pid sockfd : Int) (addrlen : Nat) (addr : List UInt8)
  | remove (pid sockfd : Int)
  | unknown
  deriving DecidableEq, Repr

def ConMsg.request (msg : ConMsg) : Request :=
  if msg.cmd = cmdAdd then .add msg.pid msg.sockfd msg.addrlen msg.addr
  else if msg.cmd = cmdRemove then .remove msg.pid msg.sockfd
  else .unknown

/-- The message has no effect but its request's. -/
theorem handleMsg_congr {msg msg' : ConMsg} (h : msg.request = msg'.request) (env : AddEnv)
    (tbl : List Connection) : handleMsg env msg tbl = handleMsg env msg' tbl := by
  unfold ConMsg.request at h
  unfold handleMsg
  by_cases ha : msg.cmd = cmdAdd
  · by_cases ha' : msg'.cmd = cmdAdd
    · rw [if_pos ha, if_pos ha'] at h
      injection h with h₁ h₂ h₃ h₄
      rw [if_pos ha, if_pos ha', h₁, h₂, h₃, h₄]
    · rw [if_pos ha, if_neg ha'] at h
      split at h <;> cases h
  · by_cases ha' : msg'.cmd = cmdAdd
    · rw [if_neg ha, if_pos ha'] at h
      split at h <;> cases h
    · rw [if_neg ha, if_neg ha'] at h ⊢
      by_cases hr : msg.cmd = cmdRemove
      · by_cases hr' : msg'.cmd = cmdRemove
        · rw [if_pos hr, if_pos hr'] at h
          injection h with h₁ h₂
          rw [if_pos hr, if_pos hr', h₁, h₂]
        · rw [if_pos hr, if_neg hr'] at h
          cases h
      · by_cases hr' : msg'.cmd = cmdRemove
        · rw [if_neg hr, if_pos hr'] at h
          cases h
        · rw [if_neg hr, if_neg hr']

/-- **Datagram independence.** Two runs of the loop, from any two stacks and over
any two histories, that have come to the same table and receive the same datagram
act on the same request and come to the same table again. -/
def Independent (d : Datagram) : Prop :=
  ∀ (s₁ s₂ : Mgr) (h₁ h₂ : List (AddEnv × Datagram)) (env : AddEnv),
    (receiveAll h₁ s₁).table = (receiveAll h₂ s₂).table →
    (decode (recvMsg d.val (receiveAll h₁ s₁).stack)).request =
      (decode (recvMsg d.val (receiveAll h₂ s₂).stack)).request ∧
    (receive env d (receiveAll h₁ s₁)).table = (receive env d (receiveAll h₂ s₂)).table

/-- The datagram brings every byte its command makes the connection manager read:
an `ADD` the fixed fields and `addrlen` bytes of address within the structure, a
`REMOVE` the fields up to `sockfd`. A datagram too short for its command field must
not begin like `ADD` or `REMOVE`. -/
def SelfContained (d : List UInt8) : Prop :=
  if d.length < 4 then ¬ d <+: [0, 0, 0, 0] ∧ ¬ d <+: [1, 0, 0, 0]
  else if i32le (bytes d) 0 = cmdAdd then
    16 ≤ d.length ∧ 16 + u32le (bytes d) 12 ≤ min d.length conmsgSize
  else if i32le (bytes d) 0 = cmdRemove then 12 ≤ d.length
  else True

instance decSelfContained (d : List UInt8) : Decidable (SelfContained d) :=
  inferInstanceAs (Decidable (ite _ _ _))

/-! ## What the datagram brings is what is read -/

theorem recvMsg_lt {d : List UInt8} {i : Nat} (h : i < d.length) (hc : i < conmsgSize) (m : Mem) :
    recvMsg d m i = bytes d i := by
  unfold recvMsg bytes
  rw [overlay_lt (by rw [List.length_take]; omega), overlay_lt h]
  rw [List.getD_eq_getElem _ _ (by rw [List.length_take]; omega), List.getD_eq_getElem _ _ h,
    List.getElem_take]

theorem recvMsg_ge {d : List UInt8} {i : Nat} (h : d.length ≤ i ∨ conmsgSize ≤ i) (m : Mem) :
    recvMsg d m i = m i := by
  unfold recvMsg
  exact overlay_ge (by rw [List.length_take]; omega) m

/-- A field the datagram brings in full. -/
theorem recvMsg_i32le {d : List UInt8} {off : Nat} (h : off + 4 ≤ d.length)
    (hc : off + 4 ≤ conmsgSize) (m : Mem) : i32le (recvMsg d m) off = i32le (bytes d) off :=
  i32le_congr fun i _ hi => recvMsg_lt (by omega) (by omega) m

theorem recvMsg_u32le {d : List UInt8} {off : Nat} (h : off + 4 ≤ d.length)
    (hc : off + 4 ≤ conmsgSize) (m : Mem) : u32le (recvMsg d m) off = u32le (bytes d) off :=
  u32le_congr fun i _ hi => recvMsg_lt (by omega) (by omega) m

/-- A command field that is not `k`, whatever the stack adds to it. -/
theorem cmd_ne_of_not_prefix {d : List UInt8} {k : UInt8} (hd : d.length < 4)
    (hp : ¬ d <+: [k, 0, 0, 0]) (hk : k.toNat < 2) (m : Mem) :
    i32le (recvMsg d m) 0 ≠ k.toNat := by
  intro hcmd
  have h₀ := (recvMsg d m 0).toNat_lt
  have h₁ := (recvMsg d m 1).toNat_lt
  have h₂ := (recvMsg d m 2).toNat_lt
  have h₃ := (recvMsg d m 3).toNat_lt
  have hu : (recvMsg d m 0).toNat + 256 * (recvMsg d m 1).toNat + 65536 * (recvMsg d m 2).toNat +
      16777216 * (recvMsg d m 3).toNat = k.toNat := by
    have := u32le_lt (recvMsg d m) 0
    show u32le (recvMsg d m) 0 = k.toNat
    unfold i32le at hcmd
    split at hcmd <;> omega
  -- so the four bytes are those of `k`, and the datagram begins with them
  have hbytes : slice (recvMsg d m) 0 4 = [k, 0, 0, 0] := by
    have e₀ : recvMsg d m 0 = k := UInt8.toNat.inj (by omega)
    have e₁ : recvMsg d m 1 = 0 := UInt8.toNat.inj (by show _ = 0; omega)
    have e₂ : recvMsg d m 2 = 0 := UInt8.toNat.inj (by show _ = 0; omega)
    have e₃ : recvMsg d m 3 = 0 := UInt8.toNat.inj (by show _ = 0; omega)
    show [recvMsg d m 0, recvMsg d m 1, recvMsg d m 2, recvMsg d m 3] = _
    rw [e₀, e₁, e₂, e₃]
  refine hp (List.prefix_iff_eq_take.mpr ?_)
  rw [← hbytes]
  refine List.ext_getElem? fun i => ?_
  by_cases hi : i < d.length
  · rw [List.getElem?_take_of_lt hi, slice_getElem? _ (by omega), Nat.zero_add,
      recvMsg_lt hi (by unfold conmsgSize; omega), List.getElem?_eq_getElem hi]
    unfold bytes
    rw [overlay_lt hi, List.getD_eq_getElem _ _ hi]
  · rw [List.getElem?_eq_none (by omega),
      List.getElem?_eq_none (by rw [List.length_take, slice_length]; omega)]

/-- The request of a self-contained datagram is the one its own bytes make. -/
theorem SelfContained.request {d : List UInt8} (h : SelfContained d) (m m' : Mem) :
    (decode (recvMsg d m)).request = (decode (recvMsg d m')).request := by
  unfold SelfContained at h
  by_cases hshort : d.length < 4
  · rw [if_pos hshort] at h
    have hadd : ∀ m, (decode (recvMsg d m)).cmd ≠ cmdAdd :=
      cmd_ne_of_not_prefix hshort h.1 (by decide)
    have hrem : ∀ m, (decode (recvMsg d m)).cmd ≠ cmdRemove :=
      cmd_ne_of_not_prefix hshort h.2 (by decide)
    unfold ConMsg.request
    rw [if_neg (hadd m), if_neg (hadd m'), if_neg (hrem m), if_neg (hrem m')]
  · rw [if_neg hshort] at h
    have hcmd : ∀ m, (decode (recvMsg d m)).cmd = i32le (bytes d) 0 :=
      recvMsg_i32le (by omega) (by decide)
    unfold ConMsg.request
    rw [hcmd m, hcmd m']
    by_cases hadd : i32le (bytes d) 0 = cmdAdd
    · rw [if_pos hadd] at h
      rw [if_pos hadd, if_pos hadd]
      have hpid : ∀ m, (decode (recvMsg d m)).pid = i32le (bytes d) 4 :=
        recvMsg_i32le (by omega) (by decide)
      have hsock : ∀ m, (decode (recvMsg d m)).sockfd = i32le (bytes d) 8 :=
        recvMsg_i32le (by omega) (by decide)
      have hlen : ∀ m, u32le (recvMsg d m) 12 = u32le (bytes d) 12 :=
        recvMsg_u32le (by omega) (by decide)
      have haddr : ∀ m, (decode (recvMsg d m)).addr = slice (bytes d) 16 (u32le (bytes d) 12) := by
        intro m
        show slice (recvMsg d m) 16 (u32le (recvMsg d m) 12) = _
        rw [hlen m]
        exact slice_congr fun i _ hi => recvMsg_lt (by omega) (by omega) m
      have hlen' : ∀ m, (decode (recvMsg d m)).addrlen = u32le (bytes d) 12 := hlen
      rw [hpid m, hpid m', hsock m, hsock m', hlen' m, hlen' m', haddr m, haddr m']
    · rw [if_neg hadd] at h
      rw [if_neg hadd, if_neg hadd]
      by_cases hrem : i32le (bytes d) 0 = cmdRemove
      · rw [if_pos hrem] at h
        rw [if_pos hrem, if_pos hrem]
        have hpid : ∀ m, (decode (recvMsg d m)).pid = i32le (bytes d) 4 :=
          recvMsg_i32le (by omega) (by decide)
        have hsock : ∀ m, (decode (recvMsg d m)).sockfd = i32le (bytes d) 8 :=
          recvMsg_i32le (by omega) (by decide)
        rw [hpid m, hpid m', hsock m, hsock m']
      · rw [if_neg hrem, if_neg hrem]

/-! ## What it does not bring comes from the stack -/

/-- The heap, `/proc` and the policy engine of the runs below. -/
def anEnv : AddEnv := ⟨true, true, true, some "/usr/bin/ssh", fun _ => 0⟩

/-- Two stacks that have come to the same table lead an independent datagram to
the same table. -/
theorem Independent.tables {d : Datagram} (h : Independent d) (m₁ m₂ : Mem)
    (tbl : List Connection) :
    handleMsg anEnv (decode (recvMsg d.val m₁)) tbl =
      handleMsg anEnv (decode (recvMsg d.val m₂)) tbl :=
  (h ⟨m₁, tbl⟩ ⟨m₂, tbl⟩ [] [] anEnv rfl).2

theorem handleMsg_add {msg : ConMsg} (h : msg.cmd = cmdAdd) (tbl : List Connection) :
    handleMsg anEnv msg tbl =
      tbl ++ [⟨msg.pid, some "/usr/bin/ssh", msg.sockfd, msg.addrlen, msg.addr.take msg.addrlen,
        protoUnspec, 0⟩] := by
  unfold handleMsg
  rw [if_pos h]
  rfl

theorem handleMsg_remove {msg : ConMsg} (h : msg.cmd = cmdRemove) (c : Connection) :
    handleMsg anEnv msg [c] = if c.hasKey msg.pid msg.sockfd then [] else [c] := by
  have hadd : msg.cmd ≠ cmdAdd := by rw [h]; decide
  unfold handleMsg
  rw [if_neg hadd, if_pos h]
  rfl

theorem handleMsg_unknown {msg : ConMsg} (ha : msg.cmd ≠ cmdAdd) (hr : msg.cmd ≠ cmdRemove)
    (tbl : List Connection) : handleMsg anEnv msg tbl = tbl := by
  unfold handleMsg
  rw [if_neg ha, if_neg hr]

/-- A command field whose last byte is 255 is neither command. -/
theorem cmd_of_top {m : Mem} (h : m 3 = 255) :
    (decode m).cmd ≠ cmdAdd ∧ (decode m).cmd ≠ cmdRemove := by
  have htop := u32le_top m 0
  rw [show m (0 + 3) = 255 from h] at htop
  have hneg : i32le m 0 < 0 := by
    have hlt := u32le_lt m 0
    have : (255 : UInt8).toNat = 255 := rfl
    unfold i32le
    rw [if_neg (by omega)]
    omega
  constructor
  · intro e
    have : i32le m 0 = 0 := e
    omega
  · intro e
    have : i32le m 0 = 1 := e
    omega

/-- A datagram that begins like the command `k`, on a stack of zeros. -/
theorem cmd_of_prefix {d : List UInt8} {k : UInt8} (hne : d ≠ []) (hp : d <+: [k, 0, 0, 0])
    (hk : k.toNat < 2) : i32le (recvMsg d fun _ => 0) 0 = k.toNat := by
  obtain ⟨t, ht⟩ := hp
  have hlen : d.length ≤ 4 := by
    have := congrArg List.length ht
    rw [List.length_append] at this
    exact Nat.le_of_add_right_le (Nat.le_of_eq this)
  have hpos : 0 < d.length := List.length_pos_iff.mpr hne
  -- the bytes behind the datagram are zero, as those of the command are
  have hbyte : ∀ i, i < 4 → recvMsg d (fun _ => 0) i = [k, 0, 0, 0].getD i 0 := by
    intro i hi
    by_cases hid : i < d.length
    · rw [recvMsg_lt hid (by unfold conmsgSize; omega)]
      unfold bytes
      rw [overlay_lt hid, ← ht, List.getD_append _ _ _ _ hid]
    · rw [recvMsg_ge (Or.inl (by omega))]
      obtain ⟨j, rfl⟩ : ∃ j, i = j + 1 := ⟨i - 1, by omega⟩
      rw [List.getD_cons_succ]
      match j, hi with
      | 0, _ => rfl
      | 1, _ => rfl
      | 2, _ => rfl
  have hu : u32le (recvMsg d fun _ => 0) 0 = k.toNat := by
    unfold u32le
    rw [hbyte 0 (by omega), hbyte (0 + 1) (by omega), hbyte (0 + 2) (by omega),
      hbyte (0 + 3) (by omega)]
    rfl
  unfold i32le
  rw [hu, if_pos (by omega)]

theorem Independent.not_prefix {d : Datagram} (h : Independent d) (hd : d.val.length < 4) :
    ¬ d.val <+: [0, 0, 0, 0] ∧ ¬ d.val <+: [1, 0, 0, 0] := by
  have hother := cmd_of_top (m := recvMsg d.val fun _ => 255) (recvMsg_ge (Or.inl (by omega)) _)
  constructor
  · intro hp
    have hadd : (decode (recvMsg d.val fun _ => 0)).cmd = cmdAdd :=
      cmd_of_prefix d.property hp (by decide)
    have := h.tables (fun _ => 0) (fun _ => 255) []
    rw [handleMsg_add hadd, handleMsg_unknown hother.1 hother.2] at this
    cases this
  · intro hp
    have hrem : (decode (recvMsg d.val fun _ => 0)).cmd = cmdRemove :=
      cmd_of_prefix d.property hp (by decide)
    -- a connection with the key the zeros make up
    let c : Connection :=
      ⟨(decode (recvMsg d.val fun _ => 0)).pid, none, (decode (recvMsg d.val fun _ => 0)).sockfd,
        0, [], protoUnspec, 0⟩
    have := h.tables (fun _ => 0) (fun _ => 255) [c]
    rw [handleMsg_remove hrem, handleMsg_unknown hother.1 hother.2,
      if_pos (by simp [Connection.hasKey, c])] at this
    cases this

/-- A stack of zeros with one byte set. -/
def mark (j : Nat) : Mem := fun i => if i = j then 1 else 0

/-- The top byte of a field the datagram does not reach tells two stacks apart. -/
theorem u32le_mark {d : List UInt8} {o : Nat} (h : d.length ≤ o + 3) :
    u32le (recvMsg d fun _ => 0) o ≠ u32le (recvMsg d (mark (o + 3))) o := by
  intro e
  have h₀ := u32le_top (recvMsg d fun _ => 0) o
  have h₁ := u32le_top (recvMsg d (mark (o + 3))) o
  rw [recvMsg_ge (Or.inl h)] at h₀ h₁
  rw [e, h₁] at h₀
  unfold mark at h₀
  rw [if_pos rfl] at h₀
  exact absurd h₀ (by decide)

theorem Independent.add {d : Datagram} (h : Independent d) (hd : ¬ d.val.length < 4)
    (hadd : i32le (bytes d.val) 0 = cmdAdd) :
    16 ≤ d.val.length ∧ 16 + u32le (bytes d.val) 12 ≤ min d.val.length conmsgSize := by
  have hcmd : ∀ m, (decode (recvMsg d.val m)).cmd = cmdAdd := fun m =>
    (recvMsg_i32le (by omega) (by decide) m).trans hadd
  -- the entry the table gets is the same for all stacks
  have hentry : ∀ m₁ m₂ : Mem, (decode (recvMsg d.val m₁)).addrlen =
      (decode (recvMsg d.val m₂)).addrlen ∧
      slice (recvMsg d.val m₁) 16 (u32le (recvMsg d.val m₁) 12) =
        slice (recvMsg d.val m₂) 16 (u32le (recvMsg d.val m₂) 12) := by
    intro m₁ m₂
    have htab := h.tables m₁ m₂ []
    rw [handleMsg_add (hcmd m₁), handleMsg_add (hcmd m₂)] at htab
    injection htab with hc
    injection hc with _ _ _ hlen haddr
    refine ⟨hlen, ?_⟩
    unfold decode at haddr
    rw [List.take_of_length_le (Nat.le_of_eq (slice_length _ _ _)),
      List.take_of_length_le (Nat.le_of_eq (slice_length _ _ _))] at haddr
    exact haddr
  have h16 : 16 ≤ d.val.length := by
    refine Nat.not_lt.mp fun hlt => ?_
    exact u32le_mark (o := 12) (by omega) (hentry (fun _ => 0) (mark 15)).1
  refine ⟨h16, Nat.not_lt.mp fun hlong => ?_⟩
  have hlen : ∀ m, u32le (recvMsg d.val m) 12 = u32le (bytes d.val) 12 :=
    recvMsg_u32le (by omega) (by decide)
  have haddr := (hentry (fun _ => 0) (fun _ => 1)).2
  rw [hlen, hlen] at haddr
  -- the last byte of the address is the stack's
  have hlast : u32le (bytes d.val) 12 - 1 < u32le (bytes d.val) 12 := by
    unfold conmsgSize at hlong; omega
  have hbyte := congrArg (fun l => l[u32le (bytes d.val) 12 - 1]?) haddr
  rw [slice_getElem? _ hlast, slice_getElem? _ hlast, recvMsg_ge (by omega),
    recvMsg_ge (by omega)] at hbyte
  cases hbyte

theorem Independent.remove {d : Datagram} (h : Independent d) (hd : ¬ d.val.length < 4)
    (hrem : i32le (bytes d.val) 0 = cmdRemove) : 12 ≤ d.val.length := by
  refine Nat.not_lt.mp fun hlt => ?_
  have hcmd : ∀ m, (decode (recvMsg d.val m)).cmd = cmdRemove := fun m =>
    (recvMsg_i32le (by omega) (by decide) m).trans hrem
  let c : Connection :=
    ⟨(decode (recvMsg d.val fun _ => 0)).pid, none, (decode (recvMsg d.val fun _ => 0)).sockfd,
      0, [], protoUnspec, 0⟩
  have htab := h.tables (fun _ => 0) (mark 11) [c]
  rw [handleMsg_remove (hcmd _), handleMsg_remove (hcmd _),
    if_pos (by simp [Connection.hasKey, c])] at htab
  have hsock : i32le (recvMsg d.val fun _ => 0) 8 ≠ i32le (recvMsg d.val (mark 11)) 8 := fun e =>
    u32le_mark (o := 8) (by omega) (u32le_of_i32le e)
  split at htab
  next hkey =>
    simp only [Connection.hasKey, Bool.and_eq_true, decide_eq_true_eq] at hkey
    exact hsock hkey.1
  next => cases htab

/-- **Which datagrams are independent of the past**: exactly those that bring every
byte their command makes the connection manager read. -/
theorem independent_iff (d : Datagram) : Independent d ↔ SelfContained d.val := by
  constructor
  · intro h
    unfold SelfContained
    by_cases hshort : d.val.length < 4
    · rw [if_pos hshort]
      exact h.not_prefix hshort
    · rw [if_neg hshort]
      by_cases hadd : i32le (bytes d.val) 0 = cmdAdd
      · rw [if_pos hadd]
        exact h.add hshort hadd
      · rw [if_neg hadd]
        by_cases hrem : i32le (bytes d.val) 0 = cmdRemove
        · rw [if_pos hrem]
          exact h.remove hshort hrem
        · rw [if_neg hrem]
          trivial
  · intro h s₁ s₂ h₁ h₂ env htab
    have hreq := h.request (receiveAll h₁ s₁).stack (receiveAll h₂ s₂).stack
    refine ⟨hreq, ?_⟩
    show handleMsg env _ _ = handleMsg env _ _
    rw [htab]
    exact handleMsg_congr hreq env _

-- a `REMOVE` has to bring its key; the rest of `conmsg_t` may be missing
example : SelfContained [1, 0, 0, 0, 7, 0, 0, 0, 3, 0, 0, 0] := by decide

example : ¬ SelfContained [1, 0, 0, 0, 7, 0, 0, 0, 3, 0, 0] := by decide

/-! ## A `REMOVE` without a key -/

/-- A full message of a client, without an address. -/
def fullMsg (cmd pid sockfd : UInt8) : Datagram :=
  ⟨[cmd, 0, 0, 0, pid, 0, 0, 0, sockfd, 0, 0, 0] ++ List.replicate 132 0, by simp⟩

/-- Four bytes: the command `REMOVE` and nothing else. -/
def bareRemove : Datagram := ⟨[1, 0, 0, 0], by simp⟩

/-- Both runs add the connection of process 7 on descriptor 3; then a message with
an unknown command comes in, naming that descriptor or another. -/
def withLeftover (sockfd : UInt8) : List (AddEnv × Datagram) :=
  [(anEnv, fullMsg 0 7 3), (anEnv, fullMsg 2 7 sockfd)]

/-- **A short datagram combines with an earlier client's message.** After two
histories that leave the same table behind, the same four bytes remove the
connection in one run and leave it in the other. -/
theorem bare_remove_depends_on_history :
    ¬ Independent bareRemove ∧
    (receiveAll (withLeftover 3) ⟨fun _ => 0, []⟩).table =
      (receiveAll (withLeftover 4) ⟨fun _ => 0, []⟩).table ∧
    (receive anEnv bareRemove (receiveAll (withLeftover 3) ⟨fun _ => 0, []⟩)).table = [] ∧
    (receive anEnv bareRemove (receiveAll (withLeftover 4) ⟨fun _ => 0, []⟩)).table ≠ [] := by
  have hruns : (receiveAll (withLeftover 3) ⟨fun _ => 0, []⟩).table =
      (receiveAll (withLeftover 4) ⟨fun _ => 0, []⟩).table := by decide
  refine ⟨fun h => ?_, hruns, by decide, by decide⟩
  have := (h _ _ _ _ anEnv hruns).2
  exact absurd this (by decide)

end Manhattan.Sined
