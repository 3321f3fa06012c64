import Mathlib.Data.List.TakeWhile
import Manhattan.Lib.Buffer

/-!
# The SOCKS handshake (`socks_establish`)

The server reads the client's two messages with one `recv` each: the method
selection into `method_req`, the request into `socks_req`, both uninitialised
structures on its stack. TCP does not keep messages apart. A `recv` may bring part
of a message, or one message and the beginning of the next, and all that is
checked is that it brought something and that the version byte is 5. The rest of
the structure is then read as if the message had filled it.

Mirroring notes:
- A client's stream is a method selection, a `CONNECT` request and whatever follows
  (`Hello`); a `Split` is how many bytes the two `recv` calls return. The second one
  may return 0 only when the stream is used up.
- Offsets are those of `mtdreq_t` and `socksreq_t`. `sin6_flowinfo` and
  `sin6_scope_id` are read from the uninitialised `rem_addr_v6` (offsets 4 and 24):
  the code never sets them. `sin_zero` of an IPv4 address is padding and left out.
- `Target.name` is the pair given to `getaddrinfo`; the service is the decimal text
  of the number.
- A domain name in brackets is an IPv6 literal and is resolved without them. With
  fewer than two bytes the length wraps around and `strncpy` runs off its buffer:
  `Outcome.undefined`.

`streamOnly_iff` is the exact condition under which the handshake depends on the
client's bytes only.
-/

namespace Manhattan.Sined.Handshake

open Manhattan.Lib

/-- `SOCKS_V5`, `SOCKS_METHOD_NONE`, `SOCKS_METHOD_NOT_ACCEPTED`, `SOCKS_CMD_CONNECT` -/
def socksV5 : UInt8 := 5

def methodNone : UInt8 := 0

def methodNotAccepted : UInt8 := 255

def cmdConnect : UInt8 := 1

/-- `SOCKS_ATYP_IPV4`, `SOCKS_ATYP_DOMAIN`, `SOCKS_ATYP_IPV6` -/
def atypIpv4 : UInt8 := 1

def atypDomain : UInt8 := 3

def atypIpv6 : UInt8 := 4

/-- `sizeof(mtdreq_t)` and `sizeof(socksreq_t)` -/
def mtdreqSize : Nat := 258

def socksreqSize : Nat := 264

/-- The bytes `[` and `]`. -/
def bracket : UInt8 := 91

def closingBracket : UInt8 := 93

/-! ## The server -/

/-- Where the server connects to. -/
inductive Target where
  | sockaddrIn (addr : List UInt8) (port : Nat)
  | name (node : List UInt8) (service : Nat)
  | sockaddrIn6 (addr : List UInt8) (port flowinfo scopeId : Nat)
  deriving DecidableEq, Repr

/-- The uninitialised structures of `socks_establish`. -/
structure Stack where
  methodReq : Mem
  socksReq : Mem
  remAddrV6 : Mem

/-- The loop over `method_req.methods`, which ends at the first `NONE`. -/
def offersNone (m : Mem) : Bool := (List.range (m 1).toNat).any fun i => m (2 + i) = methodNone

/-- The method the server answers with; `none` where it gives up before. -/
def selectMethod (st : Stack) (recv₁ : List UInt8) : Option UInt8 :=
  if recv₁ = [] then none
  else
    let m := overlay recv₁ st.methodReq
    if m 0 ≠ socksV5 then none
    else some (if offersNone m then methodNone else methodNotAccepted)

/-- The characters of a C string. -/
def untilNul (bs : List UInt8) : List UInt8 := bs.takeWhile (· ≠ 0)

inductive Outcome where
  /-- The label `error:` before anything was connected. -/
  | error
  | notAccepted
  | undefined
  | atypNotSupported
  | cmdNotSupported
  | connect (target : Target)
  deriving DecidableEq, Repr

/-- The branch `SOCKS_ATYP_DOMAIN`. -/
def domainTarget (q : Mem) : Option Target :=
  let addrlen := (q 4).toNat
  let service := u16be q (5 + addrlen)
  if q 5 = bracket then
    if addrlen < 2 then none
    else some (.name (untilNul (slice q 6 (addrlen - 2))) service)
  else some (.name (untilNul (slice q 5 addrlen)) service)

/-- The reply to a request that names a target. -/
def replyTo (q : Mem) (target : Target) : Outcome :=
  if q 1 = cmdConnect then .connect target else .cmdNotSupported

/-- From the version check of the request to `connect`. -/
def serveRequest (q v6 : Mem) : Outcome :=
  if q 0 ≠ socksV5 then .error
  else if q 3 = atypIpv4 then replyTo q (.sockaddrIn (slice q 4 4) (u16be q 8))
  else if q 3 = atypDomain then
    match domainTarget q with
    | some target => replyTo q target
    | none => .undefined
  else if q 3 = atypIpv6 then
    replyTo q (.sockaddrIn6 (slice q 4 16) (u16be q 20) (u32le v6 4) (u32le v6 24))
  else .atypNotSupported

/-- `socks_establish`, up to the connection. `sent` says whether both bytes of the
method reply were sent. -/
def socksEstablish (st : Stack) (recv₁ recv₂ : List UInt8) (sent : Bool) : Outcome :=
  match selectMethod st recv₁ with
  | none => .error
  | some method =>
    if method = methodNone then
      if !sent then .error
      else if recv₂ = [] then .error
      else serveRequest (overlay recv₂ st.socksReq) st.remAddrV6
    else .notAccepted

/-! ## The client -/

/-- A destination, with the lengths its encoding has room for. -/
inductive Dest where
  | ipv4 (addr : List UInt8) (h : addr.length = 4)
  | domain (name : List UInt8) (h : name.length ≤ 255)
  | ipv6 (addr : List UInt8) (h : addr.length = 16)

/-- A `CONNECT` request; the port in network order. -/
structure Request where
  dest : Dest
  portHi : UInt8
  portLo : UInt8

def Dest.encode : Dest → List UInt8
  | .ipv4 addr _ => atypIpv4 :: addr
  | .domain name _ => atypDomain :: UInt8.ofNat name.length :: name
  | .ipv6 addr _ => atypIpv6 :: addr

def Request.encode (r : Request) : List UInt8 :=
  [socksV5, cmdConnect, 0] ++ r.dest.encode ++ [r.portHi, r.portLo]

def Request.port (r : Request) : Nat := 256 * r.portHi.toNat + r.portLo.toNat

/-- A name in brackets stands for what is inside. -/
def unbracket (name : List UInt8) : List UInt8 :=
  if name.head? = some bracket ∧ name.getLast? = some closingBracket ∧ 2 ≤ name.length then
    name.tail.dropLast
  else name

/-- The destination the request encodes. -/
def Request.target (r : Request) : Target :=
  match r.dest with
  | .ipv4 addr _ => .sockaddrIn addr r.port
  | .domain name _ => .name (unbracket name) r.port
  | .ipv6 addr _ => .sockaddrIn6 addr r.port 0 0

/-- What a client sends. -/
structure Hello where
  methods : List UInt8
  methodsLe : methods.length ≤ 255
  request : Request
  rest : List UInt8

def Hello.stream (h : Hello) : List UInt8 :=
  socksV5 :: UInt8.ofNat h.methods.length :: h.methods ++ (h.request.encode ++ h.rest)

/-- How TCP hands the stream to the two `recv` calls. -/
structure Split (h : Hello) where
  len₁ : Nat
  len₂ : Nat
  pos₁ : 0 < len₁
  le₁ : len₁ ≤ min mtdreqSize h.stream.length
  le₂ : len₂ ≤ min socksreqSize (h.stream.length - len₁)
  pos₂ : 0 < len₂ ∨ len₁ = h.stream.length

def Split.recv₁ {h : Hello} (k : Split h) : List UInt8 := h.stream.take k.len₁

def Split.recv₂ {h : Hello} (k : Split h) : List UInt8 := (h.stream.drop k.len₁).take k.len₂

/-- **The handshake depends on the client's bytes only.** Whatever the stack held,
`NONE` is selected exactly if the client offered it, and then (the method reply
having been sent) the server connects to the destination of the request. -/
def StreamOnly (h : Hello) (k : Split h) : Prop :=
  ∀ st : Stack, (selectMethod st k.recv₁ = some methodNone ↔ methodNone ∈ h.methods) ∧
    (methodNone ∈ h.methods → socksEstablish st k.recv₁ k.recv₂ true = .connect h.request.target)

/-- The bytes of the second `recv` begin with a complete `CONNECT` request, by
address or by name, for the given target. -/
def Complete (c : List UInt8) (target : Target) : Prop :=
  bytes c 0 = socksV5 ∧ bytes c 1 = cmdConnect ∧
  ((bytes c 3 = atypIpv4 ∧ 10 ≤ c.length ∧
      target = .sockaddrIn (slice (bytes c) 4 4) (u16be (bytes c) 8)) ∨
   (bytes c 3 = atypDomain ∧ 7 + (bytes c 4).toNat ≤ c.length ∧
      domainTarget (bytes c) = some target))

/-! ## The method selection -/

section Methods

variable {h : Hello} (k : Split h) (m : Mem)

theorem Split.recv₁_length : k.recv₁.length = k.len₁ := by
  have := k.le₁
  unfold Split.recv₁
  rw [List.length_take]
  omega

theorem Split.recv₁_byte {i : Nat} (hi : i < k.len₁) :
    overlay k.recv₁ m i = h.stream.getD i 0 := by
  have hlen := k.le₁
  rw [overlay_lt (by rw [k.recv₁_length]; exact hi)]
  unfold Split.recv₁
  rw [List.getD_eq_getElem _ _ (by rw [List.length_take]; omega), List.getElem_take,
    List.getD_eq_getElem _ _ (by omega)]

theorem Split.recv₁_stale {i : Nat} (hi : k.len₁ ≤ i) : overlay k.recv₁ m i = m i :=
  overlay_ge (by rw [k.recv₁_length]; exact hi) m

theorem Split.recv₁_ne_nil : k.recv₁ ≠ [] := by
  have := k.pos₁
  intro e
  have hlen := k.recv₁_length
  rw [e, List.length_nil] at hlen
  omega

/-- The count byte, once it has been received. -/
theorem Split.count (hk : 2 ≤ k.len₁) :
    (overlay k.recv₁ m 1).toNat = h.methods.length := by
  have hle := h.methodsLe
  rw [k.recv₁_byte m (by omega)]
  show (UInt8.ofNat h.methods.length).toNat = _
  rw [UInt8.toNat_ofNat']
  omega

/-- The method bytes that have been received. -/
theorem Split.method {i : Nat} (hi : i < h.methods.length) (hk : 2 + i < k.len₁) :
    overlay k.recv₁ m (2 + i) = h.methods.getD i 0 := by
  rw [k.recv₁_byte m hk]
  unfold Hello.stream
  rw [Nat.add_comm 2 i, List.cons_append, List.cons_append, List.getD_cons_succ,
    List.getD_cons_succ, List.getD_append _ _ _ _ hi]

theorem offersNone_iff : offersNone m = true ↔ ∃ i, i < (m 1).toNat ∧ m (2 + i) = methodNone := by
  unfold offersNone
  rw [List.any_eq_true]
  constructor
  · rintro ⟨i, hi, hm⟩
    exact ⟨i, List.mem_range.mp hi, of_decide_eq_true hm⟩
  · rintro ⟨i, hi, hm⟩
    exact ⟨i, List.mem_range.mpr hi, decide_eq_true hm⟩

/-- The version byte is always there: the loop decides. -/
theorem selectMethod_none (st : Stack) :
    selectMethod st k.recv₁ = some methodNone ↔
      offersNone (overlay k.recv₁ st.methodReq) = true := by
  have hver : overlay k.recv₁ st.methodReq 0 = socksV5 := by
    rw [k.recv₁_byte _ k.pos₁]
    rfl
  unfold selectMethod
  rw [if_neg k.recv₁_ne_nil]
  dsimp only
  rw [if_neg (fun hne => hne hver)]
  cases offersNone (overlay k.recv₁ st.methodReq) with
  | true => simp
  | false => exact ⟨fun e => absurd e (by decide), fun e => nomatch e⟩

end Methods

theorem mem_getD_iff {l : List UInt8} {b : UInt8} :
    b ∈ l ↔ ∃ i, i < l.length ∧ l.getD i 0 = b := by
  rw [List.mem_iff_getElem]
  constructor
  · rintro ⟨i, hi, hb⟩
    exact ⟨i, hi, by rw [List.getD_eq_getElem _ _ hi]; exact hb⟩
  · rintro ⟨i, hi, hb⟩
    exact ⟨i, hi, by rw [List.getD_eq_getElem _ _ hi] at hb; exact hb⟩

/-- The first `recv` decides the method for every stack: it has brought the whole
message, or a `NONE` already. -/
def Decided (h : Hello) (k : Split h) : Prop :=
  2 + h.methods.length ≤ k.len₁ ∨ methodNone ∈ h.methods.take (k.len₁ - 2)

theorem Decided.offers {h : Hello} {k : Split h} (hd : Decided h k) (m : Mem) :
    offersNone (overlay k.recv₁ m) = true ↔ methodNone ∈ h.methods := by
  rw [offersNone_iff]
  rcases hd with hall | hsome
  · rw [k.count m (by omega), mem_getD_iff]
    constructor
    · rintro ⟨i, hi, hb⟩
      exact ⟨i, hi, (k.method m hi (by omega)).symm.trans hb⟩
    · rintro ⟨i, hi, hb⟩
      exact ⟨i, hi, (k.method m hi (by omega)).trans hb⟩
  · obtain ⟨i, hi, hb⟩ := mem_getD_iff.mp hsome
    rw [List.length_take] at hi
    have hget : h.methods.getD i 0 = methodNone := by
      rw [List.getD_eq_getElem _ _ (by omega)]
      rw [List.getD_eq_getElem _ _ (by rw [List.length_take]; omega), List.getElem_take] at hb
      exact hb
    constructor
    · intro _
      exact mem_getD_iff.mpr ⟨i, by omega, hget⟩
    · intro _
      refine ⟨i, ?_, ?_⟩
      · rw [k.count m (by omega)]
        omega
      · rw [k.method m (by omega) (by omega)]
        exact hget

/-- Otherwise bytes of the stack are searched as well: there is one that makes the
server select `NONE` and one that does not. -/
theorem decided_of_offers {h : Hello} {k : Split h}
    (hall : ∀ m : Mem, offersNone (overlay k.recv₁ m) = true ↔ methodNone ∈ h.methods) :
    Decided h k := by
  by_cases hlong : 2 + h.methods.length ≤ k.len₁
  · exact Or.inl hlong
  by_cases hsome : methodNone ∈ h.methods.take (k.len₁ - 2)
  · exact Or.inr hsome
  exfalso
  by_cases hk : 2 ≤ k.len₁
  · -- the count is known, some method bytes are not
    have hyes : offersNone (overlay k.recv₁ fun _ => 0) = true := by
      refine (offersNone_iff _).mpr ⟨k.len₁ - 2, ?_, ?_⟩
      · rw [k.count _ hk]
        omega
      · exact k.recv₁_stale _ (by omega)
    have hno : ¬ offersNone (overlay k.recv₁ fun _ => 255) = true := by
      intro hoff
      obtain ⟨i, hi, hb⟩ := (offersNone_iff _).mp hoff
      rw [k.count _ hk] at hi
      by_cases hik : 2 + i < k.len₁
      · rw [k.method _ hi hik] at hb
        refine hsome (mem_getD_iff.mpr ⟨i, by rw [List.length_take]; omega, ?_⟩)
        rw [List.getD_eq_getElem _ _ hi] at hb
        rw [List.getD_eq_getElem _ _ (by rw [List.length_take]; omega), List.getElem_take]
        exact hb
      · rw [k.recv₁_stale _ (by omega)] at hb
        exact absurd hb (by decide)
    exact hno ((hall _).mpr ((hall _).mp hyes))
  · -- not even the count is known
    have hyes : offersNone (overlay k.recv₁ fun i => if i = 1 then 1 else 0) = true := by
      refine (offersNone_iff _).mpr ⟨0, ?_, k.recv₁_stale _ (by omega)⟩
      rw [k.recv₁_stale _ (by omega)]
      decide
    have hno : ¬ offersNone (overlay k.recv₁ fun _ => 0) = true := by
      intro hoff
      obtain ⟨i, hi, -⟩ := (offersNone_iff _).mp hoff
      rw [k.recv₁_stale _ (by omega)] at hi
      exact absurd hi (Nat.not_lt_zero i)
    exact hno ((hall _).mpr ((hall _).mp hyes))

/-! ## The request -/

theorem replyTo_connect {q : Mem} {t target : Target} (h : replyTo q t = .connect target) :
    q 1 = cmdConnect ∧ t = target := by
  unfold replyTo at h
  split at h
  next hcmd =>
    injection h with ht
    exact ⟨hcmd, ht⟩
  next => cases h

/-- The three ways to a connection. -/
theorem serveRequest_connect {q v6 : Mem} {target : Target}
    (h : serveRequest q v6 = .connect target) :
    q 0 = socksV5 ∧ q 1 = cmdConnect ∧
    ((q 3 = atypIpv4 ∧ target = .sockaddrIn (slice q 4 4) (u16be q 8)) ∨
     (q 3 = atypDomain ∧ domainTarget q = some target) ∨
     (q 3 = atypIpv6 ∧
      target = .sockaddrIn6 (slice q 4 16) (u16be q 20) (u32le v6 4) (u32le v6 24))) := by
  unfold serveRequest at h
  split at h
  next => cases h
  next hver =>
    have hver : q 0 = socksV5 := Decidable.not_not.mp hver
    split at h
    next h4 =>
      obtain ⟨hcmd, ht⟩ := replyTo_connect h
      exact ⟨hver, hcmd, Or.inl ⟨h4, ht.symm⟩⟩
    next =>
      split at h
      next hd =>
        split at h
        next t hdom =>
          obtain ⟨hcmd, ht⟩ := replyTo_connect h
          exact ⟨hver, hcmd, Or.inr (Or.inl ⟨hd, hdom.trans (congrArg some ht)⟩)⟩
        next => cases h
      next =>
        split at h
        next h6 =>
          obtain ⟨hcmd, ht⟩ := replyTo_connect h
          exact ⟨hver, hcmd, Or.inr (Or.inr ⟨h6, ht.symm⟩)⟩
        next => cases h

/-- The service is the port behind the name. -/
theorem domainTarget_service {q : Mem} {target : Target} (h : domainTarget q = some target) :
    ∃ node, target = .name node (u16be q (5 + (q 4).toNat)) := by
  unfold domainTarget at h
  dsimp only at h
  split at h
  · split at h
    · cases h
    · exact ⟨_, (Option.some.inj h).symm⟩
  · exact ⟨_, (Option.some.inj h).symm⟩

/-- The branch reads the length, the name and the port. -/
theorem domainTarget_congr {q q' : Mem}
    (h : ∀ i, 4 ≤ i → i < 7 + (q' 4).toNat → q i = q' i) : domainTarget q = domainTarget q' := by
  have h4 : q 4 = q' 4 := h 4 (by omega) (by omega)
  have h5 : q 5 = q' 5 := h 5 (by omega) (by omega)
  unfold domainTarget
  dsimp only
  rw [h4, h5]
  by_cases hn : (q' 4).toNat < 2
  · rw [if_pos hn, if_pos hn, u16be_congr fun i hi hi' => h i (by omega) (by omega),
      slice_congr fun i hi hi' => h i (by omega) (by omega)]
  · rw [if_neg hn, if_neg hn, u16be_congr fun i hi hi' => h i (by omega) (by omega),
      slice_congr (o := 6) fun i hi hi' => h i (by omega) (by omega),
      slice_congr (o := 5) fun i hi hi' => h i (by omega) (by omega)]

/-- The low byte of a port that was not received is the stack's. -/
theorem u16be_stale {c : List UInt8} {off : Nat} (h : c.length ≤ off + 1) :
    u16be (overlay c fun _ => 0) off ≠ u16be (overlay c fun _ => 1) off := by
  intro e
  unfold u16be at e
  rw [overlay_ge h, overlay_ge h] at e
  have : (1 : UInt8).toNat = 1 := rfl
  have : (0 : UInt8).toNat = 0 := rfl
  omega

/-- Complete requests are served the same on every stack. -/
theorem Complete.serve {c : List UInt8} {target : Target} (h : Complete c target) (m v6 : Mem) :
    c ≠ [] ∧ serveRequest (overlay c m) v6 = .connect target := by
  obtain ⟨hver, hcmd, hdest⟩ := h
  have hlen : 7 ≤ c.length := by
    rcases hdest with ⟨-, h, -⟩ | ⟨-, h, -⟩ <;> omega
  have hbyte : ∀ i, i < c.length → overlay c m i = bytes c i := fun i hi => overlay_eq_bytes hi m
  refine ⟨fun e => by rw [e, List.length_nil] at hlen; omega, ?_⟩
  unfold serveRequest
  rw [hbyte 0 (by omega), hbyte 3 (by omega), if_neg fun hne => hne hver]
  rcases hdest with ⟨h4, hlen4, ht⟩ | ⟨hd, hlend, ht⟩
  · rw [if_pos h4]
    unfold replyTo
    rw [hbyte 1 (by omega), if_pos hcmd, ht, slice_congr fun i _ hi => hbyte i (by omega),
      u16be_congr fun i _ hi => hbyte i (by omega)]
  · have hne : bytes c 3 ≠ atypIpv4 := by rw [hd]; decide
    rw [if_neg hne, if_pos hd, domainTarget_congr fun i _ hi => hbyte i (by omega), ht]
    show replyTo _ _ = _
    unfold replyTo
    rw [hbyte 1 (by omega), if_pos hcmd]

/-- A request by name that two different stacks answer alike has brought its port. -/
theorem domainTarget_length {c : List UInt8} {target : Target}
    (ht : domainTarget (overlay c fun _ => 0) = some target)
    (ht₁ : domainTarget (overlay c fun _ => 1) = some target) :
    7 + (overlay c (fun _ => 0) 4).toNat ≤ c.length := by
  refine Nat.not_lt.mp fun hlt => ?_
  obtain ⟨node, hs⟩ := domainTarget_service ht
  obtain ⟨node₁, hs₁⟩ := domainTarget_service ht₁
  rw [hs] at hs₁
  injection hs₁ with _ hserv
  by_cases h5 : 5 ≤ c.length
  · -- the length of the name is known, its port is not
    have hn : overlay c (fun _ => 1) 4 = overlay c (fun _ => 0) 4 := by
      rw [overlay_lt (by omega), overlay_lt (by omega)]
    rw [hn] at hserv
    exact u16be_stale (by omega) hserv
  · rw [overlay_ge (by omega), overlay_ge (by omega)] at hserv
    unfold u16be at hserv
    rw [overlay_ge (by omega), overlay_ge (by omega), overlay_ge (by omega),
      overlay_ge (by omega)] at hserv
    exact absurd hserv (by decide)

/-- And no others are: what was not received is read from the stack, and the two
unset fields of an IPv6 address always are. -/
theorem complete_of_serve {c : List UInt8} {target : Target}
    (h : ∀ m v6 : Mem, serveRequest (overlay c m) v6 = .connect target) : Complete c target := by
  obtain ⟨hver, hcmd, hdest⟩ := serveRequest_connect (h (fun _ => 0) fun _ => 0)
  obtain ⟨-, -, hdest₁⟩ := serveRequest_connect (h (fun _ => 1) fun _ => 1)
  -- with a byte 3 from the stack, a stack of zeros has no address type
  have hlen : 4 ≤ c.length := by
    refine Nat.not_lt.mp fun hlt => ?_
    rw [overlay_ge (by omega)] at hdest
    rcases hdest with ⟨h, -⟩ | ⟨h, -⟩ | ⟨h, -⟩ <;> exact absurd h (by decide)
  have htype : overlay c (fun _ => 1) 3 = overlay c (fun _ => 0) 3 := by
    rw [overlay_lt (by omega), overlay_lt (by omega)]
  rw [htype] at hdest₁
  refine ⟨hver, hcmd, ?_⟩
  rcases hdest with ⟨h4, ht⟩ | ⟨hd, ht⟩ | ⟨h6, ht⟩
  · refine Or.inl ⟨h4, Nat.not_lt.mp fun hlt => ?_, ht⟩
    rcases hdest₁ with ⟨-, ht₁⟩ | ⟨hd, -⟩ | ⟨h6, -⟩
    · rw [ht] at ht₁
      injection ht₁ with _ hport
      exact u16be_stale (by omega) hport
    · rw [h4] at hd
      exact absurd hd (by decide)
    · rw [h4] at h6
      exact absurd h6 (by decide)
  · refine Or.inr ⟨hd, Nat.not_lt.mp fun hlt => ?_, ht⟩
    have ht₁ : domainTarget (overlay c fun _ => 1) = some target := by
      rcases hdest₁ with ⟨h4, -⟩ | ⟨-, ht₁⟩ | ⟨h6, -⟩
      · rw [hd] at h4
        exact absurd h4 (by decide)
      · exact ht₁
      · rw [hd] at h6
        exact absurd h6 (by decide)
    have : c.length < 7 + (overlay c (fun _ => 0) 4).toNat := hlt
    exact absurd (domainTarget_length ht ht₁) (by omega)
  · exfalso
    rcases hdest₁ with ⟨h4, -⟩ | ⟨hd, -⟩ | ⟨-, ht₁⟩
    · rw [h6] at h4
      exact absurd h4 (by decide)
    · rw [h6] at hd
      exact absurd hd (by decide)
    · rw [ht] at ht₁
      injection ht₁ with _ _ hflow
      exact absurd hflow (by decide)

/-! ## The handshake -/

/-- After the method reply the request decides. -/
theorem socksEstablish_none {h : Hello} {k : Split h} {st : Stack}
    (hsel : selectMethod st k.recv₁ = some methodNone) :
    socksEstablish st k.recv₁ k.recv₂ true =
      if k.recv₂ = [] then .error else serveRequest (overlay k.recv₂ st.socksReq) st.remAddrV6 := by
  unfold socksEstablish
  rw [hsel]
  rfl

/-- **When the handshake depends on the client's bytes only**: exactly when the first
`recv` decides the method, and, if `NONE` is offered, the second one begins with a
complete `CONNECT` request, by IPv4 address or by name, for the destination the
client asked for. A request by IPv6 address never does. -/
theorem streamOnly_iff (h : Hello) (k : Split h) :
    StreamOnly h k ↔
      Decided h k ∧ (methodNone ∈ h.methods → Complete k.recv₂ h.request.target) := by
  constructor
  · intro hall
    refine ⟨decided_of_offers fun m => ?_, fun hoffer => complete_of_serve fun m v6 => ?_⟩
    · have hst := (hall ⟨m, m, m⟩).1
      rw [selectMethod_none] at hst
      exact hst
    · obtain ⟨hsel, hconn⟩ := hall ⟨m, m, v6⟩
      have hest := hconn hoffer
      rw [socksEstablish_none (hsel.mpr hoffer)] at hest
      split at hest
      next => cases hest
      next => exact hest
  · rintro ⟨hdec, hcomp⟩ st
    have hsel : selectMethod st k.recv₁ = some methodNone ↔ methodNone ∈ h.methods :=
      (selectMethod_none k st).trans (hdec.offers st.methodReq)
    refine ⟨hsel, fun hoffer => ?_⟩
    obtain ⟨hne, hserve⟩ := (hcomp hoffer).serve st.socksReq st.remAddrV6
    rw [socksEstablish_none (hsel.mpr hoffer), if_neg hne]
    exact hserve

/-! ## Requests that mix with the stack -/

/-- A client that offers `NONE` and asks for port 80 of `192.0.2.7`. -/
def ipv4Hello : Hello := ⟨[methodNone], by decide, ⟨.ipv4 [192, 0, 2, 7] rfl, 0, 80⟩, []⟩

/-- Its request arrives in two pieces, the first of four bytes. -/
def fragmented : Split ipv4Hello :=
  ⟨3, 4, by decide, by decide, by decide, Or.inl (by decide)⟩

/-- A client that asks for port 80 of `2001:db8::1`. -/
def ipv6Hello : Hello :=
  ⟨[methodNone], by decide,
   ⟨.ipv6 [32, 1, 13, 184, 0, 0, 0, 0, 0, 0, 0, 0, 0, 0, 0, 1] rfl, 0, 80⟩, []⟩

/-- Both its messages arrive whole. -/
def wholeIpv6 : Split ipv6Hello :=
  ⟨3, 22, by decide, by decide, by decide, Or.inl (by decide)⟩

/-- A stack filled with one byte. -/
def filled (b : UInt8) : Stack := ⟨fun _ => b, fun _ => b, fun _ => b⟩

/-- **The server connects to what its stack held.** Four bytes of an IPv4 request
make it connect to an address and a port made of old stack bytes; a complete IPv6
request leaves flow information and scope to them. -/
theorem fragment_connects_to_stack :
    ¬ StreamOnly ipv4Hello fragmented ∧
    socksEstablish (filled 1) fragmented.recv₁ fragmented.recv₂ true =
      .connect (.sockaddrIn [1, 1, 1, 1] 257) ∧
    ¬ StreamOnly ipv6Hello wholeIpv6 ∧
    socksEstablish (filled 1) wholeIpv6.recv₁ wholeIpv6.recv₂ true =
      .connect (.sockaddrIn6 [32, 1, 13, 184, 0, 0, 0, 0, 0, 0, 0, 0, 0, 0, 0, 1] 80
        16843009 16843009) := by
  refine ⟨fun h => ?_, by decide, fun h => ?_, by decide⟩
  · exact absurd ((h (filled 1)).2 (by decide)) (by decide)
  · exact absurd ((h (filled 1)).2 (by decide)) (by decide)

end Manhattan.Sined.Handshake
