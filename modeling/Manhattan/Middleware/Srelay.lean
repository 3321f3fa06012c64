import Manhattan.Lib.Buffer
import Manhattan.Sined.DomainName

/-!
# The domain name in `srelay` (`proto_socks5`)

`srelay` is the SOCKS server of the first middleware; the project has patched one branch of
it. `proto_socks5` reads a request and leaves the destination in the state record, a name as
its length `len_fqdn` and up to 255 bytes `fqdn`. The patch copies a name in brackets without
them, two bytes less, and the line below it still stores the length of the request: the last
two bytes of such a name are what the record held before.

Three functions read `len_fqdn` bytes of the record: `addr_comp` compares them with the
routing table, `resolv_host` makes a string of them and `build_socks_request` sends them to the
next server. Each is given here as it reads memory and, for the specification, as a function of
a name (`compareName`, `hostOf`, `requestOf`).

Mirroring notes:
- `timerd_read` gives as many bytes as asked for, or fails when the client has sent fewer.
- The three kinds of address share their memory (a union): `addr` are its bytes, `len_fqdn` the
  first of them and `fqdn` the ones behind.
- `addr_comp` and `resolv_host` are modelled for names only.
-/

namespace Manhattan.Middleware.Srelay

open Manhattan.Lib
open Manhattan.Sined.Handshake (bracket closingBracket unbracket untilNul strncpyBytes
  untilNul_strncpy)

/-- `S5ATIPV4`, `S5ATFQDN`, `S5ATIPV6` -/
def atIpv4 : UInt8 := 1

def atFqdn : UInt8 := 3

def atIpv6 : UInt8 := 4

/-- `bin_addr` -/
structure BinAddr where
  atype : UInt8
  addr : Mem

namespace BinAddr

/-- `len_fqdn` -/
def lenFqdn (a : BinAddr) : Nat := (a.addr 0).toNat

/-- The first `len_fqdn` bytes of `fqdn`. -/
def name (a : BinAddr) : List UInt8 := slice a.addr 1 a.lenFqdn

end BinAddr

/-- What `proto_socks5` and the functions behind it use of `SOCKS_STATE`. -/
structure State where
  req : UInt8
  dest : BinAddr
  port : Nat
  user : List UInt8

/-- How `proto_socks5` fails: the connection is closed, in all cases but the first after a
reply with this error. -/
inductive Failure where
  | closed
  | general
  | unsupported
  deriving DecidableEq, Repr

/-- `timerd_read(state->s, buf + off, n, …)` -/
def timerdRead (off n : Nat) (input : List UInt8) (buf : Mem) : Option (List UInt8 × Mem) :=
  if n ≤ input.length then some (input.drop n, writeAt off (input.take n) buf) else none

/-- The branch `S5ATFQDN` after both reads: the name, its length and the port. -/
def storeFqdn (buf : Mem) (st : State) : State :=
  let len := (buf 4).toNat
  let addr := if buf 5 = bracket ∧ buf (4 + len) = closingBracket then
      writeAt 1 (slice buf 6 (len - 2)) st.dest.addr
    else writeAt 1 (slice buf 5 len) st.dest.addr
  { st with
    dest := { st.dest with addr := writeAt 0 [UInt8.ofNat len] addr }
    port := (buf (5 + len)).toNat * 256 + (buf (5 + len + 1)).toNat }

/-- `proto_socks5` -/
def protoSocks5 (input : List UInt8) (buf : Mem) (st : State) : Except Failure State :=
  match timerdRead 0 4 input buf with
  | none => .error .closed
  | some (input, buf) =>
    if buf 0 ≠ 5 then .error .general
    else
      let st := { st with req := buf 1, dest := { st.dest with atype := buf 3 } }
      if buf 3 = atIpv4 then
        match timerdRead 4 6 input buf with
        | none => .error .general
        | some (_, buf) => .ok { st with
            dest := { st.dest with addr := writeAt 0 (slice buf 4 4) st.dest.addr }
            port := (buf 8).toNat * 256 + (buf 9).toNat }
      else if buf 3 = atIpv6 then
        match timerdRead 4 18 input buf with
        | none => .error .general
        | some (_, buf) => .ok { st with
            dest := { st.dest with addr := writeAt 0 (slice buf 4 16) st.dest.addr }
            port := (buf 20).toNat * 256 + (buf 21).toNat }
      else if buf 3 = atFqdn then
        match timerdRead 4 1 input buf with
        | none => .error .general
        | some (input, buf) =>
          -- the test for a length outside 0..255 cannot fail: it was read from one byte
          match timerdRead 5 ((buf 4).toNat + 2) input buf with
          | none => .error .general
          | some (_, buf) => .ok (storeFqdn buf st)
      else .error .unsupported

/-! ## Who reads the name -/

def tolower (b : UInt8) : UInt8 := if 65 ≤ b ∧ b ≤ 90 then b + 32 else b

/-- `strncasecmp` of two arrays of the same length. -/
def strncasecmp : List UInt8 → List UInt8 → Int
  | a :: as, b :: bs =>
    if tolower a = tolower b then if a = 0 then 0 else strncasecmp as bs
    else (tolower a).toNat - (tolower b).toNat
  | _, _ => 0

/-- `addr_comp` on a name: `a2` is the entry of the routing table, `*` in it matches all. -/
def addrComp (a1 a2 : BinAddr) : Int :=
  if a1.atype ≠ a2.atype then -1
  else if a2.addr 1 = 42 then 0
  else if a2.lenFqdn ≤ a1.lenFqdn then
    strncasecmp (slice a2.addr 1 a2.lenFqdn)
      (slice a1.addr (1 + (a1.lenFqdn - a2.lenFqdn)) a2.lenFqdn)
  else -1

/-- The same on a name. -/
def compareName (name : List UInt8) (a2 : BinAddr) : Int :=
  if atFqdn ≠ a2.atype then -1
  else if a2.addr 1 = 42 then 0
  else if a2.lenFqdn ≤ name.length then
    strncasecmp a2.name (name.drop (name.length - a2.lenFqdn))
  else -1

/-- `NI_MAXHOST` -/
def niMaxHost : Nat := 1025

/-- `info->host` after `resolv_host`, with what the array held before. -/
def resolvHost (a : BinAddr) (host : Mem) : List UInt8 :=
  untilNul (slice (writeAt a.lenFqdn [0]
    (overlay (strncpyBytes (slice a.addr 1 a.lenFqdn) a.lenFqdn) host)) 0 niMaxHost)

/-- The same on a name. -/
def hostOf (name : List UInt8) : List UInt8 := untilNul name

/-- `S4DEFUSR` -/
def s4DefUsr : List UInt8 := [117, 115, 101, 114]

/-- The port in network order. -/
def portBytes (port : Nat) : List UInt8 := [UInt8.ofNat (port / 256), UInt8.ofNat (port % 256)]

/-- `build_socks_request` -/
def buildSocksRequest (ver : Nat) (st : State) : Option (List UInt8) :=
  let a := st.dest
  if ver = 4 then
    let user := if st.user = [] then s4DefUsr else st.user
    if 255 < user.length then none
    else if a.atype = atIpv4 then
      some ([4, st.req] ++ portBytes st.port ++ slice a.addr 0 4 ++ user ++ [0])
    else if a.atype = atFqdn then
      if a.lenFqdn = 0 then none
      else some ([4, st.req] ++ portBytes st.port ++ [0, 0, 0, 1] ++ user ++ [0] ++
        slice a.addr 1 a.lenFqdn ++ [0])
    else none
  else if ver = 5 then
    if a.atype = atIpv4 then
      some ([5, st.req, 0, a.atype] ++ slice a.addr 0 4 ++ portBytes st.port)
    else if a.atype = atIpv6 then
      some ([5, st.req, 0, a.atype] ++ slice a.addr 0 16 ++ portBytes st.port)
    else if a.atype = atFqdn then
      some ([5, st.req, 0, a.atype, UInt8.ofNat a.lenFqdn] ++ slice a.addr 1 a.lenFqdn ++
        portBytes st.port)
    else none
  else none

/-- The same on a name. -/
def requestOf (ver : Nat) (name : List UInt8) (st : State) : Option (List UInt8) :=
  if ver = 4 then
    let user := if st.user = [] then s4DefUsr else st.user
    if 255 < user.length ∨ name = [] then none
    else some ([4, st.req] ++ portBytes st.port ++ [0, 0, 0, 1] ++ user ++ [0] ++ name ++ [0])
  else if ver = 5 then
    some ([5, st.req, 0, atFqdn, UInt8.ofNat name.length] ++ name ++ portBytes st.port)
  else none

/-- The record holds the name, and its three readers see it. -/
structure SeesName (name : List UInt8) (st : State) : Prop where
  bytes : st.dest.name = name
  comp : ∀ a2, addrComp st.dest a2 = compareName name a2
  host : ∀ host, resolvHost st.dest host = hostOf name
  request : ∀ ver, buildSocksRequest ver st = requestOf ver name st

/-- The readers look at nothing but the first `len_fqdn` bytes. -/
theorem seesName_of_bytes {st : State} (htype : st.dest.atype = atFqdn) :
    SeesName st.dest.name st := by
  have hlen : st.dest.name.length = st.dest.lenFqdn := slice_length _ _ _
  have hmax : st.dest.lenFqdn < niMaxHost := by
    have := (st.dest.addr 0).toNat_lt
    unfold BinAddr.lenFqdn niMaxHost
    omega
  constructor
  case bytes => rfl
  case comp =>
    intro a2
    unfold addrComp compareName
    rw [htype, hlen]
    by_cases hle : a2.lenFqdn ≤ st.dest.lenFqdn
    · have hdrop : slice st.dest.addr (1 + (st.dest.lenFqdn - a2.lenFqdn)) a2.lenFqdn =
          st.dest.name.drop (st.dest.lenFqdn - a2.lenFqdn) := by
        have hsplit := slice_append st.dest.addr 1 (st.dest.lenFqdn - a2.lenFqdn) a2.lenFqdn
        rw [Nat.sub_add_cancel hle] at hsplit
        have hfront := slice_length st.dest.addr 1 (st.dest.lenFqdn - a2.lenFqdn)
        unfold BinAddr.name
        rw [← hsplit, List.drop_left' hfront]
      rw [if_pos hle, if_pos hle, hdrop]
      rfl
    · rw [if_neg hle, if_neg hle]
  case host => exact fun host => untilNul_strncpy (slice_length _ _ _) hmax host
  case request =>
    intro ver
    have hnil : st.dest.name = [] ↔ st.dest.lenFqdn = 0 := by
      rw [← hlen, List.length_eq_zero_iff]
    have h4 : ¬ atFqdn = atIpv4 := by decide
    have h6 : ¬ atFqdn = atIpv6 := by decide
    unfold buildSocksRequest requestOf
    simp only [htype, hnil, hlen, h4, h6, if_false, if_true]
    by_cases hver : ver = 4
    · rw [if_pos hver, if_pos hver]
      generalize (if st.user = [] then s4DefUsr else st.user) = user
      by_cases huser : 255 < user.length
      · rw [if_pos huser, if_pos (Or.inl huser)]
      by_cases hzero : st.dest.lenFqdn = 0
      · rw [if_neg huser, if_pos hzero, if_pos (Or.inr hzero)]
      · rw [if_neg huser, if_neg hzero, if_neg (not_or.mpr ⟨huser, hzero⟩)]
        rfl
    · rw [if_neg hver, if_neg hver]
      rfl

/-! ## A request by name -/

section Request

variable {name : List UInt8} (req rsv hi lo : UInt8) (rest : List UInt8) (buf : Mem) (st : State)

/-- What the client sends. -/
def fqdnRequest (name : List UInt8) (req rsv hi lo : UInt8) : List UInt8 :=
  [5, req, rsv, atFqdn, UInt8.ofNat name.length] ++ name ++ [hi, lo]

/-- `buf` after the three reads. -/
def fqdnBuf (name : List UInt8) (req rsv hi lo : UInt8) (buf : Mem) : Mem :=
  writeAt 5 (name ++ [hi, lo])
    (writeAt 4 [UInt8.ofNat name.length] (writeAt 0 [5, req, rsv, atFqdn] buf))

theorem fqdnBuf_count (hn : name.length ≤ 255) :
    (fqdnBuf name req rsv hi lo buf 4).toNat = name.length := by
  unfold fqdnBuf
  rw [writeAt_outside (Or.inl (by omega))]
  have hbyte : writeAt 4 [UInt8.ofNat name.length] (writeAt 0 [5, req, rsv, atFqdn] buf) (4 + 0) =
      UInt8.ofNat name.length := writeAt_inside (by simp) _
  rw [hbyte, UInt8.toNat_ofNat']
  omega

theorem fqdnBuf_byte {i : Nat} (h : i < name.length) :
    fqdnBuf name req rsv hi lo buf (5 + i) = name.getD i 0 := by
  unfold fqdnBuf
  rw [writeAt_inside (by rw [List.length_append]; omega), List.getD_append _ _ _ _ h]

/-- The request is read in full. -/
theorem protoSocks5_fqdn (hn : name.length ≤ 255) :
    protoSocks5 (fqdnRequest name req rsv hi lo ++ rest) buf st =
      .ok (storeFqdn (fqdnBuf name req rsv hi lo buf)
        { st with req := req, dest := { st.dest with atype := atFqdn } }) := by
  have hcount :
      (writeAt 4 [UInt8.ofNat name.length] (writeAt 0 [5, req, rsv, atFqdn] buf) 4).toNat =
        name.length := by
    show (UInt8.ofNat name.length).toNat = name.length
    rw [UInt8.toNat_ofNat']
    omega
  have hdata : (name ++ [hi, lo]).length = name.length + 2 := List.length_append
  have h₁ : timerdRead 0 4 (fqdnRequest name req rsv hi lo ++ rest) buf =
      some (UInt8.ofNat name.length :: (name ++ [hi, lo] ++ rest),
        writeAt 0 [5, req, rsv, atFqdn] buf) := if_pos (by simp [fqdnRequest])
  have h₂ : timerdRead 4 1 (UInt8.ofNat name.length :: (name ++ [hi, lo] ++ rest))
      (writeAt 0 [5, req, rsv, atFqdn] buf) = some (name ++ [hi, lo] ++ rest,
        writeAt 4 [UInt8.ofNat name.length] (writeAt 0 [5, req, rsv, atFqdn] buf)) :=
    if_pos (by simp)
  have h₃ : timerdRead 5 (name.length + 2) (name ++ [hi, lo] ++ rest)
      (writeAt 4 [UInt8.ofNat name.length] (writeAt 0 [5, req, rsv, atFqdn] buf)) =
      some (rest, fqdnBuf name req rsv hi lo buf) := by
    unfold timerdRead fqdnBuf
    rw [if_pos (by rw [List.length_append]; omega), List.drop_left' hdata, List.take_left' hdata]
  have hver : writeAt 0 [5, req, rsv, atFqdn] buf 0 = 5 := rfl
  have hreq : writeAt 0 [5, req, rsv, atFqdn] buf 1 = req := rfl
  have htype : writeAt 0 [5, req, rsv, atFqdn] buf 3 = atFqdn := rfl
  have h4 : ¬ atFqdn = atIpv4 := by decide
  have h6 : ¬ atFqdn = atIpv6 := by decide
  simp only [protoSocks5, h₁, hver, hreq, htype, h4, h6, h₂, hcount, h₃, ne_eq, not_true_eq_false,
    if_false, if_true]

/-- A name in brackets. -/
def Enclosed (name : List UInt8) : Prop :=
  name.head? = some bracket ∧ name.getLast? = some closingBracket ∧ 2 ≤ name.length

/-- The test of the patch. -/
theorem enclosed_iff (h₁ : 1 ≤ name.length) :
    (fqdnBuf name req rsv hi lo buf 5 = bracket ∧
      fqdnBuf name req rsv hi lo buf (4 + name.length) = closingBracket) ↔ Enclosed name := by
  have hne : name ≠ [] := List.ne_nil_of_length_pos h₁
  have hfirst := fqdnBuf_byte req rsv hi lo buf (i := 0) h₁
  have hlast := fqdnBuf_byte req rsv hi lo buf (show name.length - 1 < name.length by omega)
  rw [show 5 + (name.length - 1) = 4 + name.length by omega] at hlast
  have hhead : name.head? = some (name.getD 0 0) := by
    cases name with
    | nil => exact absurd rfl hne
    | cons b bs => rfl
  have hend : name.getLast? = some (name.getD (name.length - 1) 0) := by
    rw [List.getLast?_eq_getElem?, List.getD_eq_getElem _ _ (by omega),
      List.getElem?_eq_getElem (by omega)]
  unfold Enclosed
  rw [show fqdnBuf name req rsv hi lo buf 5 = name.getD 0 0 from hfirst, hlast, hhead, hend,
    Option.some.injEq, Option.some.injEq]
  constructor
  · intro ⟨hb, hc⟩
    refine ⟨hb, hc, ?_⟩
    -- one byte cannot be both brackets
    by_contra hlt
    have hzero : name.length - 1 = 0 := by omega
    rw [hzero, hb] at hc
    exact absurd hc (by decide)
  · exact fun h => ⟨h.1, h.2.1⟩

/-- The length is that of the request in both cases. -/
theorem storeFqdn_lenFqdn (hn : name.length ≤ 255) :
    (storeFqdn (fqdnBuf name req rsv hi lo buf) st).dest.lenFqdn = name.length := by
  have hcount := fqdnBuf_count req rsv hi lo buf hn
  unfold storeFqdn
  dsimp only
  rw [hcount]
  show (UInt8.ofNat name.length).toNat = name.length
  rw [UInt8.toNat_ofNat']
  omega

/-- A name that is not in brackets is stored as it is. -/
theorem storeFqdn_name (hn : name.length ≤ 255) (h₁ : 1 ≤ name.length) (h : ¬ Enclosed name) :
    (storeFqdn (fqdnBuf name req rsv hi lo buf) st).dest.name = name := by
  have hcount := fqdnBuf_count req rsv hi lo buf hn
  have htest := mt (enclosed_iff req rsv hi lo buf h₁).mp h
  have hdata : slice (fqdnBuf name req rsv hi lo buf) 5 name.length = name := by
    refine slice_left (c := [hi, lo]) ?_
    rw [← List.length_append]
    exact slice_writeAt 5 (name ++ [hi, lo]) _
  unfold BinAddr.name
  rw [storeFqdn_lenFqdn req rsv hi lo buf st hn]
  unfold storeFqdn
  dsimp only
  rw [hcount, if_neg htest, hdata]
  refine Eq.trans (slice_congr fun i hi' _ => ?_) (slice_writeAt 1 name st.dest.addr)
  exact writeAt_outside (Or.inr (by simpa using hi')) _

end Request

/-- After the call the record holds the name that was meant, and its readers see it, exactly if
the name is not in brackets. -/
theorem fqdn_seen_iff (name : List UInt8) (h₁ : 1 ≤ name.length) (hn : name.length ≤ 255)
    (req rsv hi lo : UInt8) (rest : List UInt8) (buf : Mem) (st : State) :
    (∃ st', protoSocks5 (fqdnRequest name req rsv hi lo ++ rest) buf st = .ok st' ∧
      SeesName (unbracket name) st') ↔ ¬ Enclosed name := by
  rw [protoSocks5_fqdn req rsv hi lo rest buf st hn]
  generalize hst : { st with req := req, dest := { st.dest with atype := atFqdn } } = st₁
  have hlen := storeFqdn_lenFqdn req rsv hi lo buf st₁ hn
  constructor
  · intro ⟨st', heq, hsees⟩ henc
    cases heq
    have hname := congrArg List.length hsees.bytes
    have hun : unbracket name = name.tail.dropLast := if_pos henc
    rw [hun, List.length_dropLast, List.length_tail] at hname
    have hstored : (storeFqdn (fqdnBuf name req rsv hi lo buf) st₁).dest.name.length =
        name.length := (slice_length _ _ _).trans hlen
    omega
  · intro henc
    have hun : unbracket name = name := if_neg henc
    have hname := storeFqdn_name req rsv hi lo buf st₁ hn h₁ henc
    refine ⟨_, rfl, ?_⟩
    have htype : (storeFqdn (fqdnBuf name req rsv hi lo buf) st₁).dest.atype = atFqdn := by
      rw [← hst]
      rfl
    have hsees := seesName_of_bytes htype
    rw [hun]
    rwa [hname] at hsees

instance decEnclosed (name : List UInt8) : Decidable (Enclosed name) :=
  inferInstanceAs (Decidable (_ ∧ _ ∧ _))

/-- `cs`, port 80. -/
theorem fqdn_seen_plain :
    ∃ st', protoSocks5 (fqdnRequest [99, 115] 1 0 0 80 ++ []) (fun _ => 0)
        ⟨0, ⟨0, fun _ => 170⟩, 0, []⟩ = .ok st' ∧ SeesName (unbracket [99, 115]) st' :=
  (fqdn_seen_iff [99, 115] (by decide) (by decide) 1 0 0 80 [] (fun _ => 0)
    ⟨0, ⟨0, fun _ => 170⟩, 0, []⟩).mpr (by decide)

/-- `[::1]` in a record that held `cs.columbia` before: the name is `::1co`, and that is what
the next server is asked for. -/
theorem fqdn_not_seen :
    ∃ st', protoSocks5 (fqdnRequest [91, 58, 58, 49, 93] 1 0 0 80) (fun _ => 0)
        ⟨1, ⟨atFqdn, overlay [11, 99, 115, 46, 99, 111, 108, 117, 109, 98, 105, 97] fun _ => 0⟩,
          80, []⟩ = .ok st' ∧
      st'.dest.name = [58, 58, 49, 99, 111] ∧
      buildSocksRequest 5 st' = some [5, 1, 0, 3, 5, 58, 58, 49, 99, 111, 0, 80] :=
  ⟨_, rfl, by decide, by decide⟩

end Manhattan.Middleware.Srelay
