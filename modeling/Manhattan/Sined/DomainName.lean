import Manhattan.Lib.Text
import Manhattan.Sined.Conmgr
import Manhattan.Sined.Handshake

/-!
# The domain name of a SOCKS request

`socks_establish` takes a name apart in the branch `SOCKS_ATYP_DOMAIN`. It looks at the first
byte of the data only: if that is `[`, the name loses its first and its last byte, whatever
the last one is, and the length, an unsigned number, is lowered by 2, whatever it was. The data
are the name and the port behind it, so that the first byte of an empty name is the port's.

`Handshake` has the branch as a function from requests to targets; here are the array `node`
of 256 bytes, the length given to `strncpy` and the place of the terminator.
`domainTarget_eq_node` says that the two agree.

`domain_decoded_iff` is the exact condition: no zero byte in the name, and a `[` in front is
matched by a `]` at the end of a name of at least two bytes.
-/

namespace Manhattan.Sined.Handshake

open Manhattan.Lib

/-- `addrlen` after the branch, a 32-bit unsigned number. -/
def nodeLength (q : Mem) : Nat :=
  if q 5 = bracket then ((q 4).toNat + (4294967296 - 2)) % 4294967296 else (q 4).toNat

/-- Where the bytes for `node` come from. -/
def nodeSource (q : Mem) : Nat := if q 5 = bracket then 6 else 5

/-- What `strncpy(node, src, n)` writes: the bytes up to the first zero byte, then zeros. -/
def strncpyBytes (src : List UInt8) (n : Nat) : List UInt8 :=
  untilNul (src.take n) ++ List.replicate (n - (untilNul (src.take n)).length) 0

/-- `node` after `strncpy` and `node[addrlen] = '\0'`. -/
def nodeArray (q node : Mem) : Mem :=
  writeAt (nodeLength q) [0]
    (overlay (strncpyBytes (slice q (nodeSource q) (nodeLength q)) (nodeLength q)) node)

/-- The name given to `getaddrinfo`. -/
def nodeString (q node : Mem) : List UInt8 := untilNul (slice (nodeArray q node) 0 lineBufSize)

/-- `service`, made before `addrlen` is lowered. -/
def serviceText (q : Mem) : Text := decimal (u16be q (5 + (q 4).toNat))

/-- The request is decoded as it is meant: the copied bytes and the terminator lie in
`node`, the length did not wrap around, and the name and the port are the request's. -/
structure DomainDecoded (name : List UInt8) (port : Nat) (q node : Mem) : Prop where
  length : nodeLength q ≤ lineBufSize
  terminator : nodeLength q < lineBufSize
  noWrap : nodeLength q ≤ name.length
  node : nodeString q node = unbracket name
  service : serviceText q = decimal port

theorem strncpyBytes_length {src : List UInt8} {n : Nat} (h : src.length = n) :
    (strncpyBytes src n).length = n := by
  have hle : (untilNul (src.take n)).length ≤ (src.take n).length :=
    (List.takeWhile_sublist _).length_le
  unfold strncpyBytes
  rw [List.length_append, List.length_replicate]
  rw [List.length_take] at hle
  omega

theorem untilNul_append_zero {l : List UInt8} (h : 0 ∉ l) (rest : List UInt8) :
    untilNul (l ++ 0 :: rest) = l := by
  unfold untilNul
  rw [List.takeWhile_append_of_pos]
  · simp
  · intro b hb
    exact decide_eq_true fun e => h (e ▸ hb)

theorem not_mem_untilNul (l : List UInt8) : 0 ∉ untilNul l := by
  unfold untilNul
  intro h
  have hne := List.mem_takeWhile_imp h
  exact of_decide_eq_true hne rfl

/-- `strncpy(array, src, n); array[n] = 0;` leaves the source up to its first zero. -/
theorem untilNul_strncpy {src : List UInt8} {n size : Nat} (hlen : src.length = n) (h : n < size)
    (array : Mem) :
    untilNul (slice (writeAt n [0] (overlay (strncpyBytes src n) array)) 0 size) =
      untilNul src := by
  have hcopied : slice (writeAt n [0] (overlay (strncpyBytes src n) array)) 0 n =
      strncpyBytes src n := by
    have hout : slice (writeAt n [0] (overlay (strncpyBytes src n) array)) 0 n =
        slice (overlay (strncpyBytes src n) array) 0 n :=
      slice_congr fun i _ hi => writeAt_outside (Or.inl (by omega)) _
    rw [hout, slice_overlay (by rw [strncpyBytes_length hlen]; omega), List.drop_zero,
      List.take_of_length_le (Nat.le_of_eq (strncpyBytes_length hlen))]
  have hzero : slice (writeAt n [0] (overlay (strncpyBytes src n) array)) n 1 = [0] :=
    slice_writeAt n [0] _
  have hsplit : size = n + (1 + (size - n - 1)) := by omega
  rw [hsplit, ← slice_append, ← slice_append, Nat.zero_add, hcopied, hzero, strncpyBytes,
    List.take_of_length_le (Nat.le_of_eq hlen)]
  -- the first zero is one of the padding or the terminator
  cases n - (untilNul src).length with
  | zero =>
    rw [List.replicate_zero, List.append_nil]
    exact untilNul_append_zero (not_mem_untilNul src) _
  | succ k =>
    rw [List.replicate_succ, List.append_assoc, List.cons_append]
    exact untilNul_append_zero (not_mem_untilNul src) _

/-- With the terminator inside the array, `node` holds the source up to its first zero. -/
theorem nodeString_eq {q : Mem} (h : nodeLength q < lineBufSize) (node : Mem) :
    nodeString q node = untilNul (slice q (nodeSource q) (nodeLength q)) :=
  untilNul_strncpy (slice_length _ _ _) h node

section Node

variable {q : Mem}

theorem nodeLength_plain (hb : q 5 ≠ bracket) : nodeLength q = (q 4).toNat := if_neg hb

theorem nodeLength_bracket (hb : q 5 = bracket) (htwo : 2 ≤ (q 4).toNat) :
    nodeLength q = (q 4).toNat - 2 := by
  have hcount := (q 4).toNat_lt
  have hlen : nodeLength q = ((q 4).toNat + 4294967294) % 4294967296 := if_pos hb
  omega

/-- Fewer than two bytes: the length wraps around. -/
theorem nodeLength_wraps (hb : q 5 = bracket) (htwo : (q 4).toNat < 2) :
    lineBufSize ≤ nodeLength q := by
  have hlen : nodeLength q = ((q 4).toNat + 4294967294) % 4294967296 := if_pos hb
  unfold lineBufSize
  omega

/-- A byte counts at most 255, so that there is room for the terminator. -/
theorem nodeLength_lt (hle : nodeLength q ≤ (q 4).toNat) : nodeLength q < lineBufSize := by
  have hcount := (q 4).toNat_lt
  unfold lineBufSize
  omega

theorem nodeString_plain (hb : q 5 ≠ bracket) (node : Mem) :
    nodeString q node = untilNul (slice q 5 (q 4).toNat) := by
  have hlen := nodeLength_plain hb
  have hsrc : nodeSource q = 5 := if_neg hb
  rw [nodeString_eq (nodeLength_lt (Nat.le_of_eq hlen)), hsrc, hlen]

theorem nodeString_bracket (hb : q 5 = bracket) (htwo : 2 ≤ (q 4).toNat) (node : Mem) :
    nodeString q node = untilNul (slice q 6 ((q 4).toNat - 2)) := by
  have hlen := nodeLength_bracket hb htwo
  have hsrc : nodeSource q = 6 := if_pos hb
  rw [nodeString_eq (nodeLength_lt (by omega)), hsrc, hlen]

/-- `Handshake` has the same name and port, and no outcome where the length wraps around. -/
theorem domainTarget_eq_node (q node : Mem) :
    domainTarget q = if nodeLength q < lineBufSize then
      some (.name (nodeString q node) (u16be q (5 + (q 4).toNat))) else none := by
  unfold domainTarget
  dsimp only
  by_cases hb : q 5 = bracket
  · rw [if_pos hb]
    by_cases htwo : (q 4).toNat < 2
    · rw [if_pos htwo, if_neg (Nat.not_lt.mpr (nodeLength_wraps hb htwo))]
    · have hlen := nodeLength_bracket hb (Nat.not_lt.mp htwo)
      rw [if_neg htwo, if_pos (nodeLength_lt (by omega)),
        nodeString_bracket hb (Nat.not_lt.mp htwo)]
  · have hlen := nodeLength_plain hb
    rw [if_neg hb, if_pos (nodeLength_lt (Nat.le_of_eq hlen)), nodeString_plain hb]

end Node

/-! ## A request received in full -/

section Received

variable {name : List UInt8} (hn : name.length ≤ 255) (hi lo : UInt8) (rest : List UInt8)
  (garbage : Mem)

/-- `socks_req` after the `recv`: the request and what came behind it, over what the stack
held. -/
def received (name : List UInt8) (hn : name.length ≤ 255) (hi lo : UInt8) (rest : List UInt8)
    (garbage : Mem) : Mem :=
  overlay ((⟨.domain name hn, hi, lo⟩ : Request).encode ++ rest) garbage

theorem encode_domain : (⟨.domain name hn, hi, lo⟩ : Request).encode ++ rest =
    [socksV5, cmdConnect, 0, atypDomain, UInt8.ofNat name.length] ++
      (name ++ [hi, lo] ++ rest) := by
  simp [Request.encode, Dest.encode]

/-- The data: the name and the port. -/
theorem received_data :
    slice (received name hn hi lo rest garbage) 5 (name.length + 2) = name ++ [hi, lo] := by
  unfold received
  rw [encode_domain, slice_overlay (by simp; omega)]
  have hlen : (name ++ [hi, lo]).length = name.length + 2 := List.length_append
  show (name ++ [hi, lo] ++ rest).take (name.length + 2) = _
  rw [List.take_append_of_le_length (Nat.le_of_eq hlen.symm),
    List.take_of_length_le (Nat.le_of_eq hlen)]

theorem received_count : (received name hn hi lo rest garbage 4).toNat = name.length := by
  unfold received
  rw [encode_domain, overlay_lt (by simp)]
  show (UInt8.ofNat name.length).toNat = _
  rw [UInt8.toNat_ofNat']
  omega

theorem received_name : slice (received name hn hi lo rest garbage) 5 name.length = name :=
  slice_left (c := [hi, lo]) (received_data hn hi lo rest garbage)

theorem received_byte {i : Nat} (h : i < name.length + 2) :
    (name ++ [hi, lo])[i]? = some (received name hn hi lo rest garbage (5 + i)) := by
  rw [← received_data hn hi lo rest garbage]
  exact slice_getElem? _ h

/-- The byte the branch looks at. -/
theorem received_first : received name hn hi lo rest garbage 5 = name.head?.getD hi := by
  have hbyte := received_byte hn hi lo rest garbage (i := 0) (by omega)
  cases name with
  | nil => exact (Option.some.inj hbyte).symm
  | cons b bs => exact (Option.some.inj hbyte).symm

theorem received_port : u16be (received name hn hi lo rest garbage) (5 + name.length) =
    256 * hi.toNat + lo.toNat := by
  have h₀ := received_byte hn hi lo rest garbage (show name.length < name.length + 2 by omega)
  have h₁ := received_byte hn hi lo rest garbage (show name.length + 1 < name.length + 2 by omega)
  rw [List.getElem?_append_right (Nat.le_refl _), Nat.sub_self] at h₀
  rw [List.getElem?_append_right (by omega), Nat.add_sub_cancel_left] at h₁
  unfold u16be
  rw [← Option.some.inj h₀, Nat.add_assoc, ← Option.some.inj h₁]

/-- Without its first and its last byte. -/
theorem received_inner (h : 2 ≤ name.length) :
    slice (received name hn hi lo rest garbage) 6 (name.length - 2) = name.tail.dropLast := by
  have hsplit : name.length = 1 + ((name.length - 2) + 1) := by omega
  have hname : slice (received name hn hi lo rest garbage) 5 (1 + ((name.length - 2) + 1)) = name :=
    hsplit ▸ received_name hn hi lo rest garbage
  rw [← slice_append, ← slice_append] at hname
  have htail := congrArg List.tail hname
  rw [List.tail_append_of_ne_nil (by simp [slice])] at htail
  rw [← htail]
  show slice _ 6 _ = ([] ++ (slice _ 6 _ ++ [_])).dropLast
  rw [List.nil_append, List.dropLast_concat]

end Received

theorem untilNul_eq_iff (l : List UInt8) : untilNul l = l ↔ 0 ∉ l := by
  constructor
  · intro h hm
    exact not_mem_untilNul l (h.symm ▸ hm)
  · intro h
    refine List.takeWhile_eq_self_iff.mpr fun b hb => decide_eq_true ?_
    intro e
    rw [e] at hb
    exact h hb

/-- A name between brackets has an inside. -/
theorem exists_bracketed {name : List UInt8} (hb : name.head? = some bracket)
    (hlast : name.getLast? = some closingBracket) (hlen : 2 ≤ name.length) :
    ∃ inner, name = bracket :: (inner ++ [closingBracket]) := by
  obtain ⟨bs, rfl⟩ : ∃ bs, name = bracket :: bs := List.head?_eq_some_iff.mp hb
  have hne : bs ≠ [] := by
    intro e
    rw [e] at hlen
    exact absurd hlen (by decide)
  refine ⟨bs.dropLast, ?_⟩
  rw [List.getLast?_cons, List.getLast?_eq_some_getLast hne] at hlast
  rw [← Option.some.inj hlast]
  exact congrArg _ (List.dropLast_concat_getLast hne).symm

/-- Without its brackets, a name is given to `getaddrinfo` as a whole if it has no zero. -/
theorem untilNul_unbracket_iff {name : List UInt8} (hhead : name.head? = some bracket)
    (hlast : name.getLast? = some closingBracket) (htwo : 2 ≤ name.length) :
    untilNul name.tail.dropLast = unbracket name ↔ 0 ∉ name := by
  have hun : unbracket name = name.tail.dropLast := if_pos ⟨hhead, hlast, htwo⟩
  rw [hun, untilNul_eq_iff]
  obtain ⟨inner, rfl⟩ := exists_bracketed hhead hlast htwo
  rw [List.tail_cons, List.dropLast_concat]
  simp [bracket, closingBracket]

/-- Two bytes go, whatever the last one is: without a closing bracket they are missing. -/
theorem untilNul_inner_ne {name : List UInt8} (hlast : name.getLast? ≠ some closingBracket)
    (htwo : 2 ≤ name.length) : untilNul name.tail.dropLast ≠ unbracket name := by
  intro h
  have hun : unbracket name = name := if_neg fun h => hlast h.2.1
  have hlong := congrArg List.length (h.trans hun)
  have hshort : (untilNul name.tail.dropLast).length ≤ name.tail.dropLast.length :=
    (List.takeWhile_sublist _).length_le
  rw [List.length_dropLast, List.length_tail] at hshort
  omega

/-- The name and the port are decoded as they are meant exactly if the name has no zero byte
and a `[` at the place of its first byte begins a name of at least two bytes that ends
with `]`. -/
theorem domain_decoded_iff (name : List UInt8) (hn : name.length ≤ 255) (hi lo : UInt8)
    (rest : List UInt8) (garbage node : Mem) :
    DomainDecoded name (⟨.domain name hn, hi, lo⟩ : Request).port
        (received name hn hi lo rest garbage) node ↔
      0 ∉ name ∧ (name.head?.getD hi = bracket →
        2 ≤ name.length ∧ name.getLast? = some closingBracket) := by
  have hcount := received_count hn hi lo rest garbage
  have hfirst := received_first hn hi lo rest garbage
  have hname := received_name hn hi lo rest garbage
  have hinner := received_inner hn hi lo rest garbage
  have hservice : serviceText (received name hn hi lo rest garbage) =
      decimal (⟨.domain name hn, hi, lo⟩ : Request).port := by
    unfold serviceText
    rw [hcount, received_port]
    rfl
  generalize received name hn hi lo rest garbage = q at hcount hfirst hname hinner hservice
  by_cases hb : name.head?.getD hi = bracket
  · have hq : q 5 = bracket := hfirst.trans hb
    by_cases htwo : 2 ≤ name.length
    · have hlen : nodeLength q = name.length - 2 := hcount ▸ nodeLength_bracket hq (by omega)
      have hlt : nodeLength q < lineBufSize := nodeLength_lt (by omega)
      have hstr : nodeString q node = untilNul name.tail.dropLast := by
        rw [nodeString_bracket hq (by omega), hcount, hinner htwo]
      by_cases hlast : name.getLast? = some closingBracket
      · have hhead : name.head? = some bracket := by
          cases name with
          | nil => exact absurd htwo (by decide)
          | cons b bs => exact congrArg some hb
        have hzero := untilNul_unbracket_iff hhead hlast htwo
        constructor
        · intro h
          exact ⟨hzero.mp (hstr.symm.trans h.node), fun _ => ⟨htwo, hlast⟩⟩
        · intro h
          exact ⟨Nat.le_of_lt hlt, hlt, by omega, hstr.trans (hzero.mpr h.1), hservice⟩
      · exact iff_of_false (fun h => untilNul_inner_ne hlast htwo (hstr.symm.trans h.node))
          fun h => hlast (h.2 hb).2
    · have hwraps : lineBufSize ≤ nodeLength q := nodeLength_wraps hq (by omega)
      exact iff_of_false (fun h => absurd h.terminator (Nat.not_lt.mpr hwraps))
        fun h => htwo (h.2 hb).1
  · have hq : q 5 ≠ bracket := fun h => hb (hfirst.symm.trans h)
    have hlen : nodeLength q = name.length := (nodeLength_plain hq).trans hcount
    have hlt : nodeLength q < lineBufSize := nodeLength_lt (by omega)
    have hun : unbracket name = name := by
      unfold unbracket
      refine if_neg fun h => hb ?_
      rw [h.1]
      rfl
    have hstr : nodeString q node = unbracket name ↔ 0 ∉ name := by
      rw [nodeString_plain hq, hcount, hname, hun, untilNul_eq_iff]
    constructor
    · intro h
      exact ⟨hstr.mp h.node, fun h => absurd h hb⟩
    · intro h
      exact ⟨Nat.le_of_lt hlt, hlt, Nat.le_of_eq hlen, hstr.mpr h.1, hservice⟩

/-- `[::1]`, port 80. -/
theorem domain_decoded_literal :
    DomainDecoded [91, 58, 58, 49, 93] (⟨.domain [91, 58, 58, 49, 93] (by decide), 0, 80⟩ :
        Request).port (received [91, 58, 58, 49, 93] (by decide) 0 80 [] fun _ => 0) fun _ => 0 :=
  (domain_decoded_iff [91, 58, 58, 49, 93] (by decide) 0 80 [] (fun _ => 0) fun _ => 0).mpr
    (by decide)

/-- `[ab` is looked up as `a`; an empty name with port 23296 makes `strncpy` copy 2^32 - 2
bytes. -/
theorem domain_not_decoded :
    nodeString (received [91, 97, 98] (by decide) 0 80 [] fun _ => 0) (fun _ => 0) = [97] ∧
      unbracket [91, 97, 98] = [91, 97, 98] ∧
      nodeLength (received [] (by decide) 91 0 [] fun _ => 0) = 4294967294 :=
  ⟨by decide, by decide, rfl⟩

end Manhattan.Sined.Handshake
