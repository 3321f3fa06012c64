import Manhattan.Mih.Archive

/-!
# MIH frames

A message travels as a header of eight bytes and a payload (`frame.hpp`, `message.cpp`): the
version and four flags, the fragment number, the message identifier, the transaction
identifier and the length of the payload. The payload begins with the identifiers of the
source and of the destination, each as a field of its own.

> `frame_round_trip`: a message that fits in a frame comes out of the frame as it was, also
> from a datagram with something behind the frame.
>
> `cut_identifier`: a frame that ends one byte before the end of a long identifier passes all
> tests, and the copy of the identifier runs past the end of the payload.

Mirroring notes:
- The header is written over zeros, byte by byte, with the masks of `frame.hpp`. A version of
  sixteen or more and a fragment number of 128 or more lose their top bits, where an assertion
  would stop a debug build.
- `mid` is one number here; its parts are cut out of it by shifts.
- `truncate_cast` throws where the payload is longer than 65535, so there is no frame.
-/

namespace Manhattan.Mih.Frame

open Manhattan.Lib Manhattan.Mih.Archive

/-- `message` -/
structure Message where
  version : UInt8 := 1
  ackreq : Bool := false
  ackrsp : Bool := false
  uir : Bool := false
  m : Bool := false
  fn : UInt8 := 0
  mid : UInt16 := 0
  tid : UInt16 := 0
  src : Bytes := []
  dst : Bytes := []
  payload : Bytes := []
deriving DecidableEq, Repr

/-! ## The header -/

/-- `(hdr & ~mask) | v` -/
def setBits (mask v h : UInt8) : UInt8 := (h &&& ~~~mask) ||| v

/-- The setters of the first byte, in the order of `get_frame`. -/
def flags (v : UInt8) (ackreq ackrsp uir m : Bool) : UInt8 :=
  let h := setBits 0xf0 (v <<< 4) 0
  let h := setBits 0x08 (ackreq.toUInt8 <<< 3) h
  let h := setBits 0x04 (ackrsp.toUInt8 <<< 2) h
  let h := setBits 0x02 (uir.toUInt8 <<< 1) h
  setBits 0x01 m.toUInt8 h

/-- A 16-bit number in two bytes. -/
def high (v : UInt16) : UInt8 := (v >>> 8).toUInt8

def low (v : UInt16) : UInt8 := (v &&& 0xff).toUInt8

def join (h l : UInt8) : UInt16 := (h.toUInt16 <<< 8) ||| l.toUInt16

/-- The eight bytes of the header. -/
def header (x : Message) (plength : UInt16) : Bytes :=
  [flags x.version x.ackreq x.ackrsp x.uir x.m, x.fn <<< 1, high x.mid, low x.mid,
    high x.tid, low x.tid, high plength, low plength]

/-! ## Messages -/

/-- `tlv_source_id` and `tlv_destination_id`, which are strings. -/
def sourceId : Codec UInt8 Err Bytes := field 1 string

def destinationId : Codec UInt8 Err Bytes := field 2 string

/-- The payload of a frame. -/
def body (x : Message) : Option Bytes :=
  (sourceId.enc x.src).bind fun s => (destinationId.enc x.dst).map fun d => s ++ (d ++ x.payload)

/-- `message::get_frame` -/
def getFrame (x : Message) : Option Bytes :=
  (body x).bind fun b =>
    if b.length ≤ 65535 then some (header x (UInt16.ofNat b.length) ++ b) else none

/-- `message::operator=(const frame&)`, for the bytes of a header and of a payload. -/
def ofFrame (h₀ h₁ h₂ h₃ h₄ h₅ : UInt8) (payload : Bytes) : Except Err Message :=
  match sourceId.dec payload 0 with
  | .error e => .error e
  | .ok (src, pos) =>
    match destinationId.dec payload pos with
    | .error e => .error e
    | .ok (dst, pos) => .ok
      { version := (h₀ &&& 0xf0) >>> 4, ackreq := (h₀ &&& 0x08) >>> 3 != 0
        ackrsp := (h₀ &&& 0x04) >>> 2 != 0, uir := (h₀ &&& 0x02) >>> 1 != 0
        m := h₀ &&& 0x01 != 0, fn := (h₁ &&& 0xfe) >>> 1, mid := join h₂ h₃
        tid := join h₄ h₅, src := src, dst := dst, payload := payload.drop pos }

/-- `frame::cast`, and the message in the frame; `none` if there is no frame. -/
def parse (datagram : Bytes) : Option (Except Err Message) :=
  match datagram with
  | h₀ :: h₁ :: h₂ :: h₃ :: h₄ :: h₅ :: h₆ :: h₇ :: rest =>
    let plength := (join h₆ h₇).toNat
    if rest.length < plength then none
    else some (ofFrame h₀ h₁ h₂ h₃ h₄ h₅ (rest.take plength))
  | _ => none

/-! ## The header comes back -/

theorem flags_back : ∀ v : Fin 16, ∀ a b c d : Bool,
    let h := flags (UInt8.ofNat v.val) a b c d
    (h &&& 0xf0) >>> 4 = UInt8.ofNat v.val ∧ ((h &&& 0x08) >>> 3 != 0) = a ∧
    ((h &&& 0x04) >>> 2 != 0) = b ∧ ((h &&& 0x02) >>> 1 != 0) = c ∧ (h &&& 0x01 != 0) = d := by
  decide +kernel

theorem fn_back : ∀ v : Fin 128,
    ((UInt8.ofNat v.val <<< 1) &&& 0xfe) >>> 1 = UInt8.ofNat v.val := by
  decide +kernel

theorem join_back (v : UInt16) : join (high v) (low v) = v := by
  apply UInt16.toNat_inj.mp
  have hv := v.toNat_lt
  have hh : (high v).toNat = v.toNat / 256 := by
    simp [high, Nat.shiftRight_eq_div_pow]
    omega
  have hl : (low v).toNat = v.toNat % 256 := by
    simp [low, Nat.and_two_pow_sub_one_eq_mod _ 8]
  simp only [join, UInt16.toNat_or, UInt16.toNat_shiftLeft, UInt8.toNat_toUInt16, hh, hl]
  show (v.toNat / 256) <<< 8 % 65536 ||| v.toNat % 256 = v.toNat
  rw [Nat.mod_eq_of_lt, ← Nat.shiftLeft_add_eq_or_of_lt (i := 8) (by omega), Nat.shiftLeft_eq]
  · omega
  · rw [Nat.shiftLeft_eq]
    omega

theorem join_ofNat {n : Nat} (h : n ≤ 65535) :
    (join (high (UInt16.ofNat n)) (low (UInt16.ofNat n))).toNat = n := by
  rw [join_back, UInt16.toNat_ofNat']
  omega

/-- What follows the header of a frame is taken up to the length in the header. -/
theorem parse_header {h₀ h₁ h₂ h₃ h₄ h₅ : UInt8} {b rest : Bytes} (hb : b.length ≤ 65535) :
    parse ([h₀, h₁, h₂, h₃, h₄, h₅, high (UInt16.ofNat b.length), low (UInt16.ofNat b.length)] ++
      (b ++ rest)) = some (ofFrame h₀ h₁ h₂ h₃ h₄ h₅ b) := by
  show (if (b ++ rest).length < _ then none
    else some (ofFrame h₀ h₁ h₂ h₃ h₄ h₅ ((b ++ rest).take _))) = _
  rw [join_ofNat hb, if_neg (by rw [List.length_append]; omega), List.take_left]

/-- The two identifiers and the payload come out of a body. -/
theorem ofFrame_body {x : Message} {b : Bytes} (hb : body x = some b) (hsize : b.length ≤ 65535)
    (h₀ h₁ h₂ h₃ h₄ h₅ : UInt8) :
    ofFrame h₀ h₁ h₂ h₃ h₄ h₅ b = .ok
      { version := (h₀ &&& 0xf0) >>> 4, ackreq := (h₀ &&& 0x08) >>> 3 != 0
        ackrsp := (h₀ &&& 0x04) >>> 2 != 0, uir := (h₀ &&& 0x02) >>> 1 != 0
        m := h₀ &&& 0x01 != 0, fn := (h₁ &&& 0xfe) >>> 1, mid := join h₂ h₃
        tid := join h₄ h₅, src := x.src, dst := x.dst, payload := x.payload } := by
  obtain ⟨s, hs, hb⟩ := Option.bind_eq_some_iff.mp hb
  obtain ⟨d, hd, rfl⟩ := Option.map_eq_some_iff.mp hb
  have hsrc := field_exact string_exact x.src s hs trivial [] (d ++ x.payload) trivial hsize
  have hdst := field_exact string_exact x.dst d hd trivial s x.payload trivial hsize
  rw [List.nil_append, List.length_nil, Nat.zero_add] at hsrc
  unfold ofFrame
  rw [show sourceId.dec (s ++ (d ++ x.payload)) 0 = _ from hsrc]
  dsimp only
  rw [show destinationId.dec (s ++ (d ++ x.payload)) s.length = _ from hdst]
  dsimp only
  rw [← List.append_assoc, List.drop_left' (List.length_append)]

/-- **A message comes out of its frame.** A message whose version and fragment number fit their
bits, and whose identifiers and payload fit in a frame, is the one that is read from the frame,
whatever follows the frame in the datagram. -/
theorem frame_round_trip (x : Message) (frame rest : Bytes) (hv : x.version < 16)
    (hf : x.fn < 128) (h : getFrame x = some frame) : parse (frame ++ rest) = some (.ok x) := by
  obtain ⟨b, hb, h⟩ := Option.bind_eq_some_iff.mp h
  obtain ⟨hsize, ⟨⟩⟩ := Option.ite_none_right_eq_some.mp h
  obtain ⟨h₁, h₂, h₃, h₄, h₅⟩ :=
    flags_back ⟨x.version.toNat, hv⟩ x.ackreq x.ackrsp x.uir x.m
  have hfn := fn_back ⟨x.fn.toNat, hf⟩
  rw [UInt8.ofNat_toNat] at h₁ h₂ h₃ h₄ h₅ hfn
  rw [List.append_assoc]
  show parse ([_, _, _, _, _, _, _, _] ++ (b ++ rest)) = _
  rw [parse_header hsize, ofFrame_body hb hsize, h₁, h₂, h₃, h₄, h₅, hfn, join_back, join_back]

/-- A request with identifiers, flags and a payload, in a datagram with a byte too many. -/
theorem frame_round_trip_request :
    ∃ frame, getFrame
        { ackreq := true, mid := 0x1401, tid := 7, src := [97], dst := [98], payload := [5, 6] } =
        some frame ∧
      parse (frame ++ [0]) = some (.ok
        { ackreq := true, mid := 0x1401, tid := 7, src := [97], dst := [98], payload := [5, 6] }) :=
  ⟨_, rfl, frame_round_trip _ _ _ (by decide) (by decide) rfl⟩

/-! ## Long identifiers -/

/-- The last byte of a long string is missing at the end of the buffer. -/
theorem getString_cut {t l : Bytes} {c : UInt8} (pre : Bytes)
    (hl : putLength (t ++ [c]).length = some l)
    (hlong : 128 ≤ t.length) (hsize : (pre ++ (l ++ t)).length ≤ 65535) :
    getString (pre ++ (l ++ t)) pre.length = .error .overrun := by
  have ht : t ≠ [] := List.ne_nil_of_length_pos (by omega)
  have hone : (t ++ [c]).length = t.length + 1 := by rw [List.length_append, List.length_singleton]
  have htwo : 2 ≤ l.length := by
    rcases putLength_cases hl with ⟨h, -⟩ | ⟨-, -, rfl⟩ | ⟨-, -, rfl⟩ | ⟨-, -, rfl⟩
    · omega
    all_goals exact Nat.le_add_left 2 _
  have hlen := getLength_put hl pre t fun _ => ht
  rw [List.length_append, List.length_append] at hsize
  rw [if_pos (by omega), hone] at hlen
  unfold getString
  rw [hlen]
  dsimp only
  rw [List.length_append, List.length_append, if_neg (by omega), if_neg (by omega)]

/-- **A cut identifier is copied from beyond the frame.** Take the field of any source
identifier of more than 128 bytes without its last byte, and make it the whole payload of a
frame. The frame is accepted, the test for the end of the payload passes, and the copy reads
past the end. -/
theorem cut_identifier (h₀ h₁ h₂ h₃ h₄ h₅ : UInt8) (s cut rest : Bytes) (b : UInt8)
    (hs : 128 < s.length) (hput : sourceId.enc s = some (cut ++ [b])) (hsize : cut.length ≤ 65535) :
    parse ([h₀, h₁, h₂, h₃, h₄, h₅, high (UInt16.ofNat cut.length),
      low (UInt16.ofNat cut.length)] ++ (cut ++ rest)) = some (.error .overrun) := by
  obtain ⟨v, l, hv, hl, hcut⟩ := putField_eq hput
  obtain ⟨l', hl', rfl⟩ := Option.map_eq_some_iff.mp hv
  -- the last byte that is missing is one of the identifier
  obtain ⟨t, c, rfl⟩ : ∃ t c, s = t ++ [c] :=
    ⟨s.dropLast, s.getLast (List.ne_nil_of_length_pos (by omega)),
      (List.dropLast_concat_getLast _).symm⟩
  have hlong : 128 ≤ t.length := by
    rw [List.length_append, List.length_singleton] at hs
    omega
  have hcut' : cut = [1] ++ (l ++ (l' ++ t)) := by
    have : cut ++ [b] = 1 :: (l ++ (l' ++ t)) ++ [c] := by rw [hcut]; simp
    exact (List.append_inj' this rfl).1
  have hfield := getLength_put hl [1] (l' ++ t) fun _ h =>
    List.ne_nil_of_length_pos (l := t) (by omega) (List.append_eq_nil_iff.mp h).2
  have hstring := getString_cut ([1] ++ l) hl' hlong
    (by rw [List.append_assoc, ← hcut']; exact hsize)
  rw [List.append_assoc, ← hcut', List.length_append] at hstring
  rw [← hcut'] at hfield
  have hfirst : getU8 cut 0 = .ok (1, 1) := by rw [hcut']; rfl
  rw [parse_header hsize]
  unfold ofFrame sourceId field getField
  dsimp only
  rw [hfirst]
  dsimp only
  rw [if_neg (fun h => h rfl), show (1 : Nat) = ([1] : Bytes).length from rfl, hfield]
  dsimp only
  rw [show string.dec cut (([1] : Bytes).length + l.length) = _ from hstring]

/-- The identifier of 129 letters. -/
theorem cut_identifier_129 :
    ∃ cut b, sourceId.enc (List.replicate 129 97) = some (cut ++ [b]) ∧
      parse ([16, 0, 20, 1, 0, 7, high (UInt16.ofNat cut.length), low (UInt16.ofNat cut.length)] ++
        (cut ++ [])) = some (.error .overrun) :=
  ⟨[1, 0x81, 3, 0x81, 1] ++ List.replicate 128 97, 97, by decide +kernel,
    cut_identifier 16 0 20 1 0 7 (List.replicate 129 97) _ [] 97 (by simp) (by decide +kernel)
      (by simp)⟩

end Manhattan.Mih.Frame
