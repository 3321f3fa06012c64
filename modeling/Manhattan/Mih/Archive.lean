import Manhattan.Lib.Codec

/-!
# The archives of ODTONE

The payload of an MIH message is written by an `oarchive` and read by an `iarchive`
(`archive.cpp`, `tlv.hpp`): numbers most significant byte first, strings behind their
length, and fields as type, length and value. A length up to 128 is one byte; a longer one is
the number of further bytes, with the top bit set, and the excess over 128 in those bytes.

The reader of a length shifts what it has by eight bits more for each byte
(`len << (i * 8)`), which is right for two bytes and wrong from the third on.

> `list_length_iff`: a length is read back exactly if it is less than 65664, and from there on
> as the three bytes with the second one in the place of the third.
>
> `record_exact`: fields, some of them optional, are read back as they were written, when no
> two have the same type.

Mirroring notes:
- `uint` has 32 bits. What C++ leaves undefined is an error of its own: `shift`, by 32 or more,
  and `overrun`, a copy from beyond the end of the buffer.
- The writers append; the positions of the source are the lengths of what is there.
- The reader of a value is given the length of its field and does not look at it.
-/

namespace Manhattan.Mih.Archive

open Manhattan.Lib

abbrev Bytes := List UInt8

inductive Err
  | eof | badTlv | shift | overrun
deriving DecidableEq, Repr

abbrev Reader (α : Type) := Bytes → Nat → Except Err (α × Nat)

/-- `iarchive::operator&(uint8&)` -/
def getU8 : Reader UInt8 := fun buf pos =>
  match buf[pos]? with
  | some b => .ok (b, pos + 1)
  | none => .error .eof

/-! ## Lengths -/

/-- The loop of `iarchive::list_length` over the bytes from the `i`-th on. -/
def lengthLoop : Nat → Nat → Bytes → Nat
  | _, len, [] => len
  | i, len, b :: bs => lengthLoop (i + 1) ((len <<< (i * 8)) % 4294967296 ||| b.toNat) bs

/-- `iarchive::list_length` -/
def getLength : Reader Nat := fun buf pos =>
  match buf[pos]? with
  | none => .error .eof
  | some b =>
    let pos := pos + 1
    if b.toNat > 128 then
      let n := b.toNat - 128
      if pos + n ≥ buf.length then .error .eof
      else if n > 4 then .error .shift
      else .ok ((lengthLoop 0 0 ((buf.drop pos).take n) + 128) % 4294967296, pos + n)
    else .ok (b.toNat, pos)

/-- The loop that counts the bytes of `len`; the shift after three of them is by 32. -/
def lengthBytes (len : Nat) : Option Nat :=
  if len >>> 8 = 0 then some 1
  else if len >>> 16 = 0 then some 2
  else if len >>> 24 = 0 then some 3
  else none

/-- `oarchive::list_length` -/
def putLength (len : Nat) : Option Bytes :=
  if len ≤ 128 then some [UInt8.ofNat len]
  else
    let len := len - 128
    (lengthBytes len).map fun n =>
      (0x80 ||| UInt8.ofNat n) ::
        (List.range n).reverse.map fun k => UInt8.ofNat ((len >>> (k * 8)) &&& 0xff)

theorem getElem_pre (pre rest : Bytes) (b : UInt8) : (pre ++ b :: rest)[pre.length]? = some b := by
  rw [List.getElem?_append_right (Nat.le_refl _), Nat.sub_self]
  rfl

theorem getU8_pre (pre rest : Bytes) (b : UInt8) :
    getU8 (pre ++ b :: rest) pre.length = .ok (b, pre.length + 1) := by
  unfold getU8
  rw [getElem_pre]

/-- A length that is one byte. -/
theorem getLength_short (pre rest : Bytes) {len : Nat} (h : len ≤ 128) :
    getLength (pre ++ UInt8.ofNat len :: rest) pre.length = .ok (len, pre.length + 1) := by
  have hb : (UInt8.ofNat len).toNat = len := by
    rw [UInt8.toNat_ofNat']
    omega
  unfold getLength
  rw [getElem_pre]
  dsimp only
  rw [hb, if_neg (by omega)]

/-- A length that is in `n` further bytes. -/
theorem getLength_long (pre digits post : Bytes) {n : Nat} (hn : n = digits.length) (h₁ : 0 < n)
    (h₄ : n ≤ 4) (hpost : post ≠ []) :
    getLength (pre ++ ((0x80 ||| UInt8.ofNat n) :: digits ++ post)) pre.length =
      .ok ((lengthLoop 0 0 digits + 128) % 4294967296, pre.length + (n + 1)) := by
  have hb : (0x80 ||| UInt8.ofNat n).toNat = 128 + n := by
    have : ∀ n : Fin 5, 0 < n.val → (0x80 ||| UInt8.ofNat n.val).toNat = 128 + n.val := by decide
    exact this ⟨n, by omega⟩ h₁
  have hlen : 0 < post.length := List.length_pos_iff.mpr hpost
  have htake :
      ((pre ++ ((0x80 ||| UInt8.ofNat n) :: digits ++ post)).drop (pre.length + 1)).take n =
        digits := by
    rw [← List.drop_drop, List.drop_left, List.cons_append, List.drop_succ_cons, List.drop_zero,
      hn, List.take_left]
  unfold getLength
  rw [List.cons_append, getElem_pre]
  dsimp only
  rw [hb, if_pos (by omega), Nat.add_sub_cancel_left, if_neg, if_neg (by omega), ← List.cons_append,
    htake, Nat.add_assoc, Nat.add_comm 1 n]
  simp only [List.length_append, List.length_cons]
  omega

/-- What the loop makes of up to three bytes. -/
theorem lengthLoop_one (b : UInt8) : lengthLoop 0 0 [b] = b.toNat := by
  simp [lengthLoop]

theorem lengthLoop_two (b c : UInt8) : lengthLoop 0 0 [b, c] = b.toNat * 256 + c.toNat := by
  have hb := b.toNat_lt
  have hc := c.toNat_lt
  show (((0 <<< 0) % 4294967296 ||| b.toNat) <<< 8) % 4294967296 ||| c.toNat = _
  rw [Nat.zero_shiftLeft, Nat.zero_mod, Nat.zero_or, Nat.mod_eq_of_lt,
    ← Nat.shiftLeft_add_eq_or_of_lt (i := 8) hc, Nat.shiftLeft_eq]
  rw [Nat.shiftLeft_eq]
  omega

theorem lengthLoop_three (b c d : UInt8) :
    lengthLoop 0 0 [b, c, d] = b.toNat * 16777216 + c.toNat * 65536 + d.toNat := by
  have hb := b.toNat_lt
  have hc := c.toNat_lt
  have hd := d.toNat_lt
  have h₂ := lengthLoop_two b c
  show (lengthLoop 0 0 [b, c] <<< 16) % 4294967296 ||| d.toNat = _
  rw [h₂, Nat.mod_eq_of_lt, ← Nat.shiftLeft_add_eq_or_of_lt (i := 16) (by omega), Nat.shiftLeft_eq]
  · omega
  · rw [Nat.shiftLeft_eq]
    omega

/-- The bytes of a length, by its size. -/
theorem putLength_cases {len : Nat} {bytes : Bytes} (h : putLength len = some bytes) :
    len ≤ 128 ∧ bytes = [UInt8.ofNat len] ∨
    128 < len ∧ len < 384 ∧ bytes = [0x81, UInt8.ofNat (len - 128)] ∨
    384 ≤ len ∧ len < 65664 ∧
      bytes = [0x82, UInt8.ofNat ((len - 128) / 256), UInt8.ofNat (len - 128)] ∨
    65664 ≤ len ∧ len < 16777216 + 128 ∧ bytes = [0x83, UInt8.ofNat ((len - 128) / 65536),
      UInt8.ofNat ((len - 128) / 256), UInt8.ofNat (len - 128)] := by
  unfold putLength at h
  split at h
  · next hs => cases h; exact .inl ⟨hs, rfl⟩
  · next hs =>
    have hmask (x : Nat) : UInt8.ofNat (x &&& 0xff) = UInt8.ofNat x := by
      apply UInt8.toNat_inj.mp
      rw [UInt8.toNat_ofNat', UInt8.toNat_ofNat', Nat.and_two_pow_sub_one_eq_mod x 8, Nat.mod_mod]
    simp only [lengthBytes, Nat.shiftRight_eq_div_pow] at h
    right
    split at h
    · next h₁ =>
      cases h
      refine .inl ⟨by omega, by omega, ?_⟩
      simp [hmask]
      rfl
    · split at h
      · next h₁ h₂ =>
        cases h
        refine .inr (.inl ⟨by omega, by omega, ?_⟩)
        simp [hmask, List.range_succ]
        rfl
      · split at h
        · next h₁ h₂ h₃ =>
          cases h
          refine .inr (.inr ⟨by omega, by omega, ?_⟩)
          simp [hmask, List.range_succ]
          rfl
        · cases h

/-- What is read for a length. -/
theorem getLength_put {len : Nat} {bytes : Bytes} (h : putLength len = some bytes)
    (pre post : Bytes) (hpost : 128 < len → post ≠ []) :
    getLength (pre ++ (bytes ++ post)) pre.length =
      .ok (if len < 65664 then len else
        (len - 128) / 65536 * 16777216 + (len - 128) / 256 % 256 * 65536 + (len - 128) % 256 + 128,
        pre.length + bytes.length) := by
  rcases putLength_cases h with ⟨hs, rfl⟩ | ⟨h₁, h₂, rfl⟩ | ⟨h₁, h₂, rfl⟩ | ⟨h₁, h₂, rfl⟩
  · rw [if_pos (by omega)]
    exact getLength_short pre post hs
  · refine (getLength_long pre [_] post (n := 1) rfl (by omega) (by omega) (hpost h₁)).trans ?_
    rw [lengthLoop_one, UInt8.toNat_ofNat', if_pos (by omega)]
    refine congrArg Except.ok (Prod.ext ?_ rfl)
    show _ = len
    omega
  · refine (getLength_long pre [_, _] post (n := 2) rfl (by omega) (by omega)
      (hpost (by omega))).trans ?_
    rw [lengthLoop_two, UInt8.toNat_ofNat', UInt8.toNat_ofNat', if_pos h₂]
    refine congrArg Except.ok (Prod.ext ?_ rfl)
    show _ = len
    omega
  · refine (getLength_long pre [_, _, _] post (n := 3) rfl (by omega) (by omega)
      (hpost (by omega))).trans ?_
    rw [lengthLoop_three, UInt8.toNat_ofNat', UInt8.toNat_ofNat', UInt8.toNat_ofNat',
      if_neg (by omega)]
    refine congrArg Except.ok (Prod.ext ?_ rfl)
    show _ = _ + 128
    omega

/-- **Where lengths are read back.** A length, with something behind it, is read as it was
written exactly if it is less than 65664, which is when it takes two bytes at most. Of the
three bytes of a longer one, the first is shifted by 24 bits and the second by 16. -/
theorem list_length_iff (len : Nat) (bytes : Bytes) (h : putLength len = some bytes) :
    ((∀ pre post, post ≠ [] → getLength (pre ++ (bytes ++ post)) pre.length =
      .ok (len, pre.length + bytes.length)) ↔ len < 65664) ∧
    (65664 ≤ len → ∀ pre post, post ≠ [] → getLength (pre ++ (bytes ++ post)) pre.length =
      .ok ((len - 128) / 65536 * 16777216 + (len - 128) / 256 % 256 * 65536 + (len - 128) % 256
        + 128, pre.length + bytes.length)) := by
  have hlong (hge : 65664 ≤ len) (pre post : Bytes) (hpost : post ≠ []) :=
    (getLength_put h pre post fun _ => hpost).trans (by rw [if_neg (Nat.not_lt.mpr hge)])
  refine ⟨⟨fun hall => ?_, fun hlt pre post hpost => ?_⟩, hlong⟩
  · refine Nat.lt_of_not_le fun hge => ?_
    have hsame := (hlong hge [] [0] nofun).symm.trans (hall [] [0] nofun)
    have hlen := congrArg Prod.fst (Except.ok.inj hsame)
    have hbound : len < 16777216 + 128 := by
      rcases putLength_cases h with h | h | h | h <;> omega
    dsimp only at hlen
    omega
  · rw [getLength_put h pre post fun _ => hpost, if_pos hlt]

/-- The first length that takes three bytes is read as one of 24 bits. -/
theorem list_length_iff_three :
    ∃ bytes, putLength 65664 = some bytes ∧
      ∀ pre post, post ≠ [] → getLength (pre ++ (bytes ++ post)) pre.length =
        .ok (16777216 + 128, pre.length + bytes.length) :=
  ⟨_, rfl, (list_length_iff 65664 _ rfl).2 (by decide)⟩

/-! ## Strings -/

/-- `iarchive::operator&(octet_string&)`. The test counts from before the length. -/
def getString : Reader Bytes := fun buf pos =>
  match getLength buf pos with
  | .error e => .error e
  | .ok (len, start) =>
    if (pos + len) % 4294967296 ≥ buf.length then .error .eof
    else if start + len ≤ buf.length then .ok ((buf.drop start).take len, start + len)
    else .error .overrun

/-- `oarchive::operator&(octet_string&)` -/
def putString (s : Bytes) : Option Bytes := (putLength s.length).map (· ++ s)

def string : Codec UInt8 Err Bytes := ⟨putString, getString⟩

theorem string_exact : string.Exact 65535 (fun _ => True) fun _ => True := by
  intro s bytes h _ pre post _ hN
  obtain ⟨l, hl, rfl⟩ := Option.map_eq_some_iff.mp h
  have hsize : (pre ++ (l ++ s ++ post)).length =
      pre.length + (l.length + s.length + post.length) := by
    simp only [List.length_append]
  have hpos : 0 < l.length := by
    rcases putLength_cases hl with ⟨-, rfl⟩ | ⟨-, -, rfl⟩ | ⟨-, -, rfl⟩ | ⟨-, -, rfl⟩ <;>
      exact Nat.succ_pos _
  have hread := getLength_put hl pre (s ++ post) fun hlong hnil => by
    have := congrArg List.length hnil
    rw [List.length_append, List.length_nil] at this
    omega
  rw [if_pos (by omega), ← List.append_assoc l] at hread
  have hbytes : ((pre ++ (l ++ s ++ post)).drop (pre.length + l.length)).take s.length = s := by
    rw [List.append_assoc, ← List.append_assoc pre, List.drop_left' (by rw [List.length_append]),
      List.take_left]
  show getString _ _ = _
  unfold getString
  rw [hread]
  dsimp only
  rw [if_neg (by omega), if_pos (by omega), hbytes, List.length_append, Nat.add_assoc]

/-! ## Fields -/

variable {α V : Type}

/-- `base_tlv_::serialize(iarchive&, T&)`: nothing is taken if the type is another one. -/
def getField (tag : UInt8) (c : Codec UInt8 Err α) : Reader (Option α) := fun buf pos =>
  match getU8 buf pos with
  | .error e => .error e
  | .ok (tp, pos') =>
    if tp ≠ tag then .ok (none, pos)
    else
      match getLength buf pos' with
      | .error e => .error e
      | .ok (_, pos') =>
        match c.dec buf pos' with
        | .error e => .error e
        | .ok (a, pos') => .ok (some a, pos')

/-- `base_tlv_::serialize(oarchive&, T&)` -/
def putField (tag : UInt8) (c : Codec UInt8 Err α) (a : α) : Option Bytes :=
  (c.enc a).bind fun v => (putLength v.length).map fun l => tag :: (l ++ v)

/-- `tlv_type_`: the field has to be there. -/
def field (tag : UInt8) (c : Codec UInt8 Err α) : Codec UInt8 Err α where
  enc := putField tag c
  dec buf pos :=
    match getField tag c buf pos with
    | .error e => .error e
    | .ok (none, _) => .error .badTlv
    | .ok (some a, pos) => .ok (a, pos)

/-- `tlv_type_<boost::optional<T>, TLV>`, for a value that is `none` before. -/
def optionalField (tag : UInt8) (c : Codec UInt8 Err α) : Codec UInt8 Err (Option α) where
  enc
    | none => some []
    | some a => putField tag c a
  dec buf pos := if pos ≥ buf.length then .ok (none, pos) else getField tag c buf pos

theorem putField_eq {tag : UInt8} {c : Codec UInt8 Err α} {a : α} {bytes : Bytes}
    (h : putField tag c a = some bytes) :
    ∃ v l, c.enc a = some v ∧ putLength v.length = some l ∧ bytes = tag :: (l ++ v) := by
  obtain ⟨v, hv, h⟩ := Option.bind_eq_some_iff.mp h
  obtain ⟨l, hl, rfl⟩ := Option.map_eq_some_iff.mp h
  exact ⟨v, l, hv, hl, rfl⟩

/-- A field that has been written is found. -/
theorem getField_put {tag : UInt8} {c : Codec UInt8 Err α} {P : α → Prop} {a : α} {bytes : Bytes}
    (hc : c.Exact 65535 P fun _ => True) (h : putField tag c a = some bytes) (ha : P a)
    (pre post : Bytes) (hN : (pre ++ (bytes ++ post)).length ≤ 65535) :
    getField tag c (pre ++ (bytes ++ post)) pre.length =
      .ok (some a, pre.length + bytes.length) := by
  obtain ⟨v, l, hv, hl, rfl⟩ := putField_eq h
  have hsize : (pre ++ (tag :: (l ++ v) ++ post)).length =
      pre.length + (1 + (l.length + v.length) + post.length) := by
    simp only [List.length_append, List.length_cons]
    omega
  have hlen := getLength_put hl (pre ++ [tag]) (v ++ post) fun hlong hnil => by
    have := congrArg List.length hnil
    rw [List.length_append, List.length_nil] at this
    omega
  have hbuf : pre ++ [tag] ++ (l ++ (v ++ post)) = pre ++ (tag :: (l ++ v) ++ post) := by simp
  rw [if_pos (by omega), hbuf, List.length_append] at hlen
  have hval := hc a v hv ha (pre ++ [tag] ++ l) post trivial
    (by rw [List.append_assoc _ l, hbuf]; exact hN)
  rw [List.append_assoc _ l, hbuf, List.length_append, List.length_append] at hval
  unfold getField
  rw [List.cons_append, getU8_pre, ← List.cons_append]
  dsimp only
  rw [if_neg (fun h => h rfl), show pre.length + 1 = pre.length + [tag].length from rfl, hlen]
  dsimp only
  rw [hval]
  refine congrArg Except.ok (Prod.ext rfl ?_)
  simp only [List.length_cons, List.length_append, List.length_nil]
  omega

theorem field_exact {tag : UInt8} {c : Codec UInt8 Err α} {P : α → Prop}
    (hc : c.Exact 65535 P fun _ => True) : (field tag c).Exact 65535 P fun _ => True := by
  intro a bytes h ha pre post _ hN
  show (match getField tag c _ _ with
    | .error e => _ | .ok (none, _) => _ | .ok (some a, pos) => _) = _
  rw [getField_put hc h ha pre post hN]

/-- An optional field that is not there is not found, in front of another type. -/
theorem optionalField_exact {tag : UInt8} {c : Codec UInt8 Err α} {P : α → Prop}
    (hc : c.Exact 65535 P fun _ => True) :
    (optionalField tag c).Exact 65535 (fun o => ∀ a, o = some a → P a)
      fun post => post.head? ≠ some tag := by
  intro o bytes h ho pre post hpost hN
  cases o with
  | none =>
    cases h
    show (if _ then _ else getField tag c _ _) = _
    cases post with
    | nil => rw [if_pos (by simp)]; rfl
    | cons b post =>
      have hne : b ≠ tag := fun h => hpost (congrArg some h)
      rw [if_neg (by simp), List.nil_append]
      unfold getField
      rw [getU8_pre]
      dsimp only
      rw [if_pos hne]
      rfl
  | some a =>
    show (if _ then _ else getField tag c _ _) = _
    obtain ⟨v, l, -, -, hb⟩ := putField_eq h
    rw [if_neg (by rw [hb]; simp)]
    exact getField_put hc h (ho a rfl) pre post hN

/-! ## Records -/

/-- A field of a message: its type, and whether the message may leave it out. -/
structure Slot where
  tag : UInt8
  optional : Bool
deriving DecidableEq, Repr

/-- `tlv_type_` or its version for optional values, with the codec of the values of the
type. -/
def Slot.codec (c : UInt8 → Codec UInt8 Err V) (s : Slot) : Codec UInt8 Err (Option V) :=
  if s.optional then optionalField s.tag (c s.tag)
  else
    { enc := fun o => o.bind (field s.tag (c s.tag)).enc
      dec := fun buf pos =>
        match (field s.tag (c s.tag)).dec buf pos with
        | .error e => .error e
        | .ok (v, pos) => .ok (some v, pos) }

/-- The fields of a message, in the order in which `<<` and `>>` take them. -/
def record (c : UInt8 → Codec UInt8 Err V) (slots : List Slot) :
    Codec UInt8 Err (List (Option V)) :=
  .all (slots.map (Slot.codec c))

variable {c : UInt8 → Codec UInt8 Err V} {P : V → Prop}

theorem Slot.exact {s : Slot} (hc : (c s.tag).Exact 65535 P fun _ => True) :
    (s.codec c).Exact 65535 (fun o => ∀ v, o = some v → P v)
      fun post => post.head? ≠ some s.tag := by
  unfold Slot.codec
  split
  · exact optionalField_exact hc
  · intro o bytes h ho pre post _ hN
    obtain ⟨v, rfl, hv⟩ := Option.bind_eq_some_iff.mp h
    have hread := field_exact hc v bytes hv (ho v rfl) pre post trivial hN
    show (match (field s.tag (c s.tag)).dec _ _ with | .error e => _ | .ok (v, pos) => _) = _
    rw [hread]

/-- What a slot writes is nothing, or begins with its type. -/
theorem Slot.enc_head {s : Slot} {o : Option V} {x : Bytes} (h : (s.codec c).enc o = some x) :
    x = [] ∨ x.head? = some s.tag := by
  have hput {v : V} {x : Bytes} (h : putField s.tag (c s.tag) v = some x) :
      x.head? = some s.tag := by
    obtain ⟨v, l, -, -, rfl⟩ := putField_eq h
    rfl
  unfold Slot.codec at h
  split at h
  · cases o with
    | none => cases h; exact .inl rfl
    | some v => exact .inr (hput h)
  · obtain ⟨v, rfl, hv⟩ := Option.bind_eq_some_iff.mp h
    exact .inr (hput hv)

theorem record_head {slots : List Slot} : ∀ {os : List (Option V)} {y : Bytes},
    Codec.encAll (slots.map (Slot.codec c)) os = some y →
    y = [] ∨ ∃ s ∈ slots, y.head? = some s.tag := by
  induction slots with
  | nil =>
    intro os y h
    cases os with
    | nil => cases h; exact .inl rfl
    | cons o os => cases h
  | cons s slots ih =>
    intro os y h
    obtain ⟨o, os', x, z, rfl, hx, hz, rfl⟩ := Codec.encAll_cons h
    rcases Slot.enc_head hx with rfl | hhead
    · rcases ih hz with rfl | ⟨s', hs', hhead⟩
      · exact .inl rfl
      · exact .inr ⟨s', List.mem_cons_of_mem _ hs', hhead⟩
    · refine .inr ⟨s, List.mem_cons_self, ?_⟩
      rw [List.head?_append, hhead]
      rfl

theorem record_exact_aux {slots : List Slot}
    (hc : ∀ s ∈ slots, (c s.tag).Exact 65535 P fun _ => True)
    (hd : (slots.map Slot.tag).Nodup) :
    (record c slots).Exact 65535 (fun os => ∀ o ∈ os, ∀ v, o = some v → P v)
      fun post => ∀ s ∈ slots, post.head? ≠ some s.tag := by
  refine Codec.Exact.all (Q := fun s post => post.head? ≠ some s.tag)
    (fun s hs => Slot.exact (hc s hs)) fun l s r hslots os y post hy hpost hhead => ?_
  rcases record_head hy with rfl | ⟨s', hs', hs''⟩
  · exact hpost s (by rw [hslots]; exact List.mem_append_right _ List.mem_cons_self) hhead
  · -- the first field behind `s` is another one, with another type
    rw [List.head?_append, hs'', Option.some_or] at hhead
    rw [hslots, List.map_append, List.map_cons] at hd
    have hnot := (List.nodup_cons.mp (List.nodup_append.mp hd).2.1).1
    exact hnot (Option.some.inj hhead ▸ List.mem_map_of_mem hs')

/-- **The fields of a message are read back.** For any value types whose own readers give back
what was written, wherever it stands in a payload, a payload of fields with pairwise different
types, any of which may be optional and any of those left out, gives the values that it was made
of, and is read to its end. -/
theorem record_exact (c : UInt8 → Codec UInt8 Err V) (P : V → Prop) (slots : List Slot)
    (os : List (Option V)) (payload : Bytes)
    (hc : ∀ s ∈ slots, (c s.tag).Exact 65535 P fun _ => True)
    (hd : (slots.map Slot.tag).Nodup) (henc : (record c slots).enc os = some payload)
    (hos : ∀ o ∈ os, ∀ v, o = some v → P v) (hsize : payload.length ≤ 65535) :
    (record c slots).dec payload 0 = .ok (os, payload.length) := by
  have h := record_exact_aux hc hd os payload henc hos [] [] (fun _ _ => nofun)
    (by rw [List.append_nil]; exact hsize)
  rw [List.append_nil, List.nil_append, List.length_nil, Nat.zero_add] at h
  exact h

/-- A message with a string, and without the optional one in front of it. -/
theorem record_exact_two :
    ∃ payload, (record (fun _ => string) [⟨3, true⟩, ⟨4, false⟩]).enc [none, some [7, 8]] =
        some payload ∧
      (record (fun _ => string) [⟨3, true⟩, ⟨4, false⟩]).dec payload 0 =
        .ok ([none, some [7, 8]], payload.length) :=
  ⟨_, rfl, record_exact _ (fun _ => True) _ _ _ (fun _ _ => string_exact) (by decide) rfl
    (fun _ _ _ _ => trivial) (by decide)⟩

end Manhattan.Mih.Archive
