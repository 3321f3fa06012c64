import Manhattan.Lib.InetText
import Manhattan.Sined.Netmgr

/-!
# Printing a connection (`dump_one_connection` of `sined/src/conmgr.c`)

The remote address of a connection is printed into an array of
`INET6_ADDRSTRLEN + 1` characters, which is the room an IPv6 address needs by
itself; the brackets, the colon and the port come on top. Most addresses are
shorter than the longest one, and so most connections can be printed:
`strAddrPort_fits_iff` names those that cannot.

Mirroring notes:
- The address is the `sockaddr` as `Netmgr` reads it: the family, the port at
  offset 2, the IPv4 address at offset 4, the IPv6 address at offset 8.
- `inet_ntop` never runs out of room itself (`length_ntop4_le`, `length_ntop6`), so
  its result is not checked here either.
- The line of the log around the address has no array of its own.
-/

namespace Manhattan.Sined.DumpConnection

open Manhattan.Lib

/-- `INET6_ADDRSTRLEN` -/
def inet6AddrStrLen : Nat := 46

/-- The bytes of a `sockaddr` as numbers. -/
def byteAt (addr : List UInt8) (i : Nat) : Nat := (addr.getD i 0).toNat

/-- A number of two bytes in network order. -/
def wordAt (addr : List UInt8) (i : Nat) : Nat := 256 * byteAt addr i + byteAt addr (i + 1)

/-- `ntohs(addr4->sin_port)`; `sin6_port` is at the same place. -/
def port (addr : List UInt8) : Nat := wordAt addr 2

/-- `sin_addr` -/
def sinAddr (addr : List UInt8) : List Nat := (List.range 4).map fun i => byteAt addr (4 + i)

/-- The groups of `sin6_addr`. -/
def sin6Addr (addr : List UInt8) : List Nat := (List.range 8).map fun i => wordAt addr (8 + 2 * i)

/-- The string `dump_one_connection` writes into `str_addr_port`. -/
def strAddrPort : Option (List UInt8) → Text
  | some addr =>
    if saFamily addr = afInet then ntop4 (sinAddr addr) ++ ':' :: Nat.toDigits 10 (port addr)
    else if saFamily addr = afInet6 then
      '[' :: ntop6 (sin6Addr addr) ++ ']' :: ':' :: Nat.toDigits 10 (port addr)
    else "(unknown address)".toList
  | none => "(null)".toList

theorem byteAt_lt (addr : List UInt8) (i : Nat) : byteAt addr i < 256 := UInt8.toNat_lt _

theorem wordAt_lt (addr : List UInt8) (i : Nat) : wordAt addr i < 65536 := by
  have h₁ := byteAt_lt addr i
  have h₂ := byteAt_lt addr (i + 1)
  unfold wordAt
  omega

theorem sinAddr_lt (addr : List UInt8) : ∀ b ∈ sinAddr addr, b < 256 := by
  unfold sinAddr
  rw [List.forall_mem_map]
  exact fun i _ => byteAt_lt addr _

theorem sin6Addr_lt (addr : List UInt8) : ∀ g ∈ sin6Addr addr, g < 65536 := by
  unfold sin6Addr
  rw [List.forall_mem_map]
  exact fun i _ => wordAt_lt addr _

theorem sin6Addr_length (addr : List UInt8) : (sin6Addr addr).length = 8 := by
  unfold sin6Addr
  rw [List.length_map, List.length_range]

/-- A port has at most five digits, and five from 10000 on. -/
theorem port_digits (addr : List UInt8) :
    (Nat.toDigits 10 (port addr)).length ≤ 5 ∧
      ((Nat.toDigits 10 (port addr)).length = 5 ↔ 10000 ≤ port addr) := by
  have hlt : port addr < 65536 := wordAt_lt addr 2
  have h5 : (Nat.toDigits 10 (port addr)).length ≤ 5 ↔ port addr < 10 ^ 5 :=
    Nat.length_toDigits_le_iff (by omega) (by omega)
  have h4 : (Nat.toDigits 10 (port addr)).length ≤ 4 ↔ port addr < 10 ^ 4 :=
    Nat.length_toDigits_le_iff (by omega) (by omega)
  omega

/-- An IPv6 address whose eight groups and whose port all need their full number of
digits: its text and the terminator are one byte longer than the array. -/
def Longest (addr : List UInt8) : Prop :=
  saFamily addr = afInet6 ∧ (∀ g ∈ sin6Addr addr, 4096 ≤ g) ∧ 10000 ≤ port addr

/-- Everything else fits, terminator included. -/
theorem strAddrPort_fits_iff (conn : Option (List UInt8)) :
    (strAddrPort conn).length + 1 ≤ inet6AddrStrLen + 1 ↔
      ∀ addr, conn = some addr → ¬Longest addr := by
  unfold inet6AddrStrLen
  cases conn with
  | none =>
    refine iff_of_true (by decide) ?_
    intro addr h
    cases h
  | some addr =>
    simp only [Option.some.injEq, forall_eq']
    obtain ⟨hport, hfive⟩ := port_digits addr
    unfold strAddrPort Longest
    dsimp only
    by_cases h4 : saFamily addr = afInet
    · have hntop : (ntop4 (sinAddr addr)).length ≤ 15 :=
        length_ntop4_le (List.length_map _ |>.trans List.length_range) (sinAddr_lt addr)
      have hne : saFamily addr ≠ afInet6 := by
        rw [h4]
        decide
      simp only [h4, if_true, List.length_append, List.length_cons]
      exact iff_of_true (by omega) fun h => hne (h4.trans h.1)
    · by_cases h6 : saFamily addr = afInet6
      · obtain ⟨hle, hfull⟩ := length_ntop6 (sin6Addr_lt addr) (sin6Addr_length addr)
        rw [if_neg h4, if_pos h6, ← hfull, ← hfive]
        simp only [h6, List.length_append, List.length_cons, true_and]
        omega
      · simp only [h4, h6, if_false, false_and, not_false_eq_true, iff_true]
        decide

/-- The highest address with port 10000: `[ffff:...:ffff]:10000` takes 48 bytes. -/
theorem strAddrPort_longest :
    (strAddrPort (some ([10, 0, 39, 16, 0, 0, 0, 0] ++ List.replicate 16 255))).length + 1 = 48 ∧
      inet6AddrStrLen + 1 = 47 := by
  decide

end Manhattan.Sined.DumpConnection
