/-!
# Which mobility daemon serves an address (`sined/src/netmgr.c`)

`netmgr_set_interface` sends a connection's interface change to one of two
daemons by looking at the remote address alone: addresses in the HIP ranges of
`netmgr.h` (`1.0.0.0/8` and `2001:10::/28`) belong to the HIP daemon, every other
IPv6 address to the Mobile IPv6 daemon, and for the rest nothing is done.

Addresses are the bytes of a `struct sockaddr` as `add_connection` copied them:
two bytes of `sa_family` (little endian), then for `AF_INET` the port and the
address at offset 4, for `AF_INET6` port, flow information and the address at
offset 8.
-/

namespace Manhattan.Sined

/-- `AF_INET` -/
def afInet : Nat := 2

/-- `AF_INET6` -/
def afInet6 : Nat := 10

/-- `HIP_MASK_V4` and `HIP_ADDR_V4`, in network byte order. -/
def hipMaskV4 : List UInt8 := [255, 0, 0, 0]

def hipAddrV4 : List UInt8 := [1, 0, 0, 0]

/-- `HIP_MASK_V6` and `HIP_ADDR_V6`. -/
def hipMaskV6 : List UInt8 := [255, 255, 255, 240, 0, 0, 0, 0, 0, 0, 0, 0, 0, 0, 0, 0]

def hipAddrV6 : List UInt8 := [32, 1, 0, 16, 0, 0, 0, 0, 0, 0, 0, 0, 0, 0, 0, 0]

/-- `addr->sa_family` -/
def saFamily (addr : List UInt8) : Nat :=
  (addr.getD 0 0).toNat + 256 * (addr.getD 1 0).toNat

/-- The loop of `is_hip_addr`: `(addr & mask) == net`, byte by byte from offset
`off` on. (For IPv4 the source compares the four bytes as one word.) -/
def inSubnet (addr : List UInt8) (off : Nat) (mask net : List UInt8) : Bool :=
  (List.range mask.length).all fun i =>
    addr.getD (off + i) 0 &&& mask.getD i 0 == net.getD i 0

/-- `is_hip_addr` -/
def isHipAddr (addr : List UInt8) : Bool :=
  if saFamily addr = afInet then inSubnet addr 4 hipMaskV4 hipAddrV4
  else if saFamily addr = afInet6 then inSubnet addr 8 hipMaskV6 hipAddrV6
  else false

/-- The two daemons `netmgr_set_interface` distinguishes. -/
inductive Daemon where
  | hip
  | mipv6
  deriving DecidableEq, Repr

/-- The branch `netmgr_set_interface` takes; `none` is plain IPv4 (or no known
family), where it reports success without asking anybody. -/
def daemonOf (addr : List UInt8) : Option Daemon :=
  if isHipAddr addr then some .hip
  else if saFamily addr = afInet6 then some .mipv6
  else none

/-- What `sprintf` prints for `%s`; a policy rule without an `interface` element
hands it a null pointer. -/
def printed : Option String → String
  | some s => s
  | none => "(null)"

end Manhattan.Sined
