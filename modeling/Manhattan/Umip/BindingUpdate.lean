import Manhattan.Lib.Serial
import Manhattan.Umip.BindingCache

/-!
# Binding updates and acknowledgements

What the mobile node, its home agent and its correspondent nodes say to each other, as the
parsers of `mh.c` leave it, and what all of them use: the comparison of sequence numbers, the
bits of the flags, the status codes, and the rounding of lifetimes.
-/

namespace Manhattan.Umip

open Manhattan.Lib

/-- `MIP6_SEQ_GT` -/
def seqGt (x y : UInt16) : Bool := decide (0 < (x - y).toBitVec.toInt)

theorem seqGt_eq (x y : UInt16) : seqGt x y = Serial.gt 65536 x.toNat y.toNat := by
  have hsub : (x - y).toNat = (x.toNat + (65536 - y.toNat)) % 65536 := by
    rw [UInt16.toNat_sub]
    omega
  have hint : (0 < (x - y).toBitVec.toInt) ↔
      0 < (x.toNat + (65536 - y.toNat)) % 65536 ∧
        (x.toNat + (65536 - y.toNat)) % 65536 < 65536 / 2 := by
    rw [BitVec.toInt_eq_toNat_cond, show (x - y).toBitVec.toNat = (x - y).toNat from rfl, hsub]
    split <;> omega
  unfold seqGt Serial.gt
  rw [← Bool.decide_and]
  exact decide_eq_decide.mpr hint

/-! ## Flags -/

/-- `IP6_MH_BU_ACK` -/
def buAck : UInt16 := 0x8000
/-- `IP6_MH_BU_HOME` -/
def buHome : UInt16 := 0x4000
/-- `IP6_MH_BU_KEYM` -/
def buKeym : UInt16 := 0x1000
/-- `IP6_MH_BU_MR` -/
def buMr : UInt16 := 0x0400

/-- The bit for an acknowledgement is set. -/
def Acks (flags : UInt16) : Prop := flags.toBitVec.getLsbD 15 = true

theorem Acks.ne_zero {flags : UInt16} (h : Acks flags) : (flags &&& buAck != 0) = true := by
  rw [bne_iff_ne]
  intro h0
  have := congrArg (fun f : UInt16 => f.toBitVec.getLsbD 15) h0
  rw [Acks, BitVec.getLsbD_eq_getElem (by decide)] at h
  simp [buAck, h] at this

theorem Acks.and_not_keym {flags : UInt16} (h : Acks flags) : Acks (flags &&& ~~~buKeym) := by
  have hkeym : (~~~buKeym).toBitVec.getLsbD 15 = true := by decide
  show (flags &&& ~~~buKeym).toBitVec.getLsbD 15 = true
  rw [UInt16.toBitVec_and, BitVec.getLsbD_and, hkeym, Bool.and_true]
  exact h

/-! ## Status codes -/

def basAccepted : Nat := 0
def basUnspecified : Nat := 128
def basInsufficient : Nat := 130
def basNotHomeSubnet : Nat := 132
def basNotHa : Nat := 133
def basSeqnoBad : Nat := 135
def basRegNotAllowed : Nat := 139

/-! ## Messages -/

/-- A binding update, with the care-of address and the lifetime as `mh_bu_parse` has them. -/
structure Bu where
  seqno : UInt16
  flags : UInt16
  coa : Addr
  lft : Timespec
deriving DecidableEq, Repr

/-- A binding acknowledgement -/
structure Ba where
  status : Nat
  keym : Bool := false
  mr : Bool := false
  seqno : UInt16
  lifetime : Timespec
  /-- binding refresh advice -/
  refresh : Option Timespec := none
deriving DecidableEq, Repr

/-- `mh_send_ba_err` -/
def baErr (status : Nat) (seqno : UInt16) : Ba :=
  { status := status, seqno := seqno, lifetime := tsclear }

/-- The lifetime on the wire, in units of four seconds. -/
def wireLft (t : Timespec) : Timespec := ⟨t.tvSec / 4 % 65536 * 4, 0⟩

/-! ## Lifetimes -/

/-- `MAX_BINDING_LIFETIME` -/
def maxBindingLifetime : Int := 262140

/-- `mpd_sanitize_lft`: what the mask leaves is the whole units of four seconds. -/
def mpdSanitizeLft (t : Timespec) : Timespec := ⟨min t.tvSec maxBindingLifetime / 4 * 4, 0⟩

end Manhattan.Umip
