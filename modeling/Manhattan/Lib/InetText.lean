import Mathlib.Data.List.Basic
import Mathlib.Algebra.Group.Nat.Defs
import Manhattan.Lib.Text

/-!
# The text form of internet addresses (`inet_ntop`)

Four bytes are printed in decimal with dots between them. Eight groups of 16 bits
are printed in lower-case hexadecimal without leading zeros and with colons between
them; the first of the longest runs of zero groups, if it has at least two, is
printed as `::`, and an address that is an IPv4 address mapped into IPv6 ends in
dotted decimal.

`length_ntop4_le` and `length_ntop6` bound the texts; the second also says which
addresses reach the bound.
-/

namespace Manhattan.Lib

theorem length_joined_le {k : Nat} (sep : Char) :
    ∀ (ts : List Text), (∀ t ∈ ts, t.length ≤ k) → (joined sep ts).length ≤ (k + 1) * ts.length - 1
  | [], _ => Nat.zero_le _
  | [t], h => by
    have ht := h t (List.mem_singleton_self t)
    show t.length ≤ (k + 1) * 1 - 1
    omega
  | t :: u :: ts, h => by
    have ht := h t List.mem_cons_self
    have hrest := length_joined_le sep (u :: ts) fun x hx => h x (List.mem_cons_of_mem _ hx)
    have hmul : (k + 1) * (t :: u :: ts).length = (k + 1) * (u :: ts).length + (k + 1) :=
      Nat.mul_succ _ _
    have hpos : k + 1 ≤ (k + 1) * (u :: ts).length := Nat.le_mul_of_pos_right _ (Nat.succ_pos _)
    simp only [joined, List.length_append, List.length_cons] at *
    omega

/-- The bound is reached when every text has its full length, and only then. -/
theorem length_joined_eq_iff {k : Nat} (sep : Char) :
    ∀ (ts : List Text), ts ≠ [] → (∀ t ∈ ts, t.length ≤ k) →
      ((joined sep ts).length + 1 = (k + 1) * ts.length ↔ ∀ t ∈ ts, t.length = k)
  | [], hne, _ => absurd rfl hne
  | [t], _, _ => by
    rw [List.forall_mem_singleton]
    show t.length + 1 = (k + 1) * 1 ↔ _
    omega
  | t :: u :: ts, _, h => by
    have ht := h t List.mem_cons_self
    have hrest : ∀ x ∈ u :: ts, x.length ≤ k := fun x hx => h x (List.mem_cons_of_mem _ hx)
    have hle := length_joined_le sep (u :: ts) hrest
    have ih := length_joined_eq_iff sep (u :: ts) (List.cons_ne_nil _ _) hrest
    have hmul : (k + 1) * (t :: u :: ts).length = (k + 1) * (u :: ts).length + (k + 1) :=
      Nat.mul_succ _ _
    have hpos : k + 1 ≤ (k + 1) * (u :: ts).length := Nat.le_mul_of_pos_right _ (Nat.succ_pos _)
    have hlen : (joined sep (t :: u :: ts)).length =
        t.length + ((joined sep (u :: ts)).length + 1) := by
      rw [joined, List.length_append, List.length_cons]
    rw [List.forall_mem_cons, ← ih, hlen, hmul]
    omega

/-- The dotted decimal form of the bytes of an IPv4 address. -/
def ntop4 (bytes : List Nat) : Text := joined '.' (bytes.map (Nat.toDigits 10))

/-- Hexadecimal groups with colons between them. -/
def groupText (groups : List Nat) : Text := joined ':' (groups.map (Nat.toDigits 16))

/-- The zero groups at the start. -/
def zeroRun (groups : List Nat) : Nat := (groups.takeWhile (· = 0)).length

/-- Start and length of the first of the longest runs of zero groups. -/
def bestRun (groups : List Nat) : Nat × Nat :=
  (List.range groups.length).foldl
    (fun best i => if best.2 < zeroRun (groups.drop i) then (i, zeroRun (groups.drop i)) else best)
    (0, 0)

/-- An IPv4 address mapped into IPv6: `::ffff:0:0/96`. -/
def isMapped (groups : List Nat) : Bool := groups.take 6 = [0, 0, 0, 0, 0, 65535]

/-- The text form of the eight groups of an IPv6 address. -/
def ntop6 (groups : List Nat) : Text :=
  if isMapped groups then
    [':', ':', 'f', 'f', 'f', 'f', ':'] ++
      ntop4 ((groups.drop 6).flatMap fun g => [g / 256, g % 256])
  else
    let (start, len) := bestRun groups
    if len < 2 then groupText groups
    else groupText (groups.take start) ++ ':' :: ':' :: groupText (groups.drop (start + len))

theorem bestRun_le (groups : List Nat) :
    (bestRun groups).1 + (bestRun groups).2 ≤ groups.length := by
  unfold bestRun
  refine List.foldlRecOn _ _ (motive := fun best : Nat × Nat => best.1 + best.2 ≤ groups.length)
    (Nat.zero_le _) fun best hbest i hi => ?_
  have hi' := List.mem_range.mp hi
  have hrun : zeroRun (groups.drop i) ≤ (groups.drop i).length :=
    (List.takeWhile_sublist _).length_le
  rw [List.length_drop] at hrun
  split
  · show i + zeroRun (groups.drop i) ≤ groups.length
    omega
  · exact hbest

theorem bestRun_of_not_mem {groups : List Nat} (h : 0 ∉ groups) : bestRun groups = (0, 0) := by
  have hrun : ∀ i, zeroRun (groups.drop i) = 0 := by
    intro i
    unfold zeroRun
    cases hd : groups.drop i with
    | nil => rfl
    | cons g gs =>
      have hg : g ≠ 0 := fun h0 => h (List.mem_of_mem_drop (h0 ▸ hd ▸ List.mem_cons_self))
      rw [List.takeWhile_cons_of_neg (by simpa using hg)]
      rfl
  unfold bestRun
  refine List.foldlRecOn _ _ (motive := fun best : Nat × Nat => best = (0, 0)) rfl
    fun best hbest i _ => ?_
  rw [hrun, hbest]
  rfl

theorem length_ntop4_le {bytes : List Nat} (hlen : bytes.length = 4) (h : ∀ b ∈ bytes, b < 256) :
    (ntop4 bytes).length ≤ 15 := by
  have hle : ∀ t ∈ bytes.map (Nat.toDigits 10), t.length ≤ 3 := by
    intro t ht
    obtain ⟨b, hb, rfl⟩ := List.mem_map.mp ht
    have := h b hb
    exact (Nat.length_toDigits_le_iff (by omega) (by omega)).mpr (by omega)
  have := length_joined_le '.' _ hle
  rw [List.length_map, hlen] at this
  exact this

section Groups

variable {groups : List Nat}

theorem digits_length_le (h : ∀ g ∈ groups, g < 65536) :
    ∀ t ∈ groups.map (Nat.toDigits 16), t.length ≤ 4 := by
  intro t ht
  obtain ⟨g, hg, rfl⟩ := List.mem_map.mp ht
  exact (Nat.length_toDigits_le_iff (by omega) (by omega)).mpr (h g hg)

theorem length_groupText_le (h : ∀ g ∈ groups, g < 65536) :
    (groupText groups).length ≤ 5 * groups.length - 1 := by
  have := length_joined_le ':' _ (digits_length_le h)
  rwa [List.length_map] at this

/-- A group is printed with four digits from `0x1000` on. -/
theorem length_groupText_eq_iff (hne : groups ≠ []) (h : ∀ g ∈ groups, g < 65536) :
    (groupText groups).length + 1 = 5 * groups.length ↔ ∀ g ∈ groups, 4096 ≤ g := by
  have hiff := length_joined_eq_iff ':' _ (by rwa [Ne, List.map_eq_nil_iff]) (digits_length_le h)
  rw [List.length_map] at hiff
  refine hiff.trans ?_
  rw [List.forall_mem_map]
  refine forall₂_congr fun g hg => ?_
  have h4 : (Nat.toDigits 16 g).length ≤ 4 :=
    digits_length_le h _ (List.mem_map_of_mem hg)
  have h3 : (Nat.toDigits 16 g).length ≤ 3 ↔ g < 4096 :=
    Nat.length_toDigits_le_iff (by omega) (by omega)
  omega

/-- A compressed text has at most six groups left. -/
theorem length_compressed_le {start len : Nat} (h : ∀ g ∈ groups, g < 65536)
    (hlen : groups.length = 8) (hrun : start + len ≤ 8) (htwo : 2 ≤ len) :
    (groupText (groups.take start) ++
      ':' :: ':' :: groupText (groups.drop (start + len))).length ≤ 32 := by
  have htake : (groupText (groups.take start)).length ≤ _ :=
    length_groupText_le fun g hg => h g (List.mem_of_mem_take hg)
  have hdrop : (groupText (groups.drop (start + len))).length ≤ _ :=
    length_groupText_le fun g hg => h g (List.mem_of_mem_drop hg)
  rw [List.length_take] at htake
  rw [List.length_drop] at hdrop
  rw [List.length_append, List.length_cons, List.length_cons]
  omega

theorem length_mapped_le (h : ∀ g ∈ groups, g < 65536) (hlen : groups.length = 8) :
    ([':', ':', 'f', 'f', 'f', 'f', ':'] ++
      ntop4 ((groups.drop 6).flatMap fun g => [g / 256, g % 256])).length ≤ 22 := by
  obtain ⟨g₁, g₂, hd⟩ : ∃ g₁ g₂, groups.drop 6 = [g₁, g₂] :=
    List.length_eq_two.mp (by rw [List.length_drop, hlen])
  have h₁ : g₁ < 65536 := h g₁ (List.mem_of_mem_drop (hd ▸ List.mem_cons_self))
  have h₂ : g₂ < 65536 :=
    h g₂ (List.mem_of_mem_drop (hd ▸ List.mem_cons_of_mem _ (List.mem_singleton_self g₂)))
  have hbytes : ∀ b ∈ [g₁ / 256, g₁ % 256, g₂ / 256, g₂ % 256], b < 256 := by
    simp only [List.forall_mem_cons, List.not_mem_nil, false_implies, implies_true, and_true]
    omega
  have := length_ntop4_le rfl hbytes
  rw [hd, List.length_append]
  exact Nat.add_le_add_left this 7

/-- The text of an IPv6 address has at most 39 characters, and has 39 when every
group needs its four digits, and only then. -/
theorem length_ntop6 (h : ∀ g ∈ groups, g < 65536) (hlen : groups.length = 8) :
    (ntop6 groups).length ≤ 39 ∧
      ((ntop6 groups).length = 39 ↔ ∀ g ∈ groups, 4096 ≤ g) := by
  have hzero : 0 ∈ groups → ¬ ∀ g ∈ groups, 4096 ≤ g := fun h0 hall => by
    have := hall 0 h0
    omega
  unfold ntop6
  by_cases hm : isMapped groups = true
  · have hle := length_mapped_le h hlen
    have h0 : 0 ∈ groups.take 6 := of_decide_eq_true hm ▸ List.mem_cons_self
    rw [if_pos hm]
    refine ⟨by omega, fun heq => absurd heq (by omega), fun hall => ?_⟩
    exact absurd hall (hzero (List.mem_of_mem_take h0))
  · rw [if_neg hm]
    by_cases hshort : (bestRun groups).2 < 2
    · have hle := length_groupText_le h
      have hiff := length_groupText_eq_iff (by intro hnil; rw [hnil] at hlen; cases hlen) h
      rw [hlen] at hle hiff
      simp only [hshort, if_true]
      refine ⟨by omega, ?_⟩
      rw [← hiff]
      omega
    · have hrun := bestRun_le groups
      have hle := length_compressed_le h hlen (hlen ▸ hrun) (Nat.le_of_not_lt hshort)
      simp only [hshort, if_false]
      refine ⟨by omega, fun heq => absurd heq (by omega), fun hall => ?_⟩
      -- without a zero group there is no run to compress
      have hnone : bestRun groups = (0, 0) := bestRun_of_not_mem fun h0 => hzero h0 hall
      rw [hnone] at hshort
      exact absurd (Nat.zero_lt_two) hshort

end Groups

example : ntop6 [0x2001, 0xdb8, 0, 0, 1, 0, 0, 1] = "2001:db8::1:0:0:1".toList := by decide

end Manhattan.Lib
