/-!
# Serial numbers

Protocols number their messages modulo some `n` and compare two numbers by the sign of their
difference: `x` comes after `y` if it is less than half a turn ahead. This is an order only as
long as all numbers in use lie within half a turn.

`gt n x y` is that comparison, for `n` even. `gt_iff` says that under these conditions it
compares the unbounded numbers behind `x` and `y`.
-/

namespace Manhattan.Lib.Serial

/-- `x` is ahead of `y`, by less than half a turn. -/
def gt (n x y : Nat) : Bool :=
  decide (0 < (x + (n - y)) % n) && decide ((x + (n - y)) % n < n / 2)

variable {n s i j : Nat}

/-- How far the `i`-th number from `s` on is ahead of the `j`-th one. -/
theorem ahead (hj : j ≤ i) (hij : i < j + n) :
    ((s + i) % n + (n - (s + j) % n)) % n = i - j := by
  have hn : 0 < n := by omega
  have hlt := Nat.mod_lt (s + j) hn
  obtain ⟨d, rfl⟩ := Nat.exists_eq_add_of_le hj
  have hd : d < n := by omega
  rw [show s + (j + d) = (s + j) + d by omega, Nat.add_mod (s + j) d n, Nat.mod_eq_of_lt hd]
  generalize (s + j) % n = r at hlt
  by_cases hr : r + d < n
  · rw [Nat.mod_eq_of_lt hr, show r + d + (n - r) = d + n by omega, Nat.add_mod_right,
      Nat.mod_eq_of_lt hd]
    omega
  · have hwrap : (r + d) % n = r + d - n := by
      rw [Nat.mod_eq_sub_mod (by omega), Nat.mod_eq_of_lt (by omega)]
    rw [hwrap, show r + d - n + (n - r) = d by omega, Nat.mod_eq_of_lt hd]
    omega

theorem gt_iff (hn : n % 2 = 0) (hij : i < j + n / 2) (hji : j < i + n / 2) :
    gt n ((s + i) % n) ((s + j) % n) = true ↔ j < i := by
  have hpos : 0 < n := by omega
  unfold gt
  rw [Bool.and_eq_true, decide_eq_true_iff, decide_eq_true_iff]
  rcases Nat.le_total j i with hle | hle
  · rw [ahead hle (by omega)]
    omega
  · -- the other way round: ahead by the rest of the turn
    have h := ahead (n := n) (s := s) hle (by omega)
    have hi := Nat.mod_lt (s + i) hpos
    have hj := Nat.mod_lt (s + j) hpos
    generalize (s + i) % n = a at h hi
    generalize (s + j) % n = b at h hj
    have : (a + (n - b)) % n = if a = b then 0 else n - (j - i) := by
      split
      · next hab => rw [hab, Nat.add_sub_cancel' (Nat.le_of_lt hj), Nat.mod_self]
      · next hab =>
        rcases Nat.lt_or_ge a b with hlt | hge
        · rw [show b + (n - a) = b - a + n by omega, Nat.add_mod_right,
            Nat.mod_eq_of_lt (by omega)] at h
          rw [Nat.mod_eq_of_lt (by omega)]
          omega
        · rw [Nat.mod_eq_of_lt (by omega)] at h
          rw [show a + (n - b) = a - b + n by omega, Nat.add_mod_right,
            Nat.mod_eq_of_lt (by omega)]
          omega
    rw [this]
    split <;> omega

end Manhattan.Lib.Serial
