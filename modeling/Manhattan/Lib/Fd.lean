import Mathlib.Data.List.Perm.Subperm

/-!
# Descriptor numbers

POSIX hands out descriptors by one rule: `open`, `socket` and `accept` return
the *lowest* number that is not open in the process. A number is therefore
recycled as soon as it is closed, and this is what every argument about stale
descriptors has to live with. `lowestFree fds` is that rule for a process whose
open descriptors are `fds`.
-/

namespace Manhattan.Lib

/-- The lowest descriptor not in `fds`. Some number up to `fds.length` is free,
so the search is bounded. -/
def lowestFree (fds : List Nat) : Nat :=
  ((List.range (fds.length + 1)).find? fun n => n ∉ fds).getD 0

/-- Among `fds.length + 1` candidates one is free. -/
theorem exists_free (fds : List Nat) : ∃ n ∈ List.range (fds.length + 1), n ∉ fds := by
  by_contra hno
  have hsub : List.range (fds.length + 1) ⊆ fds := by
    intro n hn
    by_contra hf
    exact hno ⟨n, hn, hf⟩
  have hle := (List.subperm_of_subset List.nodup_range hsub).length_le
  rw [List.length_range] at hle
  omega

/-- The search succeeds, and everything below its result is open. -/
theorem lowestFree_spec (fds : List Nat) :
    lowestFree fds ∉ fds ∧ ∀ n < lowestFree fds, n ∈ fds := by
  unfold lowestFree
  cases hf : (List.range (fds.length + 1)).find? fun n => n ∉ fds with
  | none =>
    obtain ⟨n, hn, hfree⟩ := exists_free fds
    have := List.find?_eq_none.mp hf n hn
    exact absurd hfree (by simpa using this)
  | some m =>
    rw [List.find?_range_eq_some] at hf
    obtain ⟨hm, -, hlt⟩ := hf
    refine ⟨by simpa using hm, fun n hn => ?_⟩
    simpa using hlt n hn

theorem lowestFree_not_mem (fds : List Nat) : lowestFree fds ∉ fds :=
  (lowestFree_spec fds).1

end Manhattan.Lib
