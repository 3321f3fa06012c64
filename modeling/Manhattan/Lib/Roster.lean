import Mathlib.Data.List.Induction
import Mathlib.Data.List.Nodup
import Manhattan.Lib.Udp

/-!
# A list of members

Members join and leave under a key. A join checks that the key is not there and appends;
a leave erases the first entry with the key. The two fit together: keys never repeat, so
the first entry is the only one, and a key is on the list exactly if its last message was
a join (`mem_roster`).

The programs keep the list as records. `map_join` and `map_leave` say that the list of
their keys takes the steps of `Move.apply`; a server all of whose steps do so keeps the
roster of the messages it has received (`respond_roster`).
-/

namespace Manhattan.Lib

inductive Move (K : Type) where
  | join (k : K)
  | leave (k : K)
  deriving DecidableEq, Repr

section

variable {K : Type} [DecidableEq K]

def Move.key : Move K → K
  | .join k => k
  | .leave k => k

def Move.isJoin : Move K → Bool
  | .join _ => true
  | .leave _ => false

def Move.apply (ks : List K) : Move K → List K
  | .join k => if k ∈ ks then ks else ks ++ [k]
  | .leave k => ks.erase k

def roster (moves : List (Move K)) : List K := moves.foldl Move.apply []

/-- The last message under this key was a join. -/
def lastJoins (k : K) (moves : List (Move K)) : Bool :=
  match (moves.filter fun m => m.key = k).getLast? with
  | some m => m.isJoin
  | none => false

theorem roster_snoc (moves : List (Move K)) (m : Move K) :
    roster (moves ++ [m]) = m.apply (roster moves) := by
  simp [roster]

theorem lastJoins_snoc (k : K) (moves : List (Move K)) (m : Move K) :
    lastJoins k (moves ++ [m]) = if m.key = k then m.isJoin else lastJoins k moves := by
  unfold lastJoins
  by_cases h : m.key = k <;> simp [List.filter_append, h]

theorem Move.apply_nodup {ks : List K} (h : ks.Nodup) (m : Move K) : (m.apply ks).Nodup := by
  cases m with
  | join k =>
    simp only [Move.apply]
    split
    case isTrue => exact h
    case isFalse hnot => exact h.append (List.nodup_singleton k) (by simpa using hnot)
  | leave k => exact h.erase k

/-- A move decides about its own key and leaves the others alone. -/
theorem Move.mem_apply {ks : List K} (h : ks.Nodup) (m : Move K) (k : K) :
    k ∈ m.apply ks ↔ if m.key = k then m.isJoin = true else k ∈ ks := by
  cases m with
  | join k' =>
    by_cases hk : k' = k
    · subst hk
      by_cases hmem : k' ∈ ks <;> simp [Move.apply, Move.key, Move.isJoin, hmem]
    · by_cases hmem : k' ∈ ks <;> simp [Move.apply, Move.key, hmem, hk, Ne.symm hk]
  | leave k' =>
    by_cases hk : k' = k
    · subst hk
      simp [Move.apply, Move.key, Move.isJoin, h.not_mem_erase]
    · simp [Move.apply, Move.key, hk, List.mem_erase_of_ne (Ne.symm hk)]

theorem roster_nodup (moves : List (Move K)) : (roster moves).Nodup := by
  induction moves using List.reverseRecOn with
  | nil => exact List.nodup_nil
  | append_singleton moves m ih =>
    rw [roster_snoc]
    exact Move.apply_nodup ih m

theorem mem_roster (moves : List (Move K)) (k : K) :
    k ∈ roster moves ↔ lastJoins k moves = true := by
  induction moves using List.reverseRecOn with
  | nil => simp [roster, lastJoins]
  | append_singleton moves m ih =>
    rw [roster_snoc, Move.mem_apply (roster_nodup moves), lastJoins_snoc]
    split
    case isTrue => rfl
    case isFalse => exact ih

/-! ## Records with a key -/

variable {α : Type} (key : α → K)

theorem map_join (x : α) (xs : List α) :
    (if xs.any fun y => key y = key x then xs else xs ++ [x]).map key =
      Move.apply (xs.map key) (.join (key x)) := by
  have hany : (xs.any fun y => key y = key x) = true ↔ key x ∈ xs.map key := by simp
  simp only [Move.apply]
  by_cases h : key x ∈ xs.map key
  · rw [if_pos (hany.mpr h), if_pos h]
  · rw [if_neg (mt hany.mp h), if_neg h, List.map_append]
    rfl

theorem map_leave (k : K) (xs : List α) :
    (xs.eraseP fun y => key y = k).map key = Move.apply (xs.map key) (.leave k) := by
  show _ = (xs.map key).erase k
  induction xs with
  | nil => rfl
  | cons x xs ih =>
    by_cases h : key x = k
    · simp [h]
    · simp [h, ih]

/-- A server whose keys take the steps of the moves it receives, and change with nothing
else. -/
theorem respond_roster {σ ι ω : Type} {step : σ → ι → σ × ω} {keys : σ → List K}
    {move : ι → Option (Move K)}
    (hstep : ∀ s i, keys (step s i).1 = ((move i).map (Move.apply (keys s))).getD (keys s))
    (is : List ι) {s : σ} (hs : keys s = []) :
    keys (respond step s is).1 = roster (is.filterMap move) := by
  have hfold : keys (respond step s is).1 =
      is.foldl (fun ks i => ((move i).map (Move.apply ks)).getD ks) (keys s) :=
    respond_refines hstep is s
  rw [hfold, hs, roster, List.foldl_filterMap]
  congr 1
  funext ks i
  cases move i <;> rfl

end

end Manhattan.Lib
