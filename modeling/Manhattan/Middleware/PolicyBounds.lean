import Manhattan.Lib.Scan
import Manhattan.Middleware.PolicyModel

/-!
# The bounds of `band` and `cost` clauses (`evaluate` of `PolicyModel.cpp`)

A bound is written `value` or `value-offset`. `evaluate` copies the two numbers into
arrays of five characters, `dataBand` or `dataCost` and `strOffset`, and reads both with
`atoi`. The loop for the offset starts one character behind the end of the value's loop,
which is past the end of the text where there is no `-`: then `strOffset` is read as it
was on the stack.

The text-level `bound` of `PolicyModel` takes what `strOffset` held from its environment
and has room for any number. Here the arrays have their size and no content of their own:
`scanBound` has no result where a character is stored outside or read without having been
stored. `bound_clauses_iff` says for which bounds it has one.

The loops for the two clauses are the same text with another array, and so there is one
definition for them.
-/

namespace Manhattan.Middleware.PolicyBounds

open Manhattan.Lib PolicyModel

/-- `dataBand`, `dataCost` and `strOffset` are `char[5]`. -/
def numberSize : Nat := 5

/-- The two loops and the calls of `atoi`: the value and the offset. -/
def scanBound (data2 : Text) : Option (Int × Int) := do
  let (number, rest) ← scan true numberSize '-' 0 data2
  -- at the end of the text the second loop is not entered and `strOffset` stays as it is
  let rest ← rest
  let (strOffset, _) ← scan true numberSize '-' 0 rest
  return (atoi number, atoi strOffset)

/-- `evaluate` of a `band` clause; `obtBand` is what the network manager reports. -/
def evaluateBand (obtBand : Int) (data2 : Text) : Option Bool :=
  (scanBound data2).map fun b => decide (b.1 - b.2 ≤ obtBand)

/-- `evaluate` of a `cost` clause. -/
def evaluateCost (obtCost : Int) (data2 : Text) : Option Bool :=
  (scanBound data2).map fun b => decide (b.1 + b.2 ≥ obtCost)

/-! ## The text level -/

/-- Where the arrays are long enough and written, they hold what `bound` reads. -/
theorem bound_of_scanBound {data2 : Text} {b : Int × Int} (h : scanBound data2 = some b)
    (strOffset : Text) : bound strOffset data2 = b := by
  unfold scanBound at h
  rw [scan_eq _ (Nat.zero_le _)] at h
  split at h
  · cases hafter : after '-' data2 with
    | none =>
      rw [hafter] at h
      cases h
    | some rest =>
      rw [hafter] at h
      simp only [Option.bind_eq_bind, Option.bind_some, scan_eq rest (Nat.zero_le _)] at h
      split at h
      · injection h with h
        rw [← h]
        unfold bound
        rw [hafter]
        rfl
      · cases h
  · cases h

/-- So `evaluate` agrees, whatever is on its stack. -/
theorem evaluate_of_band {env : Env} {log : List Event} {act : Action} {data2 : Text} {pass : Bool}
    (h : evaluateBand (env.getBandwidth log act.interface) data2 = some pass) :
    (evaluate env log act ⟨.band, data2⟩).1 = pass := by
  obtain ⟨b, hb, rfl⟩ := Option.map_eq_some_iff.mp h
  rw [← bound_of_scanBound hb (env.strOffset log)]
  rfl

theorem evaluate_of_cost {env : Env} {log : List Event} {act : Action} {data2 : Text} {pass : Bool}
    (h : evaluateCost (env.getCost log act.interface) data2 = some pass) :
    (evaluate env log act ⟨.cost, data2⟩).1 = pass := by
  obtain ⟨b, hb, rfl⟩ := Option.map_eq_some_iff.mp h
  rw [← bound_of_scanBound hb (env.strOffset log)]
  rfl

/-! ## Numerals -/

/-- A decimal numeral. -/
structure Numeral where
  digits : Text
  ne : digits ≠ []
  isDigit : ∀ c ∈ digits, c.isDigit = true

def Numeral.value (n : Numeral) : Int := digitsValue n.digits

/-- The text of a bound. -/
def written (value : Numeral) (offset : Option Numeral) : Text :=
  followed '-' value.digits (offset.map Numeral.digits)

/-- The number an offset stands for; there may be none. -/
def offsetValue (offset : Option Numeral) : Int := (offset.map Numeral.value).getD 0

/-- Both numbers are given, and with at most four digits. -/
def Short (value : Numeral) (offset : Option Numeral) : Prop :=
  value.digits.length ≤ 4 ∧ ∃ o, offset = some o ∧ o.digits.length ≤ 4

theorem atoi_numeral (n : Numeral) : atoi n.digits = n.value := by
  unfold Numeral.value
  cases hd : n.digits with
  | nil => exact absurd hd n.ne
  | cons c t => exact atoi_of_digit (n.isDigit c (hd ▸ List.mem_cons_self)) t

theorem Numeral.no_sign (n : Numeral) : '-' ∉ n.digits :=
  fun h => absurd (n.isDigit '-' h) (by decide)

theorem scan_numeral (n : Numeral) (rest : Option Text) :
    scan true numberSize '-' 0 (followed '-' n.digits rest) =
      if n.digits.length ≤ 4 then some (n.digits, rest) else none := by
  have hroom : n.digits.length + 1 ≤ 5 ↔ n.digits.length ≤ 4 := by omega
  rw [scan_followed n.no_sign]
  simp only [Bool.true_or, if_true, numberSize, hroom]

theorem scanBound_written (value : Numeral) (offset : Option Numeral) :
    (scanBound (written value offset) = some (value.value, offsetValue offset) ∧
        Short value offset) ∨
      (scanBound (written value offset) = none ∧ ¬Short value offset) := by
  unfold scanBound written
  rw [scan_numeral]
  by_cases hv : value.digits.length ≤ 4
  · rw [if_pos hv]
    cases offset with
    | none =>
      refine .inr ⟨rfl, fun h => ?_⟩
      obtain ⟨-, o, ho, -⟩ := h
      cases ho
    | some o =>
      have hscan : scan true numberSize '-' 0 o.digits = _ := scan_numeral o none
      simp only [Option.map_some, Option.bind_eq_bind, Option.bind_some, hscan]
      by_cases ho : o.digits.length ≤ 4
      · rw [if_pos ho]
        refine .inl ⟨?_, hv, o, rfl, ho⟩
        simp only [Option.bind_some, atoi_numeral]
        rfl
      · rw [if_neg ho]
        refine .inr ⟨rfl, fun h => ?_⟩
        obtain ⟨-, o', ho', hlen⟩ := h
        cases ho'
        exact ho hlen
  · rw [if_neg hv]
    exact .inr ⟨rfl, fun h => hv h.1⟩

/-- The two clauses are decided as written, and without a character stored outside the
arrays or read before it was stored, exactly for short numbers with an offset. -/
theorem bound_clauses_iff (value : Numeral) (offset : Option Numeral) (reported : Int) :
    (evaluateBand reported (written value offset) =
        some (decide (value.value - offsetValue offset ≤ reported)) ↔ Short value offset) ∧
    (evaluateCost reported (written value offset) =
        some (decide (value.value + offsetValue offset ≥ reported)) ↔ Short value offset) := by
  unfold evaluateBand evaluateCost
  obtain ⟨hscan, hshort⟩ | ⟨hscan, hlong⟩ := scanBound_written value offset
  · rw [hscan]
    exact ⟨iff_of_true rfl hshort, iff_of_true rfl hshort⟩
  · rw [hscan]
    exact ⟨iff_of_false nofun hlong, iff_of_false nofun hlong⟩

/-- `band 500` reads an offset nobody wrote, and `cost 10000-0` stores its terminator
behind `dataCost`. -/
theorem bound_clauses_undefined :
    evaluateBand 510 "500".toList = none ∧ evaluateCost 1 "10000-0".toList = none := by
  decide

end Manhattan.Middleware.PolicyBounds
