import Manhattan.Lib.Search
import Manhattan.Lib.Text

/-!
# Replacing in place (`replace` of `sm.cpp`)

`replace` builds the new text in a temporary array of twice the old text's length and
copies it back. The loop keeps a cursor `last` behind the last occurrence; each round
appends the text up to the next occurrence and the replacement.

Twice the length is enough for some texts only. A replacement that is three characters
for one needs more than half of the text to be something else, and the empty text gets an
array of no characters at all, in which not even the terminator of the new text has a
place. `replace_iff` counts.

Mirroring notes:
- The cursor is the rest of the text from there on.
- `Fault.overflow` is a character or a terminator outside the temporary array or the
  caller's. `Fault.rounds` is a loop that has not ended after as many rounds as the text
  has characters; it does not occur.
- `malloc` succeeds.
-/

namespace Manhattan.Middleware.Replace

open Manhattan.Lib

inductive Fault where
  | overflow
  | rounds
  deriving DecidableEq, Repr

/-- `strcat` and `strncat`: the longer text with its terminator, in `len` characters. -/
def append (len : Nat) (newStr t : Text) : Except Fault Text :=
  if (newStr ++ t).length < len then .ok (newStr ++ t) else .error .overflow

/-- One round: the text from `last` to `start`, and the replacement. -/
def replaceRound (len : Nat) (newSub newStr last start : Text) : Except Fault Text :=
  if start.length < last.length then do
    let newStr ← append len newStr (last.take (last.length - start.length))
    append len newStr newSub
  else append len newStr newSub

/-- The loop of `replace`, and the text behind the last occurrence. -/
def replaceLoop (len : Nat) (sub newSub : Text) : Nat → Text → Text → Except Fault Text
  | 0, _, _ => .error .rounds
  | n + 1, newStr, last =>
    match strstr sub last with
    | some start => do
      let newStr ← replaceRound len newSub newStr last start
      replaceLoop len sub newSub n newStr (start.drop sub.length)
    | none => if last = [] then .ok newStr else append len newStr last

/-- `replace`, of a string in an array of `size` characters. -/
def replace (size : Nat) (sub newSub str : Text) : Except Fault Text := do
  let lenStr := str.length * 2
  -- the terminator of the empty `new_str`
  let newStr ← append lenStr [] []
  let newStr ← replaceLoop lenStr sub newSub (str.length + 1) newStr str
  append size [] newStr

/-! ## The loop -/

section

variable {len : Nat} {newStr t : Text}

theorem append_ok (h : newStr.length + t.length < len) : append len newStr t = .ok (newStr ++ t) :=
  if_pos (by rwa [List.length_append])

theorem append_error (h : ¬newStr.length + t.length < len) :
    append len newStr t = .error .overflow :=
  if_neg (by rwa [List.length_append])

end

/-- The array holds every text on the way if it holds the last one: each part only adds
to it. -/
theorem append_append (len : Nat) (newStr t u : Text) :
    (append len newStr t).bind (fun r => append len r u) = append len newStr (t ++ u) := by
  by_cases ht : newStr.length + t.length < len
  · rw [append_ok ht]
    show append len (newStr ++ t) u = _
    unfold append
    rw [List.append_assoc]
  · rw [append_error ht, append_error (by rw [List.length_append]; omega)]
    rfl

theorem replaceRound_eq (len : Nat) (newSub newStr a start : Text) :
    replaceRound len newSub newStr (a ++ start) start = append len newStr (a ++ newSub) := by
  have hbefore : (a ++ start).take ((a ++ start).length - start.length) = a := by
    rw [List.length_append, Nat.add_sub_cancel, List.take_left]
  unfold replaceRound
  rw [hbefore]
  split
  next => exact append_append len newStr a newSub
  next hlen =>
    have ha : a = [] := List.eq_nil_of_length_eq_zero (by rw [List.length_append] at hlen; omega)
    rw [ha, List.nil_append]

section

variable {sub : Text} (hne : sub ≠ []) (newSub : Text)

include hne

theorem replaceLoop_eq {len : Nat} : ∀ (n : Nat) {newStr last : Text}, last.length < n →
    newStr.length < len →
    replaceLoop len sub newSub n newStr last = append len newStr (replaceAll sub newSub last)
  | 0, _, _, hn, _ => absurd hn (Nat.not_lt_zero _)
  | n + 1, newStr, last, hn, hlen => by
    rw [replaceLoop]
    cases hs : strstr sub last with
    | none =>
      rw [replaceAll_of_none hs]
      by_cases hlast : last = []
      · rw [hlast, append_ok hlen, List.append_nil]
        rfl
      · exact if_neg hlast
    | some start =>
      obtain ⟨a, b, rfl, rfl, hrep⟩ := replaceAll_of_strstr hne newSub hs
      have hpos := List.length_pos_of_ne_nil hne
      rw [List.length_append, List.length_append] at hn
      have hrest : (append len newStr (a ++ newSub)).bind
          (fun r => replaceLoop len sub newSub n r b) =
          (append len newStr (a ++ newSub)).bind fun r =>
            append len r (replaceAll sub newSub b) := by
        by_cases hround : newStr.length + (a ++ newSub).length < len
        · rw [append_ok hround]
          exact replaceLoop_eq n (by omega) (by rwa [List.length_append])
        · rw [append_error hround]
          rfl
      show (replaceRound len newSub newStr (a ++ (sub ++ b)) (sub ++ b)).bind
        (fun r => replaceLoop len sub newSub n r ((sub ++ b).drop sub.length)) = _
      rw [replaceRound_eq, List.drop_left, hrest, append_append, hrep, List.append_assoc]

/-- Room in both arrays: `k` occurrences trade the length of `sub` for that of `newSub`. -/
def Fits (size : Nat) (sub newSub str : Text) : Prop :=
  let k := occurrences sub str
  str.length + k * newSub.length < 2 * str.length + k * sub.length ∧
    str.length + k * newSub.length < size + k * sub.length

instance decFits (size : Nat) (sub newSub str : Text) : Decidable (Fits size sub newSub str) :=
  inferInstanceAs (Decidable (_ ∧ _))

theorem fits_iff (size : Nat) (str : Text) :
    Fits size sub newSub str ↔
      (replaceAll sub newSub str).length < 2 * str.length ∧
        (replaceAll sub newSub str).length < size := by
  have hlen := length_replaceAll hne newSub str
  unfold Fits
  dsimp only
  omega

theorem replace_eq_bind {str : Text} (hstr : 0 < str.length * 2) (size : Nat) :
    replace size sub newSub str =
      (append (str.length * 2) [] (replaceAll sub newSub str)).bind (append size []) := by
  have hloop : replaceLoop (str.length * 2) sub newSub (str.length + 1) [] str = _ :=
    replaceLoop_eq hne newSub _ (Nat.lt_succ_self _) hstr
  show (append (str.length * 2) [] []).bind (fun s =>
    (replaceLoop (str.length * 2) sub newSub (str.length + 1) s str).bind (append size [])) = _
  rw [append_ok hstr]
  show (replaceLoop (str.length * 2) sub newSub (str.length + 1) [] str).bind _ = _
  rw [hloop]

theorem replace_ok {size : Nat} {str : Text} (h : Fits size sub newSub str) :
    replace size sub newSub str = .ok (replaceAll sub newSub str) := by
  obtain ⟨htemp, hsize⟩ := (fits_iff hne newSub size str).mp h
  rw [replace_eq_bind hne newSub (by omega), append_ok (by rw [List.length_nil]; omega)]
  exact append_ok (by rwa [List.nil_append, List.length_nil, Nat.zero_add])

theorem replace_error {size : Nat} {str : Text} (h : ¬Fits size sub newSub str) :
    replace size sub newSub str = .error .overflow := by
  rw [fits_iff hne] at h
  by_cases hstr : 0 < str.length * 2
  · rw [replace_eq_bind hne newSub hstr]
    by_cases htemp : ([] : Text).length + (replaceAll sub newSub str).length < str.length * 2
    · rw [append_ok htemp]
      rw [List.length_nil] at htemp
      exact append_error (by rw [List.nil_append, List.length_nil]; omega)
    · rw [append_error htemp]
      rfl
  · show (append (str.length * 2) [] []).bind _ = _
    rw [append_error hstr]
    rfl

end

/-- For every text and every pattern that is not empty the loop ends, and what `replace`
leaves is the text with the occurrences replaced, exactly if the arrays have room. -/
theorem replace_iff (size : Nat) (c : Char) (p newSub str : Text) :
    replace size (c :: p) newSub str ≠ .error .rounds ∧
      (replace size (c :: p) newSub str = .ok (replaceAll (c :: p) newSub str) ↔
        Fits size (c :: p) newSub str) := by
  have hne : c :: p ≠ [] := List.cons_ne_nil c p
  by_cases h : Fits size (c :: p) newSub str
  · rw [replace_ok hne newSub h]
    exact ⟨nofun, iff_of_true rfl h⟩
  · rw [replace_error hne newSub h]
    exact ⟨nofun, iff_of_false nofun h⟩

/-- The value `a=b=` grows from four characters to eight, which leaves no room for the
terminator; the empty value has none to begin with. -/
theorem replace_overflows :
    replace 100000 "=".toList "%3D".toList "a=b=".toList = .error .overflow ∧
      replaceAll "=".toList "%3D".toList "a=b=".toList = "a%3Db%3D".toList ∧
      replace 100000 "&#x3a;".toList "%3A".toList [] = .error .overflow := by
  decide

end Manhattan.Middleware.Replace
