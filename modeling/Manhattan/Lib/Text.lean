import Mathlib.Algebra.Group.Nat.Defs
import Mathlib.Data.List.TakeWhile

/-!
# Text as C code takes it apart

A text is a list of characters, a character array a list that is continued with NUL
characters. `atoi` is the library function without its limits: white space, a sign,
digits, and whatever follows is ignored. `decimal` writes what `atoi` reads.

The readers of configuration files take a line apart at one character, in two ways: the
text before and after its first occurrence (`upTo`, `after`), and the pieces between its
occurrences (`pieces`).
-/

namespace Manhattan.Lib

abbrev Text := List Char

/-! ## Character arrays -/

def nul : Char := Char.ofNat 0

/-- A text is copied to the front of an array, with a NUL after it. -/
def store (t array : Text) : Text := t ++ nul :: array.drop (t.length + 1)

/-- The string an array holds. -/
def cstr (array : Text) : Text := array.takeWhile (· ≠ nul)

/-- The string of an array that begins with a text. -/
theorem cstr_append_left {t : Text} (h : nul ∉ t) (rest : Text) :
    cstr (t ++ rest) = t ++ cstr rest := by
  unfold cstr
  rw [List.takeWhile_append_of_pos]
  intro c hc
  exact decide_eq_true (fun e => h (e ▸ hc))

theorem cstr_append {t : Text} (h : nul ∉ t) (rest : Text) : cstr (t ++ nul :: rest) = t := by
  rw [cstr_append_left h]
  simp [cstr]

theorem cstr_eq_self {t : Text} (h : nul ∉ t) : cstr t = t :=
  List.takeWhile_eq_self_iff.mpr fun _ hc => decide_eq_true fun e => h (e ▸ hc)

theorem cstr_store {t : Text} (h : nul ∉ t) (array : Text) : cstr (store t array) = t :=
  cstr_append h _

theorem store_length {t array : Text} (h : t.length < array.length) :
    (store t array).length = array.length := by
  unfold store
  rw [List.length_append, List.length_cons, List.length_drop]
  omega

theorem not_mem_cstr (array : Text) : nul ∉ cstr array := by
  unfold cstr
  intro h
  have hne := List.mem_takeWhile_imp h
  exact of_decide_eq_true hne rfl

/-- An array with a NUL in it holds a string that leaves room for it. -/
theorem cstr_length_lt {array : Text} (h : nul ∈ array) :
    (cstr array).length < array.length := by
  refine lt_of_le_of_ne (List.takeWhile_sublist _).length_le fun hlen => ?_
  have hall : cstr array = array := (List.takeWhile_sublist _).eq_of_length hlen
  exact not_mem_cstr array (hall.symm ▸ h)

/-- `array[n] = 0;` cuts the string to `n` characters. -/
theorem cstr_set (array : Text) (n : Nat) : cstr (array.set n nul) = (cstr array).take n := by
  induction array generalizing n with
  | nil => exact List.take_nil.symm
  | cons c array ih =>
    unfold cstr at ih ⊢
    cases n with
    | zero => rfl
    | succ n =>
      rw [List.set_cons_succ, List.takeWhile_cons, List.takeWhile_cons, ih]
      split
      · rw [List.take_succ_cons]
      · rw [List.take_nil]

/-- `strncpy(array, t, n)`: at most `n` characters, and NULs up to the `n`th. -/
def strncpy (t : Text) (n : Nat) (array : Text) : Text :=
  t.take n ++ List.replicate (n - t.length) nul ++ array.drop n

theorem strncpy_length {t array : Text} {n : Nat} (h : n ≤ array.length) :
    (strncpy t n array).length = array.length := by
  unfold strncpy
  simp only [List.length_append, List.length_take, List.length_replicate, List.length_drop]
  omega

theorem strncpy_take (t : Text) (n : Nat) (array : Text) :
    (strncpy t (n + 1) array).take n = t.take n ++ List.replicate (n - t.length) nul := by
  unfold strncpy
  rw [List.take_append_of_le_length]
  · rw [List.take_append, List.take_take, List.take_replicate, List.length_take]
    congr 2 <;> omega
  · simp only [List.length_append, List.length_take, List.length_replicate]
    omega

/-- `strncpy(array, t, n + 1); array[n] = 0;` keeps `n` characters. -/
theorem cstr_strncpy_set {t : Text} (h : nul ∉ t) {n : Nat} {array : Text}
    (hn : n < array.length) : cstr ((strncpy t (n + 1) array).set n nul) = t.take n := by
  have hmem : nul ∉ t.take n := fun hm => h (List.mem_of_mem_take hm)
  rw [List.set_eq_take_append_cons_drop, strncpy_length hn, if_pos hn, strncpy_take]
  cases n - t.length with
  | zero => rw [List.replicate_zero, List.append_nil, cstr_append hmem]
  | succ k => rw [List.replicate_succ, List.append_assoc, List.cons_append, cstr_append hmem]

/-! ## Taking a text apart -/

/-- The text before the first `c`, or all of it. -/
def upTo (c : Char) (t : Text) : Text := t.takeWhile (· ≠ c)

/-- The text after the first `c`, if there is one. -/
def after (c : Char) : Text → Option Text
  | [] => none
  | x :: t => if x = c then some t else after c t

/-- The pieces between the occurrences of `c`. A `c` at the end starts no further piece. -/
def pieces (c : Char) : Text → List Text
  | [] => []
  | x :: t =>
    if x = c then [] :: pieces c t
    else
      match pieces c t with
      | [] => [[x]]
      | p :: ps => (x :: p) :: ps

/-- The texts one after another, with `sep` between them. -/
def joined (sep : Char) : List Text → Text
  | [] => []
  | [t] => t
  | t :: u :: ts => t ++ sep :: joined sep (u :: ts)

theorem upTo_append {c : Char} {t : Text} (h : c ∉ t) (rest : Text) :
    upTo c (t ++ c :: rest) = t := by
  unfold upTo
  rw [List.takeWhile_append_of_pos]
  · simp
  · intro x hx
    exact decide_eq_true (fun e => h (e ▸ hx))

theorem not_mem_upTo (c : Char) (t : Text) : c ∉ upTo c t := by
  intro h
  have := List.mem_takeWhile_imp h
  simp at this

theorem not_mem_upTo_of_not_mem {x : Char} {t : Text} (h : x ∉ t) (c : Char) : x ∉ upTo c t :=
  fun hx => h ((List.takeWhile_sublist _).subset hx)

theorem upTo_length_le (c : Char) (t : Text) : (upTo c t).length ≤ t.length :=
  (List.takeWhile_sublist _).length_le

/-- There is no `c` in a text, or it is the word before the first one, and what follows. -/
theorem upTo_cases (c : Char) (t : Text) :
    after c t = none ∧ upTo c t = t ∨
      ∃ rest, after c t = some rest ∧ upTo c t ++ c :: rest = t := by
  induction t with
  | nil => exact .inl ⟨rfl, rfl⟩
  | cons x t ih =>
    rw [after]
    by_cases hx : x = c
    · rw [if_pos hx, upTo, List.takeWhile_cons_of_neg (by simpa using hx), hx]
      exact .inr ⟨t, rfl, rfl⟩
    · rw [if_neg hx, upTo, List.takeWhile_cons_of_pos (by simpa using hx)]
      obtain ⟨hafter, hsame⟩ | ⟨rest, hafter, hsplit⟩ := ih
      · exact .inl ⟨hafter, congrArg (x :: ·) hsame⟩
      · exact .inr ⟨rest, hafter, congrArg (x :: ·) hsplit⟩

theorem not_mem_of_after {c x : Char} {t rest : Text} (h : x ∉ t) (hafter : after c t = some rest) :
    x ∉ rest := by
  obtain ⟨hnone, -⟩ | ⟨rest', hsome, hsplit⟩ := upTo_cases c t
  · cases hnone.symm.trans hafter
  · cases hsome.symm.trans hafter
    intro hx
    rw [← hsplit] at h
    exact h (List.mem_append_right _ (List.mem_cons_of_mem _ hx))

theorem pieces_eq {line : Text} (h : line ≠ []) (c : Char) :
    pieces c line = upTo c line :: pieces c ((after c line).getD []) := by
  induction line with
  | nil => exact absurd rfl h
  | cons x t ih =>
    by_cases hx : x = c
    · rw [pieces, if_pos hx, hx]
      simp [upTo, after]
    · have hup : upTo c (x :: t) = x :: upTo c t :=
        List.takeWhile_cons_of_pos (by simpa using hx)
      rw [pieces, if_neg hx, hup, after, if_neg hx]
      cases t with
      | nil => rfl
      | cons y t => rw [ih (List.cons_ne_nil _ _)]

theorem after_length_lt {line : Text} (h : line ≠ []) (c : Char) :
    ((after c line).getD []).length < line.length := by
  induction line with
  | nil => exact absurd rfl h
  | cons x t ih =>
    rw [after, List.length_cons]
    split
    · exact Nat.lt_succ_self _
    · cases t with
      | nil => exact Nat.succ_pos _
      | cons y t => exact Nat.lt_succ_of_lt (ih (List.cons_ne_nil _ _))

/-- Two texts that end at their first `c` are equal if one begins with the other. -/
theorem eq_of_prefix_at {c : Char} {t u : Text} (ht : c ∉ t) (hu : c ∉ u)
    (h : t ++ [c] <+: u ++ [c]) : t = u := by
  obtain ⟨rest, hrest⟩ := h
  have hcut := congrArg (upTo c) hrest
  rwa [List.append_assoc, List.singleton_append, upTo_append ht, upTo_append hu] at hcut

/-! ## Numbers -/

/-- `isspace` -/
def isSpace (c : Char) : Bool := c = ' ' || (9 ≤ c.toNat && c.toNat ≤ 13)

/-- The number the leading digits of a text spell. -/
def digitsValue (t : Text) : Nat := Nat.ofDigitChars 10 (t.takeWhile Char.isDigit) 0

def atoi (t : Text) : Int :=
  match t.dropWhile isSpace with
  | '-' :: ds => -(digitsValue ds : Int)
  | '+' :: ds => digitsValue ds
  | ds => digitsValue ds

def decimal : Int → Text
  | .ofNat n => Nat.toDigits 10 n
  | .negSucc n => '-' :: Nat.toDigits 10 (n + 1)

theorem isDigit_of_mem_digits {n : Nat} {c : Char} (h : c ∈ Nat.toDigits 10 n) :
    c.isDigit = true :=
  Nat.isDigit_of_mem_toDigits (by decide) (by decide) h

theorem digitsValue_digits (n : Nat) : digitsValue (Nat.toDigits 10 n) = n := by
  unfold digitsValue
  rw [List.takeWhile_eq_self_iff.mpr fun c hc => isDigit_of_mem_digits hc]
  exact Nat.ofDigitChars_toDigits (by decide) (by decide)

/-- A digit is neither white space nor a sign. -/
theorem isDigit_bounds {c : Char} (h : c.isDigit = true) : 48 ≤ c.toNat ∧ c.toNat ≤ 57 := by
  unfold Char.isDigit at h
  rw [Bool.and_eq_true] at h
  exact ⟨of_decide_eq_true h.1, of_decide_eq_true h.2⟩

theorem atoi_of_digit {c : Char} (h : c.isDigit = true) (t : Text) :
    atoi (c :: t) = digitsValue (c :: t) := by
  have hb := isDigit_bounds h
  have hspace : isSpace c = false := by
    unfold isSpace
    have hne : c ≠ ' ' := by
      rintro rfl
      exact absurd hb.1 (by decide)
    rw [decide_eq_false hne, decide_eq_false (p := c.toNat ≤ 13) (by omega)]
    simp
  unfold atoi
  rw [List.dropWhile_cons_of_neg (by rw [hspace]; decide)]
  split
  next e => cases e; exact absurd hb.1 (by decide)
  next e => cases e; exact absurd hb.1 (by decide)
  next => rfl

/-- `atoi` reads what `decimal` writes. -/
theorem atoi_decimal (n : Int) : atoi (decimal n) = n := by
  cases n with
  | ofNat n =>
    have hne : Nat.toDigits 10 n ≠ [] := Nat.toDigits_ne_nil
    show atoi (Nat.toDigits 10 n) = n
    cases hd : Nat.toDigits 10 n with
    | nil => exact absurd hd hne
    | cons c t =>
      have hc : c.isDigit = true := isDigit_of_mem_digits (hd ▸ List.mem_cons_self)
      rw [atoi_of_digit hc, ← hd, digitsValue_digits]
  | negSucc n =>
    show -(digitsValue (Nat.toDigits 10 (n + 1)) : Int) = Int.negSucc n
    rw [digitsValue_digits]
    rfl

/-- A number is written without commas and without NUL. -/
theorem not_mem_decimal {c : Char} (hdigit : c.isDigit = false) (hsign : c ≠ '-') (n : Int) :
    c ∉ decimal n := by
  have hdigits : ∀ k : Nat, c ∉ Nat.toDigits 10 k := by
    intro k hc
    rw [isDigit_of_mem_digits hc] at hdigit
    cases hdigit
  cases n with
  | ofNat n => exact hdigits n
  | negSucc n => exact fun h => (List.mem_cons.mp h).elim hsign (hdigits (n + 1))

/-- One character spells a number below ten. -/
theorem atoi_singleton_le (c : Char) : atoi [c] ≤ 9 := by
  by_cases h : c.isDigit = true
  · have hb := isDigit_bounds h
    rw [atoi_of_digit h]
    unfold digitsValue
    rw [List.takeWhile_cons_of_pos h, List.takeWhile_nil]
    show ((10 * 0 + (c.toNat - 48) : Nat) : Int) ≤ 9
    omega
  · have hnone : ∀ t : Text, t = [] ∨ t = [c] → digitsValue t = 0 := by
      rintro t (rfl | rfl)
      · rfl
      · unfold digitsValue
        rw [List.takeWhile_cons_of_neg h]
        rfl
    unfold atoi
    have hdrop : [c].dropWhile isSpace = [] ∨ [c].dropWhile isSpace = [c] := by
      cases hs : isSpace c <;> simp [List.dropWhile, hs]
    split
    next ds e =>
      have hds : ds = [] := by rcases hdrop with e' | e' <;> rw [e'] at e <;> cases e; rfl
      rw [hnone ds (Or.inl hds)]
      decide
    next ds e =>
      have hds : ds = [] := by rcases hdrop with e' | e' <;> rw [e'] at e <;> cases e; rfl
      rw [hnone ds (Or.inl hds)]
      decide
    next => rw [hnone _ hdrop]; decide

/-- A number below ten is written with one character. -/
theorem decimal_of_lt {n : Nat} (h : n < 10) : ∃ c, decimal n = [c] ∧ atoi [c] = n := by
  have hd : decimal n = [n.digitChar] := Nat.toDigits_of_lt_base h
  exact ⟨_, hd, hd ▸ atoi_decimal n⟩

/-! ## Hexadecimal numbers -/

def hexDigit (d : Fin 16) : Char := (Nat.digitChar d).toUpper

/-- The last `width` hexadecimal digits of a number: `%0<width>X`, if it has no more. -/
def hex : Nat → Nat → Text
  | 0, _ => []
  | width + 1, n => hex width (n / 16) ++ [hexDigit (Fin.ofNat 16 n)]

theorem hex_length (width n : Nat) : (hex width n).length = width := by
  induction width generalizing n with
  | zero => rfl
  | succ width ih => rw [hex, List.length_append, ih, List.length_singleton]

theorem hexDigit_injective : ∀ d e : Fin 16, hexDigit d = hexDigit e → d = e := by decide

/-- Different numbers are written differently. -/
theorem hex_injective {width : Nat} :
    ∀ {n m : Nat}, n < 16 ^ width → m < 16 ^ width → hex width n = hex width m → n = m := by
  induction width with
  | zero =>
    intro n m hn hm _
    omega
  | succ width ih =>
    intro n m hn hm h
    obtain ⟨hinit, hlast⟩ := List.append_inj' h rfl
    have hdigit : n % 16 = m % 16 :=
      congrArg Fin.val (hexDigit_injective _ _ (List.head_eq_of_cons_eq hlast))
    have hrest : n / 16 = m / 16 := by
      rw [pow_succ] at hn hm
      exact ih (by omega) (by omega) hinit
    omega

/-- What no digit is, no number contains. -/
theorem not_mem_hex {c : Char} (hc : ∀ d, hexDigit d ≠ c) (width : Nat) :
    ∀ n, c ∉ hex width n := by
  induction width with
  | zero => exact fun _ => List.not_mem_nil
  | succ width ih =>
    intro n h
    rcases List.mem_append.mp h with h | h
    · exact ih _ h
    · exact hc _ (List.mem_singleton.mp h).symm

end Manhattan.Lib
