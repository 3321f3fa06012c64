import Mathlib.Data.List.Infix

/-!
# Searching in a text (`strstr`, `strchr`) and replacing what is found

A pointer into a text is the part of the text that begins there: `strstr pat s` is `s`
from the first occurrence of `pat` on, and of two pointers into one text the longer one
is the earlier. `strstr_at` finds an occurrence that is known to be there, provided it is
the first; the pattern's first character must not come again in it, or an earlier
occurrence could end inside.

`replaceAll` is the text with every occurrence replaced, from the left and without
overlaps. It is defined by one pass over the text; `replaceAll_of_strstr` and
`replaceAll_of_none` give it occurrence by occurrence, as a loop around `strstr` sees it.
-/

namespace Manhattan.Lib

variable {α : Type}

/-! ## Occurrences in a text of two parts -/

/-- A pattern that begins in `a` ends in `a`, if its first character does not come again
in it. -/
theorem not_prefix_append {x : α} {p a b : List α} (hx : x ∉ p) (ha : a ≠ [])
    (hnot : ¬x :: p <:+: a) :
    ¬x :: p <+: a ++ (x :: b) := by
  intro h
  obtain hle | hlt := Nat.lt_or_ge a.length (x :: p).length |>.symm
  · exact hnot (List.prefix_of_prefix_length_le h (List.prefix_append a _) hle).isInfix
  · -- the pattern covers `a` and at least the `x` behind it
    obtain ⟨y, a, rfl⟩ := List.exists_cons_of_ne_nil ha
    obtain ⟨rest, hrest⟩ :=
      List.prefix_of_prefix_length_le (List.prefix_append (y :: a) (x :: b)) h (Nat.le_of_lt hlt)
    rw [← hrest, List.prefix_append_right_inj] at h
    cases rest with
    | nil =>
      rw [← hrest, List.append_nil] at hlt
      omega
    | cons z rest =>
      obtain ⟨rfl, -⟩ := List.cons_prefix_cons.mp h
      injection hrest with _ htail
      exact hx (htail ▸ List.mem_append_right a List.mem_cons_self)

/-- An occurrence does not reach over a character that is not in the pattern. -/
theorem infix_of_prefix_append_cons {x : α} {pat a b : List α} (hx : x ∉ pat)
    (h : pat <+: a ++ x :: b) : pat <:+: a := by
  obtain hle | hlt := Nat.lt_or_ge a.length pat.length |>.symm
  · exact (List.prefix_of_prefix_length_le h (List.prefix_append a _) hle).isInfix
  · have hcover : a ++ [x] <+: pat :=
      List.prefix_of_prefix_length_le (by simp) h (by simpa [Nat.succ_le_iff] using hlt)
    exact absurd (hcover.subset (by simp)) hx

theorem infix_append_cons {x : α} {pat a b : List α} (hx : x ∉ pat) (h : pat <:+: a ++ x :: b) :
    pat <:+: a ∨ pat <:+: b := by
  induction a with
  | nil =>
    obtain h | h := List.infix_cons_iff.mp h
    · exact .inl (infix_of_prefix_append_cons hx (a := []) h)
    · exact .inr h
  | cons c a ih =>
    obtain h | h := List.infix_cons_iff.mp h
    · exact .inl (infix_of_prefix_append_cons hx h)
    · exact (ih h).imp_left fun h => h.trans (List.suffix_cons c a).isInfix

/-! ## Searching -/

variable [DecidableEq α]

def strstr (pat : List α) : List α → Option (List α)
  | [] => if pat.isPrefixOf [] then some [] else none
  | c :: s => if pat.isPrefixOf (c :: s) then some (c :: s) else strstr pat s

/-- `strchr`, for a character other than the terminator. -/
def strchr (x : α) : List α → Option (List α)
  | [] => none
  | c :: s => if c = x then some (c :: s) else strchr x s

section

variable {pat s r : List α} {x : α}

theorem strstr_some (h : strstr pat s = some r) : r <:+ s ∧ pat <+: r := by
  induction s with
  | nil =>
    rw [strstr] at h
    split at h
    next hp =>
      cases h
      exact ⟨List.suffix_rfl, List.isPrefixOf_iff_prefix.mp hp⟩
    next => cases h
  | cons c s ih =>
    rw [strstr] at h
    split at h
    next hp =>
      cases h
      exact ⟨List.suffix_rfl, List.isPrefixOf_iff_prefix.mp hp⟩
    next =>
      obtain ⟨hsuffix, hbegins⟩ := ih h
      exact ⟨hsuffix.trans (List.suffix_cons c s), hbegins⟩

/-- Every occurrence is at or behind the first one. -/
theorem suffix_of_strstr (h : strstr pat s = some r) {t : List α} (ht : t <:+ s)
    (hp : pat <+: t) : t <:+ r := by
  induction s with
  | nil =>
    rw [List.suffix_nil.mp ht]
    exact List.nil_suffix
  | cons c s ih =>
    rw [strstr] at h
    split at h
    next =>
      cases h
      exact ht
    next hnot =>
      obtain rfl | ht := List.suffix_cons_iff.mp ht
      · exact absurd (List.isPrefixOf_iff_prefix.mpr hp) hnot
      · exact ih h ht

theorem strstr_eq_none (h : strstr pat s = none) {t : List α} (ht : t <:+ s) : ¬pat <+: t := by
  induction s with
  | nil =>
    rw [List.suffix_nil.mp ht]
    rw [strstr] at h
    split at h
    next => cases h
    next hnot => exact fun hp => hnot (List.isPrefixOf_iff_prefix.mpr hp)
  | cons c s ih =>
    rw [strstr] at h
    split at h
    next => cases h
    next hnot =>
      obtain rfl | ht := List.suffix_cons_iff.mp ht
      · exact fun hp => hnot (List.isPrefixOf_iff_prefix.mpr hp)
      · exact ih h ht

theorem strstr_none_of_not_infix (h : ¬pat <:+: s) : strstr pat s = none := by
  cases hs : strstr pat s with
  | none => rfl
  | some r =>
    obtain ⟨hsuffix, hbegins⟩ := strstr_some hs
    exact absurd (hbegins.isInfix.trans hsuffix.isInfix) h

theorem strstr_at {p a : List α} (hx : x ∉ p) (ha : ¬x :: p <:+: a) (b : List α) :
    strstr (x :: p) (a ++ (x :: p ++ b)) = some (x :: p ++ b) := by
  induction a with
  | nil =>
    rw [List.nil_append, List.cons_append, strstr, ← List.cons_append,
      if_pos (List.isPrefixOf_iff_prefix.mpr (List.prefix_append _ b))]
  | cons c a ih =>
    have hnot := not_prefix_append (b := p ++ b) hx (List.cons_ne_nil c a) ha
    rw [List.cons_append, strstr, if_neg, ih fun h => ha (h.trans (List.suffix_cons c a).isInfix)]
    exact fun hp => hnot (List.isPrefixOf_iff_prefix.mp hp)

theorem strchr_some (h : strchr x s = some r) : r <:+ s ∧ ∃ t, r = x :: t := by
  induction s with
  | nil => cases h
  | cons c s ih =>
    rw [strchr] at h
    split at h
    next hc =>
      cases h
      exact ⟨List.suffix_rfl, s, by rw [hc]⟩
    next =>
      obtain ⟨hsuffix, hr⟩ := ih h
      exact ⟨hsuffix.trans (List.suffix_cons c s), hr⟩

theorem strchr_eq_none_iff : strchr x s = none ↔ x ∉ s := by
  induction s with
  | nil => exact iff_of_true rfl List.not_mem_nil
  | cons c s ih =>
    rw [strchr, List.mem_cons, not_or]
    by_cases hc : c = x
    · rw [if_pos hc]
      exact iff_of_false nofun fun h => h.1 hc.symm
    · rw [if_neg hc, ih]
      exact (and_iff_right (Ne.symm hc)).symm

theorem strchr_at {a : List α} (ha : x ∉ a) (b : List α) :
    strchr x (a ++ x :: b) = some (x :: b) := by
  induction a with
  | nil => rw [List.nil_append, strchr, if_pos rfl]
  | cons c a ih =>
    rw [List.mem_cons, not_or] at ha
    rw [List.cons_append, strchr, if_neg (Ne.symm ha.1), ih ha.2]

end

/-! ## Replacing -/

/-- The text with its occurrences of `sub` replaced, once `skip` characters of the last one
are left out. -/
def replaceFrom (sub new : List α) : Nat → List α → List α
  | _, [] => []
  | skip + 1, _ :: s => replaceFrom sub new skip s
  | 0, c :: s =>
    if sub.isPrefixOf (c :: s) then new ++ replaceFrom sub new (sub.length - 1) s
    else c :: replaceFrom sub new 0 s

/-- The text with every leftmost occurrence of `sub` that does not overlap an earlier one
replaced by `new`. -/
def replaceAll (sub new s : List α) : List α := replaceFrom sub new 0 s

/-- The number of these occurrences. -/
def occurrencesFrom (sub : List α) : Nat → List α → Nat
  | _, [] => 0
  | skip + 1, _ :: s => occurrencesFrom sub skip s
  | 0, c :: s =>
    if sub.isPrefixOf (c :: s) then occurrencesFrom sub (sub.length - 1) s + 1
    else occurrencesFrom sub 0 s

def occurrences (sub s : List α) : Nat := occurrencesFrom sub 0 s

section

variable {sub new s : List α}

theorem replaceFrom_drop : ∀ (skip : Nat) (s : List α),
    replaceFrom sub new skip s = replaceAll sub new (s.drop skip)
  | 0, s => rfl
  | skip + 1, [] => by simp [replaceFrom, replaceAll]
  | skip + 1, c :: s => replaceFrom_drop skip s

theorem occurrencesFrom_drop : ∀ (skip : Nat) (s : List α),
    occurrencesFrom sub skip s = occurrences sub (s.drop skip)
  | 0, s => rfl
  | skip + 1, [] => by simp [occurrencesFrom, occurrences]
  | skip + 1, c :: s => occurrencesFrom_drop skip s

theorem replaceAll_cons (c : α) (h : ¬sub <+: c :: s) :
    replaceAll sub new (c :: s) = c :: replaceAll sub new s := by
  have hnot : ¬sub.isPrefixOf (c :: s) = true := fun hp => h (List.isPrefixOf_iff_prefix.mp hp)
  rw [replaceAll, replaceFrom, if_neg hnot]
  rfl

theorem occurrences_cons (c : α) (h : ¬sub <+: c :: s) :
    occurrences sub (c :: s) = occurrences sub s := by
  have hnot : ¬sub.isPrefixOf (c :: s) = true := fun hp => h (List.isPrefixOf_iff_prefix.mp hp)
  rw [occurrences, occurrencesFrom, if_neg hnot]
  rfl

theorem replaceAll_append (hne : sub ≠ []) (b : List α) :
    replaceAll sub new (sub ++ b) = new ++ replaceAll sub new b := by
  obtain ⟨x, p, rfl⟩ := List.exists_cons_of_ne_nil hne
  rw [List.cons_append, replaceAll, replaceFrom, ← List.cons_append,
    if_pos (List.isPrefixOf_iff_prefix.mpr (List.prefix_append _ b)), replaceFrom_drop,
    List.length_cons, Nat.add_sub_cancel, List.drop_left]

theorem occurrences_append (hne : sub ≠ []) (b : List α) :
    occurrences sub (sub ++ b) = occurrences sub b + 1 := by
  obtain ⟨x, p, rfl⟩ := List.exists_cons_of_ne_nil hne
  rw [List.cons_append, occurrences, occurrencesFrom, ← List.cons_append,
    if_pos (List.isPrefixOf_iff_prefix.mpr (List.prefix_append _ b)), occurrencesFrom_drop,
    List.length_cons, Nat.add_sub_cancel, List.drop_left]

/-- The text is read over its non-occurrences and its occurrences. -/
theorem replace_induction {motive : List α → Prop} (hne : sub ≠ []) (nil : motive [])
    (skip : ∀ c s, ¬sub <+: c :: s → motive s → motive (c :: s))
    (hit : ∀ s, motive s → motive (sub ++ s)) : ∀ s, motive s := by
  intro s
  induction hn : s.length using Nat.strong_induction_on generalizing s with
  | _ n ih =>
    cases s with
    | nil => exact nil
    | cons c s =>
      by_cases hp : sub <+: c :: s
      · obtain ⟨b, hb⟩ := hp
        have hpos := List.length_pos_of_ne_nil hne
        rw [← hb]
        rw [← hb, List.length_append] at hn
        exact hit b (ih b.length (by omega) b rfl)
      · rw [List.length_cons] at hn
        exact skip c s hp (ih s.length (by omega) s rfl)

theorem replaceAll_of_none (h : strstr sub s = none) : replaceAll sub new s = s := by
  induction s with
  | nil => rfl
  | cons c s ih =>
    have hnot : ¬sub <+: c :: s := strstr_eq_none h List.suffix_rfl
    rw [strstr, if_neg fun hp => hnot (List.isPrefixOf_iff_prefix.mp hp)] at h
    rw [replaceAll_cons c hnot, ih h]

theorem replaceAll_of_strstr (hne : sub ≠ []) (new : List α) {r : List α}
    (h : strstr sub s = some r) :
    ∃ a b, s = a ++ r ∧ r = sub ++ b ∧
      replaceAll sub new s = a ++ (new ++ replaceAll sub new b) := by
  induction s with
  | nil =>
    rw [strstr] at h
    split at h
    next hp => exact absurd (List.prefix_nil.mp (List.isPrefixOf_iff_prefix.mp hp)) hne
    next => cases h
  | cons c s ih =>
    rw [strstr] at h
    split at h
    next hp =>
      cases h
      obtain ⟨b, hb⟩ := List.isPrefixOf_iff_prefix.mp hp
      refine ⟨[], b, rfl, hb.symm, ?_⟩
      rw [← hb, replaceAll_append hne]
      rfl
    next hnot =>
      obtain ⟨a, b, hs, hr, hrep⟩ := ih h
      refine ⟨c :: a, b, congrArg (c :: ·) hs, hr, ?_⟩
      rw [replaceAll_cons c fun hp => hnot (List.isPrefixOf_iff_prefix.mpr hp), hrep]
      rfl

/-- Every occurrence trades the length of `sub` for that of `new`. -/
theorem length_replaceAll (hne : sub ≠ []) (new s : List α) :
    (replaceAll sub new s).length + occurrences sub s * sub.length =
      s.length + occurrences sub s * new.length := by
  induction s using replace_induction hne with
  | nil => simp [replaceAll, replaceFrom, occurrences, occurrencesFrom]
  | skip c s hnot ih =>
    rw [replaceAll_cons c hnot, occurrences_cons c hnot, List.length_cons, List.length_cons]
    omega
  | hit s ih =>
    rw [replaceAll_append hne, occurrences_append hne, List.length_append, List.length_append,
      Nat.add_mul, Nat.add_mul]
    omega

theorem mem_replaceAll (hne : sub ≠ []) {x : α} (s : List α) (h : x ∈ replaceAll sub new s) :
    x ∈ new ∨ x ∈ s := by
  induction s using replace_induction hne with
  | nil => cases h
  | skip c s hnot ih =>
    rw [replaceAll_cons c hnot] at h
    obtain rfl | h := List.mem_cons.mp h
    · exact .inr List.mem_cons_self
    · exact (ih h).imp_right (List.mem_cons_of_mem c)
  | hit s ih =>
    rw [replaceAll_append hne] at h
    obtain h | h := List.mem_append.mp h
    · exact .inl h
    · exact (ih h).imp_right (List.mem_append_right sub)

/-- A text that goes on is replaced like its two parts, unless an occurrence reaches from
the one into the other: then its first part `q` was left alone before. -/
theorem replaceAll_append_cases (hne : sub ≠ []) (new v rest : List α) :
    replaceAll sub new (v ++ rest) = replaceAll sub new v ++ replaceAll sub new rest ∨
    ∃ u q w, q ≠ [] ∧ q <+: sub ∧ replaceAll sub new v = u ++ q ∧
      replaceAll sub new (v ++ rest) = u ++ (new ++ w) := by
  induction v using replace_induction hne with
  | nil => exact .inl rfl
  | skip c s hnot ih =>
    by_cases hspan : sub <+: c :: s ++ rest
    · have hlt : (c :: s).length < sub.length := by
        refine Nat.lt_of_not_le fun hle => hnot ?_
        exact List.prefix_of_prefix_length_le hspan (List.prefix_append _ rest) hle
      have hq : c :: s <+: sub :=
        List.prefix_of_prefix_length_le (List.prefix_append _ rest) hspan (Nat.le_of_lt hlt)
      have hnone : strstr sub (c :: s) = none := strstr_none_of_not_infix fun h => by
        have := h.length_le
        omega
      obtain ⟨b, hb⟩ := hspan
      refine .inr ⟨[], c :: s, replaceAll sub new b, List.cons_ne_nil c s, hq, ?_, ?_⟩
      · rw [replaceAll_of_none hnone, List.nil_append]
      · rw [← hb, replaceAll_append hne, List.nil_append]
    · rw [List.cons_append] at hspan
      rw [replaceAll_cons c hnot, List.cons_append, replaceAll_cons c hspan]
      obtain ih | ⟨u, q, w, hq, hqs, hv, hvr⟩ := ih
      · exact .inl (by rw [ih, List.cons_append])
      · exact .inr ⟨c :: u, q, w, hq, hqs, by rw [hv, List.cons_append],
          by rw [hvr, List.cons_append]⟩
  | hit s ih =>
    rw [List.append_assoc, replaceAll_append hne, replaceAll_append hne]
    obtain ih | ⟨u, q, w, hq, hqs, hv, hvr⟩ := ih
    · exact .inl (by rw [ih, List.append_assoc])
    · exact .inr ⟨new ++ u, q, w, hq, hqs, by rw [hv, List.append_assoc],
        by rw [hvr, List.append_assoc]⟩

theorem replaceAll_ne_nil (hne : sub ≠ []) (hnew : new ≠ []) {s : List α} (hs : s ≠ []) :
    replaceAll sub new s ≠ [] := by
  cases s with
  | nil => exact absurd rfl hs
  | cons c s =>
    by_cases hp : sub <+: c :: s
    · obtain ⟨b, hb⟩ := hp
      rw [← hb, replaceAll_append hne]
      exact List.append_ne_nil_of_left_ne_nil hnew _
    · rw [replaceAll_cons c hp]
      exact List.cons_ne_nil _ _

/-- A pattern of one character is replaced character by character. -/
theorem replaceAll_singleton (x : α) (s : List α) :
    replaceAll [x] new s = s.flatMap fun c => if c = x then new else [c] := by
  induction s with
  | nil => rfl
  | cons c s ih =>
    rw [List.flatMap_cons, ← ih]
    by_cases hc : c = x
    · subst hc
      exact (replaceAll_append (List.cons_ne_nil c []) s).trans (by rw [if_pos rfl])
    · rw [if_neg hc, replaceAll_cons c fun hp => hc (List.cons_prefix_cons.mp hp).1.symm]
      rfl

end

end Manhattan.Lib
