/-!
# Codecs over a buffer and a position

A writer turns a value into a piece of text, or gives up; a reader is handed the whole
buffer and the place where it stands, and says where it stands afterwards. `Exact` is what
a codec is for: wherever its piece stands in a buffer of at most `N` items, the reader finds
the value and stops behind the piece. What may follow the piece is a parameter `Q`, since a
reader that looks for an optional part has to see that it is not there.

`Exact.all` puts codecs one behind the other.
-/

namespace Manhattan.Lib

variable {σ ε α : Type}

structure Codec (σ ε α : Type) where
  enc : α → Option (List σ)
  dec : List σ → Nat → Except ε (α × Nat)

namespace Codec

/-- What `c` has written for a value with `P` it reads back, in front of text with `Q`. -/
def Exact (c : Codec σ ε α) (N : Nat) (P : α → Prop) (Q : List σ → Prop) : Prop :=
  ∀ a bytes, c.enc a = some bytes → P a → ∀ pre post, Q post →
    (pre ++ (bytes ++ post)).length ≤ N →
    c.dec (pre ++ (bytes ++ post)) pre.length = .ok (a, pre.length + bytes.length)

def encAll : List (Codec σ ε α) → List α → Option (List σ)
  | [], [] => some []
  | c :: cs, a :: as => (c.enc a).bind fun x => (encAll cs as).map (x ++ ·)
  | _, _ => none

def decAll : List (Codec σ ε α) → List σ → Nat → Except ε (List α × Nat)
  | [], _, pos => .ok ([], pos)
  | c :: cs, buf, pos =>
    match c.dec buf pos with
    | .error e => .error e
    | .ok (a, pos) =>
      match decAll cs buf pos with
      | .error e => .error e
      | .ok (as, pos) => .ok (a :: as, pos)

/-- One value of each codec, in order. -/
def all (cs : List (Codec σ ε α)) : Codec σ ε (List α) := ⟨encAll cs, decAll cs⟩

theorem encAll_cons {c : Codec σ ε α} {cs : List (Codec σ ε α)} {as : List α} {bytes : List σ}
    (h : encAll (c :: cs) as = some bytes) :
    ∃ a as' x y, as = a :: as' ∧ c.enc a = some x ∧ encAll cs as' = some y ∧ bytes = x ++ y := by
  cases as with
  | nil => cases h
  | cons a as' =>
    obtain ⟨x, hx, h⟩ := Option.bind_eq_some_iff.mp h
    obtain ⟨y, hy, rfl⟩ := Option.map_eq_some_iff.mp h
    exact ⟨a, as', x, y, rfl, hx, hy, rfl⟩

/-- Codecs are exact one behind the other, if what the later ones write may follow the
earlier ones. -/
theorem Exact.all {ι : Type} {is : List ι} {f : ι → Codec σ ε α} {N : Nat} {P : α → Prop}
    {Q : ι → List σ → Prop} {R : List σ → Prop}
    (hc : ∀ i ∈ is, (f i).Exact N P (Q i))
    (hQ : ∀ l i r, is = l ++ i :: r → ∀ as y post, encAll (r.map f) as = some y → R post →
      Q i (y ++ post)) :
    (all (is.map f)).Exact N (fun as => ∀ a ∈ as, P a) R := by
  induction is with
  | nil =>
    intro as bytes h _ pre post _ _
    cases as with
    | nil => cases h; rfl
    | cons a as => cases h
  | cons i is ih =>
    intro as bytes h hP pre post hR hN
    obtain ⟨a, as', x, y, rfl, hx, hy, rfl⟩ := encAll_cons h
    have hrest := ih (fun j hj => hc j (List.mem_cons_of_mem _ hj))
      (fun l j r his => hQ (i :: l) j r (by rw [his]; rfl))
    rw [List.append_assoc] at hN ⊢
    have hhead := hc i List.mem_cons_self a x hx (hP a List.mem_cons_self) pre (y ++ post)
      (hQ [] i is rfl as' y post hy hR) hN
    have htail := hrest as' y hy (fun b hb => hP b (List.mem_cons_of_mem _ hb)) (pre ++ x) post hR
      (by rw [List.append_assoc]; exact hN)
    rw [List.append_assoc, List.length_append] at htail
    show decAll (f i :: is.map f) _ _ = _
    unfold decAll
    rw [hhead]
    show (match decAll (is.map f) _ _ with | .error e => _ | .ok (as, pos) => _) = _
    rw [show decAll (is.map f) (pre ++ (x ++ (y ++ post))) (pre.length + x.length) = _ from htail,
      List.length_append, Nat.add_assoc]

end Codec

end Manhattan.Lib
