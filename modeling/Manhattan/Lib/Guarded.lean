import Mathlib.Logic.Basic

/-!
# Partial operations with a known domain

`Guarded P x a` says of an optional result `x` that it is `a` where `P` holds and
missing where it does not: the exact domain of an operation and its value there, in
one statement. The rules put the domains of the parts of a computation together, in
the order in which the parts run.
-/

namespace Manhattan.Lib

variable {α β : Type} {P Q : Prop} {x : Option α} {a : α}

def Guarded (P : Prop) (x : Option α) (a : α) : Prop := (P → x = some a) ∧ (¬P → x = none)

namespace Guarded

theorem pure (a : α) : Guarded True (some a) a := ⟨fun _ => rfl, fun h => absurd trivial h⟩

theorem ite [Decidable P] (a : α) : Guarded P (if P then some a else none) a :=
  ⟨fun h => if_pos h, fun h => if_neg h⟩

theorem congr (h : Guarded P x a) (hPQ : P ↔ Q) : Guarded Q x a :=
  ⟨fun hq => h.1 (hPQ.mpr hq), fun hq => h.2 fun hp => hq (hPQ.mp hp)⟩

theorem bind {f : α → Option β} {b : β} (h : Guarded P x a) (hf : Guarded Q (f a) b) :
    Guarded (P ∧ Q) (x.bind f) b := by
  constructor
  · intro hpq
    rw [h.1 hpq.1]
    exact hf.1 hpq.2
  · intro hpq
    by_cases hp : P
    · rw [h.1 hp]
      exact hf.2 fun hq => hpq ⟨hp, hq⟩
    · rw [h.2 hp]
      rfl

/-- A last part that cannot fail. -/
theorem bind_some {f : α → Option β} {b : β} (h : Guarded P x a) (hf : f a = some b) :
    Guarded P (x.bind f) b := by
  have hlast : Guarded True (f a) b := by
    rw [hf]
    exact pure b
  exact (h.bind hlast).congr (iff_of_eq (and_true P))

/-- A part behind a test of its own. -/
theorem guard [Decidable Q] (h : Guarded P x a) :
    Guarded (Q ∧ P) (if Q then x else none) a := by
  by_cases hq : Q
  · rw [if_pos hq]
    exact h.congr (and_iff_right hq).symm
  · rw [if_neg hq]
    exact ⟨fun hqp => absurd hqp.1 hq, fun _ => rfl⟩

theorem map (h : Guarded P x a) (f : α → β) : Guarded P (x.map f) (f a) := by
  constructor
  · intro hp
    rw [h.1 hp]
    rfl
  · intro hp
    rw [h.2 hp]
    rfl

theorem isSome_iff (h : Guarded P x a) : x.isSome = true ↔ P := by
  constructor
  · intro hx
    refine Classical.byContradiction fun hp => ?_
    rw [h.2 hp] at hx
    cases hx
  · intro hp
    rw [h.1 hp]
    rfl

theorem eq_some_iff (h : Guarded P x a) {b : α} : x = some b ↔ P ∧ a = b := by
  constructor
  · intro hx
    have hp : P := h.isSome_iff.mp (by rw [hx]; rfl)
    exact ⟨hp, Option.some.inj ((h.1 hp).symm.trans hx)⟩
  · intro hb
    rw [h.1 hb.1, hb.2]

/-- The same for a computation that reports its failures. -/
theorem ofExcept {ε : Type} {y : Except ε α} {e : ε} (hok : P → y = .ok a)
    (herror : ¬P → y = .error e) : Guarded P y.toOption a := by
  constructor
  · intro h
    rw [hok h]
    rfl
  · intro h
    rw [herror h]
    rfl

theorem exceptBind {ε : Type} {y : Except ε α} {f : α → Except ε β} {b : β}
    (h : Guarded P y.toOption a) (hf : Guarded Q (f a).toOption b) :
    Guarded (P ∧ Q) (y.bind f).toOption b := by
  have hbind : (y.bind f).toOption = y.toOption.bind fun a => (f a).toOption := by
    cases y <;> rfl
  rw [hbind]
  exact h.bind hf

theorem exceptBind_ok {ε : Type} {y : Except ε α} {f : α → Except ε β} {b : β}
    (h : Guarded P y.toOption a) (hf : f a = .ok b) : Guarded P (y.bind f).toOption b := by
  have hlast : Guarded True (f a).toOption b := by
    rw [hf]
    exact pure b
  exact (h.exceptBind hlast).congr (iff_of_eq (and_true P))

theorem eq_ok_iff {ε : Type} {y : Except ε α} (h : Guarded P y.toOption a) {b : α} :
    y = .ok b ↔ P ∧ a = b := by
  rw [← h.eq_some_iff]
  cases y with
  | error e => exact iff_of_false nofun nofun
  | ok c => exact ⟨fun hc => by rw [Except.ok.inj hc]; rfl, fun hc => by rw [Option.some.inj hc]⟩

end Guarded

end Manhattan.Lib
