/-!
# A server on a datagram socket

A server takes one datagram at a time, changes its state and sends packets: a step gives
the next state and what is sent. `respond` runs it over a list of inputs and collects what
each of them made it send.

Two rules carry the arguments about such servers: related states that send the same and
stay related send the same over every run (`respond_rel`), and a part of the state that
every step computes from itself and the input alone is the fold of the inputs
(`respond_refines`).
-/

namespace Manhattan.Lib

/-- An IPv4 address and a port. -/
structure SockAddr where
  ip : UInt32
  port : UInt16
  deriving DecidableEq, Repr

structure Datagram where
  src : SockAddr
  buf : List Char
  deriving DecidableEq, Repr

/-- A text sent, with its final `\0`, to an address. -/
structure Packet where
  dst : SockAddr
  text : String
  deriving DecidableEq, Repr

section

variable {σ τ κ ι ω : Type}

def respond (step : σ → ι → σ × ω) : σ → List ι → σ × List ω
  | s, [] => (s, [])
  | s, i :: is =>
    let (s', out) := step s i
    let (t, outs) := respond step s' is
    (t, out :: outs)

theorem respond_cons (step : σ → ι → σ × ω) (s : σ) (i : ι) (is : List ι) :
    respond step s (i :: is) =
      ((respond step (step s i).1 is).1, (step s i).2 :: (respond step (step s i).1 is).2) := rfl

/-- **Simulation.** On the inputs that keep them related, both servers send the same. -/
theorem respond_rel {f : σ → ι → σ × ω} {g : τ → ι → τ × ω} {R : σ → τ → Prop} {ok : ι → Prop}
    (hstep : ∀ {s t i}, ok i → R s t → (f s i).2 = (g t i).2 ∧ R (f s i).1 (g t i).1) :
    ∀ (is : List ι) {s : σ} {t : τ}, (∀ i ∈ is, ok i) → R s t →
      (respond f s is).2 = (respond g t is).2 ∧ R (respond f s is).1 (respond g t is).1 := by
  intro is
  induction is with
  | nil => intro s t _ hR; exact ⟨rfl, hR⟩
  | cons i is ih =>
    intro s t hok hR
    obtain ⟨hout, hR'⟩ := hstep (hok i List.mem_cons_self) hR
    obtain ⟨houts, hR''⟩ := ih (fun j hj => hok j (List.mem_cons_of_mem i hj)) hR'
    rw [respond_cons, respond_cons, hout, houts]
    exact ⟨rfl, hR''⟩

/-- **Refinement.** The part `view` of the state is computed by `next`. -/
theorem respond_refines {f : σ → ι → σ × ω} {view : σ → κ} {next : κ → ι → κ}
    (hstep : ∀ s i, view (f s i).1 = next (view s) i) (is : List ι) (s : σ) :
    view (respond f s is).1 = is.foldl next (view s) := by
  induction is generalizing s with
  | nil => rfl
  | cons i is ih => rw [respond_cons, ih, hstep, List.foldl_cons]

end

end Manhattan.Lib
