import Mathlib.Data.List.Nodup

/-!
# A table served in arrival order

A server keeps a table of entries `(owner, key)`. Clients mail it requests: `add`
appends an entry under a key, `del` deletes *every* entry under a key, whoever
owns it. The requests wait in a queue and are served in arrival order, so what a
client sees now (`t`) and what it will see once the mail is delivered
(`serveAll t q`) differ, and an argument about the table has to be made over the
pair.

`Ready t q` is the discipline that makes keys safe to recycle: when its turn
comes, an `add` finds no entry under its key and a `del` finds none but its
sender's. It is preserved by serving the head (by definition) and by mailing a
request that is safe against the *final* table (`ready_snoc`). `survivors`
reads the present off the future: an entry that is in the final table and has
no `add` left in the queue is in the table now, and shares its key now with no
entry it will not share it with at the end.
-/

namespace Manhattan.Lib

/-- A request to the table, tagged with the client `i` that sent it. -/
inductive Req (ι κ : Type) where
  | add (i : ι) (k : κ)
  | del (i : ι) (k : κ)
  deriving DecidableEq

variable {ι κ : Type} [DecidableEq κ]

/-- Serve one request. -/
def serve (t : List (ι × κ)) : Req ι κ → List (ι × κ)
  | .add i k => t ++ [(i, k)]
  | .del _ k => t.filter fun e => e.2 ≠ k

/-- Serve a whole queue, oldest request first. -/
def serveAll (t : List (ι × κ)) (q : List (Req ι κ)) : List (ι × κ) :=
  q.foldl serve t

theorem serveAll_cons (t : List (ι × κ)) (r : Req ι κ) (q : List (Req ι κ)) :
    serveAll t (r :: q) = serveAll (serve t r) q := rfl

theorem serveAll_snoc (t : List (ι × κ)) (q : List (Req ι κ)) (r : Req ι κ) :
    serveAll t (q ++ [r]) = serve (serveAll t q) r := by
  simp [serveAll]

/-- Each queued request is safe when its turn comes: an `add` finds its key
unused, a `del` finds no entry but its sender's under its key. -/
def Ready : List (ι × κ) → List (Req ι κ) → Prop
  | _, [] => True
  | t, .add i k :: q => (∀ e ∈ t, e.2 ≠ k) ∧ Ready (serve t (.add i k)) q
  | t, .del i k :: q => (∀ e ∈ t, e.2 = k → e.1 = i) ∧ Ready (serve t (.del i k)) q

/-- Serving the head keeps the rest of the queue safe. -/
theorem Ready.tail {t : List (ι × κ)} {r : Req ι κ} {q : List (Req ι κ)}
    (h : Ready t (r :: q)) : Ready (serve t r) q := by
  cases r with
  | add i k => exact h.2
  | del i k => exact h.2

/-- A request that is safe against the final table can be queued. -/
theorem ready_snoc {r : Req ι κ} :
    ∀ (q : List (Req ι κ)) {t : List (ι × κ)}, Ready t q → Ready (serveAll t q) [r] →
      Ready t (q ++ [r]) := by
  intro q
  induction q with
  | nil => intro t _ hr; exact hr
  | cons r' q ih =>
    intro t h hr
    cases r' with
    | add j k' => exact ⟨h.1, ih h.2 hr⟩
    | del j k' => exact ⟨h.1, ih h.2 hr⟩

/-- An entry of the final table that no queued `add` can still create is in the
table already, and everything that now shares its key will still be there at the
end: the `del` that would take the others would have taken it too. -/
theorem survivors {i : ι} {k : κ} :
    ∀ (q : List (Req ι κ)) {t : List (ι × κ)}, (∀ k', Req.add i k' ∉ q) →
      (i, k) ∈ serveAll t q →
      (i, k) ∈ t ∧
        (t.filter fun e => e.2 = k).Sublist ((serveAll t q).filter fun e => e.2 = k) := by
  intro q
  induction q with
  | nil => intro t _ h; exact ⟨h, List.Sublist.refl _⟩
  | cons r q ih =>
    intro t hno h
    rw [serveAll_cons] at h ⊢
    obtain ⟨hin, hsub⟩ := ih (fun k' hk' => hno k' (List.mem_cons_of_mem _ hk')) h
    cases r with
    | add j k' =>
      have hji : j ≠ i := fun e => hno k' (by rw [e]; exact List.mem_cons_self ..)
      have hit : (i, k) ∈ t := by
        rcases List.mem_append.mp hin with ht | hs
        · exact ht
        · rw [List.mem_singleton] at hs
          exact absurd (congrArg Prod.fst hs).symm hji
      refine ⟨hit, List.Sublist.trans ?_ hsub⟩
      rw [serve, List.filter_append]
      exact List.sublist_append_left _ _
    | del j k' =>
      obtain ⟨hit, hkk⟩ := List.mem_filter.mp hin
      have hne : k ≠ k' := by simpa using hkk
      -- nothing under `k` is touched by a `del` under another key
      have hsame : (serve t (.del j k')).filter (fun e => e.2 = k) = t.filter fun e => e.2 = k := by
        rw [serve, List.filter_filter]
        refine List.filter_congr fun e _ => ?_
        by_cases hek : e.2 = k
        · simp [hek, hne]
        · simp [hek]
      rw [hsame] at hsub
      exact ⟨hit, hsub⟩

/-- In a table with distinct keys, the entries under `k` are just the one. -/
theorem filter_key_eq_singleton {i : ι} {k : κ} :
    ∀ {l : List (ι × κ)}, (l.map Prod.snd).Nodup → (i, k) ∈ l →
      (l.filter fun e => e.2 = k) = [(i, k)] := by
  intro l
  induction l with
  | nil => intro _ h; cases h
  | cons e l ih =>
    intro hnd h
    rw [List.map_cons, List.nodup_cons] at hnd
    rcases List.mem_cons.mp h with rfl | hl
    · have hnone : (l.filter fun e => e.2 = k) = [] := by
        rw [List.filter_eq_nil_iff]
        intro a ha hak
        exact hnd.1 (List.mem_map.mpr ⟨a, ha, by simpa using hak⟩)
      rw [List.filter_cons, if_pos (by simp), hnone]
    · have hek : e.2 ≠ k := fun he => hnd.1 (List.mem_map.mpr ⟨(i, k), hl, he.symm⟩)
      rw [List.filter_cons, if_neg (by simpa using hek)]
      exact ih hnd.2 hl

/-- **One entry, its own.** If the final table has distinct keys, an entry of it
with no `add` left in the queue is the only one under its key right now. -/
theorem sole_entry {i : ι} {k : κ} {t : List (ι × κ)} {q : List (Req ι κ)}
    (hno : ∀ k', Req.add i k' ∉ q) (hnd : ((serveAll t q).map Prod.snd).Nodup)
    (h : (i, k) ∈ serveAll t q) : (t.filter fun e => e.2 = k) = [(i, k)] := by
  obtain ⟨hin, hsub⟩ := survivors q hno h
  rw [filter_key_eq_singleton hnd h] at hsub
  have hmem : (i, k) ∈ t.filter fun e => e.2 = k := List.mem_filter.mpr ⟨hin, by simp⟩
  rcases List.sublist_singleton.mp hsub with hnil | hone
  · rw [hnil] at hmem
    cases hmem
  · exact hone

end Manhattan.Lib
