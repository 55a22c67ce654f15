import CacheSim.Session.Budget

/-!
# The ghosts of session S3FIFO

`ghost` is the queue of the sessions that the small queue gave up, `ghost_set` the same sessions for the
lookup.
-/

namespace CacheSim.Session.SessionS3FIFO

open Lib Prefixsim List

variable (rnd : ℚ → ℚ)

/-- The list holds no session twice, the set holds the sessions of the list, and none of them is
live. -/
structure Consistent (p : SessionS3FIFO) (L : Finset SessionId) : Prop where
  nodup : p.ghost.Nodup
  set : ∀ t, t ∈ p.ghost_set ↔ t ∈ p.ghost
  gone : ∀ t ∈ p.ghost, t ∉ L

def capacity (p : SessionS3FIFO) : Nat := p.small.length + p.main.length + 1

def Pushed (p p' : SessionS3FIFO) : Prop :=
  (∃ s, p'.ghost = (p.ghost ++ [s]).drop ((p.ghost ++ [s]).length - p'.capacity)) ∧
    p'.ghost.length ≤ p'.capacity

def Aged (p p' : SessionS3FIFO) : Prop := p'.ghost = p.ghost ∨ Pushed p p'

/-! ## Trimming -/

structure Aging (p₀ p : SessionS3FIFO) (ss : Sessions) : Prop extends Inv p (keySet ss), Consistent p (keySet ss) where
  aged : Relation.ReflTransGen Aged p₀ p

theorem Aging.congr {p₀ p p' : SessionS3FIFO} {ss ss' : Sessions} (h : Aging p₀ p ss) (hinv : Inv p' (keySet ss'))
    (hkey : keySet ss' = keySet ss) (hghost : p'.ghost = p.ghost) (hset : p'.ghost_set = p.ghost_set) :
    Aging p₀ p' ss' := by
  refine ⟨hinv, ⟨hghost ▸ h.nodup, ?_, ?_⟩, h.aged.tail (Or.inl hghost)⟩
  · rw [hghost, hset]
    exact h.set
  · rw [hghost, hkey]
    exact h.gone

variable {rnd} {p₀ : SessionS3FIFO} {c c' : State SessionS3FIFO}

section

variable (h : Holds (fun _ p ss => Aging p₀ p ss) c)
include h

end

end CacheSim.Session.SessionS3FIFO
