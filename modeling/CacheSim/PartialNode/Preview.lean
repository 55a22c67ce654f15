import CacheSim.PartialNode.Progress

/-!
# The preview of the next victim

`pick_victim` goes through the orphans and the pool as `pn_evict_n` does, but not through the small
queue between them.
-/

namespace CacheSim.PartialNode

open Lib Radix PrefixRadixTree Option

section

variable {ε β : Type} (A : Algorithm ε β) (s : State ε)

end

variable {ε β : Type} {A : Algorithm ε β} {R : ObjId → List ObjId} {s s' : State ε}

/-- A score does not depend on the random numbers, or on whether the cache has evicted: what it may depend on is
on the object or in `n_req`. -/
def Steady (A : Algorithm ε β) : Prop :=
  ∀ (u : State ε) (n : Nat) (b : Bool) (id : ObjId) (obj : Obj),
    A.score { u with n_rand := n, has_evicted := b } id obj = A.score u id obj

end CacheSim.PartialNode
