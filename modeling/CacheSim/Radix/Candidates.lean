import CacheSim.Radix.Proofs

/-!
# The block that represents a node

A node gives its blocks up by rank.
-/

namespace CacheSim.Radix

open Lib PrefixRadixTree List Option

variable {node : Run} {from_tail : Bool} {id : ObjId}

end CacheSim.Radix
