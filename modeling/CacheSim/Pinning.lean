import CacheSim.Clock
import CacheSim.Sieve.Proofs
import CacheSim.Slru.Proofs

/-!
# Who honours the pins

LRU, FIFO and Clock always do. Sieve does while its budget lasts, and SLRU while the byte counters
of its segments see the objects.
-/

namespace CacheSim

open Lib

def Lru.Reached (c : Lru Unit) : Prop :=
  ∃ (cache_size : Int) (consider_obj_metadata : Bool), Reach Lru.call (fun _ _ => True)
    { cache_size := cache_size, obj_md_size := if consider_obj_metadata then 16 else 0 } c

def Fifo.Reached (c : Fifo Unit) : Prop :=
  ∃ cache_size : Int, Reach Fifo.call (fun _ _ => True) { cache_size := cache_size } c

def Clock.Reached (s : Clock.State) : Prop :=
  ∃ (cache_size init_freq : Int) (n_bit_counter : Nat),
    Reach Clock.call (fun _ _ => True) (Clock.Clock_init cache_size init_freq n_bit_counter) s

def Sieve.Reached (s : Sieve.State) : Prop :=
  ∃ (cache_size : Int) (consider_obj_metadata : Bool),
    Reach Sieve.call (fun _ _ => True) (Sieve.Sieve_init cache_size consider_obj_metadata) s

def Slru.Reached (s : Slru.State) : Prop :=
  ∃ (cache_size : Int) (consider_obj_metadata : Bool) (n_seg : Nat) (seg_size : Option (Nat → Int)), 0 < n_seg ∧
    Reach Slru.call (fun _ _ => True) (Slru.SLRU_init cache_size consider_obj_metadata n_seg seg_size) s

/-! ## One eviction -/

/-- Under every choice of pins, in every state that holds an object. -/
theorem evict_honours_pins (pin : Pin) :
    (∀ c : Lru Unit, Lru.Reached c → c.q.keys ≠ [] → pin.Honours (fun c x => x ∈ c.q) (Lru.LRU_evict_pinned pin) c) ∧
    (∀ c : Fifo Unit, Fifo.Reached c → c.q.keys ≠ [] → pin.Honours (fun c x => x ∈ c.q) (Fifo.FIFO_evict_pinned pin) c) ∧
    (∀ s : Clock.State, Clock.Reached s → s.fifo.q.keys ≠ [] →
      pin.Honours (fun s x => x ∈ s.fifo.q) (Clock.Clock_evict pin) s) ∧
    (∀ s : Sieve.State, Sieve.Reached s → s.fifo.q.keys ≠ [] →
      (pin.Honours (fun s x => x ∈ s.fifo.q) (Sieve.Sieve_evict pin) s ↔ Sieve.Spares pin s)) ∧
    (∀ s : Slru.State, Slru.Reached s → s.hashtable.keys ≠ [] →
      (pin.Honours (fun s x => x ∈ s.hashtable) (Slru.SLRU_evict pin) s ↔ Slru.Offers pin s)) := by
  refine ⟨fun c _ hne => ?_, fun c _ hne => ?_, fun s _ hne => ?_, ?_, ?_⟩
  · exact Fifo.FIFO_evict_honours pin hne
  · exact Fifo.FIFO_evict_honours pin hne
  · exact Clock.Clock_evict_honours pin hne
  · rintro s ⟨cache_size, md, hreach⟩ hne
    exact Sieve.Sieve_evict_honours_iff (Sieve.inv_of_reach hreach) hne
  · rintro s ⟨cache_size, md, n_seg, seg_size, hn, hreach⟩ -
    exact Slru.SLRU_evict_honours_iff (Slru.inv_of_reach hn hreach)

instance (pin : Pin) (s : Sieve.State) : Decidable (Sieve.Spares pin s) :=
  inferInstanceAs (Decidable ((∀ x ∈ s.fifo.q.keys, _) ∨ (∃ e ∈ s.fifo.q.entries, _) ∨ ∃ x ∈ Sieve.start s, _))

instance (pin : Pin) (s : Slru.State) : Decidable (Slru.Offers pin s) :=
  inferInstanceAs (Decidable (∃ e ∈ s.hashtable.entries, _ ∧ (_ → ∀ x ∈ s.hashtable.keys, _)))

def Pin.Call.read (id : ObjId) : Pin.Call := .get none { obj_id := id }

/-- Objects 1 to 3 fill a Sieve cache and 3 is read. With 1 and 2 pinned the hand passes 1, 2, 3 and
1, and its budget of four ends at 2. In a cache of two segments that counts metadata, hits on two
objects in turn leave both in a segment whose byte counter is negative, and no victim is found. -/
theorem evict_takes_pinned :
    (∃ s : Sieve.State, Sieve.Reached s ∧ s.fifo.q.keys = [3, 2, 1] ∧
      ¬ Pin.Honours (some fun id => id == 1 || id == 2) (fun s x => x ∈ s.fifo.q)
        (Sieve.Sieve_evict (some fun id => id == 1 || id == 2)) s) ∧
    ∃ s : Slru.State, Slru.Reached s ∧ s.hashtable.keys = [2, 1] ∧
      ¬ Pin.Honours none (fun s x => x ∈ s.hashtable) (Slru.SLRU_evict none) s := by
  constructor
  · obtain ⟨s, hs, hkeys, hspares⟩ : ∃ s,
        runs Sieve.call (Sieve.Sieve_init 3 false) [.read 1, .read 2, .read 3, .read 3] = some s ∧
        s.fifo.q.keys = [3, 2, 1] ∧ ¬ Sieve.Spares (some fun id => id == 1 || id == 2) s := by decide +kernel
    have hreach : Reach Sieve.call (fun _ _ => True) (Sieve.Sieve_init 3 false) s := .of_runs (fun _ _ _ => trivial) hs
    refine ⟨s, ⟨3, false, hreach⟩, hkeys, ?_⟩
    rwa [Sieve.Sieve_evict_honours_iff (Sieve.inv_of_reach hreach) (by simp [hkeys])]
  · obtain ⟨s, hs, hkeys, hoffers⟩ : ∃ s,
        runs Slru.call (Slru.SLRU_init 40 true 2 none) [.read 1, .read 2, .read 1, .read 2] = some s ∧
        s.hashtable.keys = [2, 1] ∧ ¬ Slru.Offers none s := by decide +kernel
    have hreach : Reach Slru.call (fun _ _ => True) (Slru.SLRU_init 40 true 2 none) s := .of_runs (fun _ _ _ => trivial) hs
    refine ⟨s, ⟨40, true, 2, none, by decide, hreach⟩, hkeys, ?_⟩
    rwa [Slru.SLRU_evict_honours_iff (Slru.inv_of_reach (by decide) hreach)]

theorem evict_honours_pins_met :
    (∃ s : Sieve.State, Sieve.Reached s ∧ s.fifo.q.keys = [3, 2, 1] ∧
      Pin.Honours (some (· == 1)) (fun s x => x ∈ s.fifo.q) (Sieve.Sieve_evict (some (· == 1))) s) ∧
    ∃ s : Slru.State, Slru.Reached s ∧ s.hashtable.keys = [2, 1] ∧
      Pin.Honours (some (· == 1)) (fun s x => x ∈ s.hashtable) (Slru.SLRU_evict (some (· == 1))) s := by
  obtain ⟨-, -, -, hsieve, hslru⟩ := evict_honours_pins (some (· == 1))
  constructor
  · obtain ⟨s, hs, hkeys, hspares⟩ : ∃ s,
        runs Sieve.call (Sieve.Sieve_init 3 false) [.read 1, .read 2, .read 3, .read 3] = some s ∧
        s.fifo.q.keys = [3, 2, 1] ∧ Sieve.Spares (some (· == 1)) s := by decide +kernel
    have hreached : Sieve.Reached s := ⟨3, false, .of_runs (fun _ _ _ => trivial) hs⟩
    exact ⟨s, hreached, hkeys, (hsieve s hreached (by simp [hkeys])).2 hspares⟩
  · obtain ⟨s, hs, hkeys, hoffers⟩ : ∃ s, runs Slru.call (Slru.SLRU_init 40 true 2 none) [.read 1, .read 2] = some s ∧
        s.hashtable.keys = [2, 1] ∧ Slru.Offers (some (· == 1)) s := by decide +kernel
    have hreached : Slru.Reached s := ⟨40, true, 2, none, by decide, .of_runs (fun _ _ _ => trivial) hs⟩
    exact ⟨s, hreached, hkeys, (hslru s hreached (by simp [hkeys])).2 hoffers⟩

end CacheSim
