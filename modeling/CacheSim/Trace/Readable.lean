import CacheSim.Trace.Annotate
import CacheSim.Lib.Packed

/-!
# What readers hand out

Requests are counted, their categories are interned in order, and their fields are within their types.
-/

namespace CacheSim.Trace

open Lib List

def Numbered : Int → Interner Bytes → List TraceRequest → Prop
  | _, _, [] => True
  | i, ids, r :: requests => r.index = i ∧ r.category = (intern_category ids r.type r.turn).2 ∧
    Numbered (i + 1) (intern_category ids r.type r.turn).1 requests

/-- The integer fields are within their types, and a type is a C string. -/
structure Sized (r : TraceRequest) : Prop where
  timestamp : IsInt64 r.timestamp
  start_timestamp : IsInt64 r.start_timestamp
  chat_id : IsInt64 r.chat_id
  parent_chat_id : IsInt64 r.parent_chat_id
  input_length : IsInt32 r.input_length
  output_length : IsInt32 r.output_length
  turn : IsInt32 r.turn
  type : 0 ∉ r.type

variable {l l' : List TraceRequest}

theorem numbered_congr {i : Int} {ids : Interner Bytes} (h : l.map untouched = l'.map untouched)
    (hl : Numbered i ids l) : Numbered i ids l' := by
  induction l generalizing i ids l' with
  | nil =>
    cases l' with
    | nil => trivial
    | cons r' l' => cases h
  | cons r l ih =>
    cases l' with
    | nil => cases h
    | cons r' l' =>
      rw [map_cons, map_cons, List.cons.injEq] at h
      have hindex : r.index = r'.index := (congrArg TraceRequest.index h.1 :)
      have hcategory : r.category = r'.category := (congrArg TraceRequest.category h.1 :)
      have htype : r.type = r'.type := (congrArg TraceRequest.type h.1 :)
      have hturn : r.turn = r'.turn := (congrArg TraceRequest.turn h.1 :)
      unfold Numbered at hl ⊢
      rw [← hindex, ← hcategory, ← htype, ← hturn]
      exact ⟨hl.1, hl.2.1, ih h.2 hl.2.2⟩

theorem sized_untouched {r : TraceRequest} : Sized (untouched r) ↔ Sized r :=
  ⟨fun h => ⟨h.1, h.2, h.3, h.4, h.5, h.6, h.7, h.8⟩, fun h => ⟨h.1, h.2, h.3, h.4, h.5, h.6, h.7, h.8⟩⟩

theorem sized_congr (h : l.map untouched = l'.map untouched) (hl : ∀ r ∈ l, Sized r) : ∀ r ∈ l', Sized r := by
  intro r hr
  have hmem : untouched r ∈ l.map untouched := h ▸ mem_map_of_mem hr
  obtain ⟨r', hr', heq⟩ := mem_map.1 hmem
  rw [← sized_untouched, ← heq, sized_untouched]
  exact hl r' hr'

theorem isInt32_int32 (v : Int) : IsInt32 (int32 v) := by
  have hlo := Int.le_bmod (x := v) (m := 2 ^ 32) (by decide)
  have hhi := Int.bmod_lt (x := v) (m := 2 ^ 32) (by decide)
  unfold int32 IsInt32
  omega

end CacheSim.Trace
