import HackAssembly.Build.Pool
import HackAssembly.Proofs.Lists
import Mathlib.Data.List.Perm.Basic

/-!
# What a pool finishes

A pool finishes every item once, whichever choices are made (`poolOrder_perm`). So results that are
put back in the position of their items are the same for all choices (`inPosition_of_perm`).
-/

namespace HackAssembly

variable {α β : Type}

theorem poolOrder_perm (workers : Nat) (choices : List Nat) (items : List α) :
    (poolOrder workers choices items).Perm items := by
  induction choices generalizing items with
  | nil => exact .refl items
  | cons choice choices ih =>
      rw [poolOrder]
      split
      · rename_i item hitem
        obtain ⟨hi, rfl⟩ := List.getElem?_eq_some_iff.mp hitem
        exact ((ih _).cons _).trans (List.getElem_cons_eraseIdx_perm hi)
      · exact ih items

/-- What was finished in order stays in order, also if some items were not finished. -/
theorem inPosition_of_pairwise {positions : List Nat} (h : positions.Pairwise (· ≤ ·))
    {finished : List α} (hlength : finished.length ≤ positions.length) :
    inPosition positions finished = finished := by
  have hsorted : (positions.zip finished).Pairwise fun a b => decide (a.1 ≤ b.1) = true := by
    rw [List.pairwise_iff_getElem] at h ⊢
    intro i j hi hj hij
    rw [List.getElem_zip, List.getElem_zip]
    exact decide_eq_true (h i j _ _ hij)
  rw [inPosition, List.mergeSort_of_pairwise hsorted, List.map_snd_zip hlength]

/-- Results of all items, put back in position. -/
theorem inPosition_of_perm {order : List (α × Nat)} {items : List α}
    (h : order.Perm items.zipIdx) (f : α → β) :
    inPosition (order.map Prod.snd) (order.map fun item => f item.1) = items.map f := by
  let placed : α × Nat → Nat × β := fun item => (item.2, f item.1)
  have hpositions : (items.zipIdx.map placed).Pairwise fun a b => a.1 ≤ b.1 := by
    have hrange : (items.zipIdx.map Prod.snd).Pairwise (· ≤ ·) := by
      rw [List.zipIdx_map_snd]
      exact List.pairwise_le_range' 1
    exact List.pairwise_map.mpr (List.pairwise_map.mp hrange)
  have hsorted : (order.map placed).mergeSort (fun a b => a.1 ≤ b.1) = items.zipIdx.map placed := by
    apply mergeSort_eq_of_perm (h.map placed) hpositions
    -- the position of an item says which item it is
    intro a ha b hb hposition
    obtain ⟨x, hx, rfl⟩ := List.mem_map.mp ha
    obtain ⟨y, hy, rfl⟩ := List.mem_map.mp hb
    rw [List.mem_zipIdx_iff_getElem?] at hx hy
    rw [show x.2 = y.2 from hposition, hy] at hx
    exact congrArg₂ Prod.mk hposition (congrArg f (Option.some.inj hx).symm)
  calc inPosition (order.map Prod.snd) (order.map fun item => f item.1)
      = (((order.map placed).mergeSort fun a b => a.1 ≤ b.1)).map Prod.snd := by
        rw [inPosition, List.zip_map']
    _ = (items.zipIdx.map Prod.fst).map f := by
        rw [hsorted, List.map_map, List.map_map]
        rfl
    _ = items.map f := by rw [List.zipIdx_map_fst]

end HackAssembly
