/-!
# Pools of workers

A pool takes up items in order, one for every worker that is free, so the items at work are always
the first of those that are left. Which of them is finished next is a matter of choice.
-/

namespace HackAssembly

variable {α : Type}

/-- The order in which a pool finishes items. Every choice is an index among the items at work; the
items that are left when there are no more choices are finished in order. -/
def poolOrder (workers : Nat) : List Nat → List α → List α
  | [], items => items
  | choice :: choices, items =>
    let i := min choice (workers - 1)
    match items[i]? with
    | some item => item :: poolOrder workers choices (items.eraseIdx i)
    | none => poolOrder workers choices items

/-- One worker leaves no choice. -/
theorem poolOrder_of_le_one {workers : Nat} (h : workers ≤ 1) (choices : List Nat)
    (items : List α) : poolOrder workers choices items = items := by
  induction choices generalizing items with
  | nil => rfl
  | cons choice choices ih =>
      have hfirst : min choice (workers - 1) = 0 := by omega
      cases items with
      | nil => simp [poolOrder, ih]
      | cons item items => simp [poolOrder, hfirst, ih]

/-- What was finished in some order, in the order of the positions that the items had at first. -/
def inPosition (positions : List Nat) (finished : List α) : List α :=
  ((positions.zip finished).mergeSort fun a b => a.1 ≤ b.1).map Prod.snd

end HackAssembly
