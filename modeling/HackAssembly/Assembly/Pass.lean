import HackAssembly.Assembly.Program
import HackAssembly.Source.Cursor

/-!
# Passes over a program

A pass moves a cursor from one instruction to the next and takes each of them into a state. It ends
when no instruction is ahead, or early: at a line of no known shape, or at an instruction that the
state refuses.
-/

namespace HackAssembly

/-- What a pass leaves: the cursor and the state where it ended, and the failure that ended it
early. -/
structure Pass (σ : Type) where
  cursor : Cursor
  state : σ
  failure? : Option Failure

namespace Cursor

def item (c : Cursor) : Except Failure Item :=
  c.statement.map fun statement => ⟨⟨c.lineNumber, c.text⟩, statement⟩

/-- Takes the instructions ahead into a state with `step`, which may refuse one. -/
def pass {σ : Type} (step : σ → Item → σ × Option Failure) (c : Cursor) (s : σ) : Pass σ :=
  if c.hasMore then
    match _h : c.advance with
    | (.error cause, next) => ⟨next, s, some (.bare cause)⟩
    | (.ok (), next) =>
      match next.item with
      | .error failure => ⟨next, s, some failure⟩
      | .ok item =>
        match step s item with
        | (s, some failure) => ⟨next, s, some failure⟩
        | (s, none) => next.pass step s
  else
    ⟨c, s, none⟩
termination_by c.ahead.length
decreasing_by exact length_ahead_lt_of_advance _h

end Cursor

end HackAssembly
