import HackAssembly.Machine.Mnemonic

/-!
# Machine instructions and their words

An instruction either loads a 16-bit number into the address register or performs a computation.
The word of a load is the number itself; the word of a computation is `111` followed by the seven
bits of the operation, three of the destination and three of the jump. Words are written as sixteen
binary digits, and `decode?` reads them back: a word that starts with `111` is taken for a
computation, every other one for a load.
-/

namespace HackAssembly

/-- A machine word. -/
abbrev Code := BitVec 16

namespace Code

def largest : Nat := 65535

/-- The sixteen binary digits of a word, the highest first. -/
def digits (w : Code) : Bytes :=
  (List.range 16).map fun i => if w.getMsbD i then byte '1' else byte '0'

/-- The word written as sixteen binary digits. -/
def ofDigits? (s : Bytes) : Option Code :=
  if s.length = 16 ∧ s.all (fun b => b == byte '0' || b == byte '1') then
    some (BitVec.ofNat 16 (s.foldl (fun n b => 2 * n + (if b = byte '1' then 1 else 0)) 0))
  else
    none

theorem length_digits (w : Code) : w.digits.length = 16 := by
  rw [digits, List.length_map, List.length_range]

end Code

/-- What one machine word tells the processor to do. -/
inductive Instruction
  | load (value : Code)
  | compute (comp : Comp) (dest : Dest) (jump : Jump)
  deriving DecidableEq, Repr

namespace Instruction

def computeMark : BitVec 3 := 0b111

def encode : Instruction → Code
  | load value => value
  | compute comp dest jump => computeMark ++ comp.bits ++ dest.bits ++ jump.bits

/-- The instruction of a word; a word marked as a computation must name a known operation. -/
def decode? (w : Code) : Option Instruction :=
  if w.extractLsb' 13 3 = computeMark then do
    let comp ← Comp.ofBits? (w.extractLsb' 6 7)
    let dest ← Dest.ofBits? (w.extractLsb' 3 3)
    let jump ← Jump.ofBits? (w.extractLsb' 0 3)
    return compute comp dest jump
  else
    some (load w)

/-- The four fields of a computation word can be cut out again. -/
theorem extract_fields (m d j : BitVec 3) (c : BitVec 7) :
    (m ++ c ++ d ++ j).extractLsb' 13 3 = m ∧ (m ++ c ++ d ++ j).extractLsb' 6 7 = c ∧
      (m ++ c ++ d ++ j).extractLsb' 3 3 = d ∧ (m ++ c ++ d ++ j).extractLsb' 0 3 = j := by
  refine ⟨?_, ?_, ?_, ?_⟩ <;>
    · apply BitVec.eq_of_getLsbD_eq
      intro i hi
      simp only [BitVec.getLsbD_extractLsb', BitVec.getLsbD_append]
      grind

theorem decode?_encode_compute (c : Comp) (d : Dest) (j : Jump) :
    decode? (compute c d j).encode = some (compute c d j) := by
  obtain ⟨hmark, hcomp, hdest, hjump⟩ := extract_fields computeMark d.bits j.bits c.bits
  rw [decode?, encode, if_pos hmark, hcomp, hdest, hjump, Comp.ofBits?_bits, Dest.ofBits?_bits,
    Jump.ofBits?_bits]
  rfl

end Instruction

end HackAssembly
