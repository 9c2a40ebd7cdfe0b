import HackAssembly.Text.Bytes

/-!
# The three fields of a computation

A computation word says what the unit computes, where the value is stored and when to jump. Each
field has a closed set of mnemonics; this module lists them as data with their text and their bits.
An operation that reads a second operand comes in two forms, one for the address register and one
for the memory cell that it points to; the selector bit tells them apart.
-/

namespace HackAssembly

/-- The mnemonic of an absent destination or jump. -/
def nullMnemonic : Bytes := ascii "null"

private theorem eq_of_lookup_map {α : Type} (f : α → Bytes) (l : List α) {s : Bytes} {a : α}
    (h : (l.map fun a => (f a, a)).lookup s = some a) : s = f a := by
  induction l with
  | nil => simp at h
  | cons x l ih =>
      simp only [List.map_cons, List.lookup_cons] at h
      cases hx : s == f x with
      | false => exact ih (by simpa [hx] using h)
      | true =>
          rw [hx] at h
          cases h
          exact eq_of_beq hx

/-- The second operand: the address register or the memory cell at its address. -/
inductive Operand
  | address
  | memory
  deriving DecidableEq, Repr

namespace Operand

def letter : Operand → Bytes
  | .address => ascii "A"
  | .memory => ascii "M"

def selector : Operand → BitVec 1
  | .address => 0
  | .memory => 1

end Operand

/-- What a computation computes from the data register and the second operand. -/
inductive Comp
  | zero
  | one
  | minusOne
  | data
  | notData
  | negData
  | dataPlusOne
  | dataMinusOne
  | operand (y : Operand)
  | notOperand (y : Operand)
  | negOperand (y : Operand)
  | operandPlusOne (y : Operand)
  | operandMinusOne (y : Operand)
  | sum (y : Operand)
  | dataMinusOperand (y : Operand)
  | operandMinusData (y : Operand)
  | conjunction (y : Operand)
  | disjunction (y : Operand)
  deriving DecidableEq, Repr

namespace Comp

def mnemonic : Comp → Bytes
  | zero => ascii "0"
  | one => ascii "1"
  | minusOne => ascii "-1"
  | data => ascii "D"
  | notData => ascii "!D"
  | negData => ascii "-D"
  | dataPlusOne => ascii "D+1"
  | dataMinusOne => ascii "D-1"
  | operand y => y.letter
  | notOperand y => ascii "!" ++ y.letter
  | negOperand y => ascii "-" ++ y.letter
  | operandPlusOne y => y.letter ++ ascii "+1"
  | operandMinusOne y => y.letter ++ ascii "-1"
  | sum y => ascii "D+" ++ y.letter
  | dataMinusOperand y => ascii "D-" ++ y.letter
  | operandMinusData y => y.letter ++ ascii "-D"
  | conjunction y => ascii "D&" ++ y.letter
  | disjunction y => ascii "D|" ++ y.letter

/-- The selector bit, zero for an operation without a second operand. -/
def selector : Comp → BitVec 1
  | operand y | notOperand y | negOperand y | operandPlusOne y | operandMinusOne y | sum y
  | dataMinusOperand y | operandMinusData y | conjunction y | disjunction y => y.selector
  | _ => 0

def control : Comp → BitVec 6
  | zero => 0b101010
  | one => 0b111111
  | minusOne => 0b111010
  | data => 0b001100
  | notData => 0b001101
  | negData => 0b001111
  | dataPlusOne => 0b011111
  | dataMinusOne => 0b001110
  | operand _ => 0b110000
  | notOperand _ => 0b110001
  | negOperand _ => 0b110011
  | operandPlusOne _ => 0b110111
  | operandMinusOne _ => 0b110010
  | sum _ => 0b000010
  | dataMinusOperand _ => 0b010011
  | operandMinusData _ => 0b000111
  | conjunction _ => 0b000000
  | disjunction _ => 0b010101

def bits (c : Comp) : BitVec 7 := c.selector ++ c.control

def withOperand (y : Operand) : List Comp :=
  [operand y, notOperand y, negOperand y, operandPlusOne y, operandMinusOne y, sum y,
    dataMinusOperand y, operandMinusData y, conjunction y, disjunction y]

def all : List Comp :=
  [zero, one, minusOne, data, notData, negData, dataPlusOne, dataMinusOne] ++
    withOperand .address ++ withOperand .memory

def table : List (Bytes × Comp) := all.map fun c => (c.mnemonic, c)

def ofMnemonic? (s : Bytes) : Option Comp := table.lookup s

def ofBits? (b : BitVec 7) : Option Comp := all.find? fun c => c.bits == b

theorem mem_all (c : Comp) : c ∈ all := by
  cases c with
  | operand y => cases y <;> decide
  | notOperand y => cases y <;> decide
  | negOperand y => cases y <;> decide
  | operandPlusOne y => cases y <;> decide
  | operandMinusOne y => cases y <;> decide
  | sum y => cases y <;> decide
  | dataMinusOperand y => cases y <;> decide
  | operandMinusData y => cases y <;> decide
  | conjunction y => cases y <;> decide
  | disjunction y => cases y <;> decide
  | _ => decide

theorem ofMnemonic?_mnemonic (c : Comp) : ofMnemonic? c.mnemonic = some c := by
  have h : ∀ c ∈ all, ofMnemonic? c.mnemonic = some c := by decide
  exact h c (mem_all c)

theorem ofMnemonic?_eq_some_iff {s : Bytes} {c : Comp} :
    ofMnemonic? s = some c ↔ s = c.mnemonic := by
  constructor
  · exact eq_of_lookup_map mnemonic all
  · rintro rfl
    exact ofMnemonic?_mnemonic c

theorem ofBits?_bits (c : Comp) : ofBits? c.bits = some c := by
  have h : ∀ c ∈ all, ofBits? c.bits = some c := by decide
  exact h c (mem_all c)

end Comp

inductive Dest
  | null
  | memory
  | data
  | memoryData
  | address
  | addressMemory
  | addressData
  | addressDataMemory
  deriving DecidableEq, Repr

namespace Dest

def mnemonic : Dest → Bytes
  | null => nullMnemonic
  | memory => ascii "M"
  | data => ascii "D"
  | memoryData => ascii "MD"
  | address => ascii "A"
  | addressMemory => ascii "AM"
  | addressData => ascii "AD"
  | addressDataMemory => ascii "ADM"

def bits : Dest → BitVec 3
  | null => 0b000
  | memory => 0b001
  | data => 0b010
  | memoryData => 0b011
  | address => 0b100
  | addressMemory => 0b101
  | addressData => 0b110
  | addressDataMemory => 0b111

def all : List Dest :=
  [null, memory, data, memoryData, address, addressMemory, addressData, addressDataMemory]

def table : List (Bytes × Dest) := all.map fun d => (d.mnemonic, d)

def ofMnemonic? (s : Bytes) : Option Dest := table.lookup s

def ofBits? (b : BitVec 3) : Option Dest := all.find? fun d => d.bits == b

theorem ofMnemonic?_mnemonic (d : Dest) : ofMnemonic? d.mnemonic = some d := by
  cases d <;> decide

theorem ofMnemonic?_eq_some_iff {s : Bytes} {d : Dest} :
    ofMnemonic? s = some d ↔ s = d.mnemonic := by
  constructor
  · exact eq_of_lookup_map mnemonic all
  · rintro rfl
    exact ofMnemonic?_mnemonic d

theorem ofBits?_bits (d : Dest) : ofBits? d.bits = some d := by
  cases d <;> decide

end Dest

/-- On which outcomes of the computation the machine jumps. -/
inductive Jump
  | null
  | positive
  | zero
  | nonnegative
  | negative
  | nonzero
  | nonpositive
  | always
  deriving DecidableEq, Repr

namespace Jump

def mnemonic : Jump → Bytes
  | null => nullMnemonic
  | positive => ascii "JGT"
  | zero => ascii "JEQ"
  | nonnegative => ascii "JGE"
  | negative => ascii "JLT"
  | nonzero => ascii "JNE"
  | nonpositive => ascii "JLE"
  | always => ascii "JMP"

def bits : Jump → BitVec 3
  | null => 0b000
  | positive => 0b001
  | zero => 0b010
  | nonnegative => 0b011
  | negative => 0b100
  | nonzero => 0b101
  | nonpositive => 0b110
  | always => 0b111

def all : List Jump :=
  [null, positive, zero, nonnegative, negative, nonzero, nonpositive, always]

def table : List (Bytes × Jump) := all.map fun j => (j.mnemonic, j)

def ofMnemonic? (s : Bytes) : Option Jump := table.lookup s

def ofBits? (b : BitVec 3) : Option Jump := all.find? fun j => j.bits == b

theorem ofMnemonic?_mnemonic (j : Jump) : ofMnemonic? j.mnemonic = some j := by
  cases j <;> decide

theorem ofMnemonic?_eq_some_iff {s : Bytes} {j : Jump} :
    ofMnemonic? s = some j ↔ s = j.mnemonic := by
  constructor
  · exact eq_of_lookup_map mnemonic all
  · rintro rfl
    exact ofMnemonic?_mnemonic j

theorem ofBits?_bits (j : Jump) : ofBits? j.bits = some j := by
  cases j <;> decide

end Jump

end HackAssembly
