import HackAssembly.Failure
import HackAssembly.Machine.Mnemonic

/-!
# Statements

The three shapes of an instruction: `@target`, `(name)` and `dest=comp;jump`. The shape is decided
by the outermost bytes alone; whether a target or a mnemonic means anything is decided later.
-/

namespace HackAssembly

/-- The three fields of a computation as they are written. -/
structure Fields where
  dest : Bytes
  comp : Bytes
  jump : Bytes
  deriving DecidableEq, Repr

namespace Fields

/-- Splits at the first `=` and then at the first `;`. An absent field is `null`. -/
def ofText (text : Bytes) : Fields :=
  let (dest, rest) := (Bytes.cut? (byte '=') text).getD (nullMnemonic, text)
  let (comp, jump) := (Bytes.cut? (byte ';') rest).getD (rest, nullMnemonic)
  ⟨dest, comp, jump⟩

end Fields

inductive Kind
  | addressLoad
  | computation
  | labelDef
  deriving DecidableEq, Repr

namespace Kind

def name : Kind → Bytes
  | addressLoad => ascii "AddressLoad"
  | computation => ascii "Computation"
  | labelDef => ascii "LabelDef"

/-- The kinds are numbered from zero. -/
def ofCode? : Int → Option Kind
  | 0 => some addressLoad
  | 1 => some computation
  | 2 => some labelDef
  | _ => none

/-- The name of a numbered kind, also of a number that is none. -/
def describe (code : Int) : Bytes :=
  match ofCode? code with
  | some kind => kind.name
  | none => ascii "Kind(" ++ Numeral.ofInt code ++ ascii ")"

end Kind

inductive Statement
  | load (target : Bytes)
  | label (name : Bytes)
  | compute (fields : Fields)
  deriving DecidableEq, Repr

namespace Statement

/-- Decides the shape of an instruction's text. -/
def parse (text : Bytes) : Except Malformation Statement :=
  if text.head? = some (byte '@') then
    if text.length = 1 then .error .emptyAddress else .ok (load text.tail)
  else if text.head? = some (byte '(') ∧ text.getLast? = some (byte ')') then
    if text.length = 2 then .error .emptyLabel else .ok (label text.tail.dropLast)
  else if text.count (byte '=') = 1 ∨ text.count (byte ';') = 1 then
    .ok (compute (Fields.ofText text))
  else
    .error .shape

/-- A load is `@` and a target that is not empty. -/
theorem parse_eq_load_iff {text target : Bytes} :
    parse text = .ok (load target) ↔ text = byte '@' :: target ∧ target ≠ [] := by
  constructor
  · intro h
    unfold parse at h
    split at h
    · rename_i hhead
      obtain ⟨rest, rfl⟩ := List.head?_eq_some_iff.mp hhead
      split at h
      · cases h
      · rename_i hlength
        cases h
        refine ⟨rfl, ?_⟩
        rintro rfl
        exact hlength rfl
    · split at h
      · split at h <;> cases h
      · split at h <;> cases h
  · rintro ⟨rfl, hne⟩
    rw [parse, List.head?_cons, if_pos rfl, if_neg (by simpa using hne), List.tail_cons]

/-- A label is a name that is not empty, in parentheses. -/
theorem parse_eq_label_iff {text name : Bytes} :
    parse text = .ok (label name) ↔ text = byte '(' :: name ++ [byte ')'] ∧ name ≠ [] := by
  constructor
  · intro h
    unfold parse at h
    split at h
    · split at h <;> cases h
    · split at h
      · rename_i hends
        obtain ⟨hhead, hlast⟩ := hends
        obtain ⟨rest, rfl⟩ := List.head?_eq_some_iff.mp hhead
        split at h
        · cases h
        · rename_i hlength
          cases h
          have hrest : rest ≠ [] := by
            rintro rfl
            cases hlast
          rw [List.getLast?_cons_of_ne_nil hrest] at hlast
          obtain ⟨name, rfl⟩ := List.getLast?_eq_some_iff.mp hlast
          rw [List.tail_cons, List.dropLast_concat]
          refine ⟨rfl, ?_⟩
          rintro rfl
          exact hlength rfl
      · split at h <;> cases h
  · rintro ⟨rfl, hne⟩
    have hlast : (byte '(' :: name ++ [byte ')']).getLast? = some (byte ')') := List.getLast?_concat
    rw [parse, hlast, List.cons_append, List.head?_cons, if_neg (by decide), if_pos (by decide),
      if_neg (by simpa using hne), List.tail_cons, List.dropLast_concat]

def kind : Statement → Kind
  | load _ => .addressLoad
  | label _ => .labelDef
  | compute _ => .computation

/-- The target of a load or the name of a label; a computation has none. -/
def symbol : Statement → Bytes
  | load target => target
  | label name => name
  | compute _ => []

end Statement

end HackAssembly
