import HackAssembly.Failure
import Std.Data.ExtTreeMap

/-!
# Symbol tables

A symbol table binds names to addresses. Every table starts with the names of the machine's
registers, pointers and devices; a later binding of a name replaces an earlier one. Two tables with
the same bindings are equal, whatever the order in which the bindings were made.
-/

namespace HackAssembly

/-- A name and the address that it is bound to. -/
@[ext]
structure Binding where
  name : Bytes
  address : Int
  deriving DecidableEq, Repr

namespace Binding

/-- The order of a printed table: by address, then by name byte by byte. -/
def le (a b : Binding) : Bool :=
  a.address < b.address || (a.address == b.address && (compare a.name b.name).isLE)

end Binding

/-- The registers, named by their numbers. -/
def registerSymbols : List Binding :=
  (List.range 16).map fun (n : Nat) => ⟨ascii "R" ++ Numeral.ofNat n, n⟩

/-- The pointers and the devices. -/
def namedSymbols : List Binding :=
  [⟨ascii "SP", 0⟩, ⟨ascii "LCL", 1⟩, ⟨ascii "ARG", 2⟩, ⟨ascii "THIS", 3⟩, ⟨ascii "THAT", 4⟩,
    ⟨ascii "SCREEN", 16384⟩, ⟨ascii "KBD", 24576⟩]

/-- The bindings that every table starts with. -/
def predefinedSymbols : List Binding := namedSymbols ++ registerSymbols

/-- Whether a name is bound in every table from the start. -/
def isPredefined (name : Bytes) : Bool := predefinedSymbols.any fun b => b.name == name

structure SymbolTable where
  bindings : Std.ExtTreeMap Bytes Int
  deriving DecidableEq

namespace SymbolTable

/-- Binds a name, replacing a binding that it has. -/
def insert (t : SymbolTable) (name : Bytes) (address : Int) : SymbolTable :=
  ⟨t.bindings.insert name address⟩

/-- The table that holds the predefined symbols only. -/
def predefined : SymbolTable :=
  predefinedSymbols.foldl (fun t b => t.insert b.name b.address) ⟨∅⟩

def contains (t : SymbolTable) (name : Bytes) : Bool := t.bindings.contains name

def get? (t : SymbolTable) (name : Bytes) : Option Int := t.bindings[name]?

/-- The address of a name that is bound. -/
def address (t : SymbolTable) (name : Bytes) : Except Cause Int :=
  match t.get? name with
  | some address => .ok address
  | none => .error (.undefinedSymbol name)

def size (t : SymbolTable) : Nat := t.bindings.size

/-- All bindings, by address and then by name. -/
def entries (t : SymbolTable) : List Binding :=
  (t.bindings.toList.map fun (name, address) => ⟨name, address⟩).mergeSort Binding.le

@[ext]
theorem ext_get? {s t : SymbolTable} (h : ∀ name, s.get? name = t.get? name) : s = t := by
  obtain ⟨s⟩ := s
  obtain ⟨t⟩ := t
  congr
  exact Std.ExtTreeMap.ext_getElem? h

theorem get?_insert (t : SymbolTable) (name other : Bytes) (address : Int) :
    (t.insert name address).get? other = if name = other then some address else t.get? other := by
  rw [get?, insert, Std.ExtTreeMap.getElem?_insert]
  simp only [Std.LawfulEqCmp.compare_eq_iff_eq, get?]

theorem contains_eq_isSome_get? (t : SymbolTable) (name : Bytes) :
    t.contains name = (t.get? name).isSome := by
  rw [contains, get?, Std.ExtTreeMap.contains_eq_isSome_getElem?]

theorem mem_entries {t : SymbolTable} {b : Binding} :
    b ∈ t.entries ↔ t.get? b.name = some b.address := by
  rw [entries, (List.mergeSort_perm _ _).mem_iff, List.mem_map, get?]
  constructor
  · rintro ⟨⟨name, address⟩, hmem, rfl⟩
    exact Std.ExtTreeMap.mem_toList_iff_getElem?_eq_some.mp hmem
  · intro h
    exact ⟨(b.name, b.address), Std.ExtTreeMap.mem_toList_iff_getElem?_eq_some.mpr h, rfl⟩

theorem length_entries (t : SymbolTable) : t.entries.length = t.size := by
  rw [entries, (List.mergeSort_perm _ _).length_eq, List.length_map,
    Std.ExtTreeMap.length_toList, size]

end SymbolTable

end HackAssembly
