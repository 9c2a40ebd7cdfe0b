/-!
# Byte text

Source lines, names, paths and messages are sequences of arbitrary bytes; nothing requires them to
be well-formed UTF-8. This module names that type and the few operations on it that every other
module uses: literals, cutting at a separator, the endings of a text, and padding.
-/

namespace HackAssembly

/-- A text: any sequence of bytes. -/
abbrev Bytes := List UInt8

def byte (c : Char) : UInt8 := c.toUInt8

def ascii (s : String) : Bytes := s.toList.map byte

namespace Bytes

/-- The line feed that ends a line. -/
def newline : UInt8 := 0x0A

/-- What stands before and after the first `separator`, if there is one. -/
def cut? (separator : UInt8) (s : Bytes) : Option (Bytes × Bytes) :=
  if separator ∈ s then
    some (s.takeWhile (· != separator), (s.dropWhile (· != separator)).drop 1)
  else
    none

theorem cut?_eq_none_iff {separator : UInt8} {s : Bytes} :
    cut? separator s = none ↔ separator ∉ s := by
  rw [cut?]
  split <;> simp_all

private theorem ne_of_not_mem {separator : UInt8} {a : Bytes} (h : separator ∉ a) :
    ∀ b ∈ a, (b != separator) = true := by
  intro b hb
  rw [bne_iff_ne]
  rintro rfl
  exact h hb

theorem cut?_eq_some_iff {separator : UInt8} {s a b : Bytes} :
    cut? separator s = some (a, b) ↔ s = a ++ separator :: b ∧ separator ∉ a := by
  constructor
  · intro h
    rw [cut?] at h
    split at h
    · rename_i hmem
      obtain ⟨l, r, hs, hl⟩ := List.eq_append_cons_of_mem hmem
      rw [hs, List.takeWhile_append_of_pos (ne_of_not_mem hl),
        List.dropWhile_append_of_pos (ne_of_not_mem hl)] at h
      simp only [bne_self_eq_false, List.takeWhile_cons, List.dropWhile_cons, Bool.false_eq_true,
        if_false, List.append_nil, List.drop_succ_cons, List.drop_zero, Option.some.injEq,
        Prod.mk.injEq] at h
      obtain ⟨rfl, rfl⟩ := h
      exact ⟨hs, hl⟩
    · cases h
  · rintro ⟨rfl, h⟩
    rw [cut?, if_pos (by simp), List.takeWhile_append_of_pos (ne_of_not_mem h),
      List.dropWhile_append_of_pos (ne_of_not_mem h)]
    simp

def endsWith (s ending : Bytes) : Bool := ending.isSuffixOf s

/-- Removes `ending` from `s`, when it ends with it. -/
def withoutEnding (s ending : Bytes) : Bytes :=
  if s.endsWith ending then s.take (s.length - ending.length) else s

/-- Puts spaces in front of `s` up to the given width. -/
def padLeft (width : Nat) (s : Bytes) : Bytes :=
  List.replicate (width - s.length) (byte ' ') ++ s

end Bytes

end HackAssembly
