import HackAssembly.Source.Line
import Mathlib.Data.List.Infix

/-!
# Trimmed lines

What is left of a line has no blank at either end (`Blank.IsTrimmed`) and no comment
(`Comment.StartsAt`), whatever bytes the line consists of. Both properties pass to beginnings of a
text, so cutting a comment off a trimmed text exposes neither a new comment nor a blank in front,
and a second round changes nothing (`instructionText_instructionText`).
-/

namespace HackAssembly

namespace Blank

/-- No member of `units` stands at the front of the text. -/
def NoneInFront (units : List Bytes) (s : Bytes) : Prop := ∀ u ∈ units, u ≠ [] → ¬u <+: s

/-- The text neither begins nor ends with a blank. -/
structure IsTrimmed (s : Bytes) : Prop where
  front : NoneInFront encodings s
  back : NoneInFront reversedEncodings s.reverse

variable {units : List Bytes} {s t : Bytes}

theorem NoneInFront.of_isPrefix (h : NoneInFront units s) (ht : t <+: s) : NoneInFront units t :=
  fun u hu hne hfront => h u hu hne (hfront.trans ht)

/-- Where no unit goes on from the text with a byte, that byte and what follows it make none. -/
theorem NoneInFront.append_cons_of_not_isPrefix {b : UInt8} (h : NoneInFront units s)
    (hb : ∀ u ∈ units, ¬s ++ [b] <+: u) (t : Bytes) : NoneInFront units (s ++ b :: t) := by
  intro u hu hne hfront
  have hhere : s ++ [b] <+: s ++ b :: t :=
    (List.prefix_append_right_inj s).mpr (List.prefix_append [b] t)
  rcases List.prefix_or_prefix_of_prefix hfront hhere with hshort | hlong
  · rcases List.prefix_concat_iff.mp hshort with rfl | hs
    · exact hb _ hu List.prefix_rfl
    · exact h u hu hne hs
  · exact hb u hu hlong

/-- Blanks are found by whole units, so nothing behind a byte that is in none of them makes one. -/
theorem NoneInFront.append_cons {b : UInt8} (h : NoneInFront units s) (hb : ∀ u ∈ units, b ∉ u)
    (t : Bytes) : NoneInFront units (s ++ b :: t) := by
  apply h.append_cons_of_not_isPrefix
  intro u hu hinside
  exact hb u hu (hinside.subset (by simp))

theorem NoneInFront.cons {b : UInt8} (hb : ∀ u ∈ units, b ∉ u) (s : Bytes) :
    NoneInFront units (b :: s) := by
  have hnil : NoneInFront units [] := fun u _ hne hfront => hne (List.prefix_nil.mp hfront)
  exact hnil.append_cons hb s

theorem NoneInFront.concat {b : UInt8} (h : NoneInFront units s) (hb : ∀ u ∈ units, b ∉ u) :
    NoneInFront units (s ++ [b]) := h.append_cons hb []

theorem find?_eq_none_iff :
    (units.find? fun u => !u.isEmpty && u.isPrefixOf s) = none ↔ NoneInFront units s := by
  simp [NoneInFront]

theorem dropUnits_eq_self (h : NoneInFront units s) : dropUnits units s = s := by
  rw [dropUnits]
  split
  · rfl
  · rename_i u hu
    rw [find?_eq_none_iff.mpr h] at hu
    cases hu

theorem noneInFront_dropUnits (units : List Bytes) (s : Bytes) :
    NoneInFront units (dropUnits units s) := by
  fun_induction dropUnits units s with
  | case1 s h => exact find?_eq_none_iff.mp h
  | case2 s u h ih => exact ih

theorem dropUnits_suffix (units : List Bytes) (s : Bytes) : dropUnits units s <:+ s := by
  fun_induction dropUnits units s with
  | case1 s h => exact List.suffix_rfl
  | case2 s u h ih => exact ih.trans (List.drop_suffix u.length s)

theorem trimRight_isPrefix (s : Bytes) : trimRight s <+: s := by
  have hsuffix := dropUnits_suffix reversedEncodings s.reverse
  rwa [← List.reverse_prefix, List.reverse_reverse] at hsuffix

theorem trim_isInfix (s : Bytes) : trim s <:+: s :=
  (trimRight_isPrefix (trimLeft s)).isInfix.trans (dropUnits_suffix encodings s).isInfix

theorem isTrimmed_trim (s : Bytes) : IsTrimmed (trim s) where
  front := (noneInFront_dropUnits encodings s).of_isPrefix (trimRight_isPrefix (trimLeft s))
  back := by
    rw [trim, trimRight, List.reverse_reverse]
    exact noneInFront_dropUnits reversedEncodings (trimLeft s).reverse

theorem trimRight_eq_self (h : NoneInFront reversedEncodings s.reverse) : trimRight s = s := by
  rw [trimRight, dropUnits_eq_self h, List.reverse_reverse]

theorem trim_eq_self (h : IsTrimmed s) : trim s = s := by
  rw [trim, trimLeft, dropUnits_eq_self h.front, trimRight_eq_self h.back]

/-- Trimming a beginning of a trimmed text takes something away at its end only. -/
theorem trim_isPrefix_of_isPrefix (h : IsTrimmed s) (ht : t <+: s) : trim t <+: t := by
  rw [trim, trimLeft, dropUnits_eq_self (h.front.of_isPrefix ht)]
  exact trimRight_isPrefix t

end Blank

namespace Comment

/-- Two slashes at position `i`, after a space or a tab; at the beginning if `mayOpen` says so. -/
def StartsAt (mayOpen : Bool) (s : Bytes) (i : Nat) : Prop :=
  ascii "//" <+: s.drop i ∧
    if i = 0 then mayOpen = true else ∃ b, s[i - 1]? = some b ∧ opens b = true

variable {mayOpen : Bool} {b : UInt8} {s t : Bytes} {i : Nat}

theorem startsAt_zero :
    StartsAt mayOpen (b :: s) 0 ↔
      (mayOpen && b == byte '/' && s.head? == some (byte '/')) = true := by
  have hslashes : ascii "//" = [byte '/', byte '/'] := rfl
  rw [StartsAt, List.drop_zero, hslashes, if_pos rfl]
  cases s with
  | nil => simp
  | cons c s =>
      simp only [List.cons_prefix_cons, List.nil_prefix, List.head?_cons, Bool.and_eq_true,
        beq_iff_eq, Option.some.injEq, and_true]
      tauto

theorem startsAt_succ : StartsAt mayOpen (b :: s) (i + 1) ↔ StartsAt (opens b) s i := by
  rw [StartsAt, StartsAt, List.drop_succ_cons, if_neg (Nat.succ_ne_zero i), Nat.add_sub_cancel]
  cases i with
  | zero => simp
  | succ i => simp

theorem StartsAt.of_isPrefix (h : StartsAt mayOpen t i) (ht : t <+: s) : StartsAt mayOpen s i := by
  obtain ⟨hslashes, hopens⟩ := h
  refine ⟨hslashes.trans (ht.drop i), ?_⟩
  split at hopens
  · rename_i hzero
    rwa [if_pos hzero]
  · rename_i hpos
    obtain ⟨b, hb, hopen⟩ := hopens
    obtain ⟨hlt, rfl⟩ := List.getElem?_eq_some_iff.mp hb
    rw [if_neg hpos]
    exact ⟨_, List.prefix_iff_getElem?.mp ht (i - 1) hlt, hopen⟩

theorem StartsAt.lt_length (h : StartsAt mayOpen s i) : i < s.length := by
  have hle := h.1.length_le
  rw [List.length_drop] at hle
  have htwo : (ascii "//").length = 2 := rfl
  omega

/-- The search finds the first position where a comment starts. -/
theorem startFrom_eq_some {n k : Nat} (h : startFrom n mayOpen s = some k) :
    ∃ i, k = n + i ∧ StartsAt mayOpen s i ∧ ∀ j < i, ¬StartsAt mayOpen s j := by
  induction s generalizing n mayOpen with
  | nil => cases h
  | cons b s ih =>
      rw [startFrom] at h
      split at h
      · rename_i hhere
        cases h
        exact ⟨0, rfl, startsAt_zero.mpr hhere, fun j hj => absurd hj (Nat.not_lt_zero j)⟩
      · rename_i hnot
        obtain ⟨i, rfl, hstart, hfirst⟩ := ih h
        refine ⟨i + 1, by omega, startsAt_succ.mpr hstart, ?_⟩
        intro j hj
        cases j with
        | zero => exact mt startsAt_zero.mp hnot
        | succ j => exact mt startsAt_succ.mp (hfirst j (Nat.lt_of_succ_lt_succ hj))

theorem startFrom_eq_none_iff {n : Nat} :
    startFrom n mayOpen s = none ↔ ∀ i, ¬StartsAt mayOpen s i := by
  constructor
  · intro h
    induction s generalizing n mayOpen with
    | nil =>
        intro i hstart
        exact Nat.not_lt_zero i hstart.lt_length
    | cons b s ih =>
        rw [startFrom] at h
        split at h
        · cases h
        · rename_i hnot
          intro i
          cases i with
          | zero => exact mt startsAt_zero.mp hnot
          | succ i => exact mt startsAt_succ.mp (ih h i)
  · intro h
    cases hfound : startFrom n mayOpen s with
    | none => rfl
    | some k =>
        obtain ⟨i, -, hstart, -⟩ := startFrom_eq_some hfound
        exact absurd hstart (h i)

/-- A comment is cut off where the first one starts. -/
theorem start?_eq_some {i : Nat} (h : start? s = some i) :
    StartsAt true s i ∧ ∀ j < i, ¬StartsAt true s j := by
  obtain ⟨k, hk, hstart, hfirst⟩ := startFrom_eq_some h
  rw [Nat.zero_add] at hk
  rw [hk]
  exact ⟨hstart, hfirst⟩

end Comment

/-! ### Instructions -/

/-- The instruction on a line has no outer blanks and no comment. -/
theorem instructionText_clean (line : Bytes) :
    Blank.IsTrimmed (instructionText line) ∧ Comment.start? (instructionText line) = none := by
  have htrimmed := Blank.isTrimmed_trim line
  unfold instructionText
  dsimp only
  split
  · rename_i hnone
    exact ⟨htrimmed, hnone⟩
  · rename_i i hsome
    obtain ⟨-, hfirst⟩ := Comment.start?_eq_some hsome
    have hcut := List.take_prefix i (Blank.trim line)
    have hkept := Blank.trim_isPrefix_of_isPrefix htrimmed hcut
    refine ⟨Blank.isTrimmed_trim _, Comment.startFrom_eq_none_iff.mpr ?_⟩
    -- a comment in what is kept would be one of the line, before the first
    intro j hstart
    have hlt := (hstart.of_isPrefix hkept).lt_length
    rw [List.length_take] at hlt
    exact hfirst j (by omega) (hstart.of_isPrefix (hkept.trans hcut))

/-- The instruction stands on the line as it is, in one piece. -/
theorem instructionText_isInfix (line : Bytes) : instructionText line <:+: line := by
  have htrim := Blank.trim_isInfix line
  unfold instructionText
  dsimp only
  split
  · exact htrim
  · rename_i i _
    have hcut := (List.take_prefix i (Blank.trim line)).isInfix
    exact (Blank.trim_isInfix _).trans (hcut.trans htrim)

theorem instructionText_eq_self {s : Bytes} (htrimmed : Blank.IsTrimmed s)
    (hcomment : Comment.start? s = none) : instructionText s = s := by
  simp only [instructionText, Blank.trim_eq_self htrimmed, hcomment]

theorem instructionText_instructionText (line : Bytes) :
    instructionText (instructionText line) = instructionText line := by
  obtain ⟨htrimmed, hcomment⟩ := instructionText_clean line
  exact instructionText_eq_self htrimmed hcomment

end HackAssembly
