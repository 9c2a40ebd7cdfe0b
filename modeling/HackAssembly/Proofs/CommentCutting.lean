import HackAssembly.Proofs.Decoration
import Mathlib.Order.Bounds.Basic

/-!
# Cutting comments

Trimming is determined by what it leaves: blanks surround it on the line, and no blank stands at
either of its ends (`Blank.trim_eq_iff`). A comment is determined by where it starts, a property of
the bytes at one position and of the byte before (`Comment.IsStart`); reading on byte by byte, the
search passes over slashes inside a word, however many there are, and stops at the least start. The
two together say of any line, well-formed text or not, which piece of it is the instruction.
-/

namespace HackAssembly

/-! ### What trimming leaves -/

namespace Blank

variable {s line : Bytes} {back : List Char}

/-- The text begins with a blank. -/
def BeginsIn (s : Bytes) : Prop := ∃ u ∈ encodings, u <+: s

/-- What is left of `line` when blanks are taken away at both ends until none stands there. -/
structure IsTrimOf (s line : Bytes) : Prop where
  surrounded : ∃ front back : List Char, (∀ c ∈ front, c ∈ characters) ∧
    (∀ c ∈ back, c ∈ characters) ∧ line = text front ++ s ++ text back
  begins : ¬BeginsIn s
  ends : ¬EndsIn s

theorem isTrimmed_iff : IsTrimmed s ↔ ¬BeginsIn s ∧ ¬EndsIn s := by
  constructor
  · intro h
    constructor
    · rintro ⟨u, hu, hfront⟩
      exact h.front u hu (isCode_encodings.nonempty u hu) hfront
    · rintro ⟨u, hu, hback⟩
      have hreversed : u.reverse ∈ reversedEncodings := List.mem_map_of_mem hu
      exact h.back u.reverse hreversed (isCode_reversedEncodings.nonempty u.reverse hreversed)
        (List.reverse_prefix.mpr hback)
  · rintro ⟨hbegins, hends⟩
    exact ⟨fun u hu _ hfront => hbegins ⟨u, hu, hfront⟩, noneInFront_reverse hends⟩

/-- What is dropped is written with the given characters, in either direction of reading. -/
theorem exists_flatMap_append_dropUnits (encode : Char → Bytes) (cs : List Char) (s : Bytes) :
    ∃ dropped : List Char, (∀ c ∈ dropped, c ∈ cs) ∧
      s = dropped.flatMap encode ++ dropUnits (cs.map encode) s := by
  generalize hunits : cs.map encode = units
  fun_induction dropUnits units s with
  | case1 s h => exact ⟨[], by simp, rfl⟩
  | case2 s u h ih =>
      obtain ⟨hu, rest, rfl⟩ := of_find?_eq_some h
      rw [← hunits] at hu
      obtain ⟨c, hc, rfl⟩ := List.mem_map.mp hu
      rw [List.drop_left] at ih ⊢
      obtain ⟨dropped, hdropped, hrest⟩ := ih
      refine ⟨c :: dropped, List.forall_mem_cons.mpr ⟨hc, hdropped⟩, ?_⟩
      rw [List.flatMap_cons, List.append_assoc, ← hrest]

theorem exists_text_append_trimLeft (s : Bytes) :
    ∃ front : List Char, (∀ c ∈ front, c ∈ characters) ∧ s = text front ++ trimLeft s :=
  exists_flatMap_append_dropUnits String.utf8EncodeChar characters s

theorem exists_trimRight_append_text (s : Bytes) :
    ∃ back : List Char, (∀ c ∈ back, c ∈ characters) ∧ s = trimRight s ++ text back := by
  -- at the end blanks are read backwards, the last one first
  have hunits : characters.map (List.reverse ∘ String.utf8EncodeChar) = reversedEncodings := by
    rw [reversedEncodings, encodings, List.map_map]
  obtain ⟨dropped, hdropped, hsplit⟩ := exists_flatMap_append_dropUnits
    (List.reverse ∘ String.utf8EncodeChar) characters s.reverse
  rw [hunits] at hsplit
  have htext : (dropped.flatMap (List.reverse ∘ String.utf8EncodeChar)).reverse =
      text dropped.reverse := by
    simp [text, List.reverse_flatMap, Function.comp_def]
  refine ⟨dropped.reverse, fun c hc => hdropped c (List.mem_reverse.mp hc), ?_⟩
  calc s = s.reverse.reverse := (List.reverse_reverse s).symm
    _ = trimRight s ++ (dropped.flatMap (List.reverse ∘ String.utf8EncodeChar)).reverse := by
        rw [congrArg List.reverse hsplit, List.reverse_append, trimRight]
    _ = trimRight s ++ text dropped.reverse := by rw [htext]

theorem isTrimOf_trim (line : Bytes) : IsTrimOf (trim line) line where
  surrounded := by
    obtain ⟨front, hfront, hline⟩ := exists_text_append_trimLeft line
    obtain ⟨back, hback, hrest⟩ := exists_trimRight_append_text (trimLeft line)
    refine ⟨front, back, hfront, hback, ?_⟩
    rw [List.append_assoc, trim, ← hrest, ← hline]
  begins := (isTrimmed_iff.mp (isTrimmed_trim line)).1
  ends := (isTrimmed_iff.mp (isTrimmed_trim line)).2

/-- No blank reaches from a text into the blanks behind it, since the first byte of a blank is the
first byte only. -/
theorem NoneInFront.append_text (h : NoneInFront encodings s) (hne : s ≠ [])
    (hback : ∀ c ∈ back, c ∈ characters) : NoneInFront encodings (s ++ text back) := by
  have hfirst : ∀ u ∈ encodings, ∀ b ∈ u.head?, ∀ v ∈ encodings, b ∉ v.tail := by
    decide +kernel
  cases back with
  | nil => rwa [text, List.flatMap_nil, List.append_nil]
  | cons c back =>
      have hc : String.utf8EncodeChar c ∈ encodings :=
        List.mem_map_of_mem (hback c List.mem_cons_self)
      obtain ⟨b, bytes, hbytes⟩ := List.exists_cons_of_ne_nil (isCode_encodings.nonempty _ hc)
      rw [text, List.flatMap_cons, hbytes, List.cons_append]
      apply h.append_cons_of_not_isPrefix
      rintro v hv ⟨rest, rfl⟩
      refine hfirst _ hc b (by rw [hbytes]; rfl) _ hv ?_
      rw [List.append_assoc, List.tail_append_of_ne_nil hne]
      simp

theorem trim_eq_iff : trim line = s ↔ IsTrimOf s line := by
  constructor
  · rintro rfl
    exact isTrimOf_trim line
  · intro h
    obtain ⟨front, back, hfront, hback, rfl⟩ := h.surrounded
    have htrimmed := isTrimmed_iff.mpr ⟨h.begins, h.ends⟩
    rw [trim, List.append_assoc, trimLeft_text_append hfront]
    by_cases hnil : s = []
    · -- on a line of blanks only, those behind are dropped from the front as well
      rw [hnil, List.nil_append, ← List.append_nil (text back), trimLeft_text_append hback]
      exact List.infix_nil.mp (trim_isInfix [])
    · rw [trimLeft, dropUnits_eq_self (htrimmed.front.append_text hnil hback),
        trimRight_append_text hback, trimRight_eq_self htrimmed.back]

end Blank

/-! ### The first comment -/

namespace Comment

variable {s : Bytes} {i : Nat}

/-- Two slashes at position `i`, at the beginning or right after a space or a tab. -/
def IsStart (s : Bytes) (i : Nat) : Prop :=
  (s.drop i).take 2 = ascii "//" ∧
    (i = 0 ∨ s[i - 1]? = some (byte ' ') ∨ s[i - 1]? = some (byte '\t'))

instance (s : Bytes) (i : Nat) : Decidable (IsStart s i) := inferInstanceAs (Decidable (_ ∧ _))

theorem isStart_iff : IsStart s i ↔ StartsAt true s i := by
  rw [IsStart, StartsAt, List.prefix_iff_eq_take, eq_comm]
  apply and_congr Iff.rfl
  by_cases hi : i = 0
  · simp [hi]
  · rw [if_neg hi, or_iff_right hi]
    constructor
    · rintro (hspace | htab)
      · exact ⟨byte ' ', hspace, rfl⟩
      · exact ⟨byte '\t', htab, rfl⟩
    · rintro ⟨b, hb, hopens⟩
      rw [opens, Bool.or_eq_true, beq_iff_eq, beq_iff_eq] at hopens
      rcases hopens with rfl | rfl
      · exact Or.inl hb
      · exact Or.inr hb

theorem start?_eq_none_iff : start? s = none ↔ ∀ i, ¬IsStart s i := by
  simp only [isStart_iff]
  exact startFrom_eq_none_iff

theorem isLeast_of_start? (h : start? s = some i) : IsLeast {j | IsStart s j} i := by
  obtain ⟨hstart, hbefore⟩ := start?_eq_some h
  refine ⟨isStart_iff.mpr hstart, ?_⟩
  intro j hj
  by_contra hlt
  exact hbefore j (Nat.lt_of_not_le hlt) (isStart_iff.mp hj)

end Comment

/-! ### The instruction on a line -/

theorem instructionText_cases (line : Bytes) :
    let s := Blank.trim line
    ((∀ i, ¬Comment.IsStart s i) ∧ instructionText line = s) ∨
      ∃ i, IsLeast {j | Comment.IsStart s j} i ∧ instructionText line = Blank.trim (s.take i) := by
  intro s
  cases hfound : Comment.start? s with
  | none =>
      have hkept : instructionText line = s := by simp only [instructionText, s, hfound]
      exact Or.inl ⟨Comment.start?_eq_none_iff.mp hfound, hkept⟩
  | some i =>
      have hkept : instructionText line = Blank.trim (s.take i) := by
        simp only [instructionText, s, hfound]
      exact Or.inr ⟨i, Comment.isLeast_of_start? hfound, hkept⟩

/-- The instruction on a line is what trimming leaves of the line, or of the part before the first
comment. No comment starts in it, no blank stands at its ends, it is one piece of the line, and
taken for a line it is its own instruction. -/
theorem comment_cut_at_first_start (line : Bytes) :
    let s := Blank.trim line
    let kept := instructionText line
    (∀ t, s = t ↔ Blank.IsTrimOf t line) ∧
      ((∀ i, ¬Comment.IsStart s i) ∧ kept = s ∨
        ∃ i, IsLeast {j | Comment.IsStart s j} i ∧ kept = Blank.trim (s.take i)) ∧
      (∀ i, ¬Comment.IsStart kept i) ∧ ¬Blank.BeginsIn kept ∧ ¬Blank.EndsIn kept ∧
      kept <:+: line ∧ instructionText kept = kept := by
  intro s kept
  obtain ⟨htrimmed, hcomment⟩ := instructionText_clean line
  obtain ⟨hbegins, hends⟩ := Blank.isTrimmed_iff.mp htrimmed
  exact ⟨fun _ => Blank.trim_eq_iff, instructionText_cases line,
    Comment.start?_eq_none_iff.mp hcomment, hbegins, hends, instructionText_isInfix line,
    instructionText_instructionText line⟩

/-- Slashes run together inside a word and after a tab, a no-break space does not open a comment,
and the line has a byte of no character. -/
example :
    instructionText (ascii " a///b" ++ [0xC2, 0xA0] ++ ascii "//c\t///d // e" ++ [0xFF, 0x20]) =
      ascii "a///b" ++ [0xC2, 0xA0] ++ ascii "//c" := by
  decide +kernel

end HackAssembly
