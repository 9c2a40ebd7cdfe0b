import HackAssembly.Proofs.LabelReferences
import HackAssembly.Proofs.WrittenComputations

/-!
# Decorated instructions

An instruction may stand between blanks, and behind a space or a tab a comment may follow. None of
this touches the instruction: the encodings of blanks form a code in which no word begins or ends
another, so trimming takes blanks away one by one and stops at the instruction; and the first place
where a comment can start is the comment itself, since no slash is part of a blank.
-/

namespace HackAssembly

/-! ### Trimming -/

namespace Blank

/-- The text of blanks, or of any other characters. -/
def text (characters : List Char) : Bytes := characters.flatMap String.utf8EncodeChar

/-- No member of `units` is empty or begins another one. -/
structure IsCode (units : List Bytes) : Prop where
  nonempty : ∀ u ∈ units, u ≠ []
  eq_of_isPrefix : ∀ u ∈ units, ∀ v ∈ units, u <+: v → u = v

theorem isCode_encodings : IsCode encodings := by
  constructor <;> decide +kernel

theorem isCode_reversedEncodings : IsCode reversedEncodings := by
  constructor <;> decide +kernel

variable {units : List Bytes} {s t : Bytes} {b : UInt8}

theorem of_find?_eq_some {u : Bytes}
    (h : (units.find? fun u => !u.isEmpty && u.isPrefixOf s) = some u) : u ∈ units ∧ u <+: s := by
  have hfound := List.find?_some h
  simp only [Bool.and_eq_true, List.isPrefixOf_iff_prefix] at hfound
  exact ⟨List.mem_of_find?_eq_some h, hfound.2⟩

theorem dropUnits_append (hcode : IsCode units) {u : Bytes} (hu : u ∈ units) (s : Bytes) :
    dropUnits units (u ++ s) = dropUnits units s := by
  rw [dropUnits]
  split
  · rename_i hnone
    exact absurd (List.prefix_append u s) (find?_eq_none_iff.mp hnone u hu (hcode.nonempty u hu))
  · rename_i v hv
    obtain ⟨hmem, hfront⟩ := of_find?_eq_some hv
    obtain rfl : v = u := by
      rcases List.prefix_or_prefix_of_prefix hfront (List.prefix_append u s) with h | h
      · exact hcode.eq_of_isPrefix v hmem u hu h
      · exact (hcode.eq_of_isPrefix u hu v hmem h).symm
    rw [List.drop_left]

/-- Members of a code are dropped one by one. -/
theorem dropUnits_flatten_append (hcode : IsCode units) {us : List Bytes}
    (hus : ∀ u ∈ us, u ∈ units) (s : Bytes) :
    dropUnits units (us.flatten ++ s) = dropUnits units s := by
  induction us with
  | nil => rfl
  | cons u us ih =>
      rw [List.flatten_cons, List.append_assoc, dropUnits_append hcode (hus u (by simp)),
        ih fun v hv => hus v (by simp [hv])]

/-- Dropping does not get past a byte that is in no unit. -/
theorem dropUnits_append_cons (hcode : IsCode units) (hb : ∀ u ∈ units, b ∉ u) (s t : Bytes) :
    dropUnits units (s ++ b :: t) = dropUnits units s ++ b :: t := by
  fun_induction dropUnits units s with
  | case1 s h => exact dropUnits_eq_self ((find?_eq_none_iff.mp h).append_cons hb t)
  | case2 s u h ih =>
      obtain ⟨hu, rest, rfl⟩ := of_find?_eq_some h
      rw [List.drop_left] at ih ⊢
      rw [List.append_assoc, dropUnits_append hcode hu, ih]

theorem trimLeft_text_append {front : List Char} (hfront : ∀ c ∈ front, c ∈ characters)
    (s : Bytes) : trimLeft (text front ++ s) = trimLeft s := by
  rw [trimLeft, text, List.flatMap_def, dropUnits_flatten_append isCode_encodings, trimLeft]
  intro u hu
  obtain ⟨c, hc, rfl⟩ := List.mem_map.mp hu
  exact List.mem_map_of_mem (hfront c hc)

theorem trimRight_append_text {back : List Char} (hback : ∀ c ∈ back, c ∈ characters)
    (s : Bytes) : trimRight (s ++ text back) = trimRight s := by
  rw [trimRight, List.reverse_append, text, List.flatMap_def, List.reverse_flatten,
    dropUnits_flatten_append isCode_reversedEncodings, trimRight]
  intro u hu
  rw [List.mem_reverse, List.map_map] at hu
  obtain ⟨c, hc, rfl⟩ := List.mem_map.mp hu
  exact List.mem_map_of_mem (List.mem_map_of_mem (hback c hc))

theorem trimRight_append_cons (hb : ∀ u ∈ encodings, b ∉ u) (s t : Bytes) :
    trimRight (s ++ b :: t) = s ++ b :: trimRight t := by
  have hreversed : ∀ u ∈ reversedEncodings, b ∉ u := by
    intro u hu
    obtain ⟨v, hv, rfl⟩ := List.mem_map.mp hu
    rw [List.mem_reverse]
    exact hb v hv
  rw [trimRight, List.reverse_append, List.reverse_cons, List.append_assoc, List.singleton_append,
    dropUnits_append_cons isCode_reversedEncodings hreversed, List.reverse_append,
    List.reverse_cons, List.reverse_reverse, List.append_assoc, List.singleton_append, trimRight]

theorem trimRight_concat (hb : ∀ u ∈ encodings, b ∉ u) (s : Bytes) :
    trimRight (s ++ [b]) = s ++ [b] := by
  have hnil : trimRight [] = [] := List.prefix_nil.mp (trimRight_isPrefix [])
  rw [trimRight_append_cons hb, hnil]

theorem not_mem_text (hb : ∀ u ∈ encodings, b ∉ u) {back : List Char}
    (hback : ∀ c ∈ back, c ∈ characters) : b ∉ text back := by
  intro hmem
  obtain ⟨c, hc, hbyte⟩ := List.mem_flatMap.mp hmem
  exact hb _ (List.mem_map_of_mem (hback c hc)) hbyte

theorem getLast?_text {back : List Char} {c : Char} (h : back.getLast? = some c)
    (hc : String.utf8EncodeChar c = [b]) : (text back).getLast? = some b := by
  obtain ⟨front, rfl⟩ := List.getLast?_eq_some_iff.mp h
  rw [text, List.flatMap_append, List.flatMap_singleton, hc, List.getLast?_concat]

end Blank

/-! ### Where a comment starts -/

namespace Comment

variable {mayOpen : Bool} {s t : Bytes} {i : Nat}

theorem StartsAt.slashes (h : StartsAt mayOpen s i) :
    s[i]? = some (byte '/') ∧ s[i + 1]? = some (byte '/') := by
  obtain ⟨rest, hrest⟩ := h.1
  have hzero : (s.drop i)[0]? = some (byte '/') := by rw [← hrest]; rfl
  have hone : (s.drop i)[1]? = some (byte '/') := by rw [← hrest]; rfl
  rw [List.getElem?_drop] at hzero hone
  exact ⟨hzero, hone⟩

theorem StartsAt.of_append (h : StartsAt mayOpen (s ++ t) i) (hi : i + 1 < s.length) :
    StartsAt mayOpen s i := by
  obtain ⟨hslashes, hopens⟩ := h
  rw [List.drop_append_of_le_length (by omega)] at hslashes
  refine ⟨?_, ?_⟩
  · refine List.prefix_of_prefix_length_le hslashes (List.prefix_append (s.drop i) t) ?_
    have htwo : (ascii "//").length = 2 := rfl
    rw [List.length_drop]
    omega
  · rwa [List.getElem?_append_left (by omega)] at hopens

/-- Text without slashes brings no comment. -/
theorem not_startsAt_append (hs : ∀ i, ¬StartsAt mayOpen s i) (ht : byte '/' ∉ t) (i : Nat) :
    ¬StartsAt mayOpen (s ++ t) i := by
  intro h
  by_cases hi : i + 1 < s.length
  · exact hs i (h.of_append hi)
  · have hslash := h.slashes.2
    rw [List.getElem?_append_right (by omega)] at hslash
    exact ht (List.mem_of_getElem? hslash)

/-- Behind a text without comments that ends in a space or a tab, slashes start the first one. -/
theorem start?_append (hs : ∀ i, ¬StartsAt true s i)
    (hlast : ∃ b, s.getLast? = some b ∧ opens b = true) (ht : ascii "//" <+: t) :
    start? (s ++ t) = some s.length := by
  obtain ⟨b, hb, hopens⟩ := hlast
  have hne : s ≠ [] := by
    rintro rfl
    cases hb
  have hpos := List.length_pos_iff.mpr hne
  rw [List.getLast?_eq_getElem?] at hb
  have hhere : StartsAt true (s ++ t) s.length := by
    refine ⟨by rwa [List.drop_left], ?_⟩
    rw [if_neg (by omega), List.getElem?_append_left (by omega)]
    exact ⟨b, hb, hopens⟩
  have hfirst : ∀ j < s.length, ¬StartsAt true (s ++ t) j := by
    intro j hj hstart
    by_cases hinside : j + 1 < s.length
    · exact hs j (hstart.of_append hinside)
    · -- the last byte of the text is no slash
      have hslash := hstart.slashes.1
      rw [List.getElem?_append_left hj, show j = s.length - 1 by omega, hb,
        Option.some.injEq] at hslash
      rw [hslash] at hopens
      exact absurd hopens (by decide)
  cases hfound : start? (s ++ t) with
  | none => exact absurd hhere (startFrom_eq_none_iff.mp hfound s.length)
  | some k =>
      obtain ⟨hk, hbefore⟩ := start?_eq_some hfound
      rcases Nat.lt_trichotomy k s.length with h | rfl | h
      · exact absurd hk (hfirst k h)
      · rfl
      · exact absurd hhere (hbefore s.length h)

end Comment

/-! ### Instructions -/

/-- The text begins with a byte of no blank, does not end in a blank and holds no comment. -/
structure IsClean (s : Bytes) : Prop where
  begins : ∃ b rest, s = b :: rest ∧ ∀ u ∈ Blank.encodings, b ∉ u
  ends : Blank.trimRight s = s
  noComment : ∀ i, ¬Comment.StartsAt true s i

namespace IsClean

variable {s comment : Bytes} {front back : List Char}

theorem ne_nil (h : IsClean s) : s ≠ [] := by
  obtain ⟨b, rest, rfl, -⟩ := h.begins
  exact List.cons_ne_nil b rest

/-- Trimming from the front stops at the first byte of the text. -/
theorem trim_append (h : IsClean s) (t : Bytes) :
    Blank.trim (s ++ t) = Blank.trimRight (s ++ t) := by
  obtain ⟨b, rest, rfl, hb⟩ := h.begins
  rw [Blank.trim, Blank.trimLeft, List.cons_append,
    Blank.dropUnits_eq_self (Blank.NoneInFront.cons hb _)]

theorem trim_text_append (h : IsClean s) (hfront : ∀ c ∈ front, c ∈ Blank.characters)
    (t : Bytes) : Blank.trim (Blank.text front ++ (s ++ t)) = Blank.trimRight (s ++ t) := by
  rw [Blank.trim, Blank.trimLeft_text_append hfront, ← Blank.trim, h.trim_append]

theorem instructionText_text (h : IsClean s) (hfront : ∀ c ∈ front, c ∈ Blank.characters)
    (hback : ∀ c ∈ back, c ∈ Blank.characters) :
    instructionText (Blank.text front ++ (s ++ Blank.text back)) = s := by
  have hnone : Comment.start? s = none := Comment.startFrom_eq_none_iff.mpr h.noComment
  simp only [instructionText, h.trim_text_append hfront, Blank.trimRight_append_text hback,
    h.ends, hnone]

/-- A comment is cut off where it starts, and then the blanks before it. -/
theorem instructionText_comment (h : IsClean s) (hfront : ∀ c ∈ front, c ∈ Blank.characters)
    (hback : ∀ c ∈ back, c ∈ Blank.characters)
    (hopens : ∃ b, (Blank.text back).getLast? = some b ∧ Comment.opens b = true)
    (hcomment : ascii "//" <+: comment) :
    instructionText (Blank.text front ++ (s ++ (Blank.text back ++ comment))) = s := by
  have hslash : ∀ u ∈ Blank.encodings, byte '/' ∉ u := by decide +kernel
  obtain ⟨rest, rfl⟩ := hcomment
  have htrim : Blank.trim (Blank.text front ++ (s ++ (Blank.text back ++ (ascii "//" ++ rest)))) =
      (s ++ Blank.text back) ++ (ascii "//" ++ Blank.trimRight rest) := by
    rw [h.trim_text_append hfront, ← List.append_assoc s]
    exact (Blank.trimRight_append_cons hslash _ _).trans
      (congrArg (_ ++ byte '/' :: ·) (Blank.trimRight_append_cons hslash [] rest))
  have hstart : Comment.start? ((s ++ Blank.text back) ++ (ascii "//" ++ Blank.trimRight rest)) =
      some (s ++ Blank.text back).length := by
    apply Comment.start?_append
    · exact Comment.not_startsAt_append h.noComment (Blank.not_mem_text hslash hback)
    · obtain ⟨b, hb, hopen⟩ := hopens
      exact ⟨b, by rw [List.getLast?_append, hb]; rfl, hopen⟩
    · exact List.prefix_append _ _
  have hkept : Blank.trim (s ++ Blank.text back) = s := by
    rw [h.trim_append, Blank.trimRight_append_text hback, h.ends]
  simp only [instructionText, htrim, hstart, List.take_left, hkept]

end IsClean

/-- The byte is part of no blank and of no comment sign. -/
def IsPlain (b : UInt8) : Prop := b ≠ byte '/' ∧ ∀ u ∈ Blank.encodings, b ∉ u

instance (b : UInt8) : Decidable (IsPlain b) := inferInstanceAs (Decidable (_ ∧ ∀ u ∈ _, _))

theorem isClean_of_isPlain {s : Bytes} (hne : s ≠ []) (h : ∀ b ∈ s, IsPlain b) : IsClean s where
  begins := by
    obtain ⟨b, rest, rfl⟩ := List.exists_cons_of_ne_nil hne
    exact ⟨b, rest, rfl, (h b (by simp)).2⟩
  ends := by
    rw [← List.dropLast_concat_getLast hne]
    exact Blank.trimRight_concat (h _ (List.getLast_mem hne)).2 _
  noComment := by
    intro i hstart
    exact (h _ (List.mem_of_getElem? hstart.slashes.1)).1 rfl

/-- Slashes stand behind a space or a tab. -/
def Comment.OpensIn (s : Bytes) : Prop := ascii " //" <:+: s ∨ ascii "\t//" <:+: s

theorem Comment.opensIn_of_startsAt {s : Bytes} {i : Nat} (hi : i ≠ 0) (h : StartsAt true s i) :
    OpensIn s := by
  obtain ⟨hslashes, hopens⟩ := h
  rw [if_neg hi] at hopens
  obtain ⟨b, hb, hopens⟩ := hopens
  obtain ⟨hlt, hget⟩ := List.getElem?_eq_some_iff.mp hb
  have hfront : b :: ascii "//" <+: s.drop (i - 1) := by
    rw [List.drop_eq_getElem_cons hlt, hget, Nat.sub_add_cancel (Nat.one_le_iff_ne_zero.mpr hi)]
    exact List.cons_prefix_cons.mpr ⟨rfl, hslashes⟩
  have hinside := hfront.isInfix.trans (List.drop_suffix (i - 1) s).isInfix
  rw [opens, Bool.or_eq_true, beq_iff_eq, beq_iff_eq] at hopens
  rcases hopens with rfl | rfl
  · exact Or.inl hinside
  · exact Or.inr hinside

theorem isClean_of_not_opensIn {b : UInt8} {rest : Bytes} (hb : IsPlain b)
    (hends : Blank.trimRight (b :: rest) = b :: rest) (hcomment : ¬Comment.OpensIn (b :: rest)) :
    IsClean (b :: rest) where
  begins := ⟨b, rest, rfl, hb.2⟩
  ends := hends
  noComment := by
    intro i hstart
    by_cases hi : i = 0
    · subst hi
      exact hb.1 (Option.some.inj hstart.slashes.1)
    · exact hcomment (Comment.opensIn_of_startsAt hi hstart)

/-! ### Written instructions -/

/-- The three shapes of an instruction, each as it is written. A name must leave the instruction
free of comments and of a blank at its end. -/
inductive Spells : Bytes → Statement → Prop
  | load {name : Bytes} (hne : name ≠ []) (hends : ¬Blank.EndsIn (byte '@' :: name))
      (hcomment : ¬Comment.OpensIn (byte '@' :: name)) :
      Spells (byte '@' :: name) (.load name)
  | label {name : Bytes} (hne : name ≠ [])
      (hcomment : ¬Comment.OpensIn (byte '(' :: name ++ [byte ')'])) :
      Spells (byte '(' :: name ++ [byte ')']) (.label name)
  | compute (w : Computation) : Spells w.text (.compute w.fields)

theorem Comp.isPlain_mnemonic (c : Comp) : ∀ b ∈ c.mnemonic, IsPlain b := by
  have h : ∀ c ∈ all, ∀ b ∈ c.mnemonic, IsPlain b := by decide +kernel
  exact h c (mem_all c)

theorem Dest.isPlain_mnemonic (d : Dest) : ∀ b ∈ d.mnemonic, IsPlain b := by
  cases d <;> decide +kernel

theorem Jump.isPlain_mnemonic (j : Jump) : ∀ b ∈ j.mnemonic, IsPlain b := by
  cases j <;> decide +kernel

theorem Computation.isPlain_text (w : Computation) : ∀ b ∈ w.text, IsPlain b := by
  have hequals : IsPlain (byte '=') := by decide +kernel
  have hsemicolon : IsPlain (byte ';') := by decide +kernel
  cases w with
  | storing dest comp =>
      exact List.forall_mem_append.mpr ⟨dest.isPlain_mnemonic,
        List.forall_mem_cons.mpr ⟨hequals, comp.isPlain_mnemonic⟩⟩
  | jumping comp jump =>
      exact List.forall_mem_append.mpr ⟨comp.isPlain_mnemonic,
        List.forall_mem_cons.mpr ⟨hsemicolon, jump.isPlain_mnemonic⟩⟩
  | storingJumping dest comp jump =>
      exact List.forall_mem_append.mpr ⟨dest.isPlain_mnemonic,
        List.forall_mem_cons.mpr ⟨hequals, List.forall_mem_append.mpr ⟨comp.isPlain_mnemonic,
          List.forall_mem_cons.mpr ⟨hsemicolon, jump.isPlain_mnemonic⟩⟩⟩⟩

namespace Spells

variable {text comment : Bytes} {statement : Statement} {front back : List Char}

theorem parse_eq (h : Spells text statement) : Statement.parse text = .ok statement := by
  cases h with
  | load hne _ _ => exact Statement.parse_eq_load_iff.mpr ⟨rfl, hne⟩
  | label hne _ => exact Statement.parse_eq_label_iff.mpr ⟨rfl, hne⟩
  | compute w => exact w.parse_text

theorem isClean (h : Spells text statement) : IsClean text := by
  cases h with
  | load _ hends hcomment =>
      exact isClean_of_not_opensIn (by decide +kernel)
        (Blank.trimRight_eq_self (Blank.noneInFront_reverse hends)) hcomment
  | @label name _ hcomment =>
      have hclosing : ∀ u ∈ Blank.encodings, byte ')' ∉ u := by decide +kernel
      exact isClean_of_not_opensIn (by decide +kernel)
        (Blank.trimRight_concat hclosing (byte '(' :: name)) hcomment
  | compute w =>
      obtain ⟨b, rest, htext, -⟩ := w.text_begins
      exact isClean_of_isPlain (by rw [htext]; exact List.cons_ne_nil b rest) w.isPlain_text

/-- The instruction on a line is what is written there, whatever blanks surround it and whatever
comment follows a space or a tab. -/
theorem instructionText_eq (h : Spells text statement)
    (hfront : ∀ c ∈ front, c ∈ Blank.characters) (hback : ∀ c ∈ back, c ∈ Blank.characters)
    (hcomment : comment = [] ∨
      (back.getLast? = some ' ' ∨ back.getLast? = some '\t') ∧ ascii "//" <+: comment) :
    instructionText (Blank.text front ++ text ++ Blank.text back ++ comment) = text := by
  rw [List.append_assoc, List.append_assoc]
  rcases hcomment with rfl | ⟨hlast, hslashes⟩
  · rw [List.append_nil]
    exact h.isClean.instructionText_text hfront hback
  · have hopens : ∃ b, (Blank.text back).getLast? = some b ∧ Comment.opens b = true := by
      rcases hlast with hlast | hlast
      · exact ⟨byte ' ', Blank.getLast?_text hlast rfl, rfl⟩
      · exact ⟨byte '\t', Blank.getLast?_text hlast rfl, rfl⟩
    exact h.isClean.instructionText_comment hfront hback hopens hslashes

end Spells

namespace Cursor

theorem place_advance_singleton (line : Bytes) (h : instructionText line ≠ []) :
    (ofLines [line]).advance.1 = .ok () ∧
      (ofLines [line]).advance.2.place = .on ⟨1, instructionText line⟩ := by
  have hpending : (ofLines [line]).pending = [⟨1, instructionText line⟩] := by
    rw [pending_ofLines, substantive_eq_substantiveFrom, substantiveFrom_cons, SourceLine.ofLine?,
      if_neg (by simpa using h)]
    rfl
  obtain ⟨-, next, hadvance, hplace, -⟩ := advance_of_pending hpending
  rw [hadvance]
  exact ⟨rfl, hplace⟩

/-- On a line whose text has a shape, the cursor shows that text, its kind, its symbol and its
fields. -/
theorem shown_of_place {c : Cursor} {number : Nat} {written : Bytes} {parsed : Statement}
    (hplace : c.place = .on ⟨number, written⟩) (hparse : Statement.parse written = .ok parsed) :
    c.text = written ∧ c.kind = .ok parsed.kind ∧ c.symbol = parsed.symbol ∧
      ∀ fields, parsed = .compute fields → c.fields = fields := by
  have htext : c.text = written := by rw [text, hplace]
  have hstatement : c.statement = .ok parsed := by simp only [statement, hplace, hparse]
  refine ⟨htext, ?_, ?_, ?_⟩
  · rw [kind, hstatement]
    rfl
  · rw [symbol, hstatement]
  · rintro fields rfl
    rw [Cursor.fields, htext, (Statement.parse_eq_compute hparse).1]

end Cursor

end HackAssembly
