import HackAssembly.Proofs.Appending
import HackAssembly.Proofs.LabelAddresses
import HackAssembly.Proofs.Trimming

/-!
# Loading a declared label

The name of a label is what stands between its parentheses, the target of a load what is left of a
trimmed line behind `@`. The two agree for every name that a label can have and that does not end
in a blank: no comment can start in it, and neither sign in front of it can be trimmed. A blank at
the end of a name stays in the label and is cut off the load, so that such a label is never loaded.
-/

namespace HackAssembly

/-- The text ends in a blank. -/
def Blank.EndsIn (s : Bytes) : Prop := ∃ u ∈ encodings, u <:+ s

instance (s : Bytes) : Decidable (Blank.EndsIn s) := inferInstanceAs (Decidable (∃ u ∈ _, _))

/-! ### The line that loads a label -/

theorem Blank.noneInFront_reverse {s : Bytes} (h : ¬EndsIn s) :
    NoneInFront reversedEncodings s.reverse := by
  intro u hu _ hfront
  obtain ⟨v, hv, rfl⟩ := List.mem_map.mp hu
  exact h ⟨v, hv, List.reverse_prefix.mp hfront⟩

theorem Blank.isTrimmed_load {name : Bytes} (h : ¬EndsIn name) : IsTrimmed (byte '@' :: name) where
  front := NoneInFront.cons (by decide +kernel) name
  back := by
    rw [List.reverse_cons]
    exact (noneInFront_reverse h).concat (by decide +kernel)

/-- A name that can stand in a label starts no comment behind `@` either. -/
theorem Comment.start?_load {name : Bytes}
    (h : start? (byte '(' :: name ++ [byte ')']) = none) : start? (byte '@' :: name) = none := by
  apply startFrom_eq_none_iff.mpr
  intro i hstart
  cases i with
  | zero => exact absurd (startsAt_zero.mp hstart) (by simp [show byte '@' ≠ byte '/' by decide])
  | succ i =>
      have hname := startsAt_succ.mp hstart
      have hlabel : StartsAt true (byte '(' :: (name ++ [byte ')'])) (i + 1) :=
        startsAt_succ.mpr (hname.of_isPrefix (List.prefix_append name [byte ')']))
      exact startFrom_eq_none_iff.mp h (i + 1) hlabel

theorem instructionText_load {lines : List Bytes} {l : SourceLine} {name : Bytes}
    (hl : l ∈ substantive lines) (hlabel : Statement.parse l.text = .ok (.label name))
    (hend : ¬Blank.EndsIn name) : instructionText (byte '@' :: name) = byte '@' :: name := by
  obtain ⟨-, -, htext⟩ := exists_of_mem_substantive hl
  obtain ⟨line, -, hline⟩ := Option.map_eq_some_iff.mp htext
  have hcomment := (instructionText_clean line).2
  rw [hline, (Statement.parse_eq_label_iff.mp hlabel).1] at hcomment
  exact instructionText_eq_self (Blank.isTrimmed_load hend) (Comment.start?_load hcomment)

/-- The statement that loads a name behind the given lines. -/
def loadAfter (lines : List Bytes) (name : Bytes) : Item :=
  ⟨⟨lines.length + 1, byte '@' :: name⟩, .load name⟩

section Appended

variable {p : List Bytes} {name : Bytes}

theorem substantive_append_load (htext : instructionText (byte '@' :: name) = byte '@' :: name) :
    substantive (p ++ [byte '@' :: name]) = substantive p ++ [(loadAfter p name).line] := by
  rw [substantive_append, substantiveFrom_cons, SourceLine.ofLine?, htext, Nat.add_comm 1]
  rfl

theorem program_append_load (hne : name ≠ [])
    (htext : instructionText (byte '@' :: name) = byte '@' :: name) :
    program (p ++ [byte '@' :: name]) = program p ++ [loadAfter p name] ∧
      Program.fault? (substantive (p ++ [byte '@' :: name])) = Program.fault? (substantive p) := by
  have hparse : Statement.parse (loadAfter p name).line.text = .ok (.load name) :=
    Statement.parse_eq_load_iff.mpr ⟨rfl, hne⟩
  have hitem : (loadAfter p name).line.item? = some (loadAfter p name) :=
    SourceLine.item?_eq_some_iff.mpr ⟨rfl, hparse⟩
  have hfault : (loadAfter p name).line.fault? = none := by rw [SourceLine.fault?, hparse]
  rw [program, substantive_append_load htext, Program.statements, List.filterMap_append,
    List.filterMap_cons_some hitem, Program.fault?, List.findSome?_append, List.findSome?_cons,
    hfault, List.findSome?_nil, Option.or_none]
  exact ⟨rfl, rfl⟩

end Appended

/-! ### A load that brings no variable -/

namespace Program

variable {items : List Item} {i : Item} {target : Bytes}

theorem label?_of_target? (hi : i.target? = some target) : i.label? = none := by
  obtain ⟨line, statement⟩ := i
  cases statement with
  | load name => rfl
  | label name => cases hi
  | compute fields => cases hi

theorem isVariable_concat_load (hi : i.target? = some target) :
    isVariable (items ++ [i]) = isVariable items := by
  funext name
  apply isVariable_append
  rw [labels, List.filterMap_cons_none (label?_of_target? hi)]
  exact List.not_mem_nil

theorem variableNames_concat_label (hi : i.target? = some target) (hlabel : target ∈ labels items) :
    variableNames (items ++ [i]) = variableNames items := by
  have hnot : isVariable items target = false := by
    rw [isVariable, List.contains_iff_mem.mpr hlabel, Bool.not_true, Bool.and_false]
  have htargets : targets [i] = [target] := List.filterMap_cons_some hi
  rw [variableNames, isVariable_concat_load hi, targets_append, htargets, List.filter_append,
    List.filter_cons_of_neg (by rw [hnot]; exact Bool.false_ne_true), List.filter_nil,
    List.append_nil, variableNames]

/-- Loading a label at the end changes the meaning of no name. -/
theorem meaning?_concat_label (hi : i.target? = some target) (hlabel : target ∈ labels items) :
    meaning? (items ++ [i]) = meaning? items := by
  funext name
  have hnone : i.label? ≠ some name := by
    rw [label?_of_target? hi]
    nofun
  rw [meaning?, labelAddress?_snoc, if_neg hnone, variableNames_concat_label hi hlabel, meaning?]

end Program

namespace Assembled

variable {p : List Bytes} {words : List Word} {table : SymbolTable} {name : Bytes} {code : Code}

/-- If the label's address can be encoded then so is the program with the load at its end, with one
word more and the same table. -/
theorem append_load (h : Assembled p words table) (asm : Assembler)
    (htext : instructionText (byte '@' :: name) = byte '@' :: name) (hne : name ≠ [])
    (hlabel : name ∈ Program.labels (program p))
    (hcode : (loadAfter p name).statement.encodeUnder (Program.meaning? (program p)) =
      some (.ok code)) :
    let outcome := asm.assemble (p ++ [byte '@' :: name])
    outcome.result = .ok (words ++ [⟨code.digits, (p.length + 1 : Nat), byte '@' :: name⟩]) ∧
      outcome.assembler.symbols = table := by
  obtain ⟨hprogram, hfault⟩ := program_append_load (p := p) hne htext
  have hmeaning : Program.meaning? (program (p ++ [byte '@' :: name])) =
      Program.meaning? (program p) := by
    rw [hprogram, Program.meaning?_concat_label rfl hlabel]
  have hword : (loadAfter p name).word? (Program.meaning? (program p)) =
      some ⟨code.digits, (p.length + 1 : Nat), byte '@' :: name⟩ := by
    rw [Item.word?, hcode]
    rfl
  have hrefusal : (loadAfter p name).refusal? (Program.meaning? (program p)) = none := by
    rw [Item.refusal?, hcode]
  have hfailure : Assembler.failure? (p ++ [byte '@' :: name]) = none := by
    rw [Assembler.failure?, hfault, h.wellFormed, Option.none_or, Program.refusal?, hmeaning,
      hprogram, List.findSome?_append, ← Program.refusal?, h.encodable, Option.none_or,
      List.findSome?_cons, hrefusal, List.findSome?_nil]
  obtain ⟨longer, hresult, hlonger⟩ := asm.exists_assembled_of_no_failure hfailure
  refine ⟨?_, ?_⟩
  · rw [hresult, hlonger.words_eq, hmeaning, hprogram, List.filterMap_append, ← h.words_eq,
      List.filterMap_cons_some hword, List.filterMap_nil]
  · apply SymbolTable.ext_get?
    intro other
    rw [hlonger.get?_eq, hmeaning, h.get?_eq]

/-- The address of a label is a number of instructions. -/
theorem label_nonneg (h : Assembled p words table) {address : Int}
    (hlabel : name ∈ Program.labels (program p)) (haddress : table.get? name = some address) :
    0 ≤ address := by
  rw [h.get?_eq, Program.meaning?] at haddress
  cases hcount : Program.labelAddress? (program p) name with
  | none => exact absurd hlabel (Program.labelAddress?_eq_none_iff.mp hcount)
  | some count =>
      rw [hcount] at haddress
      cases haddress
      exact Int.natCast_nonneg count

end Assembled

namespace Assembler

/-- A label of an assembled program can be loaded at its end, if its name is no numeral and does not
end in a blank and its address fits in a word: that adds one word, which holds the label's address,
and binds no further name. -/
theorem label_loaded_at_end (asm : Assembler) (p : List Bytes) {words : List Word} {l : SourceLine}
    {name : Bytes} {address : Int} (h : (asm.assemble p).result = .ok words)
    (hl : l ∈ substantive p) (hlabel : Statement.parse l.text = .ok (.label name))
    (hsymbol : isSignedDigits name = false)
    (haddress : (asm.assemble p).assembler.symbols.address name = .ok address)
    (hfits : address ≤ 65535) (hend : ¬Blank.EndsIn name) :
    ∃ last : Word,
      (asm.assemble (p ++ [byte '@' :: name])).result = .ok (words ++ [last]) ∧
      IsBinary16 last.code address ∧
      (asm.assemble (p ++ [byte '@' :: name])).assembler.symbols =
        (asm.assemble p).assembler.symbols := by
  have hassembled := assembled_of_ok asm h
  have hname := mem_labels_program hl hlabel
  rw [SymbolTable.address_eq_ok_iff] at haddress
  have hpos := hassembled.label_nonneg hname haddress
  have hencode : encodeAddress address = .ok (Instruction.load (BitVec.ofInt 16 address)).encode :=
    if_pos ⟨hpos, hfits⟩
  rw [hassembled.get?_eq] at haddress
  have hcode : (loadAfter p name).statement.encodeUnder (Program.meaning? (program p)) =
      some (.ok (Instruction.load (BitVec.ofInt 16 address)).encode) := by
    show Statement.encodeUnder _ (.load name) = _
    rw [Statement.encodeUnder, hsymbol, if_neg Bool.false_ne_true, haddress]
    exact congrArg some hencode
  obtain ⟨hresult, htable⟩ := hassembled.append_load asm (instructionText_load hl hlabel hend)
    (Statement.parse_eq_label_iff.mp hlabel).2 hname hcode
  exact ⟨_, hresult, isBinary16_of_encodeAddress hencode, htable⟩

/-- The name has a blank in front, one inside and slashes, and is loaded before the label. -/
theorem label_with_inner_blanks_loaded_at_end :
    let p := [ascii "@ a b//c", ascii "0;JMP", ascii "\t( a b//c) // here", ascii "M=D"]
    let name := ascii " a b//c"
    let words : List Word := [⟨ascii "0000000000000010", 1, ascii "@ a b//c"⟩,
      ⟨ascii "1110101010000111", 2, ascii "0;JMP"⟩, ⟨ascii "1110001100001000", 4, ascii "M=D"⟩]
    (new.assemble p).result = .ok words ∧
      (new.assemble p).assembler.symbols.address name = .ok 2 ∧ ¬Blank.EndsIn name ∧
      ∃ last : Word,
        (new.assemble (p ++ [byte '@' :: name])).result = .ok (words ++ [last]) ∧
        IsBinary16 last.code 2 ∧
        (new.assemble (p ++ [byte '@' :: name])).assembler.symbols =
          (new.assemble p).assembler.symbols := by
  intro p name words
  have h : (new.assemble p).result = .ok words := by decide +kernel
  have haddress : (new.assemble p).assembler.symbols.address name = .ok 2 := by decide +kernel
  have hend : ¬Blank.EndsIn name := by decide +kernel
  have hl : (⟨3, ascii "( a b//c)"⟩ : SourceLine) ∈ substantive p := by decide +kernel
  exact ⟨h, haddress, hend,
    label_loaded_at_end new p h hl (by decide +kernel) (by decide) haddress (by decide) hend⟩

/-- A label whose name ends in a blank is not loaded: the blank is cut off the line that should load
it, and what is left is the name of a variable. -/
theorem label_ending_in_blank_not_loaded :
    let p := [ascii "0;JMP", ascii "(a )"]
    let name := ascii "a "
    let words : List Word := [⟨ascii "1110101010000111", 1, ascii "0;JMP"⟩]
    (new.assemble p).result = .ok words ∧
      (⟨2, ascii "(a )"⟩ : SourceLine) ∈ substantive p ∧
      Statement.parse (ascii "(a )") = .ok (.label name) ∧ isSignedDigits name = false ∧
      (new.assemble p).assembler.symbols.address name = .ok 1 ∧
      (new.assemble (p ++ [byte '@' :: name])).result =
        .ok (words ++ [⟨ascii "0000000000010000", 3, ascii "@a"⟩]) ∧
      ¬∃ last : Word, (new.assemble (p ++ [byte '@' :: name])).result = .ok (words ++ [last]) ∧
        IsBinary16 last.code 1 := by
  intro p name words
  have hresult : (new.assemble (p ++ [byte '@' :: name])).result =
      .ok (words ++ [⟨ascii "0000000000010000", 3, ascii "@a"⟩]) := by decide +kernel
  refine ⟨by decide +kernel, by decide +kernel, by decide +kernel, by decide, by decide +kernel,
    hresult, ?_⟩
  rintro ⟨last, hlast, hbinary⟩
  rw [hresult, Except.ok.injEq, List.append_cancel_left_eq, List.cons.injEq] at hlast
  rw [← hlast.1] at hbinary
  exact absurd hbinary.value (by decide)

end Assembler

end HackAssembly
