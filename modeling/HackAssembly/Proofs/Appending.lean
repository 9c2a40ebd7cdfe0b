import HackAssembly.Proofs.VariableAddresses

/-!
# Appended code

Lines added at the end of a program do not disturb the words before them, unless they declare a
label that the program uses. The first pass sees the added labels before any word is emitted, so
the tables differ from the start; but they agree on all names that the program loads
(`meaning?_append`), and its variables come first in the order of allocation.
-/

namespace HackAssembly

/-- No label that `q` declares is loaded in `p`. -/
def LoadsNoLabelOf (p q : List Bytes) : Prop :=
  ∀ name ∈ Program.targets (program p), name ∉ Program.labels (program q)

instance (p q : List Bytes) : Decidable (LoadsNoLabelOf p q) :=
  inferInstanceAs (Decidable (∀ name ∈ _, _))

/-! ### Appended statements -/

namespace Program

variable {left right : List Item}

theorem labels_append (left right : List Item) :
    labels (left ++ right) = labels left ++ labels right := List.filterMap_append

theorem labelAddress?_append {name : Bytes} (h : name ∉ labels right) :
    labelAddress? (left ++ right) name = labelAddress? left name := by
  induction right using List.reverseRecOn with
  | nil => rw [List.append_nil]
  | append_singleton right i ih =>
      rw [labels_append, List.mem_append, not_or] at h
      have hi : i.label? ≠ some name := by
        intro hlabel
        exact h.2 (List.mem_filterMap.mpr ⟨i, List.mem_singleton_self i, hlabel⟩)
      rw [← List.append_assoc, labelAddress?_snoc, if_neg hi, ih h.1]

theorem isVariable_append {name : Bytes} (h : name ∉ labels right) :
    isVariable (left ++ right) name = isVariable left name := by
  have hlabel : (labels (left ++ right)).contains name = (labels left).contains name := by
    rw [Bool.eq_iff_iff, List.contains_iff_mem, List.contains_iff_mem, labels_append,
      List.mem_append, or_iff_left h]
  rw [isVariable, isVariable, hlabel]

/-- The variables of the beginning come first. -/
theorem variableNames_append (h : ∀ name ∈ targets left, name ∉ labels right) :
    ∃ later, variableNames (left ++ right) = variableNames left ++ later := by
  have hleft : (targets left).filter (isVariable (left ++ right)) =
      (targets left).filter (isVariable left) :=
    List.filter_congr fun name hname => isVariable_append (h name hname)
  rw [variableNames, targets_append, List.filter_append, List.eraseDups_append, hleft]
  exact ⟨_, rfl⟩

/-- A name that the beginning loads means there what it means in the whole program. -/
theorem meaning?_append (h : ∀ name ∈ targets left, name ∉ labels right) {name : Bytes}
    (hname : name ∈ targets left) (hsymbol : isSignedDigits name = false) :
    meaning? (left ++ right) name = meaning? left name := by
  rw [meaning?, meaning?, labelAddress?_append (h name hname)]
  cases hlabel : labelAddress? left name with
  | some address => rfl
  | none =>
      dsimp only
      cases hpredefined : SymbolTable.predefined.get? name with
      | some address => rfl
      | none =>
          -- neither a label nor predefined, so one of the variables that come first
          have hmem : name ∈ variableNames left := by
            have hnot : isPredefined name = false := by
              rw [← SymbolTable.contains_predefined, SymbolTable.contains_eq_isSome_get?,
                hpredefined]
              rfl
            exact mem_variableNames.mpr ⟨hname, isVariable_iff.mpr
              ⟨hsymbol, hnot, labelAddress?_eq_none_iff.mp hlabel⟩⟩
          obtain ⟨later, hlater⟩ := variableNames_append h
          obtain ⟨k, hk⟩ := Option.isSome_iff_exists.mp (List.isSome_idxOf?.mpr hmem)
          rw [hlater, idxOf?_append, hk]
          rfl

theorem encodeUnder_meaning?_append (h : ∀ name ∈ targets left, name ∉ labels right) {i : Item}
    (hi : i ∈ left) :
    i.statement.encodeUnder (meaning? (left ++ right)) =
      i.statement.encodeUnder (meaning? left) := by
  apply Statement.encodeUnder_congr
  intro target hload hsymbol
  have htarget : target ∈ targets left :=
    List.mem_filterMap.mpr ⟨i, hi, by rw [Item.target?, hload]⟩
  exact meaning?_append h htarget hsymbol

end Program

/-! ### Appended lines -/

theorem substantiveFrom_append (number : Nat) (p q : List Bytes) :
    substantiveFrom number (p ++ q) =
      substantiveFrom number p ++ substantiveFrom (number + p.length) q := by
  rw [substantiveFrom, List.zipIdx_append, List.filterMap_append, substantiveFrom, substantiveFrom]

/-- The labels of lines do not depend on where the lines stand. -/
theorem labels_substantiveFrom (m n : Nat) (lines : List Bytes) :
    Program.labels (Program.statements (substantiveFrom m lines)) =
      Program.labels (Program.statements (substantiveFrom n lines)) := by
  induction lines generalizing m n with
  | nil => rfl
  | cons line lines ih =>
      have hrest := ih (m + 1) (n + 1)
      rw [substantiveFrom_cons, substantiveFrom_cons, SourceLine.ofLine?, SourceLine.ofLine?]
      cases (instructionText line).isEmpty with
      | true => exact hrest
      | false =>
          simp only [Program.labels, Program.statements, Bool.false_eq_true, if_false,
            List.filterMap_cons, SourceLine.item?] at hrest ⊢
          cases Statement.parse (instructionText line) with
          | error how => exact hrest
          | ok statement =>
              cases statement with
              | label name => exact congrArg (name :: ·) hrest
              | load target => exact hrest
              | compute fields => exact hrest

theorem substantive_append (p q : List Bytes) :
    substantive (p ++ q) = substantive p ++ substantiveFrom (1 + p.length) q := by
  rw [substantive_eq_substantiveFrom, substantiveFrom_append, substantive_eq_substantiveFrom]

theorem program_append (p q : List Bytes) :
    program (p ++ q) = program p ++ Program.statements (substantiveFrom (1 + p.length) q) := by
  rw [program, substantive_append, Program.statements, List.filterMap_append]
  rfl

theorem LoadsNoLabelOf.not_mem_labels {p q : List Bytes} (h : LoadsNoLabelOf p q) (number : Nat) :
    ∀ name ∈ Program.targets (program p),
      name ∉ Program.labels (Program.statements (substantiveFrom number q)) := by
  rw [labels_substantiveFrom number 1, ← substantive_eq_substantiveFrom]
  exact h

namespace Assembled

variable {p q : List Bytes} {words : List Word} {table : SymbolTable}

/-- Without the appended lines there is neither a malformed line nor a refused statement. -/
theorem failure?_left (h : Assembled (p ++ q) words table)
    (hlabels : LoadsNoLabelOf p q) :
    Assembler.failure? p = none := by
  have hfault : Program.fault? (substantive p) = none := by
    have hwhole := h.wellFormed
    rw [substantive_append, Program.fault?, List.findSome?_append,
      Option.or_eq_none_iff] at hwhole
    exact hwhole.1
  have hrefusal : Program.refusal? (program p) = none := by
    apply List.findSome?_eq_none_iff.mpr
    intro i hi
    have hmem : i ∈ program (p ++ q) := by
      rw [program_append]
      exact List.mem_append_left _ hi
    have hnot := h.not_refused hmem
    rwa [program_append, Item.refusal?,
      Program.encodeUnder_meaning?_append (hlabels.not_mem_labels _) hi] at hnot
  rw [Assembler.failure?, hfault, hrefusal]
  rfl

/-- The words of the whole begin with those of the first part. -/
theorem words_left (h : Assembled (p ++ q) words table)
    (hlabels : LoadsNoLabelOf p q)
    {front : List Word} {table' : SymbolTable} (hfront : Assembled p front table') :
    front <+: words := by
  have hwords :
      (program p).filterMap (Item.word? (Program.meaning? (program (p ++ q)))) = front := by
    rw [hfront.words_eq]
    apply List.filterMap_congr
    intro i hi
    rw [program_append, Item.word?, Item.word?,
      Program.encodeUnder_meaning?_append (hlabels.not_mem_labels _) hi]
  have hwhole := h.words_eq
  -- only the addresses are those of the whole program now, the statements are split
  generalize Program.meaning? (program (p ++ q)) = address? at hwords hwhole
  rw [program_append, List.filterMap_append, hwords] at hwhole
  exact ⟨_, hwhole.symm⟩

/-- A variable of the first part has the same address in both tables. -/
theorem address_left (h : Assembled (p ++ q) words table)
    (hlabels : LoadsNoLabelOf p q)
    {front : List Word} {table' : SymbolTable} (hfront : Assembled p front table') {name : Bytes}
    (hname : name ∈ Program.variableNames (program p)) :
    ∃ address, table'.address name = .ok address ∧ table.address name = .ok address := by
  obtain ⟨htarget, hvariable⟩ := Program.mem_variableNames.mp hname
  obtain ⟨address, haddress⟩ := Option.isSome_iff_exists.mp
    (Program.isSome_meaning?.mpr (Or.inl hname))
  refine ⟨address, ?_, ?_⟩
  · rw [SymbolTable.address_eq_ok_iff, hfront.get?_eq, haddress]
  · rw [SymbolTable.address_eq_ok_iff, h.get?_eq, program_append,
      Program.meaning?_append (hlabels.not_mem_labels _) htarget
        (Program.isVariable_iff.mp hvariable).1, haddress]

end Assembled

namespace Assembler

/-- If a program is assembled then so is every beginning of it that loads no label of the rest. Its
words are the first words of the whole, and its variables have the same addresses in both. -/
theorem appended_lines_keep_words (asm : Assembler) (p q : List Bytes) {words : List Word}
    (h : (asm.assemble (p ++ q)).result = .ok words)
    (hlabels : LoadsNoLabelOf p q) :
    ∃ front, (asm.assemble p).result = .ok front ∧ front <+: words ∧
      ∀ name ∈ Program.variableNames (program p), ∃ address,
        (asm.assemble p).assembler.symbols.address name = .ok address ∧
        (asm.assemble (p ++ q)).assembler.symbols.address name = .ok address := by
  have hwhole := assembled_of_ok asm h
  obtain ⟨front, hresult, hfront⟩ :=
    exists_assembled_of_no_failure asm (hwhole.failure?_left hlabels)
  refine ⟨front, hresult, hwhole.words_left hlabels hfront, ?_⟩
  intro name hname
  exact hwhole.address_left hlabels hfront hname

/-- The rest declares a register and a further label, and loads a variable of the beginning. -/
theorem appended_lines_keep_two_variables :
    let p := [ascii "@i", ascii "(LOOP) // start", ascii "@j", ascii "@LOOP", ascii "0;JMP"]
    let q := [ascii "(R3)", ascii "@j", ascii "@k", ascii "(END)", ascii "@END"]
    let front : List Word := [⟨ascii "0000000000010000", 1, ascii "@i"⟩,
      ⟨ascii "0000000000010001", 3, ascii "@j"⟩, ⟨ascii "0000000000000001", 4, ascii "@LOOP"⟩,
      ⟨ascii "1110101010000111", 5, ascii "0;JMP"⟩]
    let words : List Word := front ++ [⟨ascii "0000000000010001", 7, ascii "@j"⟩,
      ⟨ascii "0000000000010010", 8, ascii "@k"⟩, ⟨ascii "0000000000000110", 10, ascii "@END"⟩]
    (new.assemble (p ++ q)).result = .ok words ∧ LoadsNoLabelOf p q ∧
      Program.variableNames (program p) = [ascii "i", ascii "j"] ∧
      ∃ front, (new.assemble p).result = .ok front ∧ front <+: words ∧
        ∀ name ∈ [ascii "i", ascii "j"], ∃ address,
          (new.assemble p).assembler.symbols.address name = .ok address ∧
          (new.assemble (p ++ q)).assembler.symbols.address name = .ok address := by
  intro p q front words
  have h : (new.assemble (p ++ q)).result = .ok words := by decide +kernel
  have hlabels : LoadsNoLabelOf p q := by decide +kernel
  have hnames : Program.variableNames (program p) = [ascii "i", ascii "j"] := by decide +kernel
  have hkept := appended_lines_keep_words new p q h hlabels
  rw [hnames] at hkept
  exact ⟨h, hlabels, hnames, hkept⟩

end Assembler

end HackAssembly
