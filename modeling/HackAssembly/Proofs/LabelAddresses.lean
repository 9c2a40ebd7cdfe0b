import HackAssembly.Proofs.Resolution

/-!
# Labels and words

The first pass counts instructions, the second emits words; both agree on where a label points. The
last declaration of a label cuts the program in two, and the label's address is the number of words
that come from the part before the cut.
-/

namespace HackAssembly

/-- Line `d` is the last one that declares `name` as a label. -/
structure IsLastDeclaration (lines : List Bytes) (name : Bytes) (d : Nat) : Prop where
  declares : ∃ l ∈ substantive lines, l.number = d ∧ Statement.parse l.text = .ok (.label name)
  last : ∀ l ∈ substantive lines, Statement.parse l.text = .ok (.label name) → l.number ≤ d

theorem pairwise_program (lines : List Bytes) :
    (program lines).Pairwise fun i j => i.line.number < j.line.number := by
  rw [program, Program.statements, List.pairwise_filterMap]
  apply (pairwise_substantive lines).imp
  intro l m hlt i hi j hj
  rwa [(SourceLine.item?_eq_some_iff.mp hi).1, (SourceLine.item?_eq_some_iff.mp hj).1]

theorem mem_labels_program {lines : List Bytes} {l : SourceLine} {name : Bytes}
    (hl : l ∈ substantive lines) (hlabel : Statement.parse l.text = .ok (.label name)) :
    name ∈ Program.labels (program lines) :=
  List.mem_filterMap.mpr ⟨⟨l, .label name⟩, Program.mem_statements.mpr ⟨hl, hlabel⟩, rfl⟩

/-- The statements before and after the last declaration of a label. -/
theorem IsLastDeclaration.split {lines : List Bytes} {name : Bytes} {d : Nat}
    (h : IsLastDeclaration lines name d) :
    ∃ before after i, program lines = before ++ i :: after ∧ i.statement = .label name ∧
      (∀ j ∈ before, j.line.number < d) ∧ (∀ j ∈ after, d < j.line.number) ∧
      ∀ j ∈ after, j.label? ≠ some name := by
  obtain ⟨l, hl, rfl, hparse⟩ := h.declares
  have hmem : (⟨l, .label name⟩ : Item) ∈ program lines := Program.mem_statements.mpr ⟨hl, hparse⟩
  obtain ⟨before, after, hsplit⟩ := List.append_of_mem hmem
  have hsorted := pairwise_program lines
  rw [hsplit, List.pairwise_append, List.pairwise_cons] at hsorted
  obtain ⟨-, ⟨hafter, -⟩, hbefore⟩ := hsorted
  refine ⟨before, after, _, hsplit, rfl, ?_, hafter, ?_⟩
  · intro j hj
    exact hbefore j hj _ List.mem_cons_self
  · intro j hj hlabel
    have hj' : j ∈ program lines := by simp [hsplit, hj]
    obtain ⟨hline, hjparse⟩ := Program.mem_statements.mp hj'
    rw [Item.label?_eq_some_iff.mp hlabel] at hjparse
    have hle := h.last j.line hline hjparse
    have hlt := hafter j hj
    dsimp only at hlt
    omega

/-- Words of earlier and of later lines are told apart by their line numbers. -/
theorem filter_line_append {left right : List Word} {d : Nat}
    (hleft : ∀ w ∈ left, w.line < (d : Int)) (hright : ∀ w ∈ right, (d : Int) < w.line) :
    (left ++ right).filter (fun w : Word => w.line < (d : Int)) = left ∧
      (left ++ right).filter (fun w : Word => (d : Int) < w.line) = right := by
  rw [List.filter_append, List.filter_append]
  constructor
  · have hnone : right.filter (fun w : Word => w.line < (d : Int)) = [] := by
      apply List.filter_eq_nil_iff.mpr
      intro w hw
      have hlt := hright w hw
      simp only [decide_eq_true_eq]
      omega
    rw [hnone, List.append_nil, List.filter_eq_self]
    simpa using hleft
  · have hnone : left.filter (fun w : Word => (d : Int) < w.line) = [] := by
      apply List.filter_eq_nil_iff.mpr
      intro w hw
      have hlt := hleft w hw
      simp only [decide_eq_true_eq]
      omega
    rw [hnone, List.nil_append, List.filter_eq_self]
    simpa using hright

theorem eq_load_of_parse {name : Bytes} {statement : Statement}
    (h : Statement.parse (byte '@' :: name) = .ok statement) : statement = .load name := by
  rw [Statement.parse, List.head?_cons, if_pos rfl] at h
  split at h
  · cases h
  · cases h
    rfl

namespace Assembled

variable {lines : List Bytes} {words : List Word} {table : SymbolTable}

/-- As many words come from statements as there are instructions among them. -/
theorem length_words (h : Assembled lines words table) (items : List Item)
    (hitems : ∀ i ∈ items, i ∈ program lines) :
    (items.filterMap (Item.word? (Program.meaning? (program lines)))).length =
      items.countP Item.isInstruction := by
  rw [List.length_filterMap_eq_countP]
  apply List.countP_congr
  intro i hi
  cases hinstruction : i.isInstruction with
  | false => simp [Item.word?_of_not_isInstruction hinstruction]
  | true =>
      obtain ⟨code, -, hword⟩ := Item.exists_word hinstruction (h.not_refused (hitems i hi))
      simp [hword]

/-- The last declaration of a label cuts the words in two, and the label's address is the number of
words before the cut. -/
theorem cut_at_label (h : Assembled lines words table) {name : Bytes} {d : Nat}
    (hd : IsLastDeclaration lines name d) :
    ∃ k : Nat, table.get? name = some (k : Int) ∧
      k = words.countP (fun w : Word => w.line < (d : Int)) ∧
      words.take k = words.filter (fun w : Word => w.line < (d : Int)) ∧
      words.drop k = words.filter (fun w : Word => (d : Int) < w.line) := by
  obtain ⟨before, after, i, hsplit, hi, hbefore, hafter, hlast⟩ := hd.split
  have hlabel : i.label? = some name := Item.label?_eq_some_iff.mpr hi
  have hinstruction : i.isInstruction = false := by rw [Item.isInstruction, hi]
  have hlength := h.length_words before fun j hj => by simp [hsplit, hj]
  have hwords := h.words_eq
  have haddress : table.get? name = some ((before.countP Item.isInstruction : Nat) : Int) := by
    rw [h.get?_eq, Program.meaning?, hsplit, Program.labelAddress?_of_last hlabel hlast]
  -- from here on only where the words come from matters, not how names are resolved
  generalize Program.meaning? (program lines) = address? at hlength hwords
  rw [hsplit, List.filterMap_append,
    List.filterMap_cons_none (Item.word?_of_not_isInstruction hinstruction)] at hwords
  have hleft : ∀ w ∈ before.filterMap (Item.word? address?), w.line < (d : Int) := by
    intro w hw
    obtain ⟨j, hj, hword⟩ := List.mem_filterMap.mp hw
    have hlt := hbefore j hj
    rw [(Item.line_source_of_word? hword).1]
    omega
  have hright : ∀ w ∈ after.filterMap (Item.word? address?), (d : Int) < w.line := by
    intro w hw
    obtain ⟨j, hj, hword⟩ := List.mem_filterMap.mp hw
    have hlt := hafter j hj
    rw [(Item.line_source_of_word? hword).1]
    omega
  obtain ⟨hbelow, habove⟩ := filter_line_append hleft hright
  rw [← hwords] at hbelow habove
  rw [← hlength] at haddress
  refine ⟨_, haddress, ?_, ?_, ?_⟩
  · rw [List.countP_eq_length_filter, hbelow]
  · rw [hbelow, hwords, List.take_left]
  · rw [habove, hwords, List.drop_left]

/-- Every word that loads a name holds the address that the table gives for it. -/
theorem code_of_source (h : Assembled lines words table) {name : Bytes} {address : Int}
    (hsymbol : isSignedDigits name = false) (haddress : table.get? name = some address) {w : Word}
    (hw : w ∈ words) (hsource : w.source = byte '@' :: name) : IsBinary16 w.code address := by
  rw [h.words_eq] at hw
  obtain ⟨i, hi, hword⟩ := List.mem_filterMap.mp hw
  have hparse := (Program.mem_statements.mp hi).2
  rw [← (Item.line_source_of_word? hword).2, hsource] at hparse
  rw [h.get?_eq] at haddress
  rw [Item.word?, eq_load_of_parse hparse, Statement.encodeUnder, hsymbol,
    if_neg Bool.false_ne_true, haddress] at hword
  dsimp only at hword
  cases hcode : encodeAddress address with
  | error cause => simp [hcode] at hword
  | ok code =>
      rw [hcode] at hword
      cases hword
      exact isBinary16_of_encodeAddress hcode

end Assembled

namespace Assembler

/-- A label stands for the number of words before its last declaration, also where it is used
before that, declared repeatedly, or the name of a predefined symbol. -/
theorem label_address_counts_words (asm : Assembler) (lines : List Bytes) {words : List Word}
    {name : Bytes} {d : Nat} (h : (asm.assemble lines).result = .ok words)
    (hd : IsLastDeclaration lines name d) :
    ∃ k : Nat, (asm.assemble lines).assembler.symbols.address name = .ok (k : Int) ∧
      k = words.countP (fun w : Word => w.line < (d : Int)) ∧
      words.take k = words.filter (fun w : Word => w.line < (d : Int)) ∧
      words.drop k = words.filter (fun w : Word => (d : Int) < w.line) ∧
      (isSignedDigits name = false →
        ∀ w ∈ words, w.source = byte '@' :: name → IsBinary16 w.code k) := by
  have hassembled := assembled_of_ok asm h
  obtain ⟨k, haddress, hcount, htake, hdrop⟩ := hassembled.cut_at_label hd
  refine ⟨k, SymbolTable.address_eq_ok_iff.mpr haddress, hcount, htake, hdrop, ?_⟩
  intro hsymbol w hw hsource
  exact hassembled.code_of_source hsymbol haddress hw hsource

/-- A predefined symbol that is declared twice as a label and used before both declarations. -/
theorem label_address_of_redeclared_register :
    let lines := [ascii "@R5", ascii "(R5)", ascii "@x", ascii "D=M", ascii "// note",
      ascii "(R5) // again", ascii "@R5", ascii "0;JMP"]
    let words : List Word := [⟨ascii "0000000000000011", 1, ascii "@R5"⟩,
      ⟨ascii "0000000000010000", 3, ascii "@x"⟩, ⟨ascii "1111110000010000", 4, ascii "D=M"⟩,
      ⟨ascii "0000000000000011", 7, ascii "@R5"⟩, ⟨ascii "1110101010000111", 8, ascii "0;JMP"⟩]
    (new.assemble lines).result = .ok words ∧ IsLastDeclaration lines (ascii "R5") 6 ∧
      (new.assemble lines).assembler.symbols.address (ascii "R5") = .ok 3 := by
  intro lines words
  have h : (new.assemble lines).result = .ok words := by decide +kernel
  have hd : IsLastDeclaration lines (ascii "R5") 6 := by
    refine ⟨⟨⟨6, ascii "(R5)"⟩, ?_, rfl, ?_⟩, ?_⟩ <;> decide +kernel
  obtain ⟨k, haddress, hcount, -⟩ := label_address_counts_words new lines h hd
  obtain rfl : k = 3 := hcount.trans (by decide)
  exact ⟨h, hd, haddress⟩

end Assembler

end HackAssembly
