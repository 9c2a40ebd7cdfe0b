import HackAssembly.Proofs.LineReading
import HackAssembly.Proofs.Numerals
import HackAssembly.Proofs.Trimming

/-!
# Listings read back

A row of a listing has a number of any width, padded in front, then the code in sixteen columns, and
then the source, which may hold anything but a newline. Nothing is lost in it: after the spaces in
front the number goes up to the next space, and from there on the columns are fixed. That codes
have the right width and sources have no newline is not a matter of the listing; it holds for the
words of every program that was read from a text (`Assembled.fitsRow`).
-/

namespace HackAssembly

/-! ### Rows -/

namespace Word

/-- The row of a listing without its newline. -/
def row (w : Word) : Bytes :=
  Bytes.padLeft 5 (Numeral.ofInt w.line) ++ ascii "  " ++ w.code ++ ascii "  " ++ w.source

/-- Reads a row: the number up to the space after it, sixteen columns for the code, and the source,
with two spaces in between. -/
def ofRow (row : Bytes) : Word :=
  let numbered := row.dropWhile (· == byte ' ')
  let number := numbered.takeWhile (· != byte ' ')
  let columns := numbered.drop (number.length + 2)
  ⟨columns.take 16, signedPlaceValue number, columns.drop 18⟩

/-- A word fits in a row: its code has the width of the column, and there is no newline in it. -/
structure FitsRow (w : Word) : Prop where
  length_code : w.code.length = 16
  newline_not_mem_code : Bytes.newline ∉ w.code
  newline_not_mem_source : Bytes.newline ∉ w.source

theorem dropWhile_padLeft {number : Bytes} (hspace : byte ' ' ∉ number) (hne : number ≠ [])
    (width : Nat) (rest : Bytes) :
    (Bytes.padLeft width number ++ rest).dropWhile (· == byte ' ') = number ++ rest := by
  rw [Bytes.padLeft, List.append_assoc, List.dropWhile_append_of_pos (by simp)]
  cases number with
  | nil => exact absurd rfl hne
  | cons b digits =>
      have hb : b ≠ byte ' ' := fun hb => hspace (hb ▸ List.mem_cons_self)
      simp [hb]

theorem takeWhile_number {number : Bytes} (hspace : byte ' ' ∉ number) (rest : Bytes) :
    (number ++ byte ' ' :: rest).takeWhile (· != byte ' ') = number := by
  rw [List.takeWhile_append_of_pos]
  · simp
  · intro b hb
    rw [bne_iff_ne]
    rintro rfl
    exact hspace hb

theorem ofRow_row {w : Word} (h : w.code.length = 16) : ofRow w.row = w := by
  obtain ⟨code, line, source⟩ := w
  have hlength : code.length = 16 := h
  have hspace := Numeral.not_mem_ofInt (b := byte ' ') (by decide) (by decide) line
  have hrow : row ⟨code, line, source⟩ = Bytes.padLeft 5 (Numeral.ofInt line) ++
      byte ' ' :: byte ' ' :: (code ++ byte ' ' :: byte ' ' :: source) := by
    simp [row, ascii]
  have hcolumns : (Numeral.ofInt line ++
      byte ' ' :: byte ' ' :: (code ++ byte ' ' :: byte ' ' :: source)).drop
        ((Numeral.ofInt line).length + 2) = code ++ byte ' ' :: byte ' ' :: source := by
    rw [List.drop_length_add_append]
    rfl
  have hsource : (code ++ byte ' ' :: byte ' ' :: source).drop 18 = source := by
    rw [show 18 = code.length + 2 by omega, List.drop_length_add_append]
    rfl
  simp only [ofRow, hrow, dropWhile_padLeft hspace (Numeral.ofInt_ne_nil line),
    takeWhile_number hspace, hcolumns, hsource, List.take_left' hlength,
    Numeral.signedPlaceValue_ofInt]

theorem FitsRow.newline_not_mem_row {w : Word} (h : w.FitsRow) : Bytes.newline ∉ w.row := by
  have hnumber := Numeral.not_mem_ofInt (b := Bytes.newline) (by decide) (by decide) w.line
  have hspace : Bytes.newline ≠ byte ' ' := by decide
  simp [row, Bytes.padLeft, ascii, hnumber, hspace, h.newline_not_mem_code,
    h.newline_not_mem_source]

end Word

/-! ### Listings -/

/-- Reads the words of a listing, row by row. -/
def readListing (text : Bytes) : List Word := (pieces text).map Word.ofRow

theorem readListing_listing {words : List Word} (h : ∀ w ∈ words, w.FitsRow) :
    readListing (listing words) = words := by
  have hpieces : pieces (listing words) = words.map Word.row :=
    pieces_flatMap Word.row fun w hw => (h w hw).newline_not_mem_row
  calc readListing (listing words)
      = words.map (fun w => Word.ofRow w.row) := by
        rw [readListing, hpieces, List.map_map]
        rfl
    _ = words.map id := List.map_congr_left fun w hw => Word.ofRow_row (h w hw).length_code
    _ = words := List.map_id words

/-- The words of a program without newlines in its lines fit in a listing. -/
theorem Assembled.fitsRow {lines : List Bytes} {words : List Word} {table : SymbolTable}
    (h : Assembled lines words table) (hlines : ∀ line ∈ lines, Bytes.newline ∉ line) {w : Word}
    (hw : w ∈ words) : w.FitsRow := by
  obtain ⟨code, hcode⟩ := h.exists_digits hw
  rw [h.words_eq] at hw
  obtain ⟨i, hi, hword⟩ := List.mem_filterMap.mp hw
  obtain ⟨-, -, htext⟩ := exists_of_mem_substantive (Program.mem_statements.mp hi).1
  obtain ⟨line, hline, hinstruction⟩ := Option.map_eq_some_iff.mp htext
  refine ⟨?_, ?_, ?_⟩
  · rw [hcode, Code.length_digits]
  · rw [hcode]
    exact code.isReadLine_digits.newline_not_mem
  · rw [(Item.line_source_of_word? hword).2, ← hinstruction]
    intro hmem
    exact hlines line (List.mem_of_getElem? hline) ((instructionText_isInfix line).subset hmem)

namespace Assembler

/-- The listing of a program that was read from a text gives back its words, with their numbers,
codes and sources; so two programs with the same listing have the same words. -/
theorem listing_determines_words (asm : Assembler) (text : Bytes) {words : List Word}
    (h : (asm.assemble (readLines text)).result = .ok words) :
    readListing (listing words) = words ∧
      ∀ (asm' : Assembler) (text' : Bytes) (words' : List Word),
        (asm'.assemble (readLines text')).result = .ok words' → listing words = listing words' →
        words = words' := by
  have hread : ∀ {asm : Assembler} {text : Bytes} {words : List Word},
      (asm.assemble (readLines text)).result = .ok words →
        readListing (listing words) = words := by
    intro asm text words hok
    apply readListing_listing
    intro w hw
    exact (assembled_of_ok asm hok).fitsRow
      (fun line hline => (isReadLine_of_mem hline).newline_not_mem) hw
  refine ⟨hread h, ?_⟩
  intro asm' text' words' h' heq
  calc words = readListing (listing words) := (hread h).symm
    _ = readListing (listing words') := by rw [heq]
    _ = words' := hread h'

/-- A source that looks like a row of its own, on two layouts of one program. -/
theorem listing_of_two_layouts_determines_words :
    let text := ascii "\n  @7  0000000000000000  9\t// none\r\nD;JMP"
    let text' := ascii "// none\n@7  0000000000000000  9\r\r\n\tD;JMP\n\n"
    let words : List Word := [⟨ascii "0000000000010000", 2, ascii "@7  0000000000000000  9"⟩,
      ⟨ascii "1110001100000111", 3, ascii "D;JMP"⟩]
    ∃ words', (new.assemble (readLines text)).result = .ok words ∧
      (new.assemble (readLines text')).result = .ok words' ∧ listing words = listing words' ∧
      readListing (listing words) = words ∧ words = words' := by
  intro text text' words
  have h : (new.assemble (readLines text)).result = .ok words := by decide +kernel
  have h' : (new.assemble (readLines text')).result = .ok words := by decide +kernel
  obtain ⟨hread, hsame⟩ := listing_determines_words new text h
  exact ⟨words, h, h', rfl, hread, hsame new text' words h' rfl⟩

end Assembler

end HackAssembly
