import HackAssembly.Proofs.Decoding
import HackAssembly.Source.Reading
import HackAssembly.Stream

/-!
# Reading lines and writing them

A text is a run of lines that each have their newline, with perhaps a last one that has none.
Reading follows this shape, so what is said of all texts is proved along it (`line_induction`).
Words are written one to a line and read back as they were; and since carriage returns before a
newline and the last newline belong to the terminators, they make no difference to what is read.
-/

namespace HackAssembly

/-- A line as reading gives it: it holds no newline and does not end in a carriage return. -/
structure IsReadLine (line : Bytes) : Prop where
  newline_not_mem : Bytes.newline ∉ line
  no_return : line.getLast? ≠ some carriageReturn

instance (line : Bytes) : Decidable (IsReadLine line) :=
  decidable_of_iff (Bytes.newline ∉ line ∧ line.getLast? ≠ some carriageReturn)
    ⟨fun h => ⟨h.1, h.2⟩, fun h => ⟨h.1, h.2⟩⟩

/-! ### Texts as runs of lines -/

/-- A text is empty, or a line without a newline, or a line with its newline and a text after it. -/
@[elab_as_elim]
theorem line_induction {motive : Bytes → Prop} (text : Bytes) (nil : motive [])
    (unended : ∀ line, Bytes.newline ∉ line → line ≠ [] → motive line)
    (ended : ∀ line rest, Bytes.newline ∉ line → motive rest →
      motive (line ++ Bytes.newline :: rest)) : motive text := by
  by_cases hmem : Bytes.newline ∈ text
  · obtain ⟨line, rest, hsplit, hline⟩ := List.eq_append_cons_of_mem hmem
    rw [hsplit]
    exact ended line rest hline (line_induction rest nil unended ended)
  · by_cases hnil : text = []
    · rw [hnil]
      exact nil
    · exact unended text hmem hnil
termination_by text.length
decreasing_by
  rw [hsplit, List.length_append, List.length_cons]
  omega

theorem pieces_unended {line : Bytes} (h : Bytes.newline ∉ line) (hne : line ≠ []) :
    pieces line = [line] := by
  simp [pieces, List.splitOn_eq_singleton h, hne]

theorem pieces_ended {line : Bytes} (h : Bytes.newline ∉ line) (rest : Bytes) :
    pieces (line ++ Bytes.newline :: rest) = line :: pieces rest := by
  have hparts := List.splitOn_ne_nil Bytes.newline rest
  simp only [pieces, List.splitOn_append_cons_self_of_not_mem h,
    List.getLast?_cons_of_ne_nil hparts]
  split
  · exact List.dropLast_cons_of_ne_nil hparts
  · rfl

/-- What is written with a newline after each item are the pieces of the whole. -/
theorem pieces_flatMap {α : Type} (line : α → Bytes) {items : List α}
    (h : ∀ a ∈ items, Bytes.newline ∉ line a) :
    pieces (items.flatMap fun a => line a ++ [Bytes.newline]) = items.map line := by
  induction items with
  | nil => rfl
  | cons a items ih =>
      have hrest := ih fun b hb => h b (List.mem_cons_of_mem a hb)
      rw [List.flatMap_cons, List.append_assoc, List.singleton_append,
        pieces_ended (h a List.mem_cons_self), hrest, List.map_cons]

/-! ### Carriage returns -/

theorem withoutReturns_concat (line : Bytes) :
    withoutReturns (line ++ [carriageReturn]) = withoutReturns line := by
  simp [withoutReturns]

theorem withoutReturns_eq_self {line : Bytes} (h : line.getLast? ≠ some carriageReturn) :
    withoutReturns line = line := by
  have hkept : line.reverse.dropWhile (· == carriageReturn) = line.reverse := by
    rw [List.getLast?_eq_head?_reverse] at h
    cases hreverse : line.reverse with
    | nil => rfl
    | cons b rest =>
        rw [hreverse, List.head?_cons, ne_eq, Option.some.injEq] at h
        simp [h]
  rw [withoutReturns, hkept, List.reverse_reverse]

theorem getLast?_withoutReturns (line : Bytes) :
    (withoutReturns line).getLast? ≠ some carriageReturn := by
  have hhead := List.head?_dropWhile_not (· == carriageReturn) line.reverse
  rw [withoutReturns, List.getLast?_reverse]
  intro hreturn
  simp [hreturn] at hhead

theorem withoutReturns_isPrefix (line : Bytes) : withoutReturns line <+: line := by
  have hsuffix := List.dropWhile_suffix (· == carriageReturn) (l := line.reverse)
  rwa [← List.reverse_prefix, List.reverse_reverse] at hsuffix

theorem IsReadLine.withoutReturns {line : Bytes} (h : Bytes.newline ∉ line) :
    IsReadLine (withoutReturns line) where
  newline_not_mem := fun hmem => h ((withoutReturns_isPrefix line).subset hmem)
  no_return := getLast?_withoutReturns line

/-! ### Reading -/

theorem readLines_unended {line : Bytes} (h : Bytes.newline ∉ line) (hne : line ≠ []) :
    readLines line = [withoutReturns line] := by
  rw [readLines, pieces_unended h hne, List.map_singleton]

theorem readLines_ended {line : Bytes} (h : Bytes.newline ∉ line) (rest : Bytes) :
    readLines (line ++ Bytes.newline :: rest) = withoutReturns line :: readLines rest := by
  rw [readLines, pieces_ended h, List.map_cons, readLines]

/-- There is a line for every newline, and one more for what stands after the last. -/
theorem length_readLines (text : Bytes) :
    (readLines text).length = text.count Bytes.newline +
      if text ≠ [] ∧ text.getLast? ≠ some Bytes.newline then 1 else 0 := by
  induction text using line_induction with
  | nil => rfl
  | unended line hline hne =>
      have hlast : line.getLast? ≠ some Bytes.newline :=
        fun h => hline (List.mem_of_getLast? h)
      rw [readLines_unended hline hne, if_pos ⟨hne, hlast⟩, List.count_eq_zero_of_not_mem hline]
      rfl
  | ended line rest hline ih =>
      rw [readLines_ended hline, List.length_cons, ih, List.count_append,
        List.count_eq_zero_of_not_mem hline, List.count_cons_self]
      by_cases hrest : rest = []
      · simp [hrest]
      · simp only [List.getLast?_append_cons, List.getLast?_cons_of_ne_nil hrest, ne_eq, hrest,
          not_false_eq_true, true_and, List.append_eq_nil_iff, List.cons_ne_nil, and_false]
        omega

theorem isReadLine_of_mem {text line : Bytes} (h : line ∈ readLines text) : IsReadLine line := by
  induction text using line_induction with
  | nil => cases h
  | unended body hbody hne =>
      rw [readLines_unended hbody hne, List.mem_singleton] at h
      rw [h]
      exact .withoutReturns hbody
  | ended body rest hbody ih =>
      rw [readLines_ended hbody, List.mem_cons] at h
      rcases h with rfl | h
      · exact .withoutReturns hbody
      · exact ih h

/-- The text with a carriage return put before every newline. -/
def withReturns (text : Bytes) : Bytes :=
  text.flatMap fun b => if b = Bytes.newline then [carriageReturn, Bytes.newline] else [b]

theorem withReturns_of_not_mem {line : Bytes} (h : Bytes.newline ∉ line) :
    withReturns line = line := by
  have hbytes : ∀ b ∈ line, (if b = Bytes.newline then [carriageReturn, Bytes.newline] else [b]) =
      [b] := by
    intro b hb
    rw [if_neg]
    rintro rfl
    exact h hb
  rw [withReturns, List.flatMap_congr hbytes, List.flatMap_singleton']

theorem withReturns_ended {line : Bytes} (h : Bytes.newline ∉ line) (rest : Bytes) :
    withReturns (line ++ Bytes.newline :: rest) =
      (line ++ [carriageReturn]) ++ Bytes.newline :: withReturns rest := by
  calc withReturns (line ++ Bytes.newline :: rest)
      = withReturns line ++ [carriageReturn, Bytes.newline] ++ withReturns rest := by
        simp [withReturns]
    _ = (line ++ [carriageReturn]) ++ Bytes.newline :: withReturns rest := by
        rw [withReturns_of_not_mem h]
        simp

theorem readLines_withReturns (text : Bytes) : readLines (withReturns text) = readLines text := by
  induction text using line_induction with
  | nil => rfl
  | unended line hline _ => rw [withReturns_of_not_mem hline]
  | ended line rest hline ih =>
      have hreturned : Bytes.newline ∉ line ++ [carriageReturn] := by
        simp only [List.mem_append, List.mem_singleton, not_or]
        exact ⟨hline, by decide⟩
      rw [withReturns_ended hline, readLines_ended hreturned, readLines_ended hline,
        withoutReturns_concat, ih]

/-- The newline of the last line may be left out. -/
theorem readLines_concat_newline {text : Bytes} (hne : text ≠ [])
    (hlast : text.getLast? ≠ some Bytes.newline) :
    readLines (text ++ [Bytes.newline]) = readLines text := by
  induction text using line_induction with
  | nil => exact absurd rfl hne
  | unended line hline hne =>
      rw [readLines_ended hline, readLines_unended hline hne]
      rfl
  | ended line rest hline ih =>
      have hrest : rest ≠ [] := by
        rintro rfl
        simp at hlast
      rw [List.getLast?_append_cons, List.getLast?_cons_of_ne_nil hrest] at hlast
      rw [List.append_assoc, List.cons_append, readLines_ended hline, readLines_ended hline,
        ih hrest hlast]

/-! ### Words written and read -/

theorem readLines_codeText {words : List Word} (h : ∀ w ∈ words, IsReadLine w.code) :
    readLines (codeText words) = words.map Word.code := by
  have hpieces : pieces (codeText words) = words.map Word.code :=
    pieces_flatMap Word.code fun w hw => (h w hw).newline_not_mem
  rw [readLines, hpieces, List.map_map]
  apply List.map_congr_left
  intro w hw
  exact withoutReturns_eq_self (h w hw).no_return

/-- The code of an assembled word consists of sixteen binary digits. -/
theorem Assembled.exists_digits {lines : List Bytes} {words : List Word} {table : SymbolTable}
    (h : Assembled lines words table) {w : Word} (hw : w ∈ words) :
    ∃ code : Code, w.code = code.digits := by
  rw [h.words_eq] at hw
  obtain ⟨i, -, hword⟩ := List.mem_filterMap.mp hw
  exact Item.exists_code_of_word? hword

theorem Code.not_mem_digits {b : UInt8} (hzero : b ≠ byte '0') (hone : b ≠ byte '1') (w : Code) :
    b ∉ w.digits := by
  intro hb
  rcases (isBinary16_digits w).digit b hb with h | h
  · exact hzero h
  · exact hone h

theorem Code.isReadLine_digits (w : Code) : IsReadLine w.digits where
  newline_not_mem := w.not_mem_digits (by decide) (by decide)
  no_return := fun h => w.not_mem_digits (by decide) (by decide) (List.mem_of_getLast? h)

theorem length_codeText {words : List Word} (h : ∀ w ∈ words, w.code.length = 16) :
    (codeText words).length = 17 * words.length := by
  induction words with
  | nil => rfl
  | cons w words ih =>
      have hw := h w List.mem_cons_self
      have hrest := ih fun other hother => h other (List.mem_cons_of_mem w hother)
      rw [codeText] at hrest
      rw [codeText, List.flatMap_cons, List.length_append, hrest, Word.codeLine, List.length_append,
        hw, List.length_singleton, List.length_cons]
      omega

/-- Reading inverts writing, and terminators do not matter to it. Words are read back as the codes
that were written, those of an assembled program from seventeen bytes each; a text has as many lines
as newlines, and one more if it goes on after the last; no line keeps anything of a terminator; and
neither carriage returns before the newlines nor a newline at the end change what is read. -/
theorem reading_inverts_writing :
    (∀ words : List Word, (∀ w ∈ words, IsReadLine w.code) →
      let written := Sink.writeLines ⟨none⟩ (words.map Word.codeLine)
      written.complete = true ∧ readLines written.taken = words.map Word.code) ∧
    (∀ (asm : Assembler) (lines : List Bytes) (words : List Word),
      (asm.assemble lines).result = .ok words →
      let written := Sink.writeLines ⟨none⟩ (words.map Word.codeLine)
      written.taken.length = 17 * words.length ∧ readLines written.taken = words.map Word.code) ∧
    ∀ text : Bytes,
      (readLines text).length = text.count Bytes.newline +
        (if text ≠ [] ∧ text.getLast? ≠ some Bytes.newline then 1 else 0) ∧
      (∀ line ∈ readLines text, IsReadLine line) ∧
      readLines (withReturns text) = readLines text ∧
      (text ≠ [] → text.getLast? ≠ some Bytes.newline →
        readLines (text ++ [Bytes.newline]) = readLines text) := by
  have hwritten : ∀ words : List Word,
      Sink.writeLines ⟨none⟩ (words.map Word.codeLine) = ⟨codeText words, true⟩ :=
    fun words => Sink.writeLines_unbounded _
  refine ⟨?_, ?_, ?_⟩
  · intro words hwords
    rw [hwritten]
    exact ⟨rfl, readLines_codeText hwords⟩
  · intro asm lines words hok
    have hassembled := Assembler.assembled_of_ok asm hok
    rw [hwritten]
    constructor
    · apply length_codeText
      intro w hw
      obtain ⟨code, hcode⟩ := hassembled.exists_digits hw
      rw [hcode, Code.length_digits]
    · apply readLines_codeText
      intro w hw
      obtain ⟨code, hcode⟩ := hassembled.exists_digits hw
      rw [hcode]
      exact code.isReadLine_digits
  · intro text
    exact ⟨length_readLines text, fun _ => isReadLine_of_mem, readLines_withReturns text,
      readLines_concat_newline⟩

/-- An empty code and one with a carriage return inside, an assembled program, and a text with
terminators of several kinds and none at its end. -/
theorem reading_inverts_writing_of_mixed_lines :
    let words : List Word := [⟨ascii "0000000000000111", 1, ascii "@7"⟩, ⟨[], 2, []⟩,
      ⟨ascii "a\rb", 3, []⟩]
    let assembled : List Word := [⟨ascii "0000000000010000", 1, ascii "@i"⟩]
    let text := ascii "@7\r\r\n\n\r\nD=A"
    (∀ w ∈ words, IsReadLine w.code) ∧
      readLines (Sink.writeLines ⟨none⟩ (words.map Word.codeLine)).taken = words.map Word.code ∧
      (Assembler.new.assemble [ascii " @i"]).result = .ok assembled ∧
      (Sink.writeLines ⟨none⟩ (assembled.map Word.codeLine)).taken.length = 17 ∧
      text ≠ [] ∧ text.getLast? ≠ some Bytes.newline ∧
      readLines (text ++ [Bytes.newline]) = readLines text := by
  intro words assembled text
  obtain ⟨hcodes, hprograms, htexts⟩ := reading_inverts_writing
  have hwords : ∀ w ∈ words, IsReadLine w.code := by decide
  have hok : (Assembler.new.assemble [ascii " @i"]).result = .ok assembled := by decide +kernel
  have hne : text ≠ [] := by decide
  have hlast : text.getLast? ≠ some Bytes.newline := by decide
  obtain ⟨-, -, -, hended⟩ := htexts text
  exact ⟨hwords, (hcodes words hwords).2, hok, (hprograms .new _ assembled hok).1, hne, hlast,
    hended hne hlast⟩

end HackAssembly
