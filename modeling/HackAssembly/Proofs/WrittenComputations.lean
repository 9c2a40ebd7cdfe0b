import HackAssembly.Proofs.Decoding
import HackAssembly.Proofs.Failures

/-!
# How computations are written

A computation is written with a destination, with a jump, or with both. A text is taken for one as
soon as `=` or `;` occurs exactly once in it, and is then cut at the first `=` and at the first `;`
after that; so a text with repeated or misplaced separators still gets as far as the tables. There
it fails: no mnemonic holds a separator, and each cut leaves one in a field unless the text has one
of the three forms. The accepted texts are therefore exactly the written ones.
-/

namespace HackAssembly

/-- A computation in one of its three written forms. -/
inductive Computation
  | storing (dest : Dest) (comp : Comp)
  | jumping (comp : Comp) (jump : Jump)
  | storingJumping (dest : Dest) (comp : Comp) (jump : Jump)
  deriving DecidableEq, Repr

namespace Computation

def text : Computation → Bytes
  | storing dest comp => dest.mnemonic ++ byte '=' :: comp.mnemonic
  | jumping comp jump => comp.mnemonic ++ byte ';' :: jump.mnemonic
  | storingJumping dest comp jump =>
    dest.mnemonic ++ byte '=' :: (comp.mnemonic ++ byte ';' :: jump.mnemonic)

def comp : Computation → Comp
  | storing _ comp | jumping comp _ | storingJumping _ comp _ => comp

/-- The destination, null where none is written. -/
def dest : Computation → Dest
  | storing dest _ | storingJumping dest _ _ => dest
  | jumping _ _ => .null

/-- The jump, null where none is written. -/
def jump : Computation → Jump
  | jumping _ jump | storingJumping _ _ jump => jump
  | storing _ _ => .null

def fields (w : Computation) : Fields := ⟨w.dest.mnemonic, w.comp.mnemonic, w.jump.mnemonic⟩

end Computation

/-- The binary digits of a field of a word, the highest first. -/
def bitText {n : Nat} (b : BitVec n) : Bytes :=
  (List.range n).map fun i => if b.getMsbD i then byte '1' else byte '0'

theorem bitText_append {m n : Nat} (a : BitVec m) (b : BitVec n) :
    bitText (a ++ b) = bitText a ++ bitText b := by
  rw [bitText, List.range_add, List.map_append, List.map_map]
  congr 1
  · apply List.map_congr_left
    intro i hi
    rw [BitVec.getMsbD_append, if_neg (Nat.not_le.mpr (List.mem_range.mp hi))]
  · apply List.map_congr_left
    intro i _
    rw [Function.comp_apply, BitVec.getMsbD_append, if_pos (Nat.le_add_right m i),
      Nat.add_sub_cancel_left]

/-- The digits of a computation's word, field by field. -/
theorem Instruction.digits_compute (comp : Comp) (dest : Dest) (jump : Jump) :
    (compute comp dest jump).encode.digits =
      ascii "111" ++ bitText comp.bits ++ bitText dest.bits ++ bitText jump.bits := by
  show bitText (computeMark ++ comp.bits ++ dest.bits ++ jump.bits) = _
  rw [bitText_append, bitText_append, bitText_append]
  rfl

/-! ### Mnemonics hold no separator -/

/-- The text can stand as a field: it has no separator and does not begin like a load or a label. -/
structure IsField (s : Bytes) : Prop where
  noEquals : byte '=' ∉ s
  noSemicolon : byte ';' ∉ s
  begins : ∃ b rest, s = b :: rest ∧ b ≠ byte '@' ∧ b ≠ byte '('

theorem IsField.begins_append {s : Bytes} (h : IsField s) (t : Bytes) :
    ∃ b rest, s ++ t = b :: rest ∧ b ≠ byte '@' ∧ b ≠ byte '(' := by
  obtain ⟨b, rest, rfl, hb⟩ := h.begins
  exact ⟨b, rest ++ t, rfl, hb⟩

theorem isField_iff {s : Bytes} :
    IsField s ↔ byte '=' ∉ s ∧ byte ';' ∉ s ∧ s ≠ [] ∧ s.head? ≠ some (byte '@') ∧
      s.head? ≠ some (byte '(') := by
  constructor
  · rintro ⟨hequals, hsemicolon, b, rest, rfl, hload, hlabel⟩
    simp [hequals, hsemicolon, hload, hlabel]
  · rintro ⟨hequals, hsemicolon, hne, hload, hlabel⟩
    obtain ⟨b, rest, rfl⟩ := List.exists_cons_of_ne_nil hne
    exact ⟨hequals, hsemicolon, b, rest, rfl, by simpa using hload, by simpa using hlabel⟩

instance (s : Bytes) : Decidable (IsField s) := decidable_of_iff' _ isField_iff

theorem Comp.isField_mnemonic (c : Comp) : IsField c.mnemonic := by
  have h : ∀ c ∈ all, IsField c.mnemonic := by decide
  exact h c (mem_all c)

theorem Dest.isField_mnemonic (d : Dest) : IsField d.mnemonic := by
  cases d <;> decide

theorem Jump.isField_mnemonic (j : Jump) : IsField j.mnemonic := by
  cases j <;> decide

/-! ### Written computations are read back -/

namespace Computation

theorem noEquals_jumping (comp : Comp) (jump : Jump) : byte '=' ∉ (jumping comp jump).text := by
  rw [text, List.mem_append, List.mem_cons]
  rintro (h | h | h)
  · exact comp.isField_mnemonic.noEquals h
  · exact absurd h (by decide)
  · exact jump.isField_mnemonic.noEquals h

theorem noSemicolon_storing (dest : Dest) (comp : Comp) :
    byte ';' ∉ (storing dest comp).text := by
  rw [text, List.mem_append, List.mem_cons]
  rintro (h | h | h)
  · exact dest.isField_mnemonic.noSemicolon h
  · exact absurd h (by decide)
  · exact comp.isField_mnemonic.noSemicolon h

/-- Cutting the text gives back the fields. -/
theorem ofText_text (w : Computation) : Fields.ofText w.text = w.fields := by
  cases w with
  | storing dest comp =>
      have hequals : Bytes.cut? (byte '=') (storing dest comp).text =
          some (dest.mnemonic, comp.mnemonic) :=
        Bytes.cut?_eq_some_iff.mpr ⟨rfl, dest.isField_mnemonic.noEquals⟩
      have hsemicolon := Bytes.cut?_eq_none_iff.mpr comp.isField_mnemonic.noSemicolon
      simp only [Fields.ofText, hequals, Option.getD_some, hsemicolon, Option.getD_none]
      rfl
  | jumping comp jump =>
      have hequals := Bytes.cut?_eq_none_iff.mpr (noEquals_jumping comp jump)
      have hsemicolon : Bytes.cut? (byte ';') (jumping comp jump).text =
          some (comp.mnemonic, jump.mnemonic) :=
        Bytes.cut?_eq_some_iff.mpr ⟨rfl, comp.isField_mnemonic.noSemicolon⟩
      simp only [Fields.ofText, hequals, Option.getD_none, hsemicolon, Option.getD_some]
      rfl
  | storingJumping dest comp jump =>
      have hequals : Bytes.cut? (byte '=') (storingJumping dest comp jump).text =
          some (dest.mnemonic, (jumping comp jump).text) :=
        Bytes.cut?_eq_some_iff.mpr ⟨rfl, dest.isField_mnemonic.noEquals⟩
      have hsemicolon : Bytes.cut? (byte ';') (jumping comp jump).text =
          some (comp.mnemonic, jump.mnemonic) :=
        Bytes.cut?_eq_some_iff.mpr ⟨rfl, comp.isField_mnemonic.noSemicolon⟩
      simp only [Fields.ofText, hequals, Option.getD_some, hsemicolon]
      rfl

/-- One of the separators occurs exactly once. -/
theorem count_text (w : Computation) :
    w.text.count (byte '=') = 1 ∨ w.text.count (byte ';') = 1 := by
  cases w with
  | storing dest comp =>
      left
      rw [text, List.count_append, List.count_cons_self,
        List.count_eq_zero_of_not_mem dest.isField_mnemonic.noEquals,
        List.count_eq_zero_of_not_mem comp.isField_mnemonic.noEquals]
  | jumping comp jump =>
      right
      rw [text, List.count_append, List.count_cons_self,
        List.count_eq_zero_of_not_mem comp.isField_mnemonic.noSemicolon,
        List.count_eq_zero_of_not_mem jump.isField_mnemonic.noSemicolon]
  | storingJumping dest comp jump =>
      left
      rw [text, ← text, List.count_append, List.count_cons_self,
        List.count_eq_zero_of_not_mem dest.isField_mnemonic.noEquals,
        List.count_eq_zero_of_not_mem (noEquals_jumping comp jump)]

theorem text_begins (w : Computation) :
    ∃ b rest, w.text = b :: rest ∧ b ≠ byte '@' ∧ b ≠ byte '(' := by
  cases w with
  | storing dest comp => exact dest.isField_mnemonic.begins_append _
  | jumping comp jump => exact comp.isField_mnemonic.begins_append _
  | storingJumping dest comp jump => exact dest.isField_mnemonic.begins_append _

theorem parse_text (w : Computation) : Statement.parse w.text = .ok (.compute w.fields) := by
  have hcount := w.count_text
  obtain ⟨b, rest, htext, hload, hlabel⟩ := w.text_begins
  have hhead : w.text.head? = some b := by rw [htext, List.head?_cons]
  rw [Statement.parse, hhead, if_neg (by simpa using hload), if_neg (by simp [hlabel]),
    if_pos hcount, ofText_text]

theorem encodeFields_fields (w : Computation) :
    encodeFields w.fields = .ok (Instruction.compute w.comp w.dest w.jump).encode := by
  simp only [encodeFields, fields, Comp.ofMnemonic?_mnemonic, Dest.ofMnemonic?_mnemonic,
    Jump.ofMnemonic?_mnemonic]

theorem eq_of_fields_eq {v w : Computation} (h : v.fields = w.fields) :
    v.comp = w.comp ∧ v.dest = w.dest ∧ v.jump = w.jump := by
  have hcode := v.encodeFields_fields
  rw [h, w.encodeFields_fields, Except.ok.injEq] at hcode
  have hdecode := congrArg Instruction.decode? hcode
  rw [Instruction.decode?_encode_compute, Instruction.decode?_encode_compute, Option.some.injEq,
    Instruction.compute.injEq] at hdecode
  exact ⟨hdecode.1.symm, hdecode.2.1.symm, hdecode.2.2.symm⟩

def stores : Computation → Bool
  | jumping _ _ => false
  | _ => true

def jumps : Computation → Bool
  | storing _ _ => false
  | _ => true

theorem equals_mem_text (w : Computation) : byte '=' ∈ w.text ↔ w.stores = true := by
  cases w with
  | jumping comp jump => simpa [stores] using noEquals_jumping comp jump
  | storing dest comp => simp [text, stores]
  | storingJumping dest comp jump => simp [text, stores]

theorem semicolon_mem_text (w : Computation) : byte ';' ∈ w.text ↔ w.jumps = true := by
  cases w with
  | storing dest comp => simpa [jumps] using noSemicolon_storing dest comp
  | jumping comp jump => simp [text, jumps]
  | storingJumping dest comp jump => simp [text, jumps]

/-- A text is the text of at most one computation: its separators tell the form, and cutting it
tells the fields. -/
theorem text_injective {v w : Computation} (h : v.text = w.text) : v = w := by
  have hfields := v.ofText_text
  rw [h, ofText_text] at hfields
  obtain ⟨hcomp, hdest, hjump⟩ := eq_of_fields_eq hfields.symm
  have hstores : v.stores = w.stores := by
    rw [Bool.eq_iff_iff, ← equals_mem_text, ← equals_mem_text, h]
  have hjumps : v.jumps = w.jumps := by
    rw [Bool.eq_iff_iff, ← semicolon_mem_text, ← semicolon_mem_text, h]
  cases v with
  | storing dest comp =>
      cases w with
      | storing _ _ => exact congrArg₂ storing hdest hcomp
      | jumping _ _ => cases hstores
      | storingJumping _ _ _ => cases hjumps
  | jumping comp jump =>
      cases w with
      | storing _ _ => cases hstores
      | jumping _ _ => exact congrArg₂ jumping hcomp hjump
      | storingJumping _ _ _ => cases hstores
  | storingJumping dest comp jump =>
      cases w with
      | storing _ _ => cases hjumps
      | jumping _ _ => cases hstores
      | storingJumping _ _ _ => exact congr (congrArg₂ storingJumping hdest hcomp) hjump

end Computation

/-! ### Only written computations are accepted -/

theorem Statement.parse_eq_compute {text : Bytes} {fields : Fields}
    (h : parse text = .ok (.compute fields)) :
    fields = Fields.ofText text ∧ (byte '=' ∈ text ∨ byte ';' ∈ text) := by
  unfold parse at h
  split at h
  · split at h <;> cases h
  · split at h
    · split at h <;> cases h
    · split at h
      · rename_i hcount
        cases h
        refine ⟨rfl, hcount.imp ?_ ?_⟩
        all_goals
          intro hone
          exact List.count_pos_iff.mp (by omega)
      · cases h

/-- Fields with known mnemonics come from a written computation. -/
theorem exists_computation_of_encodeFields {text : Bytes} {code : Code}
    (hseparator : byte '=' ∈ text ∨ byte ';' ∈ text)
    (hcode : encodeFields (Fields.ofText text) = .ok code) : ∃ w : Computation, w.text = text := by
  obtain ⟨instruction, -, hfields, -, -⟩ := exists_of_encodeFields hcode
  cases instruction with
  | load value => cases hfields
  | compute comp dest jump =>
      rw [Instruction.resolved, Resolved.compute.injEq] at hfields
      cases hequals : Bytes.cut? (byte '=') text with
      | some pair =>
          obtain ⟨left, rest⟩ := pair
          obtain ⟨rfl, -⟩ := Bytes.cut?_eq_some_iff.mp hequals
          cases hsemicolon : Bytes.cut? (byte ';') rest with
          | some pair =>
              obtain ⟨middle, right⟩ := pair
              obtain ⟨rfl, -⟩ := Bytes.cut?_eq_some_iff.mp hsemicolon
              simp only [Fields.ofText, hequals, Option.getD_some, hsemicolon,
                Fields.mk.injEq] at hfields
              obtain ⟨rfl, rfl, rfl⟩ := hfields
              exact ⟨.storingJumping dest comp jump, rfl⟩
          | none =>
              simp only [Fields.ofText, hequals, Option.getD_some, hsemicolon, Option.getD_none,
                Fields.mk.injEq] at hfields
              obtain ⟨rfl, rfl, -⟩ := hfields
              exact ⟨.storing dest comp, rfl⟩
      | none =>
          cases hsemicolon : Bytes.cut? (byte ';') text with
          | some pair =>
              obtain ⟨left, right⟩ := pair
              obtain ⟨rfl, -⟩ := Bytes.cut?_eq_some_iff.mp hsemicolon
              simp only [Fields.ofText, hequals, Option.getD_none, hsemicolon, Option.getD_some,
                Fields.mk.injEq] at hfields
              obtain ⟨-, rfl, rfl⟩ := hfields
              exact ⟨.jumping comp jump, rfl⟩
          | none =>
              exact absurd hseparator (not_or.mpr
                ⟨Bytes.cut?_eq_none_iff.mp hequals, Bytes.cut?_eq_none_iff.mp hsemicolon⟩)

theorem exists_unknownMnemonic {fields : Fields} {cause : Cause}
    (h : encodeFields fields = .error cause) :
    ∃ field text, cause = .unknownMnemonic field text := by
  have hwhy : Unencodable [] (.compute fields) cause := Program.unencodable_of_encodeFields h
  cases hwhy with
  | comp _ => exact ⟨_, _, rfl⟩
  | dest _ _ => exact ⟨_, _, rfl⟩
  | jump _ _ _ => exact ⟨_, _, rfl⟩

namespace Cursor

variable {c : Cursor} {l : SourceLine}

theorem text_of_place (h : c.place = .on l) : c.text = l.text := by
  rw [text, h]

/-- On a line the kind is computation exactly if the text is parsed to one. -/
theorem kind_eq_computation_iff (h : c.place = .on l) :
    c.kind = .ok .computation ↔
      Statement.parse l.text = .ok (.compute (Fields.ofText l.text)) := by
  rw [kind, statement, h]
  dsimp only
  constructor
  · intro hkind
    cases hparse : Statement.parse l.text with
    | error how =>
        rw [hparse] at hkind
        cases hkind
    | ok statement =>
        rw [hparse] at hkind
        cases statement with
        | load target => cases hkind
        | label name => cases hkind
        | compute fields => rw [(Statement.parse_eq_compute hparse).1]
  · intro hparse
    rw [hparse]
    rfl

/-- Exactly the written computations are accepted under a cursor, whatever else the text of a line
may be. The form and the fields are unique; the cursor shows the fields, an absent one as null, and
the word is `111` with the bits of the three mnemonics. Any other text of this kind has an unknown
mnemonic. -/
theorem computation_accepted_iff_written (c : Cursor) (l : SourceLine) (h : c.place = .on l) :
    ((c.kind = .ok .computation ∧ ∃ code, encodeFields c.fields = .ok code) ↔
        ∃ w : Computation, w.text = l.text) ∧
      (∀ v w : Computation, v.text = l.text → w.text = l.text → v = w) ∧
      (∀ w : Computation, w.text = l.text →
        c.fields = ⟨w.dest.mnemonic, w.comp.mnemonic, w.jump.mnemonic⟩ ∧
        ∃ code, encodeFields c.fields = .ok code ∧
          code.digits =
            ascii "111" ++ bitText w.comp.bits ++ bitText w.dest.bits ++ bitText w.jump.bits) ∧
      (c.kind = .ok .computation → (¬∃ w : Computation, w.text = l.text) →
        ∃ field text, encodeFields c.fields = .error (.unknownMnemonic field text)) := by
  have hfields : c.fields = Fields.ofText l.text := by rw [fields, text_of_place h]
  have hwritten : ∀ code, c.kind = .ok .computation → encodeFields c.fields = .ok code →
      ∃ w : Computation, w.text = l.text := by
    intro code hkind hcode
    rw [hfields] at hcode
    exact exists_computation_of_encodeFields
      (Statement.parse_eq_compute ((kind_eq_computation_iff h).mp hkind)).2 hcode
  have hread : ∀ w : Computation, w.text = l.text → c.fields = w.fields := by
    intro w hw
    rw [hfields, ← hw, w.ofText_text]
  refine ⟨⟨?_, ?_⟩, ?_, ?_, ?_⟩
  · rintro ⟨hkind, code, hcode⟩
    exact hwritten code hkind hcode
  · rintro ⟨w, hw⟩
    refine ⟨?_, _, by rw [hread w hw, w.encodeFields_fields]⟩
    rw [kind_eq_computation_iff h, ← hw, w.parse_text, w.ofText_text]
  · intro v w hv hw
    exact Computation.text_injective (hv.trans hw.symm)
  · intro w hw
    refine ⟨hread w hw, _, by rw [hread w hw, w.encodeFields_fields], ?_⟩
    exact Instruction.digits_compute w.comp w.dest w.jump
  · intro hkind hnot
    cases hcode : encodeFields c.fields with
    | ok code => exact absurd (hwritten code hkind hcode) hnot
    | error cause =>
        obtain ⟨field, text, rfl⟩ := exists_unknownMnemonic hcode
        exact ⟨field, text, rfl⟩

/-- All three fields are written, the destination as null, between a tab and a comment. -/
theorem computation_accepted_with_written_null :
    let c := (ofLines [ascii "// compare", ascii "\tnull=M-D;JLE // and go"]).advance.2
    let l : SourceLine := ⟨2, ascii "null=M-D;JLE"⟩
    c.place = .on l ∧ c.kind = .ok .computation ∧
      c.fields = ⟨ascii "null", ascii "M-D", ascii "JLE"⟩ ∧
      ∃ code, encodeFields c.fields = .ok code ∧ code.digits = ascii "1111000111000110" := by
  intro c l
  have hplace : c.place = .on l := by decide +kernel
  have htext : (Computation.storingJumping .null (.operandMinusData .memory) .nonpositive).text =
      l.text := by decide
  obtain ⟨haccepted, -, hread, -⟩ := computation_accepted_iff_written c l hplace
  obtain ⟨hfields, code, hcode, hdigits⟩ := hread _ htext
  exact ⟨hplace, (haccepted.mpr ⟨_, htext⟩).1, hfields, code, hcode, hdigits⟩

/-- Two separators of one sort: the jump is unique, so the text is taken for a computation, but the
second `=` stays in a field. -/
example : encodeFields (Fields.ofText (ascii "D=M=0;JMP")) =
    .error (.unknownMnemonic .comp (ascii "M=0")) := by decide

end Cursor

end HackAssembly
