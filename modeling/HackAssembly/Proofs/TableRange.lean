import HackAssembly.Proofs.AddressCapacity

/-!
# Which bound addresses fit in a word

An address is checked when a load is encoded, not when a name is bound. A predefined symbol fits in
any case, and a variable is bound because it is loaded, so of the names that a successful run leaves
in its table only a label can be out of range: one that no line loads, behind more instructions than
a word can count.
-/

namespace HackAssembly

/-- More instructions stand before the label's last declaration than a word can count. -/
def IsFarLabel (lines : List Bytes) (name : Bytes) : Prop :=
  ∃ d, IsLastDeclaration lines name d ∧ 65535 < instructionsBefore lines d

section Meaning

variable {lines : List Bytes} {name : Bytes} {address : Int}

theorem IsFarLabel.lt_address (h : IsFarLabel lines name)
    (hmeaning : Program.meaning? (program lines) name = some address) : 65535 < address := by
  obtain ⟨d, hd, hfar⟩ := h
  rw [hd.meaning?_eq] at hmeaning
  cases hmeaning
  exact_mod_cast hfar

theorem Program.meaning?_nonneg (h : meaning? (program lines) name = some address) :
    0 ≤ address := by
  rcases meaning?_cases h with ⟨k, -, rfl⟩ | hpredefined | ⟨k, -, rfl⟩
  · exact Int.natCast_nonneg k
  · exact (predefined_fits hpredefined).1
  · exact Int.natCast_nonneg _

/-- If there is room for the variables, only a label can be out of range. -/
theorem AddressesFit.isFarLabel (hfit : AddressesFit lines)
    (h : Program.meaning? (program lines) name = some address) (hwide : 65535 < address) :
    IsFarLabel lines name := by
  rcases Program.meaning?_cases h with ⟨k, hlabel, rfl⟩ | hpredefined | ⟨k, hname, rfl⟩
  · obtain ⟨d, hd, rfl⟩ := IsLastDeclaration.exists_of_labelAddress? hlabel
    exact ⟨d, hd, by exact_mod_cast hwide⟩
  · have hle := (Program.predefined_fits hpredefined).2
    omega
  · have hroom := hfit.room
    have hlt := (List.getElem?_eq_some_iff.mp hname).1
    rw [firstVariable] at hwide
    omega

end Meaning

namespace Assembled

variable {lines : List Bytes} {words : List Word} {table : SymbolTable}

theorem addressesFit (h : Assembled lines words table) : AddressesFit lines :=
  addressesFit_of_not_isRefused (Program.refusal?_eq_none_iff.mp h.encodable)

theorem mem_entries_iff (h : Assembled lines words table) {b : Binding} :
    b ∈ table.entries ↔ Program.meaning? (program lines) b.name = some b.address := by
  rw [SymbolTable.mem_entries, h.get?_eq]

/-- The names out of range are the labels that are too far behind. -/
theorem lt_address_iff (h : Assembled lines words table) {b : Binding} (hb : b ∈ table.entries) :
    65535 < b.address ↔ IsFarLabel lines b.name :=
  ⟨h.addressesFit.isFarLabel (h.mem_entries_iff.mp hb),
    fun hfar => hfar.lt_address (h.mem_entries_iff.mp hb)⟩

/-- A label too far behind is in the table all the same. -/
theorem exists_entry (h : Assembled lines words table) {name : Bytes}
    (hfar : IsFarLabel lines name) : ∃ b ∈ table.entries, b.name = name := by
  obtain ⟨d, hd, -⟩ := hfar
  exact ⟨⟨name, instructionsBefore lines d⟩, h.mem_entries_iff.mpr hd.meaning?_eq, rfl⟩

theorem not_loaded (h : Assembled lines words table) {name : Bytes} (hfar : IsFarLabel lines name)
    (hsymbol : isSignedDigits name = false) {l : SourceLine} (hl : l ∈ substantive lines) :
    Statement.parse l.text ≠ .ok (.load name) := by
  intro hload
  obtain ⟨d, hd, hlt⟩ := hfar
  have hle := h.addressesFit.reach name (Program.mem_targets_statements.mpr ⟨l, hl, hload⟩)
    hsymbol d hd
  omega

end Assembled

/-- After a run that succeeds no address in the table is negative, and those that do not fit in a
word belong to the labels that stand behind more than `65535` instructions. So all of them fit
exactly if there is no such label, and no line loads one. -/
theorem Assembler.entries_fit_except_far_labels (asm : Assembler) {lines : List Bytes}
    {words : List Word} (h : (asm.assemble lines).result = .ok words) :
    let entries := (asm.assemble lines).assembler.symbols.entries
    (∀ b ∈ entries, 0 ≤ b.address ∧ (65535 < b.address ↔ IsFarLabel lines b.name)) ∧
      ((∀ b ∈ entries, b.address ≤ 65535) ↔ ∀ name, ¬IsFarLabel lines name) ∧
      ∀ name, IsFarLabel lines name → isSignedDigits name = false →
        ∀ l ∈ substantive lines, Statement.parse l.text ≠ .ok (.load name) := by
  have hassembled := assembled_of_ok asm h
  refine ⟨?_, ⟨?_, ?_⟩, ?_⟩
  · intro b hb
    exact ⟨Program.meaning?_nonneg (hassembled.mem_entries_iff.mp hb), hassembled.lt_address_iff hb⟩
  · intro hfits name hfar
    obtain ⟨b, hb, rfl⟩ := hassembled.exists_entry hfar
    have hlt := (hassembled.lt_address_iff hb).mpr hfar
    have hle := hfits b hb
    omega
  · intro hnone b hb
    by_contra hwide
    exact hnone b.name ((hassembled.lt_address_iff hb).mp (by omega))
  · intro name hfar hsymbol l hl
    exact hassembled.not_loaded hfar hsymbol hl

/-! ### The boundary -/

namespace labelBehind

variable {jumps : Nat}

/-- Without a load the program is assembled, whatever the number of jumps. -/
theorem exists_words (asm : Assembler) (jumps : Nat) :
    ∃ words, (asm.assemble (labelBehind 0 jumps)).result = .ok words := by
  have hrefusal : Program.refusal? (program (labelBehind 0 jumps)) = none := by
    apply Program.refusal?_eq_none_iff.mpr
    rintro l hl ⟨cause, hrefused⟩
    obtain ⟨name, -, hload, -⟩ := ((wellWritten 0 jumps).isRefusedFor_iff hl).mp hrefused
    obtain ⟨hpos, hle, -⟩ := eq_of_load hl hload
    omega
  obtain ⟨words, hresult, -⟩ :=
    asm.exists_assembled (Program.fault?_eq_none_iff.mpr (wellWritten 0 jumps).shape) hrefusal
  exact ⟨words, hresult⟩

theorem isFarLabel_iff {name : Bytes} :
    IsFarLabel (labelBehind 0 jumps) name ↔ name = ascii "L" ∧ 65535 < jumps := by
  constructor
  · rintro ⟨d, hd, hfar⟩
    obtain ⟨l, hl, -, hlabel⟩ := hd.declares
    obtain ⟨-, rfl⟩ := eq_of_label hl hlabel
    rw [hd.unique (isLastDeclaration 0 jumps), instructionsBefore_eq, Nat.zero_add] at hfar
    exact ⟨rfl, hfar⟩
  · rintro ⟨rfl, hfar⟩
    exact ⟨_, isLastDeclaration 0 jumps, by rwa [instructionsBefore_eq, Nat.zero_add]⟩

end labelBehind

/-- The addresses fit behind `65535` jumps, and not behind one more. -/
theorem Assembler.entries_fit_up_to_65535_jumps :
    (∀ b ∈ (new.assemble (labelBehind 0 65535)).assembler.symbols.entries, b.address ≤ 65535) ∧
      ¬∀ b ∈ (new.assemble (labelBehind 0 65536)).assembler.symbols.entries,
        b.address ≤ 65535 := by
  obtain ⟨words, hnear⟩ := labelBehind.exists_words new 65535
  obtain ⟨words', hfar⟩ := labelBehind.exists_words new 65536
  constructor
  · apply (entries_fit_except_far_labels new hnear).2.1.mpr
    intro name
    rw [labelBehind.isFarLabel_iff]
    omega
  · intro hall
    apply (entries_fit_except_far_labels new hfar).2.1.mp hall (ascii "L")
    rw [labelBehind.isFarLabel_iff]
    exact ⟨rfl, by omega⟩

/-- A successful run leaves a label in the table whose address does not fit in a word. -/
theorem Assembler.label_bound_to_65536 :
    (∃ words, (new.assemble (labelBehind 0 65536)).result = .ok words) ∧
      ⟨ascii "L", 65536⟩ ∈ (new.assemble (labelBehind 0 65536)).assembler.symbols.entries := by
  obtain ⟨words, hresult⟩ := labelBehind.exists_words new 65536
  refine ⟨⟨words, hresult⟩, (assembled_of_ok new hresult).mem_entries_iff.mpr ?_⟩
  rw [(labelBehind.isLastDeclaration 0 65536).meaning?_eq, labelBehind.instructionsBefore_eq]
  rfl

end HackAssembly
