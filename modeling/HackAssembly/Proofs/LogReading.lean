import HackAssembly.Assembly.Notice
import HackAssembly.Proofs.Lists
import HackAssembly.Proofs.Numerals
import HackAssembly.SymbolTable

/-!
# Log messages read back

A logged line is text, and a name in it may hold anything, also what looks like another message.
Still nothing is lost: numbers stand at the ends of a message, so what is between them is the name.
`LogLine.notice?` reads a line by its severity and its wording alone, and reading what is logged for
a notice gives that notice (`Notice.notice?_line`).
-/

namespace HackAssembly

namespace LogLine

/-- Reads a binding: a name and, behind an arrow, the address as the last word. -/
def readBinding? (text : Bytes) : Option Binding :=
  let address := text.rtakeWhile (· != byte ' ')
  if isSignedDigits address then
    ((text.rdropWhile (· != byte ' ')).dropSuffix? (ascii " -> ")).map
      fun name => ⟨name, signedPlaceValue address⟩
  else
    none

/-- Reads the earlier declaration that a warning tells: the name and the line. -/
def readEarlier? (text : Bytes) : Option (Bytes × Nat) :=
  (text.dropSuffix? (ascii ", last declaration wins")).bind fun rest =>
    let number := rest.rtakeWhile isDigit
    if isDigits number then
      ((rest.rdropWhile isDigit).dropSuffix? (ascii " already declared at line ")).map
        fun name => (name, placeValue number)
    else
      none

/-- Reads what a warning says about the label on a line. -/
def readWarning? (line : Nat) (text : Bytes) : Option Notice :=
  match text.dropSuffix? (ascii " shadows the predefined symbol") with
  | some name => some (.shadows line name)
  | none => (readEarlier? text).map fun (name, earlier) => .redeclared line name earlier

/-- Reads a warning, which begins with the line of the label. -/
def readLabelWarning? (text : Bytes) : Option Notice :=
  (text.dropPrefix? (ascii "line ")).bind fun rest =>
    let number := rest.takeWhile isDigit
    if isDigits number then
      ((rest.dropWhile isDigit).dropPrefix? (ascii ": label ")).bind
        (readWarning? (placeValue number))
    else
      none

/-- The notice that a logged line tells, if it has the wording of one. -/
def notice? (l : LogLine) : Option Notice :=
  match l.severity with
  | .info =>
    match l.message.dropPrefix? (ascii "label ") with
    | some text => (readBinding? text).map fun b => .labelBound b.name b.address
    | none => (l.message.dropPrefix? (ascii "variable ")).bind fun text =>
        (readBinding? text).map fun b => .variableBound b.name b.address
  | .warning => readLabelWarning? l.message
  | .error => none

theorem readBinding?_append (name : Bytes) (address : Int) :
    readBinding? (name ++ ascii " -> " ++ Numeral.ofInt address) = some ⟨name, address⟩ := by
  have hspace : byte ' ' ∉ Numeral.ofInt address :=
    Numeral.not_mem_ofInt (by decide) (by decide) address
  have hword : ∀ b ∈ Numeral.ofInt address, (b != byte ' ') = true := by
    intro b hb
    rw [bne_iff_ne]
    rintro rfl
    exact hspace hb
  have harrow : (name ++ ascii " -> ").rtakeWhile (· != byte ' ') = [] := by
    rw [show name ++ ascii " -> " = (name ++ ascii " ->") ++ [byte ' '] by simp [ascii]]
    exact List.rtakeWhile_concat_neg _ _ _ (by decide)
  obtain ⟨hlast, hfront⟩ := rtakeWhile_append harrow hword
  rw [readBinding?, hlast, hfront, if_pos (Numeral.isSignedDigits_ofInt address),
    dropSuffix?_append, Option.map_some, Numeral.signedPlaceValue_ofInt]

theorem readEarlier?_append (name : Bytes) (earlier : Nat) :
    readEarlier? (name ++ ascii " already declared at line " ++ Numeral.ofNat earlier ++
      ascii ", last declaration wins") = some (name, earlier) := by
  have hline : (name ++ ascii " already declared at line ").rtakeWhile isDigit = [] := by
    rw [show name ++ ascii " already declared at line " =
      (name ++ ascii " already declared at line") ++ [byte ' '] by simp [ascii]]
    exact List.rtakeWhile_concat_neg _ _ _ (by decide)
  obtain ⟨hlast, hfront⟩ := rtakeWhile_append hline fun b hb =>
    Numeral.isDigit_of_mem_ofNat (n := earlier) hb
  rw [readEarlier?, dropSuffix?_append, Option.bind_some, hlast, hfront,
    if_pos (Numeral.isDigits_ofNat earlier), dropSuffix?_append, Option.map_some,
    Numeral.placeValue_ofNat]

/-- The wording of one warning ends in another letter than that of the other. -/
theorem readWarning?_earlier (line : Nat) (name : Bytes) (earlier : Nat) :
    readWarning? line (name ++ ascii " already declared at line " ++ Numeral.ofNat earlier ++
      ascii ", last declaration wins") = some (.redeclared line name earlier) := by
  have hlast : ascii ", last declaration wins" = ascii ", last declaration win" ++ [byte 's'] := rfl
  have hother : (name ++ ascii " already declared at line " ++ Numeral.ofNat earlier ++
      ascii ", last declaration wins").dropSuffix? (ascii " shadows the predefined symbol") =
        none := by
    rw [hlast, ← List.append_assoc]
    exact dropSuffix?_concat_of_ne (by decide) _ (ascii " shadows the predefined symbo")
  rw [readWarning?, hother]
  dsimp only
  rw [readEarlier?_append, Option.map_some]

/-- Whatever a warning says, it begins with the line and the name of the label. -/
theorem readLabelWarning?_append (line : Nat) (text : Bytes) :
    readLabelWarning? (ascii "line " ++ Numeral.ofNat line ++ ascii ": label " ++ text) =
      readWarning? line text := by
  have hdigits : ∀ b ∈ Numeral.ofNat line, isDigit b = true := fun b hb =>
    Numeral.isDigit_of_mem_ofNat hb
  have hcolon : (ascii ": label " ++ text).takeWhile isDigit = [] ∧
      (ascii ": label " ++ text).dropWhile isDigit = ascii ": label " ++ text := by
    constructor <;> rfl
  rw [readLabelWarning?, List.append_assoc, List.append_assoc, dropPrefix?_append,
    Option.bind_some, List.takeWhile_append_of_pos hdigits, List.dropWhile_append_of_pos hdigits,
    hcolon.1, hcolon.2, List.append_nil, if_pos (Numeral.isDigits_ofNat line), dropPrefix?_append,
    Option.bind_some, Numeral.placeValue_ofNat]

end LogLine

namespace Notice

/-- A logged line tells the notice that it was logged for. -/
theorem notice?_line (n : Notice) : n.line.notice? = some n := by
  cases n with
  | labelBound name address =>
      rw [LogLine.notice?, line, severity, message, List.append_assoc, List.append_assoc]
      dsimp only
      rw [dropPrefix?_append, ← List.append_assoc]
      dsimp only
      rw [LogLine.readBinding?_append]
      rfl
  | variableBound name address =>
      have hother : (message (variableBound name address)).dropPrefix? (ascii "label ") = none :=
        rfl
      rw [LogLine.notice?, line, severity]
      dsimp only
      rw [hother]
      dsimp only
      rw [message, List.append_assoc, List.append_assoc, dropPrefix?_append, ← List.append_assoc,
        Option.bind_some, LogLine.readBinding?_append]
      rfl
  | shadows line name =>
      show LogLine.readLabelWarning? (message (shadows line name)) = _
      rw [message, List.append_assoc, LogLine.readLabelWarning?_append, LogLine.readWarning?,
        dropSuffix?_append]
  | redeclared line name earlier =>
      have hmessage : message (redeclared line name earlier) =
          ascii "line " ++ Numeral.ofNat line ++ ascii ": label " ++
            (name ++ ascii " already declared at line " ++ Numeral.ofNat earlier ++
              ascii ", last declaration wins") := by
        simp only [message, List.append_assoc]
      show LogLine.readLabelWarning? (message (redeclared line name earlier)) = _
      rw [hmessage, LogLine.readLabelWarning?_append, LogLine.readWarning?_earlier]

/-- What is logged is read back notice by notice. -/
theorem filterMap_notice?_map_line (log : List Notice) :
    (log.map line).filterMap LogLine.notice? = log := by
  rw [List.filterMap_map, show LogLine.notice? ∘ line = some from funext notice?_line,
    List.filterMap_some]

theorem endsWith_append_of_not_mem {b : UInt8} {ending : Bytes} (hne : ending ≠ [])
    (hb : b ∉ ending) (s : Bytes) : Bytes.endsWith (s ++ ending) [b] = false := by
  rw [Bytes.endsWith, Bool.eq_false_iff]
  intro h
  obtain ⟨front, hfront⟩ := List.isSuffixOf_iff_suffix.mp h
  rcases List.eq_nil_or_concat' ending with rfl | ⟨rest, c, rfl⟩
  · exact hne rfl
  · rw [← List.append_assoc] at hfront
    obtain ⟨-, hlast⟩ := List.append_inj' hfront rfl
    exact hb (by simp [List.singleton_inj.mp hlast])

/-- A message never ends in a newline of its own, so one that fits in its line is written whole. -/
theorem text_line {n : Notice} (fits : n.message.length ≤ n.line.room) :
    n.line.text = n.message := by
  apply LogLine.text_eq_message fits
  cases n with
  | redeclared line name earlier => exact endsWith_append_of_not_mem (by decide) (by decide) _
  | shadows line name => exact endsWith_append_of_not_mem (by decide) (by decide) _
  | labelBound name address =>
      exact endsWith_append_of_not_mem (Numeral.ofInt_ne_nil address)
        (Numeral.not_mem_ofInt (by decide) (by decide) address) _
  | variableBound name address =>
      exact endsWith_append_of_not_mem (Numeral.ofInt_ne_nil address)
        (Numeral.not_mem_ofInt (by decide) (by decide) address) _

end Notice

end HackAssembly
