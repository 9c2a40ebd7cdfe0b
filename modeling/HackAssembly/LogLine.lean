import HackAssembly.Text.Bytes

/-!
# Lines of a log

A line of a log is a header and a message. The header tells the severity, when and by which process
the line was written, and the place in the program that reports. Lines are bounded in length, header
included, so a message that is too long for the rest of its line is cut. A line ends in one newline:
a message that brings its own gets no second one.
-/

namespace HackAssembly

inductive Severity
  | info
  | warning
  | error
  deriving DecidableEq, Repr

namespace Severity

def letter : Severity → Bytes
  | info => ascii "I"
  | warning => ascii "W"
  | error => ascii "E"

end Severity

inductive Reporter
  | labelling
  | allocation
  | building
  deriving DecidableEq, Repr

namespace Reporter

/-- How many columns the name of the place takes. -/
def placeWidth : Reporter → Nat
  | labelling => 15
  | allocation => 16
  | building => 11

end Reporter

/-- A line of a log, without when and by which process it was written. -/
structure LogLine where
  severity : Severity
  reporter : Reporter
  message : Bytes
  deriving DecidableEq, Repr

namespace LogLine

/-- The most bytes of a line, not counting the newline that is put after it. -/
def longest : Nat := 14999

/-- The columns of a header before the place: severity, date, time and process. -/
def stampWidth : Nat := 30

/-- The columns of a header after the place: a bracket and a space. -/
def closingWidth : Nat := 2

def headerWidth (l : LogLine) : Nat := stampWidth + l.reporter.placeWidth + closingWidth

def room (l : LogLine) : Nat := longest - l.headerWidth

/-- The message as far as the line has room for it, without the newline that ends the line. -/
def text (l : LogLine) : Bytes := Bytes.withoutEnding (l.message.take l.room) [Bytes.newline]

def render (l : LogLine) : Bytes := l.severity.letter ++ ascii " " ++ l.text

/-- A message that fits and brings no newline of its own is written as it is. -/
theorem text_eq_message {l : LogLine} (fits : l.message.length ≤ l.room)
    (unended : l.message.endsWith [Bytes.newline] = false) : l.text = l.message := by
  rw [text, List.take_of_length_le fits, Bytes.withoutEnding, if_neg (by simp [unended])]

end LogLine

end HackAssembly
