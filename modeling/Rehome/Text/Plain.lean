import Rehome.Text.Utf8

/-!
# Plain texts

A text without what steers a terminal: control characters, and the sequences and strings that an
escape begins. Tabs, line breaks and form feeds are text.
-/

namespace Rehome

namespace Terminal

/-- Where in a sequence a terminal is. -/
inductive Mode where
  /-- In none. -/
  | text
  /-- Behind an escape. -/
  | escape
  /-- Behind an escape and a mark. -/
  | marked
  /-- In a control sequence, which a letter or the like ends. -/
  | control
  /-- In a command for the system, which a bell ends. -/
  | command
  /-- Before the letter that begins a string for the device. -/
  | device
  /-- There, behind a number. -/
  | deviceNumbers
  /-- There, behind a mark. -/
  | deviceMarks
  /-- In a string that is shown nowhere. -/
  | string
  deriving DecidableEq

/-- Tabs, line breaks and form feeds. -/
def isLayout (c : Char) : Bool :=
  c = '\t' || c = '\n' || c = '\x0c' || c = '\r'

/-- Controls and the delete character. -/
def isControl (c : Char) : Bool :=
  c.toNat < 0x20 || c = '\x7f'

namespace Mode

/-- Whether a character is shown. Within the short sequences only layout is. -/
def shows : Mode → Char → Bool
  | text, c => isLayout c || !isControl c
  | escape, c | marked, c | control, c => isLayout c
  | command, _ | device, _ | deviceNumbers, _ | deviceMarks, _ | string, _ => false

/-- The mode after a character that is not shown. An escape begins anew everywhere, and a cancel or
substitute character ends everything. -/
def next (mode : Mode) (c : Char) : Mode :=
  if c = '\x1b' then escape
  else if c = '\x18' ∨ c = '\x1a' then text
  else
    let n := c.toNat
    match mode with
    | text => text
    | escape =>
      if c = '[' then control
      else if c = ']' then command
      else if c = 'P' then device
      else if c = 'X' ∨ c = '^' ∨ c = '_' then string
      else if 0x30 ≤ n ∧ n < 0x7F then text
      else if 0x20 ≤ n ∧ n < 0x30 then marked
      else escape
    | marked => if 0x30 ≤ n ∧ n < 0x7F then text else marked
    | control => if 0x40 ≤ n ∧ n < 0x7F then text else control
    | command => if c = '\x07' then text else command
    | device =>
      if 0x40 ≤ n ∧ n < 0x7F then string
      else if 0x30 ≤ n ∧ n < 0x40 then deviceNumbers
      else if 0x20 ≤ n ∧ n < 0x30 then deviceMarks
      else device
    | deviceNumbers =>
      if 0x3C ≤ n ∧ n < 0x7F then string
      else if 0x20 ≤ n ∧ n < 0x30 then deviceMarks
      else deviceNumbers
    | deviceMarks => if 0x30 ≤ n ∧ n < 0x7F then string else deviceMarks
    -- The end of a string is one byte, which a longer character may hold too.
    | string => if 0x9C ∈ Utf8.encode [c] then text else string

end Mode

/-- What is shown of a text. Layout within a sequence interrupts it: `showing` says that all is
shown until the next control, and then the sequence goes on, unless a character beyond ASCII was
shown meanwhile. -/
def shown (mode : Mode) (showing : Bool) : Text → Text
  | [] => []
  | c :: rest =>
    if (if showing then .text else mode).shows c then
      c :: shown (if c.toNat < 0x80 then mode else .text) true rest
    else shown (mode.next c) false rest

end Terminal

namespace Text

/-- The text without what steers a terminal. -/
def plain (text : Text) : Text :=
  Terminal.shown .text false text

end Text

end Rehome
