/-! Text for a terminal, and the same text without its control sequences. What is
dropped does not depend on who wrote a sequence: this program, or an argument that
it repeats. -/
namespace TilePack.Terminal

/-- Emphasised text ends in a reset, so a sequence that it leaves open ends there. -/
def emphasised (text : String) : String := s!"\x1b[1m{text}\x1b[0m"

/-- Where a reader of the text stands: outside of all sequences, or inside of one. -/
inductive Mode where
  | text
  | escape
  | escapeMarks
  | control
  | deviceEntry
  | deviceNumbers
  | deviceMarks
  | string
  | command
  deriving DecidableEq

def between (low high byte : UInt8) : Bool := low ≤ byte && byte ≤ high

namespace Mode

/-- One byte further. An escape starts a sequence and a cancel ends it, wherever they
stand; bytes that a sequence has no use for leave it open. -/
def step (mode : Mode) (byte : UInt8) : Mode :=
  if byte = 0x1B then .escape
  else if byte = 0x18 || byte = 0x1A then .text
  else match mode with
    | .text => .text
    | .escape =>
      if byte = 0x5B then .control
      else if byte = 0x5D then .command
      else if byte = 0x50 then .deviceEntry
      else if byte = 0x58 || byte = 0x5E || byte = 0x5F then .string
      else if between 0x20 0x2F byte then .escapeMarks
      else if between 0x30 0x7E byte then .text
      else .escape
    | .escapeMarks => if between 0x30 0x7E byte then .text else .escapeMarks
    | .control => if between 0x40 0x7E byte then .text else .control
    | .deviceEntry =>
      if between 0x20 0x2F byte then .deviceMarks
      else if between 0x30 0x3F byte then .deviceNumbers
      else if between 0x40 0x7E byte then .string
      else .deviceEntry
    | .deviceNumbers =>
      if between 0x20 0x2F byte then .deviceMarks
      else if between 0x3C 0x7E byte then .string
      else .deviceNumbers
    | .deviceMarks => if between 0x30 0x7E byte then .string else .deviceMarks
    | .string => if byte = 0x9C then .text else .string
    | .command => if byte = 0x07 then .text else .command

/-- One character further, byte by byte. -/
def skip (mode : Mode) (char : Char) : Mode := (String.utf8EncodeChar char).foldl step mode

end Mode

/-- White space other than the space itself, which a sequence may use. -/
def isBreak (char : Char) : Bool :=
  char == '\t' || char == '\n' || char == '\x0c' || char == '\r'

/-- Beyond ASCII every character is text. -/
def isText (char : Char) : Bool :=
  0x7F < char.toNat || (0x20 ≤ char.toNat && char.toNat < 0x7F) || isBreak char

/-- Strings keep their breaks to themselves, the shorter sequences let them through. -/
def Mode.shows (mode : Mode) (char : Char) : Bool :=
  match mode with
  | .text => isText char
  | .escape | .escapeMarks | .control => isBreak char
  | .deviceEntry | .deviceNumbers | .deviceMarks | .string | .command => false

/-- A break suspends the sequence it stands in: text is shown from there on, up to the
next control character, which takes the sequence up again. A character beyond ASCII
ends it for good. -/
structure Reader where
  mode : Mode := .text
  showing : Bool := false
  deriving DecidableEq

namespace Reader

def shows (reader : Reader) (char : Char) : Bool :=
  if reader.showing then isText char else reader.mode.shows char

def after (reader : Reader) (char : Char) : Reader :=
  if reader.shows char then ⟨if 0x7F < char.toNat then .text else reader.mode, true⟩
  else ⟨reader.mode.skip char, false⟩

/-- Add a character to the text shown so far. -/
def add (state : String × Reader) (char : Char) : String × Reader :=
  let (shown, reader) := state
  (if reader.shows char then shown.push char else shown, reader.after char)

end Reader

/-- The text without control characters and sequences. -/
def plain (text : String) : String := (text.toList.foldl Reader.add ("", {})).1

end TilePack.Terminal
