import ModuleAudit.Text.Numeral

/-! # Log messages

What a run has to say besides its result, in order, each message with a level.
-/

namespace ModuleAudit
set_option autoImplicit false

/-- How much a message matters. -/
inductive Level where
  | warning
  | info
  | debug
  deriving Repr, DecidableEq

/-- How a level is written in front of a message. -/
def Level.label : Level → String
  | .warning => "WARN"
  | .info => "INFO"
  | .debug => "DEBUG"

structure Message where
  level : Level
  text : String
  deriving Repr, DecidableEq

namespace Message

/-- A message on something that may be wrong. -/
def warning (text : String) : Message := ⟨.warning, text⟩

/-- A message on the course of a run. -/
def info (text : String) : Message := ⟨.info, text⟩

/-- A message for someone who looks into a run. -/
def debug (text : String) : Message := ⟨.debug, text⟩

/-- A message with its level in front. -/
def line (message : Message) : String := message.level.label ++ " " ++ message.text

/-- How a character of a message is shown. Those that could control a terminal are spelled out, except for
line ends and tabs. -/
def shownChar (c : Char) : List Char :=
  let code := c.toNat
  let digits := (Text.twoHexDigits code).toList
  if code = 7 ∨ code = 8 ∨ code = 12 ∨ code = 27 ∨ code = 127 then ['\\', 'x'] ++ digits
  else if 128 ≤ code ∧ code < 160 then ['\\', 'u', '\x7b'] ++ digits ++ ['\x7d']
  else [c]

def shown (message : Message) : String := String.ofList (message.line.toList.flatMap shownChar)

end Message

/-- Messages in the order in which they were given. -/
abbrev Log := List Message

end ModuleAudit
