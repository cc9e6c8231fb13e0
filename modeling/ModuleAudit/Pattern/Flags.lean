import ModuleAudit.Pattern.Basic
import ModuleAudit.Text.Blank

/-! # Flags of patterns

How a stretch of a written pattern is read. A pattern can switch flags for the rest of a group or for a group
of its own.
-/

namespace ModuleAudit.Pattern
set_option autoImplicit false

/-- How the rest of a group is read. -/
structure Flags where
  ignoreCase : Bool := false
  multiLine : Bool := false
  dotMatchesAll : Bool := false
  /-- Whether blanks and comments are passed over. -/
  extended : Bool := false
  /-- Whether carriage returns end lines too. -/
  returns : Bool := false
  /-- Whether classes and cases are those of all scripts, and not of ASCII only. -/
  allScripts : Bool := true
  deriving Repr, DecidableEq

/-- Drops blanks, and comments from `#` to the end of a line; a comment may be going on. -/
def dropGap (inComment : Bool) : List Char → List Char
  | [] => []
  | c :: rest =>
    if inComment then dropGap (c != '\n') rest
    else if isBlank c then dropGap false rest
    else if c = '#' then dropGap true rest
    else c :: rest

namespace Flags

/-- Turns a flag on or off; one has no effect on what is found. -/
def set? (flags : Flags) (letter : Char) (on : Bool) : Option Flags :=
  match letter with
  | 'i' => some { flags with ignoreCase := on }
  | 'm' => some { flags with multiLine := on }
  | 's' => some { flags with dotMatchesAll := on }
  | 'x' => some { flags with extended := on }
  | 'R' => some { flags with returns := on }
  | 'u' => some { flags with allScripts := on }
  | 'U' => some flags
  | _ => none

/-- Drops what is passed over before the next character that counts. -/
def skip (flags : Flags) (chars : List Char) : List Char :=
  if flags.extended then dropGap false chars else chars

def word (flags : Flags) : CharSet := if flags.allScripts then .word else .asciiWord

def digits (flags : Flags) : CharSet := if flags.allScripts then .digits else .asciiDigits

def blanks (flags : Flags) : CharSet := if flags.allScripts then .blanks else .asciiBlanks

/-- A set with the case variants of its characters, if the case is ignored. -/
def cased (flags : Flags) (set : CharSet) : CharSet :=
  if flags.ignoreCase then set.anyCase (if flags.allScripts then foldingRows else asciiFoldingRows) else set

/-- The characters that are not in a set. Without all scripts there is no such set, because it would hold
what is no character. -/
def complement? (flags : Flags) (set : CharSet) : Option CharSet :=
  if flags.allScripts then some set.complement else none

/-- A set as it is, or its complement. -/
def negated? (flags : Flags) (negated : Bool) (set : CharSet) : Option CharSet :=
  if negated then flags.complement? set else some set

def lineEnds (flags : Flags) : CharSet := .ofList (if flags.returns then ['\r', '\n'] else ['\n'])

/-- The characters that a dot stands for: all, or all but line ends. -/
def dot? (flags : Flags) : Option CharSet :=
  flags.complement? (if flags.dotMatchesAll then .nothing else flags.lineEnds)

/-- The place that a mark for the start of a text or a line stands for. -/
def start (flags : Flags) : Place := if flags.multiLine then .lineStart flags.returns else .textStart

/-- The place that a mark for the end of a text or a line stands for. -/
def finish (flags : Flags) : Place := if flags.multiLine then .lineEnd flags.returns else .textEnd

end Flags

/-- Reads flags up to a colon or a closing parenthesis, which is given back with the rest. A flag is given
once, and one minus sign switches off those after it. -/
def readFlags (flags : Flags) (seen : List Char) (on : Bool) : List Char → Option (Flags × Char × List Char)
  | [] => none
  | c :: rest =>
    if c = ':' ∨ c = ')' then
      -- a minus sign has to switch something off, and a setting has to set something
      if seen.head? = some '-' ∨ (c = ')' ∧ seen.isEmpty) then none else some (flags, c, rest)
    else if c ∈ seen then none
    else if c = '-' then readFlags flags (c :: seen) false rest
    else (flags.set? c on).bind fun flags => readFlags flags (c :: seen) on rest

end ModuleAudit.Pattern
