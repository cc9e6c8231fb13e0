import ModuleAudit.Settings.Yaml.Cursor
import ModuleAudit.Text.Numeral

/-! # Scalars of a YAML text

A scalar is a text in single or double quotes, a block of lines below a mark, or plain. Lines of quoted and
plain scalars are folded; a block keeps its lines or folds them, as its mark says.
-/

namespace ModuleAudit.Yaml
set_option autoImplicit false

/-! ## Quoted scalars -/

/-- The character that an escape stands for, and how many characters write it. -/
def escape? : List Char → Option (Char × Nat)
  | [] => none
  | c :: rest =>
    let coded (width : Nat) : Option (Char × Nat) :=
      (Text.readCode? width rest).map fun (c, _) => (c, width + 1)
    match c with
    | '0' => some (Char.ofNat 0, 1)
    | 'a' => some (Char.ofNat 7, 1)
    | 'b' => some (Char.ofNat 8, 1)
    | 't' | '\t' => some ('\t', 1)
    | 'n' => some ('\n', 1)
    | 'v' => some (Char.ofNat 11, 1)
    | 'f' => some (Char.ofNat 12, 1)
    | 'r' => some ('\r', 1)
    | 'e' => some (Char.ofNat 27, 1)
    | ' ' | '"' | '/' | '\\' => some (c, 1)
    | 'N' => some (Char.ofNat 0x85, 1)
    | '_' => some (Char.ofNat 0xA0, 1)
    | 'L' => some (Char.ofNat 0x2028, 1)
    | 'P' => some (Char.ofNat 0x2029, 1)
    | 'x' => coded 2
    | 'u' => coded 4
    | 'U' => coded 8
    | _ => none

/-- Reads a quoted scalar after its opening quote. An escaped line end is dropped with the blanks after it.
-/
def readQuoted (quote : Char) : Nat → Cursor → Option (List Char × Cursor)
  | 0, _ => none
  | room + 1, here =>
    let goOn (text : List Char) (here : Cursor) : Option (List Char × Cursor) :=
      (readQuoted quote room here).map fun (more, after) => (text ++ more, after)
    if here.isDocumentMark then none
    else
      match here.rest with
      | [] => none
      | c :: rest =>
        if isGap c then goOn (gapText (here.run isGap)) (here.past isGap)
        else if c = quote then
          if quote = '\'' ∧ rest.head? = some '\'' then goOn ['\''] (here.drop 2) else some ([], here.step)
        else if c = '\\' ∧ quote = '"' then
          if rest.head?.any isBreak then
            let next := here.drop 2
            goOn ((next.run isGap).filter isBreak) (next.past isGap)
          else (escape? rest).bind fun (c, width) => goOn [c] (here.drop (width + 1))
        else goOn [c] here.step

/-! ## Plain scalars -/

structure PlainRules where
  inFlow : Bool
  /-- The least column at which a line may continue the scalar. -/
  indent : Nat
  deriving Repr, DecidableEq

structure Plain where
  text : List Char
  /-- The place after it and the gap that follows it. -/
  after : Cursor
  /-- Whether that gap has a line end. -/
  endsLine : Bool
  deriving Repr, DecidableEq

/-- Whether a character parts the entries of a flow collection or encloses them. -/
def isFlowMark (c : Char) : Bool := [',', '[', ']', '\x7b', '\x7d'].contains c

/-- Whether a tab stands in front of column `indent` on a line, from a column on. -/
def tabIndents (indent : Nat) : Nat → List Char → Bool
  | _, [] => false
  | column, c :: rest =>
    if isBreak c then tabIndents indent 0 rest
    else (c == '\t' && column < indent) || tabIndents indent (column + 1) rest

/-- Reads a plain scalar, of which a gap may have been read already. -/
def readPlain (rules : PlainRules) : Nat → Option (List Char) → Cursor → Option Plain
  | 0, _, _ => none
  | room + 1, gap, here =>
    let stop : Option Plain := some ⟨[], here, gap.any (·.any isBreak)⟩
    match here.rest with
    | [] => stop
    | c :: rest =>
      if here.isDocumentMark then stop
      else if c = '#' ∧ gap.isSome then stop
      else if isGap c then
        let run := here.run isGap
        let next := here.past isGap
        if tabIndents rules.indent rules.indent run then none
        else if !rules.inFlow ∧ next.column < rules.indent then some ⟨[], next, run.any isBreak⟩
        else readPlain rules room (some run) next
      else if rules.inFlow ∧ c = ':' ∧ rest.head?.any (fun d => d == '?' || isFlowMark d) then none
      else if (c = ':' ∧ startsGap rest) ∨ (rules.inFlow ∧ isFlowMark c) then stop
      else
        (readPlain rules room none here.step).map fun plain =>
          { plain with text := (gap.map gapText).getD [] ++ c :: plain.text }

/-! ## Block scalars -/

/-- What becomes of the line ends after the last line of a block. -/
inductive Chomping where
  /-- All are dropped. -/
  | strip
  /-- The first is kept. -/
  | clip
  /-- All are kept. -/
  | keep
  deriving Repr, DecidableEq

structure BlockStyle where
  folded : Bool
  chomping : Chomping := .clip
  /-- By how much its lines are indented, if the mark says so. -/
  increment : Option Nat := none
  deriving Repr, DecidableEq

namespace BlockStyle

/-- The style with one indicator of the mark applied, if it is one that has not been given yet. -/
def indicated? (style : BlockStyle) (c : Char) : Option BlockStyle :=
  if c = '+' ∧ style.chomping = .clip then some { style with chomping := .keep }
  else if c = '-' ∧ style.chomping = .clip then some { style with chomping := .strip }
  else if '1' ≤ c ∧ c ≤ '9' ∧ style.increment = none then some { style with increment := some (c.toNat - 48) }
  else none

def read (style : BlockStyle) : Nat → Cursor → BlockStyle × Cursor
  | 0, here => (style, here)
  | room + 1, here =>
    match here.rest.head?.bind style.indicated? with
    | some style => style.read room here.step
    | none => (style, here)

end BlockStyle

/-- Reads the empty lines of a block and the indentation of the next line: the line ends, the deepest column
met, and the place. Without a known indentation all spaces count to it; a tab cannot indent. -/
def readEmptyLines (indent : Option Nat) : Nat → Cursor → Option (List Char × Nat × Cursor)
  | 0, _ => none
  | room + 1, here =>
    let spaces := (here.run (· == ' ')).length
    let here := here.drop ((indent.map fun indent => min spaces (indent - here.column)).getD spaces)
    match here.rest with
    | [] => some ([], here.column, here)
    | c :: _ =>
      if c = '\t' ∧ indent.all (here.column < ·) then none
      else if isBreak c then
        (readEmptyLines indent room here.step).map fun (breaks, deepest, after) =>
          (c :: breaks, max here.column deepest, after)
      else some ([], here.column, here)

/-- The line ends between two lines of a block, and whether the line before them starts with a blank. -/
structure BlockGap where
  /-- The end of the line before, if there is such a line and it has an end. -/
  lineEnd : List Char
  /-- The ends of empty lines. -/
  emptyLines : List Char
  afterBlank : Bool
  deriving Repr, DecidableEq

/-- The text that line ends of a block stand for before a line. A folded line feed between two lines that
start with no blank is a space, or is dropped if empty lines follow it. -/
def BlockGap.text (gap : BlockGap) (folded beforeBlank : Bool) : List Char :=
  let folds := folded && gap.lineEnd == ['\n'] && !gap.afterBlank && !beforeBlank
  if folds then (if gap.emptyLines.isEmpty then [' '] else gap.emptyLines) else gap.lineEnd ++ gap.emptyLines

def readBlockLines (folded : Bool) (indent : Nat) :
    Nat → BlockGap → Cursor → Option (List Char × BlockGap × Cursor)
  | 0, _, _ => none
  | room + 1, gap, here =>
    if here.column = indent ∧ here.rest ≠ [] then do
      let startsBlank := here.rest.head?.any Text.isSpace
      let line := here.run (!isBreak ·)
      let lineEnd := here.past (!isBreak ·)
      let (emptyLines, _, next) ← readEmptyLines (some indent) room lineEnd.step
      let gap' : BlockGap := ⟨lineEnd.rest.take 1, emptyLines, startsBlank⟩
      let (more, last, after) ← readBlockLines folded indent room gap' next
      return (gap.text folded startsBlank ++ line ++ more, last, after)
    else some ([], gap, here)

/-- Reads a block after the first character of its mark. `least` is the least column that belongs to the
collection around it, and `room` is more than the number of characters that follow. -/
def readBlock? (folded : Bool) (least room : Nat) (here : Cursor) : Option (List Char × Cursor) := do
  let (style, here) := BlockStyle.read ⟨folded, .clip, none⟩ 2 here
  let here ← here.finishLine?
  let indent := style.increment.map (least - 1 + ·)
  let (emptyLines, deepest, here) ← readEmptyLines indent room here
  let indent := indent.getD (max (max deepest least) 1)
  let (text, last, after) ← readBlockLines folded indent room ⟨[], emptyLines, false⟩ here
  match style.chomping with
  | .strip => return (text, after)
  | .clip => return (text ++ last.lineEnd, after)
  | .keep => return (text ++ last.lineEnd ++ last.emptyLines, after)

end ModuleAudit.Yaml
