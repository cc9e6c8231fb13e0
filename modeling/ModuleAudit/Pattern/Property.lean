import ModuleAudit.Pattern.CharSet
import ModuleAudit.Text.Script
import ModuleAudit.Text.Split

/-! # Properties of characters

The sets that a pattern can name by a property: general categories, scripts and some properties that a
character has or has not. In names, case, blanks, underscores, minus signs and a leading `is` do not count.
-/

namespace ModuleAudit.Pattern
set_option autoImplicit false

/-- A name with all that does not count left out. `isc` keeps its first letters, so that it is not read as
`c`. -/
def propertyName (name : List Char) : String :=
  let counted (chars : List Char) : List Char :=
    (chars.filter fun c => c.toNat < 128 && c != ' ' && c != '_' && c != '-').map Char.toLower
  match name with
  | i :: s :: rest =>
    if i.toLower = 'i' ∧ s.toLower = 's' then
      if counted rest = ['c'] then "isc" else String.ofList (counted rest)
    else String.ofList (counted name)
  | _ => String.ofList (counted name)

def category? (name : String) : Option CharSet :=
  match name with
  | "any" => some .everything
  | "assigned" => some (.ofRows assignedRows)
  | "ascii" => some (.ofRanges [(0, 127)])
  | "l" | "letter" => some (.ofRows letterRows)
  | "lc" | "casedletter" => some (.ofRows casedLetterRows)
  | "lu" | "uppercaseletter" => some (.ofRows uppercaseLetterRows)
  | "ll" | "lowercaseletter" => some (.ofRows lowercaseLetterRows)
  | "lt" | "titlecaseletter" => some (.ofRows titlecaseLetterRows)
  | "lm" | "modifierletter" => some (.ofRows modifierLetterRows)
  | "lo" | "otherletter" => some (.ofRows otherLetterRows)
  | "m" | "mark" | "combiningmark" => some (.ofRows markRows)
  | "mn" | "nonspacingmark" => some (.ofRows nonspacingMarkRows)
  | "mc" | "spacingmark" => some (.ofRows spacingMarkRows)
  | "me" | "enclosingmark" => some (.ofRows enclosingMarkRows)
  | "n" | "number" => some (.ofRows numberRows)
  | "nd" | "decimalnumber" | "digit" => some .digits
  | "nl" | "letternumber" => some (.ofRows letterNumberRows)
  | "no" | "othernumber" => some (.ofRows otherNumberRows)
  | "p" | "punct" | "punctuation" => some (.ofRows punctuationRows)
  | "pc" | "connectorpunctuation" => some (.ofRows connectorPunctuationRows)
  | "pd" | "dashpunctuation" => some (.ofRows dashPunctuationRows)
  | "ps" | "openpunctuation" => some (.ofRows openPunctuationRows)
  | "pe" | "closepunctuation" => some (.ofRows closePunctuationRows)
  | "pi" | "initialpunctuation" => some (.ofRows initialPunctuationRows)
  | "pf" | "finalpunctuation" => some (.ofRows finalPunctuationRows)
  | "po" | "otherpunctuation" => some (.ofRows otherPunctuationRows)
  | "s" | "symbol" => some (.ofRows symbolRows)
  | "sm" | "mathsymbol" => some (.ofRows mathSymbolRows)
  | "sc" | "currencysymbol" => some (.ofRows currencySymbolRows)
  | "sk" | "modifiersymbol" => some (.ofRows modifierSymbolRows)
  | "so" | "othersymbol" => some (.ofRows otherSymbolRows)
  | "z" | "separator" => some (.ofRows separatorRows)
  | "zs" | "spaceseparator" => some (.ofRows spaceSeparatorRows)
  | "zl" | "lineseparator" => some (.ofRows lineSeparatorRows)
  | "zp" | "paragraphseparator" => some (.ofRows paragraphSeparatorRows)
  | "c" | "other" => some (CharSet.complement (.ofRows writingRows))
  | "cc" | "control" | "cntrl" => some (.ofRows controlRows)
  | "cf" | "format" => some (.ofRows formatRows)
  | "co" | "privateuse" => some (.ofRows privateUseRows)
  | "cn" | "unassigned" => some (CharSet.complement (.ofRows assignedRows))
  | _ => none

def script? (name : String) : Option CharSet :=
  (scripts.find? (·.names.contains name)).map fun script => ⟨script.ranges⟩

/-- The set of the characters that have a property, by its name. -/
def binaryProperty? (name : String) : Option CharSet :=
  match name with
  | "alphabetic" | "alpha" => some .alphabetic
  | "lowercase" | "lower" => some (.ofRanges (rangesOfRows lowercaseLetterRows ++ otherLowercaseRanges))
  | "uppercase" | "upper" => some (.ofRanges (rangesOfRows uppercaseLetterRows ++ otherUppercaseRanges))
  | "whitespace" | "wspace" | "space" => some .blanks
  | "joincontrol" | "joinc" => some .joiners
  | "asciihexdigit" | "ahex" => some (.ofRanges [(48, 57), (65, 70), (97, 102)])
  | _ => none

/-- The set that a name alone stands for: a property, a general category or a script. -/
def namedProperty? (name : List Char) : Option CharSet :=
  let name := propertyName name
  ((binaryProperty? name).or (category? name)).or (script? name)

/-- The set that a text stands for: a name, or a property and its value with a sign between them. -/
def property? (text : List Char) : Option CharSet :=
  match (Text.cutAtMark ['!', '='] text).or ((Text.cutFirst ':' text).or (Text.cutFirst '=' text)) with
  | none => namedProperty? text
  | some (property, value) =>
    match propertyName property with
    | "generalcategory" | "gc" => category? (propertyName value)
    | "script" | "sc" => script? (propertyName value)
    | _ => none

end ModuleAudit.Pattern
