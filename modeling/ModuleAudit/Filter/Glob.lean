/-! # Globs

A glob is a text in which `**` stands for any characters but a line feed, `*` for any but a slash and `?`
for one character but a slash; every other character stands for itself. Stars are taken two at a time from
the left. A path matches if it splits into consecutive pieces that match the tokens; that is decided for all
ends of the path at once, from the last token to the first.
-/

namespace ModuleAudit
set_option autoImplicit false

inductive GlobToken where
  /-- Any text without a line feed, written `**`. -/
  | anything
  /-- Any text without a slash, written `*`. -/
  | segment
  /-- One character other than a slash, written `?`. -/
  | single
  | literal (c : Char)
  deriving Repr, DecidableEq

/-- Whether a piece that matches the token may be empty, and go on after any character that it may hold. -/
def GlobToken.isRun : GlobToken → Bool
  | .anything | .segment => true
  | .single | .literal _ => false

/-- Whether a piece that matches the token may hold a character. -/
def GlobToken.holds : GlobToken → Char → Bool
  | .anything, c => c ≠ '\n'
  | .segment, c => c ≠ '/'
  | .single, c => c ≠ '/'
  | .literal l, c => c = l

/-- Which ends of a path match the token and further tokens, given which ends match those alone. The ends are
listed from the whole path to the empty one. -/
def GlobToken.before (token : GlobToken) : List Char → List Bool → List Bool
  | c :: path, here :: shorter =>
    let later := token.before path shorter
    let goesOn := if token.isRun then later.headD false else shorter.headD false
    ((token.isRun && here) || (token.holds c && goesOn)) :: later
  | _, row => row.map (token.isRun && ·)

structure Glob where
  tokens : List GlobToken
  deriving Repr, DecidableEq

namespace Glob

/-- The tokens of a text, read from the left. -/
def tokensOf : List Char → List GlobToken
  | '*' :: '*' :: rest => .anything :: tokensOf rest
  | '*' :: rest => .segment :: tokensOf rest
  | '?' :: rest => .single :: tokensOf rest
  | c :: rest => .literal c :: tokensOf rest
  | [] => []

def ofText (text : String) : Glob := ⟨tokensOf text.toList⟩

/-- Which ends of a path match the tokens, from the whole path to the empty one. -/
def matchingEnds (tokens : List GlobToken) (path : List Char) : List Bool :=
  tokens.foldr (fun token row => token.before path row) (path.map (fun _ => false) ++ [true])

/-- Whether the whole path splits into pieces that match the tokens. -/
def accepts (glob : Glob) (path : String) : Bool := (matchingEnds glob.tokens path.toList).headD false

end Glob

end ModuleAudit
