import ModuleAudit.Log
import ModuleAudit.Prune.Sibling

/-! # Removing dependencies from a descriptor

An unused entry goes together with the comments and the text between it and the element before. A comment
that says `keep` there preserves the entry. The rest of the descriptor stays as it is, up to line ends. Where
children stand is counted without the mark that a text may start with, so behind such a mark what is read and
cut out may begin or end inside a character, and there is no edit then.
-/

namespace ModuleAudit.Prune
set_option autoImplicit false

open Markup

/-- A descriptor after unused dependencies were removed. -/
structure Edit where
  text : String
  /-- The modules whose entries were removed, in order. -/
  removed : List String := []
  /-- The unused modules whose entries were preserved by a comment. -/
  preserved : List String := []
  deriving Repr, DecidableEq

def Edit.isChanged (edit : Edit) : Bool := !edit.removed.isEmpty

/-- Something to say about the removal of an entry. -/
inductive Note where
  | preserved (module : String)
  /-- Text that is not blank went with the entry. -/
  | lostText (module : String)
  deriving Repr, DecidableEq

def Note.message (path : String) : Note → Message
  | .preserved module => .warning s!"Explicitly preserving dependency {module} in {path}"
  | .lostText module => .warning s!"Removed extra text around dependency {module} in {path}"

/-! ## Comments that preserve -/

/-- What a comment says: the characters between its marks. -/
def commentBody (raw : List Char) : List Char :=
  match Text.afterMark? ['<', '!', '-', '-'] raw with
  | some rest =>
    match Text.afterMark? ['>', '-', '-'] rest.reverse with
    | some body => body.reverse
    | none => raw
  | none => raw

/-- Whether a text says `keep`, in letters of either case. The Kelvin sign is a form of the letter k. -/
def saysKeep (body : List Char) : Bool :=
  match Text.trim body with
  | [k, e, e', p] =>
    (k == 'k' || k == 'K' || k.toNat == 0x212A) && e.toLower == 'e' && e'.toLower == 'e' && p.toLower == 'p'
  | _ => false

/-- Whether a sibling is a comment that says `keep`. -/
def isKeepComment (text : List Char) (sibling : Sibling) : Bool :=
  sibling.kind == .comment && saysKeep (commentBody (slice sibling.span text))

/-! ## Deciding on entries -/

/-- A sibling and whether it is removed. -/
abbrev Marked := Sibling × Bool

/-- The siblings before an entry, nearest first, with those removed that go with the entry: comments and
text up to the nearest other one that stays. -/
def markBack : List Marked → List Marked
  | [] => []
  | (sibling, true) :: before => (sibling, true) :: markBack before
  | (sibling, false) :: before =>
    match sibling.kind with
    | .comment | .text => (sibling, true) :: markBack before
    | .element _ | .other => (sibling, false) :: before

/-- The siblings that go with an entry, nearest first. -/
def goesAlong : List Marked → List Sibling
  | [] => []
  | (_, true) :: before => goesAlong before
  | (sibling, false) :: before =>
    match sibling.kind with
    | .comment | .text => sibling :: goesAlong before
    | .element _ | .other => []

/-- Whether a comment preserves the entry after these siblings, which come nearest first: it stands after
the nearest element that stays. -/
def isPreserved (text : List Char) (before : List Marked) : Bool :=
  (((before.filter fun mark => !mark.2).map Prod.fst).takeWhile (!·.isElement)).any (isKeepComment text)

/-- The comments that are read to see whether one preserves the entry after these siblings, up to the first that
does. -/
def askedComments (text : List Char) (before : List Marked) : List Sibling :=
  let comments := (((before.filter fun mark => !mark.2).map Prod.fst).takeWhile (!·.isElement)).filter
    (·.kind == .comment)
  comments.take (comments.findIdx (isKeepComment text) + 1)

/-- Whether a sibling is text that is not blank. -/
def isLostText (text : List Char) (sibling : Sibling) : Bool :=
  sibling.kind == .text && (slice sibling.span text).any (!isBlank ·)

/-- The decisions on the siblings so far, nearest first, and what came of them. -/
structure Decisions where
  marked : List Marked := []
  removed : List String := []
  preserved : List String := []
  notes : List Note := []
  /-- Where the text was read. -/
  read : List Span := []

namespace Decisions

def next (text : List Char) (unused : List String) (decisions : Decisions) (sibling : Sibling) : Decisions :=
  let stays := { decisions with marked := (sibling, false) :: decisions.marked }
  match sibling.kind with
  | .element (some name) =>
    if name ∈ unused then
      let asked := decisions.read ++ (askedComments text decisions.marked).map Sibling.span
      if isPreserved text decisions.marked then
        { stays with
          preserved := decisions.preserved ++ [name]
          notes := decisions.notes ++ [.preserved name]
          read := asked }
      else
        let along := goesAlong decisions.marked
        { marked := (sibling, true) :: markBack decisions.marked
          removed := decisions.removed ++ [name]
          preserved := decisions.preserved
          notes := decisions.notes ++ (along.filter (isLostText text)).map fun _ => .lostText name
          read := asked ++ (along.filter (·.kind == .text)).map Sibling.span }
    else stays
  | _ => stays

def on (text : List Char) (unused : List String) (siblings : List Sibling) : Decisions :=
  siblings.foldl (next text unused) {}

def cuts (decisions : Decisions) : List Span :=
  (decisions.marked.filter Prod.snd).map fun mark => mark.1.span

/-- Whether no character is torn by what was read and what is removed. -/
def isWhole (decisions : Decisions) (text : List Char) : Bool :=
  (decisions.read ++ decisions.cuts).all (·.isWhole text)

end Decisions

/-! ## The edit -/

/-- Why a descriptor could not be edited. -/
inductive EditFault where
  | malformed
  | noDependencies
  /-- A part that is read or cut out begins or ends inside a character. -/
  | tornCharacter
  deriving Repr, DecidableEq

/-- Removes the entries of unused modules from a descriptor. -/
def removeDependencies (text : String) (unused : List String) : Except EditFault (Edit × List Note) :=
  let chars := text.toList
  match siblings? chars with
  | none => .error .malformed
  | some none => .error .noDependencies
  | some (some siblings) =>
    let decisions := Decisions.on chars unused siblings
    if decisions.isWhole chars then
      let rest := Text.unifyLineEnds (cutOut decisions.cuts chars)
      .ok (⟨String.ofList rest, decisions.removed, decisions.preserved⟩, decisions.notes)
    else .error .tornCharacter

end ModuleAudit.Prune
