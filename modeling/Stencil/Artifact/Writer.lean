import Stencil.Text.Blank
import Stencil.Text.Search

/-!
Writing artifacts. An artifact is a sequence of texts and code fragments; neighbouring pieces of code share one
fragment. Text in which a fragment opener would appear is broken up, and code writes the opener instead.
-/
namespace Stencil.Artifact

inductive Segment where
  | text (s : List Char)
  | code (s : List Char)
  deriving DecidableEq

/-- What has been written so far, the last segment first. No text is empty, and no code is. -/
abbrev Written := List Segment

namespace Written

def opener : List Char := ['<', '?']

def closer : List Char := ['?', '>']

/-- The characters of segments in order. Code that follows code stays in the fragment that is open. -/
def charsFrom : (inCode : Bool) → List Segment → List Char
  | false, [] => []
  | true, [] => closer
  | false, .text s :: rest => s ++ charsFrom false rest
  | true, .text s :: rest => closer ++ s ++ charsFrom false rest
  | false, .code s :: rest => opener ++ s ++ charsFrom true rest
  | true, .code s :: rest => s ++ charsFrom true rest

/-- The characters of the artifact. -/
def chars (w : Written) : List Char := charsFrom false w.reverse

def addCode (code : List Char) (w : Written) : Written :=
  if code.isEmpty then w else .code code :: w

/-- Text that has no opener inside. -/
def addPlain (s : List Char) (w : Written) : Written :=
  if s.isEmpty then w else .text s :: w

/-- Whether a question mark would complete an opener. -/
def endsOpen : Written → Bool
  | .text s :: _ => s.getLast? == some '<'
  | _ => false

def printOpener : List Char := "echo '<?';".toList

def printMark : List Char := "echo '?';".toList

/-- Text without an opener inside, which may complete one that the text before it began. -/
def addPart (s : List Char) (w : Written) : Written :=
  match s with
  | '?' :: rest => if w.endsOpen then addPlain rest (addCode printMark w) else addPlain s w
  | _ => addPlain s w

/-- Any text, with at most `count` openers inside. -/
def addTextWithin : (count : Nat) → List Char → Written → Written
  | 0, s, w => addPart s w
  | count + 1, s, w =>
    match Text.splitAt? opener s with
    | none => addPart s w
    | some (before, rest) => addTextWithin count rest (addCode printOpener (addPart before w))

def addText (s : List Char) (w : Written) : Written := addTextWithin s.length s w

/-- The finished artifact, its blank ends taken off if `strip`. -/
def finish (strip : Bool) (w : Written) : String :=
  String.ofList (if strip then Text.strip w.chars else w.chars)

end Written

end Stencil.Artifact
