/-!
White space and the cutting of it: which characters are blank, and what is left of a text when the
blank ends are taken off.
-/
namespace Stencil.Text

/-- The characters that Unicode calls white space. -/
def isBlank (c : Char) : Bool :=
  let n := c.toNat
  (9 ≤ n && n ≤ 13) || n == 0x20 || n == 0x85 || n == 0xA0 || n == 0x1680 ||
  (0x2000 ≤ n && n ≤ 0x200A) || n == 0x2028 || n == 0x2029 || n == 0x202F || n == 0x205F ||
  n == 0x3000

theorem isBlank_of_isWhitespace {c : Char} (h : c.isWhitespace = true) : isBlank c = true := by
  simp only [Char.isWhitespace, Bool.or_eq_true, decide_eq_true_eq] at h
  rcases h with ((rfl | rfl) | rfl) | rfl <;> decide

/-- What is left from the end once the last characters that satisfy `p` are gone. -/
def dropWhileEnd (p : Char → Bool) (s : List Char) : List Char :=
  (s.reverse.dropWhile p).reverse

def trimStart (s : List Char) : List Char := s.dropWhile isBlank

def trimEnd (s : List Char) : List Char := dropWhileEnd isBlank s

def trim (s : List Char) : List Char := trimEnd (trimStart s)

/-- The byte order mark. -/
def byteOrderMark : Char := '\uFEFF'

/-- A text without blanks and byte order marks at its ends: blanks, then marks, then blanks again. -/
def strip (s : List Char) : List Char :=
  trim (dropWhileEnd (· == byteOrderMark) ((trim s).dropWhile (· == byteOrderMark)))

end Stencil.Text
