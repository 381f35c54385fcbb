import Stencil.Markup.Head
import Stencil.Proofs.Markup.Partition

/-!
Where tags begin. Every piece that is a tag begins on its line, where the source is cut; and a source that cannot be cut
has a literal tag on the line of the error.
-/
namespace Stencil

/-- The texts of templates, by name. -/
abbrev Texts := String → Option String

namespace Markup

/-- On this line of a source such a tag begins. A literal tag counts only if it is never closed. -/
def TagAt (source : List Char) (line : Nat) (tag : List Char) : Prop :=
  ∃ stretches rest, Cuts source stretches (tag ++ rest) ∧ line = 1 + newlines (written stretches) ∧ IsTag tag ∧
    (tag = literalOpener → ¬ literalCloser <:+: rest)

/-- On this line a tag begins that is no closing one, and this is its first word. -/
def OpensAt (source : List Char) (line : Nat) (name : String) : Prop :=
  ∃ tag, TagAt source line tag ∧ kindOf tag = .openTag ∧ firstWord (tag.drop 1).dropLast = name

/-- On this line a closing tag begins, and this is what it closes. -/
def ClosesAt (source : List Char) (line : Nat) (name : String) : Prop :=
  ∃ tag, TagAt source line tag ∧ kindOf tag = .closeTag ∧ String.ofList (Text.trim (tag.drop 2).dropLast) = name

variable {s rest front : List Char} {stretches : List Stretch} {t : Token} {file source : String} {tokens : List Token}

/-- Every piece that is no text is a tag, and the source is cut where it begins. -/
theorem tag_of_mem_piecesFrom (cuts : Cuts s stretches rest) (mem : t ∈ piecesFrom front stretches)
    (tag : t.kind ≠ .text) :
    t.kind = kindOf t.raw ∧ IsTag t.raw ∧ t.raw ≠ literalOpener ∧
      ∃ before after, Cuts s before (t.raw ++ after) ∧ t.line = 1 + newlines (front ++ written before) := by
  induction cuts generalizing front with
  | done rest => cases mem
  | @next st tail rest more stands cuts ih =>
    rcases List.mem_append.mp mem with here | later
    · cases st with
      | plain s =>
        obtain rfl := List.mem_singleton.mp here
        exact absurd rfl tag
      | tag s =>
        obtain rfl := List.mem_singleton.mp here
        refine ⟨rfl, stands.1, stands.2, [], tail, .done _, ?_⟩
        rw [written, List.flatMap_nil, List.append_nil]
      | literal s =>
        cases s with
        | nil => cases here
        | cons c s =>
          obtain rfl := List.mem_singleton.mp here
          exact absurd rfl tag
    · obtain ⟨kind, is, other, before, after, cuts', line⟩ := ih later
      refine ⟨kind, is, other, st :: before, after, .next stands cuts', ?_⟩
      rw [line, List.append_assoc]
      rfl

theorem tagAt_of_mem_scan (scanned : scan file source = .ok tokens) (mem : t ∈ tokens) (tag : t.kind ≠ .text) :
    t.kind = kindOf t.raw ∧ TagAt source.toList t.line t.raw := by
  have partitioned : Partitioned file [] source.toList (scan file source) := scanFrom_partitioned (Nat.le_refl _) rfl
  rw [scanned] at partitioned
  obtain ⟨stretches, cuts, -, rfl⟩ := partitioned
  obtain ⟨kind, is, other, before, after, cuts', line⟩ := tag_of_mem_piecesFrom cuts mem tag
  exact ⟨kind, before, after, cuts', line, is, fun literal => absurd literal other⟩

theorem opensAt_of_scan_error {e : TemplateError} (failed : scan file source = .error e) :
    ∃ line, e = .unclosedTag ⟨"literal", file, line⟩ ∧ OpensAt source.toList line "literal" := by
  have partitioned : Partitioned file [] source.toList (scan file source) := scanFrom_partitioned (Nat.le_refl _) rfl
  rw [failed] at partitioned
  obtain ⟨before, rest, ⟨stretches, cuts, rfl⟩, never, rfl⟩ := partitioned
  exact ⟨_, rfl, literalOpener, ⟨stretches, rest, cuts, rfl, literal_isTag, fun _ => never⟩, by decide, by decide⟩

theorem takeWhile_trimEnd (s : List Char) : (Text.trimEnd s).takeWhile notBlank = s.takeWhile notBlank := by
  have whole : Text.trimEnd s ++ (s.reverse.takeWhile Text.isBlank).reverse = s := by
    unfold Text.trimEnd Text.dropWhileEnd
    rw [← List.reverse_append, List.takeWhile_append_dropWhile, List.reverse_reverse]
  have blank : (s.reverse.takeWhile Text.isBlank).reverse.takeWhile notBlank = [] := by
    cases gap : (s.reverse.takeWhile Text.isBlank).reverse with
    | nil => rfl
    | cons c gap' =>
      have mem : c ∈ s.reverse.takeWhile Text.isBlank := List.mem_reverse.mp (gap ▸ List.mem_cons_self)
      exact List.takeWhile_cons_of_neg (by simp [notBlank, List.mem_takeWhile_imp mem])
  conv_rhs => rw [← whole]
  rw [List.takeWhile_append, blank, List.append_nil]
  split
  · rename_i all
    exact (List.takeWhile_prefix _).eq_of_length all
  · rfl

/-- The name of a head that can be read is its first word. -/
theorem firstWord_of_parse {head : Head} (parsed : Head.parse s = .ok head) : firstWord s = head.name := by
  have first : firstWord s = String.ofList ((Text.trim s).takeWhile notBlank) := by
    rw [Text.trim, takeWhile_trimEnd]
    rfl
  unfold Head.parse at parsed
  rw [List.span_eq_takeWhile_dropWhile] at parsed
  unfold Except.map at parsed
  dsimp only at parsed
  split at parsed
  · cases parsed
  · cases parsed
    exact first

/-! #### Pieces of texts -/

/-- A piece of one of the texts. -/
def Token.ReadFrom (texts : Texts) (file : String) (token : Token) : Prop :=
  ∃ text tokens, texts file = some text ∧ scan file text = .ok tokens ∧ token ∈ tokens

namespace Token.ReadFrom

variable {texts more : Texts} {token : Token}

theorem mono (piece : token.ReadFrom texts file) (sub : ∀ file text, texts file = some text → more file = some text) :
    token.ReadFrom more file := by
  obtain ⟨text, tokens, read, rest⟩ := piece
  exact ⟨text, tokens, sub file text read, rest⟩

theorem opens (piece : token.ReadFrom texts file) (kind : token.kind = .openTag) :
    ∃ text, texts file = some text ∧ OpensAt text.toList token.line (firstWord token.content) := by
  obtain ⟨text, tokens, read, scanned, mem⟩ := piece
  obtain ⟨same, stands⟩ := tagAt_of_mem_scan scanned mem (by rw [kind]; decide)
  refine ⟨text, read, token.raw, stands, same.symm.trans kind, ?_⟩
  unfold Token.content
  rw [kind]

theorem closes (piece : token.ReadFrom texts file) (kind : token.kind = .closeTag) :
    ∃ text, texts file = some text ∧ ClosesAt text.toList token.line (String.ofList token.content) := by
  obtain ⟨text, tokens, read, scanned, mem⟩ := piece
  obtain ⟨same, stands⟩ := tagAt_of_mem_scan scanned mem (by rw [kind]; decide)
  refine ⟨text, read, token.raw, stands, same.symm.trans kind, ?_⟩
  unfold Token.content
  rw [kind]

end Token.ReadFrom

end Markup

end Stencil
