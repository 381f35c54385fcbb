import Stencil.Proofs.Compile.Putting
import Stencil.Proofs.Tag.Demands
import Stencil.Proofs.Tree.Legibility
import Stencil.Library.Memory

/-!
Sources whose tags write code that can be read: what they hand on as expressions are expressions, and the bounds of
their loops are plain numbers. Legible sources are those which neither add to blocks nor put anything into another
language. Whether a source is such a one can be computed. The nodes of its tags are legible.
-/
namespace Stencil

open Tag
open Artifact (isExpression isBound)

namespace Markup

/-- Whether a parameter passes a test, if it is there. -/
def Head.passes (head : Head) (key : String) (test : String → Bool) : Bool := (Keyed.get? key head.params).all test

/-- A step that can be written down with its sign. -/
def isStep (s : String) : Bool := Decimal.readInt64? s.toList != some Int64.minValue

def Head.isLegible (head : Head) : Bool :=
  match head.name with
  | "t" | "addblock" => false
  | "if" | "elseif" => head.passes "cond" isExpression
  | "foreach" => head.passes "list" isExpression
  | "for" => head.passes "from" (isBound ·.toList) && head.passes "to" (isBound ·.toList) && head.passes "step" isStep
  | _ => true

def Token.isLegible (token : Token) : Bool :=
  match token.kind with
  | .variable => isExpression (String.ofList token.content)
  | .openTag =>
    match Head.parse token.content with
    | .ok head => head.isLegible
    | .error _ => true
  | _ => true

/-- Whether all tags of a source can be read. One that has no tokens is not compiled. -/
def isLegibleSource (name text : String) : Bool :=
  match scan name text with
  | .ok tokens => tokens.all Token.isLegible
  | .error _ => true

/-- The same, whatever tags there are. -/
def Head.isReadable (head : Head) : Bool :=
  match head.name with
  | "if" | "elseif" => head.passes "cond" isExpression
  | "foreach" => head.passes "list" isExpression
  | "for" => head.passes "from" (isBound ·.toList) && head.passes "to" (isBound ·.toList) && head.passes "step" isStep
  | _ => true

def Token.isReadable (token : Token) : Bool :=
  match token.kind with
  | .variable => isExpression (String.ofList token.content)
  | .openTag =>
    match Head.parse token.content with
    | .ok head => head.isReadable
    | .error _ => true
  | _ => true

/-- Whether all tags of a source can be read, `t` and `addblock` included. -/
def isReadableSource (name text : String) : Bool :=
  match scan name text with
  | .ok tokens => tokens.all Token.isReadable
  | .error _ => true

/-- The piece opens none but these tags. -/
def Token.Says (tags : String → Prop) (token : Token) : Prop :=
  ∀ head, token.kind = .openTag → Head.parse token.content = .ok head → tags head.name

/-- All pieces of a source can be read, and it has none but these tags. -/
def Readable (tags : String → Prop) (name text : String) : Prop :=
  ∀ tokens, scan name text = .ok tokens → ∀ token ∈ tokens, token.isReadable = true ∧ token.Says tags

section Heads

variable {head : Head} {token : Token} {name text : String}

theorem Head.passes_of_get? {key value : String} {test : String → Bool} (passes : head.passes key test = true)
    (found : Keyed.get? key head.params = some value) : test value = true := by
  unfold Head.passes at passes
  rw [found] at passes
  exact passes

theorem Head.condition (readable : head.isReadable = true) (tag : head.name = "if" ∨ head.name = "elseif") :
    head.passes "cond" isExpression = true := by
  unfold Head.isReadable at readable
  rcases tag with tag | tag <;> rw [tag] at readable <;> exact readable

theorem Head.list (readable : head.isReadable = true) (tag : head.name = "foreach") :
    head.passes "list" isExpression = true := by
  unfold Head.isReadable at readable
  rw [tag] at readable
  exact readable

theorem Head.bounds (readable : head.isReadable = true) (tag : head.name = "for") :
    (head.passes "from" (isBound ·.toList) = true ∧ head.passes "to" (isBound ·.toList) = true) ∧
      head.passes "step" isStep = true := by
  unfold Head.isReadable at readable
  rw [tag] at readable
  obtain ⟨bounds, step⟩ := Bool.and_eq_true_iff.mp readable
  exact ⟨Bool.and_eq_true_iff.mp bounds, step⟩

theorem Head.readable_of_isLegible (legible : head.isLegible = true) : head.isReadable = true ∧ head.name ≠ "t" := by
  unfold Head.isLegible at legible
  unfold Head.isReadable
  split at legible
  · cases legible
  · cases legible
  · rename_i name
    rw [name]
    exact ⟨legible, by decide⟩
  · rename_i name
    rw [name]
    exact ⟨legible, by decide⟩
  · rename_i name
    rw [name]
    exact ⟨legible, by decide⟩
  · rename_i name
    rw [name]
    exact ⟨legible, by decide⟩
  · rename_i notT _ notIf notElseIf notEach notFor
    refine ⟨?_, notT⟩
    split
    · exact absurd ‹_› notIf
    · exact absurd ‹_› notElseIf
    · exact absurd ‹_› notEach
    · exact absurd ‹_› notFor
    · rfl

theorem Token.head_isReadable (readable : token.isReadable = true) (kind : token.kind = .openTag)
    (parsed : Head.parse token.content = .ok head) : head.isReadable = true := by
  unfold Token.isReadable at readable
  rw [kind, parsed] at readable
  exact readable

theorem Token.isExpression_of_variable (readable : token.isReadable = true) (kind : token.kind = .variable) :
    isExpression (String.ofList token.content) = true := by
  unfold Token.isReadable at readable
  rw [kind] at readable
  exact readable

theorem readable_of_isReadableSource (fine : isReadableSource name text = true) :
    Readable (fun _ => True) name text := by
  intro tokens scanned token mem
  unfold isReadableSource at fine
  rw [scanned] at fine
  exact ⟨List.all_eq_true.mp fine token mem, fun _ _ _ => trivial⟩

theorem readable_of_isLegibleSource (fine : isLegibleSource name text = true) : Readable (· ≠ "t") name text := by
  intro tokens scanned token mem
  unfold isLegibleSource at fine
  rw [scanned] at fine
  have legible := List.all_eq_true.mp fine token mem
  unfold Token.isLegible at legible
  unfold Token.isReadable Token.Says
  cases kind : token.kind <;> rw [kind] at legible
  case openTag =>
    dsimp only at legible ⊢
    cases parsed : Head.parse token.content with
    | error e => exact ⟨rfl, fun _ _ found => by cases found⟩
    | ok head =>
      rw [parsed] at legible
      refine ⟨(Head.readable_of_isLegible legible).1, fun _ _ found => ?_⟩
      cases found
      exact (Head.readable_of_isLegible legible).2
  all_goals exact ⟨legible, fun _ other => by cases other⟩

end Heads

end Markup

/-! ### The nodes of legible tags -/

namespace Compile

variable {file : String} {line : Nat} {parent : NodeId} {head : Markup.Head} {stands : Bool} {params : Keyed String}

theorem printing_legible {text : String} (expression : isExpression text = true) :
    (printing file line text parent).Legible := by
  have bare : (printing file line text parent).tag = "" := rfl
  refine ⟨fun _ _ => ⟨rfl, rfl, text, rfl, expression⟩, ?_, ?_, ?_, ?_, fun _ => rfl⟩
  · rintro (h | h)
    · exact absurd rfl h
    · cases h
  all_goals
    rw [bare]
    simp

theorem rootNode_legible (name : String) : ({ Node.fresh name 1 with isRoot := true } : Node).Legible := by
  refine ⟨?_, fun _ => rfl, ?_, ?_, ?_, fun _ => rfl⟩
  · intro _ h
    cases h
  all_goals
    intro h
    simp [Node.tag, Node.fresh] at h

theorem counts_of_checked {n : Node} (readable : head.isReadable = true) (tag : head.name = "for")
    (same : n.params = head.params) (checked : Checked n false (demands "for") params)
    (nonzero : (Decimal.readInt64? ((n.withParams params).param "step").toList).getD 0 ≠ 0) :
    (n.withParams params).Counts := by
  obtain ⟨⟨from', to'⟩, step⟩ := Markup.Head.bounds readable tag
  have written : ∀ {spec : ParamSpec} {value : String}, (Keyed.get? spec.name n.params = some value ∨
      ∃ other ∈ demands "for", other.name = spec.name ∧ other.default? = some value) →
      Keyed.get? spec.name head.params = some value ∨
        spec.name = "from" ∧ value = "0" ∨ spec.name = "step" ∧ value = "1" := by
    rintro spec value (found | ⟨other, mem, name, default⟩)
    · rw [← same]
      exact .inl found
    · simp only [demands, List.mem_cons, List.not_mem_nil, or_false] at mem
      rcases mem with rfl | rfl | rfl | rfl
      · cases default
      · cases default
      · cases default
        exact .inr (.inl ⟨name.symm, rfl⟩)
      · cases default
        exact .inr (.inr ⟨name.symm, rfl⟩)
  refine ⟨?_, fun key mem => ?_, nonzero, fun least => ?_⟩
  · obtain ⟨value, (is : (n.withParams params).param "var" = value), kind, -⟩ :=
      checked.param (.required "var" .var) (by simp [demands])
    rw [is]
    exact kind.resolve_right fun h => by cases h
  · simp only [List.mem_cons, List.not_mem_nil, or_false] at mem
    rcases mem with rfl | rfl
    · obtain ⟨value, (is : (n.withParams params).param "from" = value), kind, origin⟩ :=
        checked.param (.optional "from" .int "0") (by simp [demands])
      rw [is]
      constructor
      · rcases written origin with found | ⟨-, rfl⟩ | ⟨name, -⟩
        · exact Markup.Head.passes_of_get? from' found
        · decide
        · exact absurd name (by decide)
      · rcases kind with admits | default
        · exact admits
        · cases default
          decide
    · obtain ⟨value, (is : (n.withParams params).param "to" = value), kind, origin⟩ :=
        checked.param (.required "to" .int) (by simp [demands])
      rw [is]
      constructor
      · rcases written origin with found | ⟨name, -⟩ | ⟨name, -⟩
        · exact Markup.Head.passes_of_get? to' found
        · exact absurd name (by decide)
        · exact absurd name (by decide)
      · exact kind.resolve_right fun h => by cases h
  · obtain ⟨value, (is : (n.withParams params).param "step" = value), -, origin⟩ :=
      checked.param (.optional "step" .int "1") (by simp [demands])
    have read : Decimal.readInt64? value.toList = some Int64.minValue := by
      unfold Node.number at least
      rw [is] at least
      cases read : Decimal.readInt64? value.toList with
      | none =>
        rw [read] at least
        exact absurd least (by decide)
      | some i =>
        rw [read] at least
        exact congrArg some least
    rcases written origin with found | ⟨name, -⟩ | ⟨-, rfl⟩
    · have passes := Markup.Head.passes_of_get? step found
      unfold Markup.isStep at passes
      rw [read] at passes
      exact absurd passes (by decide)
    · exact absurd name (by decide)
    · exact absurd read (by decide)

theorem iterates_of_checked {n : Node} (readable : head.isReadable = true) (tag : head.name = "foreach")
    (same : n.params = head.params) (checked : Checked n false (demands "foreach") params) :
    (n.withParams params).Iterates := by
  refine ⟨?_, ?_, ?_⟩
  · obtain ⟨value, (is : (n.withParams params).param "list" = value), -, origin⟩ :=
      checked.param (.required "list" .expr) (by simp [demands])
    rw [is]
    rcases origin with found | ⟨other, mem, name, default⟩
    · rw [same] at found
      exact Markup.Head.passes_of_get? (Markup.Head.list readable tag) found
    · simp only [demands, List.mem_cons, List.not_mem_nil, or_false] at mem
      rcases mem with rfl | rfl | rfl
      · cases default
      · cases default
      · exact absurd name (by decide)
  · obtain ⟨value, (is : (n.withParams params).param "var" = value), kind, -⟩ :=
      checked.param (.required "var" .var) (by simp [demands])
    rw [is]
    exact kind.resolve_right fun h => by cases h
  · obtain ⟨value, (is : (n.withParams params).param "key" = value), kind, -⟩ :=
      checked.param (.optional "key" .var "") (by simp [demands])
    rw [is]
    rcases kind with admits | default
    · exact .inr admits
    · exact .inl (Option.some.inj default).symm

/-- The nodes of legible tags are legible, whichever demands the tags have checked. -/
theorem tagNode_legible (readable : head.isReadable = true)
    (checked : head.name ∈ ["if", "elseif", "for", "foreach"] →
      Checked (Node.opened file line parent head stands) false (demands head.name) params)
    (steps : head.name = "for" →
      (Decimal.readInt64? ((tagNode file line parent head stands params).param "step").toList).getD 0 ≠ 0) :
    (tagNode file line parent head stands params).Legible := by
  have tagged : (tagNode file line parent head stands params).tag = head.name := rfl
  refine ⟨fun h => (by cases h), fun _ => rfl, fun tag => ?_, fun tag => ?_, fun tag => ?_, fun _ => rfl⟩
  · rw [tagged] at tag
    have checked' : Checked (Node.opened file line parent head stands) false [.required "cond" .expr] params := by
      have all := checked (by rcases tag with tag | tag <;> rw [tag] <;> decide)
      rcases tag with tag | tag <;> rw [tag] at all <;> exact all
    obtain ⟨value, (is : ((Node.opened file line parent head stands).withParams params).param "cond" = value), -, origin⟩ :=
      checked'.param (.required "cond" .expr) List.mem_cons_self
    show isExpression (((Node.opened file line parent head stands).withParams params).param "cond") = true
    rw [is]
    rcases origin with found | ⟨other, mem, -, default⟩
    · exact Markup.Head.passes_of_get? (Markup.Head.condition readable tag) found
    · cases List.mem_singleton.mp mem
      cases default
  · rw [tagged] at tag
    have checked' := checked (by rw [tag]; decide)
    rw [tag] at checked'
    have counts := counts_of_checked readable tag rfl checked' (steps tag)
    exact ⟨counts.var, counts.bounds, counts.step⟩
  · rw [tagged] at tag
    have checked' := checked (by rw [tag]; decide)
    rw [tag] at checked'
    have iterates := iterates_of_checked readable tag rfl checked'
    exact ⟨iterates.list, iterates.var, iterates.key⟩

/-- The nodes of tags without code of their own are legible with any parameters. -/
theorem uncoded_legible (readable : head.isReadable = true) (uncoded : head.name ∉ Node.coded)
    (params : Keyed String) : ((Node.opened file line parent head stands).withParams params).Legible := by
  have same : tagNode file line parent head stands params =
      (Node.opened file line parent head stands).withParams params := by
    unfold tagNode Node.framed
    have plain : ((Node.opened file line parent head stands).withParams params).framing = ("", "") :=
      Node.framing_plain uncoded
    rw [plain]
    rfl
  rw [← same]
  refine tagNode_legible readable (fun mem => absurd ?_ uncoded) fun tag => absurd ?_ uncoded
  · simp only [List.mem_cons, List.not_mem_nil, or_false, Node.coded] at mem ⊢
    rcases mem with h | h | h | h <;> simp [h]
  · rw [tag]
    decide

theorem opened_legible (readable : head.isReadable = true) (uncoded : head.name ∉ Node.coded) :
    (Node.opened file line parent head stands).Legible :=
  uncoded_legible readable uncoded head.params

end Compile

/-! ### Where sources come from -/

/-- While the world has one property, every source that is read has the other. -/
structure Library.Supplies {W : Type} (library : Library W) (holds : W → Prop) (fine : String → String → Prop) :
    Prop where
  locate : ∀ name w, holds w → holds (library.locate name w).2
  modified : ∀ identity w, holds w → holds (library.modified identity w).2
  read : ∀ name w, holds w → holds (library.read name w).2 ∧
    ∀ text, (library.read name w).1 = .ok text → fine name text

theorem Library.Supplies.mono {W : Type} {library : Library W} {holds : W → Prop} {fine fine' : String → String → Prop}
    (sources : library.Supplies holds fine) (weaker : ∀ name text, fine name text → fine' name text) :
    library.Supplies holds fine' :=
  ⟨sources.locate, sources.modified, fun name w world =>
    ⟨(sources.read name w world).1, fun text given => weaker name text ((sources.read name w world).2 text given)⟩⟩

namespace MemorySources

/-- All sources have a property, and so have those that wait to take their places. -/
def All (fine : String → String → Prop) (sources : MemorySources) : Prop :=
  (∀ e ∈ sources.entries, fine e.1 e.2.1) ∧ ∀ e ∈ sources.laidUp, fine e.1 e.2

instance (fine : String → String → Prop) [∀ name text, Decidable (fine name text)] (sources : MemorySources) :
    Decidable (sources.All fine) :=
  inferInstanceAs (Decidable (_ ∧ _))

/-- All sources can be read, and so can those that wait to take their places. -/
def isLegible (sources : MemorySources) : Bool :=
  sources.entries.all (fun e => Markup.isLegibleSource e.1 e.2.1) &&
    sources.laidUp.all fun e => Markup.isLegibleSource e.1 e.2

variable {sources : MemorySources} {fine : String → String → Prop}

theorem isLegible_iff :
    sources.isLegible = true ↔ sources.All fun name text => Markup.isLegibleSource name text = true := by
  unfold isLegible All
  rw [Bool.and_eq_true_iff, List.all_eq_true, List.all_eq_true]

theorem All.makeEdit (all : sources.All fine) (name : String) : (sources.makeEdit name).All fine := by
  unfold MemorySources.makeEdit
  split
  · rename_i source waits
    obtain ⟨entries, laidUp⟩ := all
    refine ⟨fun e mem => ?_, fun e mem => laidUp e ((List.mem_filter.mp mem).1)⟩
    rcases Keyed.mem_put mem with rfl | mem
    · exact laidUp _ (Keyed.mem_of_get? waits)
    · exact entries e mem
  · exact all

end MemorySources

theorem Library.memory_supplies (fine : String → String → Prop) :
    Library.memory.Supplies (MemorySources.All fine) fine where
  locate _ _ all := all
  modified _ _ all := all
  read name sources all := by
    show MemorySources.All fine (MemorySources.read name sources).2 ∧
      ∀ text, (MemorySources.read name sources).1 = .ok text → fine name text
    unfold MemorySources.read
    split
    · rename_i source stamp found
      refine ⟨all.makeEdit name, fun text given => ?_⟩
      cases given
      exact all.1 _ (Keyed.mem_of_get? found)
    · exact ⟨all, fun text given => by cases given⟩

end Stencil
