import Stencil.Proofs.Artifact.Composing
import Stencil.Proofs.Text.Stripping

/-!
Artifacts without blank ends. What is taken off the ends of an artifact is text in front of all fragments or behind
them, so what is left is read as statements that do the same, but do not write the ends.
-/
namespace Stencil.Artifact

open Text (isOuter)

/-! ### Cutting -/

/-- An artifact is cut into these tokens: text between fragments, and code in them. -/
inductive Cuts : List Char → List Token → Prop where
  | text {s : List Char} (plain : ¬ fragmentOpener <:+: s) : Cuts s (textToken s)
  | fragment {before code rest : List Char} {own ts : List Token} (plain : ¬ fragmentOpener <:+: before)
      (scans : Scans code own ('?' :: '>' :: rest)) (more : Cuts rest ts) :
      Cuts (before ++ (fragmentOpener ++ code)) (textToken before ++ (own ++ [.fragmentEnd]) ++ ts)

theorem scanFrom_iff {count : Nat} {s : List Char} (enough : s.length ≤ count) (ts : List Token) :
    scanFrom count s = .ok ts ↔ Cuts s ts := by
  constructor
  · intro scanned
    induction count generalizing s ts with
    | zero =>
      have empty : s = [] := List.length_eq_zero_iff.mp (Nat.le_zero.mp enough)
      subst empty
      cases scanned
      exact .text (by simp [fragmentOpener])
    | succ count ih =>
      unfold scanFrom at scanned
      cases cut : Text.splitAt? fragmentOpener s with
      | none =>
        rw [cut] at scanned
        cases scanned
        exact .text (Text.no_infix_of_splitAt?_none cut)
      | some parts =>
        obtain ⟨before, code⟩ := parts
        rw [cut] at scanned
        have whole := Text.eq_append_of_splitAt? cut
        have long := congrArg List.length whole
        simp only [fragmentOpener, List.length_append, List.length_cons, List.length_nil] at long
        dsimp only at scanned
        cases fragment : scanFragmentFrom count code with
        | error e =>
          rw [fragment] at scanned
          cases scanned
        | ok r =>
          obtain ⟨tokens, rest⟩ := r
          rw [fragment] at scanned
          obtain ⟨own, rfl, scans⟩ := (scanFragmentFrom_iff (by omega) tokens rest).mp fragment
          have short := scans.length_le
          simp only [List.length_cons] at short
          dsimp only at scanned
          cases more : scanFrom count rest with
          | error e =>
            rw [more] at scanned
            cases scanned
          | ok ts' =>
            rw [more] at scanned
            cases scanned
            rw [whole, List.append_assoc]
            exact .fragment (Text.no_infix_before (by decide) cut) scans (ih (by omega) ts' more)
  · intro cuts
    induction cuts generalizing count with
    | text plain => exact scanFrom_text plain count
    | fragment plain scans _ ih => exact scanFrom_fragment plain scans enough fun count enough => ih enough

theorem scan_iff (artifact : String) (ts : List Token) : scan artifact = .ok ts ↔ Cuts artifact.toList ts :=
  scanFrom_iff (le_refl _) ts

section Ends

variable {s outside : List Char} {ts : List Token} (outer : ∀ c ∈ outside, isOuter c = true)

include outer

/-- What is in front of an artifact joins its first text. -/
theorem Cuts.front (cuts : Cuts (outside ++ s) ts) :
    ∃ before us, ts = textToken (outside ++ before) ++ us ∧ Cuts s (textToken before ++ us) := by
  have shorter : ∀ {a : List Char}, ¬ fragmentOpener <:+: outside ++ a → ¬ fragmentOpener <:+: a := fun plain inner =>
    plain (inner.trans (List.suffix_append _ _).isInfix)
  generalize whole : outside ++ s = artifact at cuts
  cases cuts with
  | text plain =>
    subst whole
    refine ⟨s, [], (List.append_nil _).symm, ?_⟩
    rw [List.append_nil]
    exact .text (shorter plain)
  | @fragment before code rest own ts plain scans more =>
    have inside : ∃ before', before = outside ++ before' ∧ s = before' ++ (fragmentOpener ++ code) := by
      rcases List.append_eq_append_iff.mp whole with ⟨before', same, parts⟩ | ⟨middle, same, parts⟩
      · exact ⟨before', same, parts⟩
      · cases middle with
        | nil => exact ⟨[], by simpa using same.symm, parts.symm⟩
        | cons c middle =>
          obtain ⟨rfl, -⟩ := List.cons.inj parts
          exact absurd (outer '<' (by rw [same]; simp)) (by decide)
    obtain ⟨before', rfl, rfl⟩ := inside
    refine ⟨before', own ++ [.fragmentEnd] ++ ts, by simp, ?_⟩
    rw [← List.append_assoc (textToken before')]
    exact .fragment (shorter plain) scans more

/-- What is behind an artifact joins its last text. -/
theorem Cuts.back (cuts : Cuts (s ++ outside) ts) :
    ∃ us after, ts = us ++ textToken (after ++ outside) ∧ Cuts s (us ++ textToken after) := by
  generalize whole : s ++ outside = artifact at cuts
  induction cuts generalizing s with
  | text plain =>
    subst whole
    exact ⟨[], s, rfl, .text fun inner => plain (inner.trans (List.prefix_append _ _).isInfix)⟩
  | @fragment before code rest own ts plain scans more ih =>
    obtain ⟨used, rfl⟩ := scans.suffix
    have inside : ∃ rest', rest = rest' ++ outside ∧
        s = before ++ (fragmentOpener ++ (used ++ '?' :: '>' :: rest')) := by
      have parts : s ++ outside = before ++ (fragmentOpener ++ (used ++ ['?', '>'])) ++ rest := by
        rw [whole]
        simp
      rcases List.append_eq_append_iff.mp parts with ⟨middle, same, ends⟩ | ⟨rest', same, ends⟩
      · cases middle.eq_nil_or_concat with
        | inl none =>
          subst none
          exact ⟨[], by simpa using ends.symm, by simpa using same.symm⟩
        | inr some =>
          obtain ⟨middle', c, rfl⟩ := some
          have last : '>' = c := by simpa using congrArg List.getLast? same
          subst last
          exact absurd (outer '>' (by rw [ends]; simp)) (by decide)
      · exact ⟨rest', ends, by simpa using same⟩
    obtain ⟨rest', rfl, rfl⟩ := inside
    obtain ⟨us, after, rfl, cuts⟩ := ih rfl
    refine ⟨textToken before ++ (own ++ [.fragmentEnd]) ++ us, after, by simp, ?_⟩
    rw [List.append_assoc]
    exact .fragment plain scans.exchange_behind_closer cuts

end Ends

/-! ### The statements at the ends -/

section Layouts

variable {stmts : List Stmt} {ts us : List Token} {front back : List Char}

/-- A body that starts with a text starts with the statement that writes it. -/
theorem Lays.of_text {s : String} (lays : Lays (.body stmts) (.text s :: ts)) :
    ∃ more, stmts = .text s :: more ∧ Lays (.body more) ts := by
  generalize whole : Token.text s :: ts = tokens at lays
  cases lays with
  | statement first more =>
    cases first <;> cases whole
  | text s more =>
    cases whole
    exact ⟨_, rfl, more⟩
  | _ => cases whole

/-- Statements with code and alternatives end where code may end. -/
theorem Lays.closes {part : Part} (lays : Lays part ts) (code : ∀ stmts, part ≠ .body stmts) :
    ∀ t ∈ ts.getLast?, t.closesPiece = true := by
  have body : ∀ {us : List Token}, (bracedTokens us).getLast? = some (.punct .closeBrace) := fun {us} => by
    simp [bracedTokens, List.getLast?_cons]
  induction lays with
  | done | fragmentEnd | semicolon | text | statement => exact absurd rfl (code _)
  | echo | startBuffer =>
    intro t mem
    simp [List.getLast?_cons] at mem
    subst mem
    rfl
  | @branch _ _ _ _ _ vs _ _ _ _ ih | @elseIf _ _ _ _ _ vs _ _ _ _ ih =>
    intro t mem
    simp only [List.getLast?_cons, List.getLast?_append, body] at mem
    cases last : vs.getLast? with
    | none =>
      rw [last] at mem
      cases mem
      rfl
    | some t' =>
      rw [last] at mem
      cases mem
      exact ih (fun _ => nofun) _ last
  | count _ _ _ _ _ | each _ _ _ | otherwise _ _ =>
    intro t mem
    simp [List.getLast?_cons, List.getLast?_append, body] at mem
    subst mem
    rfl
  | nothing =>
    intro t mem
    cases mem

theorem Lays.of_nil (lays : Lays (.body stmts) []) : stmts = [] := by
  generalize whole : ([] : List Token) = tokens at lays
  cases lays with
  | done => rfl
  | statement first _ => cases first <;> cases whole
  | _ => cases whole

/-- A body that ends with a text ends with the statement that writes it. -/
theorem Lays.of_last_text {s : String} (lays : Lays (.body stmts) (us ++ [.text s])) :
    ∃ before, stmts = before ++ [.text s] ∧ Lays (.body before) us := by
  generalize whole : us ++ [Token.text s] = tokens at lays
  generalize same : Part.body stmts = part at lays
  induction lays generalizing stmts us with
  | done => simp at whole
  | @fragmentEnd stmts' ts more ih | @semicolon stmts' ts more ih =>
    cases same
    cases us with
    | nil => cases whole
    | cons t us =>
      obtain ⟨rfl, rest⟩ := List.cons.inj whole
      obtain ⟨before, rfl, lays⟩ := ih rest rfl
      first
        | exact ⟨before, rfl, .fragmentEnd lays⟩
        | exact ⟨before, rfl, .semicolon lays⟩
  | @text stmts' ts s' more ih =>
    cases same
    cases us with
    | nil =>
      cases whole
      rw [more.of_nil]
      exact ⟨[], rfl, .done⟩
    | cons t us =>
      obtain ⟨rfl, rest⟩ := List.cons.inj whole
      obtain ⟨before, rfl, lays⟩ := ih rest rfl
      exact ⟨.text s' :: before, rfl, .text s' lays⟩
  | @statement s' stmts' ts vs first more ih ihMore =>
    cases same
    rcases vs.eq_nil_or_concat with rfl | ⟨vs, t, rfl⟩
    · rw [List.append_nil] at whole
      have closes := first.closes (fun _ => nofun) (.text s) (by rw [← whole]; simp)
      cases closes
    · rw [List.concat_eq_append, ← List.append_assoc] at whole
      obtain ⟨rfl, last⟩ := List.append_inj' whole rfl
      cases last
      obtain ⟨before, rfl, lays⟩ := ihMore List.concat_eq_append.symm rfl
      exact ⟨s' :: before, rfl, .statement first lays⟩
  | _ => cases same

end Layouts

section Ends

variable {stmts : List Stmt} {ts : List Token} {a b : List Char}

/-- A text at the front of a body is written before the rest of it. -/
theorem Lays.front (lays : Lays (.body stmts) (textToken (a ++ b) ++ ts)) :
    ∃ inner, Lays (.body inner) (textToken b ++ ts) ∧
      ∀ fs, execAll fs stmts = (do Run.write (String.ofList a); execAll fs inner) := by
  cases a with
  | nil => exact ⟨stmts, lays, fun fs => by rw [show String.ofList [] = "" from rfl, write_empty, pure_bind]⟩
  | cons c a =>
    obtain ⟨more, rfl, rest⟩ := lays.of_text
    cases b with
    | nil =>
      refine ⟨more, rest, fun fs => ?_⟩
      rw [execAll, exec, List.append_nil]
    | cons d b =>
      refine ⟨.text (String.ofList (d :: b)) :: more, .text _ rest, fun fs => ?_⟩
      rw [execAll, execAll, exec, exec, String.ofList_append, ← write_append, bind_assoc]

/-- A text at the end of a body is written behind the rest of it. -/
theorem Lays.back (lays : Lays (.body stmts) (ts ++ textToken (a ++ b))) :
    ∃ inner, Lays (.body inner) (ts ++ textToken a) ∧
      ∀ fs, execAll fs stmts = (do execAll fs inner; Run.write (String.ofList b)) := by
  by_cases empty : a ++ b = []
  · obtain ⟨rfl, rfl⟩ := List.append_eq_nil_iff.mp empty
    exact ⟨stmts, lays, fun fs => by rw [show String.ofList [] = "" from rfl, write_empty, bind_pure_unit]⟩
  · have one : textToken (a ++ b) = [.text (String.ofList (a ++ b))] := if_neg (by simpa using empty)
    rw [one] at lays
    obtain ⟨before, rfl, rest⟩ := lays.of_last_text
    have last : ∀ fs, execAll fs (before ++ [.text (String.ofList (a ++ b))]) =
        (do execAll fs before; Run.write (String.ofList a); Run.write (String.ofList b)) := fun fs => by
      rw [execAll_append, execAll, execAll, exec, bind_pure_unit, String.ofList_append, write_append]
    cases a with
    | nil =>
      refine ⟨before, by rwa [← List.append_nil ts] at rest, fun fs => ?_⟩
      rw [last, show String.ofList [] = "" from rfl, write_empty, pure_bind]
    | cons c a =>
      refine ⟨before ++ [.text (String.ofList (c :: a))], rest.append (.text _ .done), fun fs => ?_⟩
      rw [last, execAll_append, execAll, execAll, exec, bind_pure_unit, bind_assoc]

/-- Statements without the texts at the ends of their artifact. -/
theorem Lays.core {s front core back : List Char} (lays : Lays (.body stmts) ts) (cuts : Cuts s ts)
    (outer : Text.Core s front core back) :
    ∃ us inner, Cuts core us ∧ Lays (.body inner) us ∧ ∀ fs, execAll fs stmts =
      (do Run.write (String.ofList front); execAll fs inner; Run.write (String.ofList back)) := by
  obtain ⟨rfl, outerFront, outerBack⟩ := outer
  obtain ⟨before, us, rfl, behind⟩ := cuts.front outerFront
  obtain ⟨inner, rest, first⟩ := lays.front
  obtain ⟨vs, after, same, middle⟩ := behind.back outerBack
  rw [same] at rest
  obtain ⟨inner', core, last⟩ := rest.back
  exact ⟨_, inner', middle, core, fun fs => by rw [first, last]⟩

/-- The artifact of statements is read as statements that do the same, but for what was stripped off. -/
theorem Composes.exists_parse {ps : List Segment} (composes : Composes (.body stmts) ps) (strip : Bool) :
    ∃ inner front back, parseStatements ((Written.ofPieces ps).finish strip) = .ok inner ∧
      Text.Ends strip front back ∧
      ∀ fs, execAll fs stmts = (do Run.write front; execAll fs inner; Run.write back) := by
  obtain ⟨ts, whole, scanned, lays, same⟩ := composes.exists_lays
  cases strip with
  | false =>
    refine ⟨whole, "", "", parseStatements_of_lays scanned lays, ⟨fun c mem => (by cases mem), fun _ => ⟨rfl, rfl⟩⟩,
      fun fs => ?_⟩
    rw [write_empty, pure_bind, bind_pure_unit, same]
  | true =>
    obtain ⟨front, back, core⟩ := Text.core_strip (Written.ofPieces ps).chars
    have cuts := (scan_iff _ ts).mp scanned
    unfold Written.finish at cuts
    rw [if_neg Bool.false_ne_true, String.toList_ofList] at cuts
    obtain ⟨us, inner, cuts', lays', runs⟩ := lays.core cuts core
    refine ⟨inner, String.ofList front, String.ofList back, parseStatements_of_lays ((scan_iff _ us).mpr ?_) lays',
      ⟨?_, nofun⟩, fun fs => by rw [← same, runs]⟩
    · unfold Written.finish
      rw [if_pos rfl, String.toList_ofList]
      exact cuts'
    · rw [String.toList_ofList, String.toList_ofList]
      exact List.forall_mem_append.mpr ⟨core.front, core.back⟩

end Ends

end Stencil.Artifact
