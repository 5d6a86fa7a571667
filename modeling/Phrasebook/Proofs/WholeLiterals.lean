import Phrasebook.Proofs.ScriptPieces

/-!
# Quoted terms and string literals

The scanner of a quote pairs the quotes of a script without regard to the literals they stand in. A
pair that is no literal of the script is a `Stray`. The quoted terms of a row of pieces are whole
literals exactly if the scanners refuse every stray pair (`quoted_terms_whole_iff`). A quote that no
literal of the other quote holds has no stray pairs (`spans_of_quotePair`).
-/

namespace Phrasebook

namespace QuotePair

lemma append_iff {q : Char} {a t before inner rest : Text} (free : q ∉ a) :
    QuotePair q (a ++ t) before inner rest ↔
      ∃ front, before = a ++ front ∧ QuotePair q t front inner rest := by
  induction a generalizing before with
  | nil => exact ⟨fun pair => ⟨before, rfl, pair⟩, fun ⟨_, same, pair⟩ => same ▸ pair⟩
  | cons c cs ih =>
    obtain ⟨other, later⟩ := not_or.1 (List.mem_cons.not.1 free)
    rw [List.cons_append, cons_iff (Ne.symm other)]
    constructor
    · rintro ⟨tail, rfl, pair⟩
      obtain ⟨front, rfl, inside⟩ := (ih later).1 pair
      exact ⟨front, rfl, inside⟩
    · rintro ⟨front, rfl, inside⟩
      exact ⟨cs ++ front, rfl, (ih later).2 ⟨front, rfl, inside⟩⟩

end QuotePair

namespace Piece

/-- A literal of quote `q` among the pieces takes just this span of the script. -/
def Spans (ps : List Piece) (q : Quote) (start : Nat) (span : Text) : Prop :=
  ∃ front l back, ps = front ++ .literal l :: back ∧ l.quote = q ∧
    start = (join front).length ∧ span = l.text

lemma Spans.cons {ps : List Piece} {q : Quote} {start : Nat} {span : Text}
    (h : Spans ps q start span) (p : Piece) : Spans (p :: ps) q (p.text.length + start) span := by
  obtain ⟨front, l, back, rfl, quote, rfl, spelled⟩ := h
  exact ⟨p :: front, l, back, rfl, quote, by rw [join_cons, List.length_append], spelled⟩

/-- A pair of quotes that is no literal. -/
structure Stray (ps : List Piece) (q : Quote) (before inner rest : Text) : Prop where
  pair : QuotePair q.char (join ps) before inner rest
  apart : ¬Spans ps q before.length (q.char :: inner ++ [q.char])

lemma char_injective {q q' : Quote} (same : q.char = q'.char) : q = q' := by
  revert same
  cases q <;> cases q' <;> decide

/-- Every pair of a quote is a literal if the literals of the other quote do not hold it. -/
lemma spans_of_quotePair {ps : List Piece} {q : Quote} {before inner rest : Text}
    (clean : ∀ l, .literal l ∈ ps → l.quote ≠ q → q.char ∉ l.body)
    (pair : QuotePair q.char (join ps) before inner rest) :
    Spans ps q before.length (q.char :: inner ++ [q.char]) := by
  induction ps generalizing before with
  | nil => exact nomatch pair.mem
  | cons p ps ih =>
    have later : ∀ {front}, QuotePair q.char (join ps) front inner rest →
        Spans (p :: ps) q (p.text.length + front.length) (q.char :: inner ++ [q.char]) :=
      fun pair => (ih (fun l mem => clean l (List.mem_cons_of_mem p mem)) pair).cons p
    have pass : q.char ∉ p.text → Spans (p :: ps) q before.length (q.char :: inner ++ [q.char]) := by
      intro free
      obtain ⟨front, rfl, behind⟩ := (QuotePair.append_iff free).1 pair
      rw [List.length_append]
      exact later behind
    -- a literal of this quote is a pair of its own; every other piece is passed over
    cases p with
    | code t bare =>
      refine pass fun mem => bare q.char mem ?_
      cases q <;> decide
    | literal l =>
      by_cases quote : l.quote = q
      · subst quote
        rw [join_cons, text, l.text_append] at pair
        rcases (QuotePair.quoted_iff l.closed).1 pair with ⟨rfl, rfl, -⟩ | ⟨front, rfl, behind⟩
        · exact ⟨[], l, ps, rfl, rfl, rfl, rfl⟩
        · have size : (l.quote.char :: l.body ++ l.quote.char :: front).length =
              (Piece.literal l).text.length + front.length := by
            simp [text, StringLiteral.text]
            omega
          rw [size]
          exact later behind
      · refine pass fun mem => ?_
        simp only [text, StringLiteral.text, List.cons_append, List.mem_cons, List.mem_append,
          List.not_mem_nil, or_false] at mem
        rcases mem with same | inside | same
        · exact quote (char_injective same).symm
        · exact clean l List.mem_cons_self quote inside
        · exact quote (char_injective same).symm

end Piece

namespace Term

/-- The kind of the terms in a quote. -/
def kindOf : Quote → TermKind
  | .single => .singleQuoted
  | .double => .doubleQuoted

/-- The quote that a term must not be wrapped in once more. -/
def otherOf : Quote → Quote
  | .single => .double
  | .double => .single

/-- What the scanner of a quote asks of a pair of quotes in a script without comments. -/
def accepts (text : Text) (o : Options) (q : Quote) (start : Nat) (inner : Text) : Bool :=
  let s := sourceOf text .script o
  let content := Text.strip inner
  !isWrapped (otherOf q).char content && !s.isSkipped start && Prose.isProse content &&
    !Lookup.isLocalizedAt o.lookupNames text start (q.char :: inner ++ [q.char]) &&
    match q with
    | .double => !Prose.isExpression content
    | .single => !(fields s o.fieldNames).any fun f => f.offset ≤ start && start < f.stop

section Bare

variable {text : Text} {o : Options} {q : Char} {before inner rest : Text}

/-- What the scanner of a quote reads at a pair of quotes. -/
def pairHit (before inner : Text) : Hit Text :=
  ⟨before.length, before.length + inner.length + 2, inner⟩

lemma spanOf_pairHit (bare : Comment.mask text = text) (pair : QuotePair q text before inner rest) :
    (sourceOf text .script o).spanOf (pairHit before inner) = q :: inner ++ [q] := by
  have masked : (sourceOf text .script o).masked = text := bare
  rw [Source.spanOf, masked, pairHit, pair.slice]

lemma isIntact_of_bare (bare : Comment.mask text = text) (h : Hit Text) :
    (sourceOf text .script o).isIntact h = true := by
  have masked : (sourceOf text .script o).masked = text := bare
  rw [Source.isIntact, Source.spanOf, masked]
  exact beq_self_eq_true _

lemma term_pairHit (bare : Comment.mask text = text) (pair : QuotePair q text before inner rest)
    (kind : TermKind) :
    (sourceOf text .script o).term (pairHit before inner) (Text.strip inner) kind =
      ⟨q :: inner ++ [q], Text.strip inner, kind, before.length⟩ := by
  rw [Source.term, spanOf_pairHit bare pair]
  rfl

lemma isLocalizedIn_pairHit (bare : Comment.mask text = text)
    (pair : QuotePair q text before inner rest) (kind : TermKind) :
    isLocalizedIn (sourceOf text .script o)
        ((sourceOf text .script o).term (pairHit before inner) (Text.strip inner) kind) =
      Lookup.isLocalizedAt o.lookupNames text before.length (q :: inner ++ [q]) := by
  have masked : (sourceOf text .script o).masked = text := bare
  rw [isLocalizedIn, masked, term_pairHit bare pair]
  rfl

end Bare

/-- The quoted terms of a script without comments are the pairs of quotes that the scanners accept. -/
lemma mem_extract_quoted_iff {text : Text} (bare : Comment.mask text = text) {o : Options}
    {t : Term} {q : Quote} :
    (t ∈ extract text .script o ∧ t.kind = kindOf q) ↔
      ∃ before inner rest, QuotePair q.char text before inner rest ∧
        accepts text o q before.length inner = true ∧
        t = ⟨q.char :: inner ++ [q.char], Text.strip inner, kindOf q, before.length⟩ := by
  have found : ∀ {c : Char} {h : Hit Text},
      h ∈ Text.hits (quotedShape c) (sourceOf text .script o).masked ↔
        ∃ before inner rest, QuotePair c text before inner rest ∧ h = pairHit before inner := by
    rw [show (sourceOf text .script o).masked = text from bare]
    exact mem_hits_quotedShape_iff
  constructor
  · rintro ⟨mem, kind⟩
    obtain ⟨cand, free⟩ := mem_extract_iff.1 mem
    cases cand with
    | doubleQuoted hit unwrapped plain _ kept prose =>
      cases q with
      | single => cases kind
      | double =>
        obtain ⟨before, inner, rest, pair, rfl⟩ := found.1 hit
        have free := (isLocalizedIn_pairHit bare pair _).symm.trans (free.resolve_left nofun)
        refine ⟨before, inner, rest, pair, ?_, term_pairHit bare pair _⟩
        simp only [accepts, Bool.and_eq_true, Bool.not_eq_true']
        exact ⟨⟨⟨⟨unwrapped, kept⟩, prose⟩, free⟩, plain⟩
    | singleQuoted hit outside unwrapped _ kept prose =>
      cases q with
      | double => cases kind
      | single =>
        obtain ⟨before, inner, rest, pair, rfl⟩ := found.1 hit
        have free := (isLocalizedIn_pairHit bare pair _).symm.trans (free.resolve_left nofun)
        refine ⟨before, inner, rest, pair, ?_, term_pairHit bare pair _⟩
        simp only [accepts, Bool.and_eq_true, Bool.not_eq_true', List.any_eq_false,
          decide_eq_true_eq]
        exact ⟨⟨⟨⟨unwrapped, kept⟩, prose⟩, free⟩, outside⟩
    | _ => cases q <;> cases kind
  · rintro ⟨before, inner, rest, pair, accepted, rfl⟩
    have hit := found.2 ⟨before, inner, rest, pair, rfl⟩
    refine ⟨mem_extract_iff.2 ?_, rfl⟩
    rw [← term_pairHit bare pair]
    cases q with
    | double =>
      simp only [accepts, Bool.and_eq_true, Bool.not_eq_true'] at accepted
      obtain ⟨⟨⟨⟨unwrapped, kept⟩, prose⟩, free⟩, plain⟩ := accepted
      exact ⟨.doubleQuoted hit unwrapped plain (isIntact_of_bare bare _) kept prose,
        .inr ((isLocalizedIn_pairHit bare pair _).trans free)⟩
    | single =>
      simp only [accepts, Bool.and_eq_true, Bool.not_eq_true', List.any_eq_false,
        decide_eq_true_eq] at accepted
      obtain ⟨⟨⟨⟨unwrapped, kept⟩, prose⟩, free⟩, outside⟩ := accepted
      exact ⟨.singleQuoted hit outside unwrapped (isIntact_of_bare bare _) kept prose,
        .inr ((isLocalizedIn_pairHit bare pair _).trans free)⟩

end Term

/-- The quoted terms of a script made of code and literals are whole literals, exactly if the
scanners refuse every pair of quotes that is no literal. The terms in a quote always are if no
literal of the other quote holds it. -/
theorem Piece.quoted_terms_whole_iff (ps : List Piece) (o : Term.Options) :
    ((∀ q, ∀ t ∈ Term.extract (join ps) .script o, t.kind = Term.kindOf q →
        Spans ps q t.offset t.span) ↔
      ∀ q before inner rest, Stray ps q before inner rest →
        Term.accepts (join ps) o q before.length inner = false) ∧
    ∀ q, (∀ l, .literal l ∈ ps → l.quote ≠ q → q.char ∉ l.body) →
      ∀ t ∈ Term.extract (join ps) .script o, t.kind = Term.kindOf q →
        Spans ps q t.offset t.span := by
  refine ⟨⟨fun whole q before inner rest stray => ?_, fun refused q t mem kind => ?_⟩,
    fun q clean t mem kind => ?_⟩
  · rw [Bool.eq_false_iff]
    intro accepted
    obtain ⟨mem, kind⟩ := (Term.mem_extract_quoted_iff (mask_join ps)).2
      ⟨before, inner, rest, stray.pair, accepted, rfl⟩
    exact stray.apart (whole q _ mem kind)
  · obtain ⟨before, inner, rest, pair, accepted, rfl⟩ :=
      (Term.mem_extract_quoted_iff (mask_join ps)).1 ⟨mem, kind⟩
    by_contra apart
    rw [refused q before inner rest ⟨pair, apart⟩] at accepted
    cases accepted
  · obtain ⟨before, inner, rest, pair, accepted, rfl⟩ :=
      (Term.mem_extract_quoted_iff (mask_join ps)).1 ⟨mem, kind⟩
    exact spans_of_quotePair clean pair

/-- Two quotes in a literal of the other quote are taken for a literal of their own. -/
theorem Piece.quoted_terms_not_whole :
    ∃ ps : List Piece, join ps = "x=\"说'中'\"".toList ∧
      ¬∀ q, ∀ t ∈ Term.extract (join ps) .script {}, t.kind = Term.kindOf q →
        Spans ps q t.offset t.span := by
  let l : StringLiteral :=
    ⟨.double, "说'中'".toList, by decide, by decide, by decide, by decide⟩
  let ps : List Piece := [.code "x=".toList (by simp), .literal l]
  refine ⟨ps, by decide, fun whole => ?_⟩
  have stray : Stray ps .single "x=\"说".toList "中".toList "\"".toList := by
    refine ⟨⟨by decide, by decide, by decide⟩, ?_⟩
    rintro ⟨front, m, back, split, quote, -, -⟩
    have mem : Piece.literal m ∈ ps := by simp [split]
    rcases List.mem_cons.1 mem with code | mem
    · cases code
    · cases List.mem_singleton.1 mem
      cases quote
  have refused := (quoted_terms_whole_iff ps {}).1.1 whole _ _ _ _ stray
  exact absurd refused (by decide +kernel)

end Phrasebook
