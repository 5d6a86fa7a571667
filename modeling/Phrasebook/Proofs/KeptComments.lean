import Phrasebook.Proofs.KeepingSteps

/-!
# Comments are kept

A step of the work splices a piece of the text, and by `Keeps` the shades of what it leaves in place
stay as they are. So the delimited comments of a text can be followed through the edits, and a comment
is gone only if an edit reaches over it. A call in the place of a bare span reaches over none
(`apart_of_bare`). Binding an attribute does, since it writes the name, the equals sign and the value
anew: what stands between them goes with them (`Interrupts`). `Kept` says that this is all that a run
can lose, and `kept_step` that a step preserves it.
-/

namespace Phrasebook

/-- Whether a text holds some pieces one behind the other. -/
def Text.HoldsInOrder : List Text → Text → Prop
  | [], _ => True
  | p :: ps, t => ∃ before after, t = before ++ p ++ after ∧ HoldsInOrder ps after

namespace Localize

open Comment

/-- Whether a comment stands between the name of an attribute, which starts at `start`, and the
literal that is its value. -/
structure Interrupts (text : Text) (t : Term) (start : Nat) (d : Span) : Prop where
  literal : t.isBody = false ∧ t.isField = false
  between : start ≤ d.start ∧ d.stop ≤ t.offset
  head : ∃ name, AttributeHead name (Text.slice (mask text) start t.offset)

/-- Whether all comments of a text are kept by the edits of a buffer, except some that interrupt
attributes which the edits touched. -/
structure Kept (dialect : Dialect) (terms : List Term) (text : Text) (b : Buffer) : Prop where
  edits : Edits Keeps text b.edits b.text
  lost : ∀ d ∈ delimited text, b.locate? d.start (d.stop - d.start) = none →
    dialect = .markup ∧ ∃ t ∈ terms, ∃ start, Interrupts text t start d ∧ b.locate? start 1 = none

variable {style : Style} {dialect : Dialect} {terms : List Term} {text inner : Text} {b : Buffer}
  {s s' : State} {t : Term} {d : Span} {pos start stop k : Nat}

/-- A comment that is still there is one character by character. -/
lemma delimited_of_located (edits : Edits Keeps text b.edits b.text) (mem : d ∈ delimited text)
    (located : b.locate? d.start (d.stop - d.start) = some k) {j : Nat}
    (inner : j < d.stop - d.start) : ∃ x, (shades b.text)[k + j]? = some x ∧ x.delimited = true := by
  have carried : Edit.carry? b.edits (d.start + j) 1 = some (k + j) :=
    edits.carry?_within inner located
  have bounds := delimited_bounds mem
  obtain ⟨x, found⟩ := @exists_shade text (d.start + j) (by omega)
  refine ⟨x, ?_, delimited_of_mem mem (by omega) (by omega) found⟩
  rw [shades_of_carry? edits carried, found]

/-- An edit that reaches over comments only if they interrupt an attribute that it touches too. -/
lemma Kept.splice (kept : Kept dialect terms text b) {r : Text} (inside : stop ≤ b.text.length)
    (keeps : Keeps b.text start stop r)
    (reach : ∀ d ∈ delimited text, ∀ k, b.locate? d.start (d.stop - d.start) = some k →
      k < stop → start < k + (d.stop - d.start) →
      dialect = .markup ∧ ∃ t ∈ terms, ∃ o, Interrupts text t o d ∧
        ∃ j, b.locate? o 1 = some j ∧ start ≤ j ∧ j < stop) :
    Kept dialect terms text (b.splice start stop r) where
  edits := kept.edits.snoc (Nat.le_of_lt keeps.old.1) inside keeps
  lost := by
    intro d mem gone
    rw [locate?_splice] at gone
    cases located : b.locate? d.start (d.stop - d.start) with
    | none =>
      obtain ⟨markup, t, known, o, interrupts, touched⟩ := kept.lost d mem located
      exact ⟨markup, t, known, o, interrupts, by rw [locate?_splice, touched]; rfl⟩
    | some k =>
      rw [located] at gone
      obtain ⟨early, late⟩ := Edit.shift?_eq_none_iff.1 gone
      obtain ⟨markup, t, known, o, interrupts, j, found, after, before⟩ :=
        reach d mem k located early late
      refine ⟨markup, t, known, o, interrupts, ?_⟩
      rw [locate?_splice, found]
      exact Edit.shift?_eq_none_iff.2 ⟨before, Nat.lt_succ_of_le after⟩

/-- Where a comment is still there, no bare span stands. -/
lemma apart_of_bare {u : Text} (bare : Bare b.text u pos) (filled : u ≠ [])
    (edits : Edits Keeps text b.edits b.text) (mem : d ∈ delimited text)
    (located : b.locate? d.start (d.stop - d.start) = some k) :
    k + (d.stop - d.start) ≤ pos ∨ pos + u.length ≤ k := by
  by_contra overlap
  have bounds := delimited_bounds mem
  have size := List.length_pos_iff.2 filled
  have same : k + (pos - k) = pos + (k - pos) := by omega
  obtain ⟨x, found, covered⟩ := delimited_of_located edits mem located (j := pos - k) (by omega)
  rw [same] at found
  have outside := (bare.free (k - pos) _ x (List.getElem?_eq_getElem (by omega)) found).1
  rw [covered] at outside
  cases outside

/-- What is known of a term of a text with its comments. -/
structure Ready (text : Text) (t : Term) : Prop where
  framed : ∃ inner, t.Framed inner
  named : ∀ name, t.kind = .field name → isNeutral name = true
  firm : Firm t.span
  bare : Bare text t.span t.offset

/-- The terms of a text are ready in it. -/
lemma ready_of_mem {o : Term.Options} (sep : Separate text)
    (names : ∀ name ∈ o.fieldNames, isNeutral name = true) (mem : t ∈ Term.extract text dialect o) :
    Ready text t := by
  have cand := (Term.mem_extract_iff.1 mem).1
  obtain ⟨inner, frames, content, -⟩ := cand.framed
  have named : ∀ name, t.kind = .field name → isNeutral name = true := by
    intro name kind
    refine names name ?_
    cases cand with
    | field hit _ _ _ =>
      cases kind
      obtain ⟨before, read⟩ := Text.hits_read hit
      exact Term.mem_of_fieldShape read
    | _ => cases kind
  have firm := frames.firm named
  have holds := cand.holds
  exact ⟨⟨inner, frames, content⟩, named, firm, bare_of_shown sep firm holds.text holds.masked⟩

/-- A bare span may make way for what fits it, and no comments open but those that it opens. -/
lemma keeps_of_bare {u r : Text} (ready : Ready text t) (bare : Bare u t.span pos)
    (fits : ∀ inner z, Orderly t inner z → Fits t.span r z) :
    Keeps u pos (pos + t.span.length) r ∧ ∀ k ∈ brackets, k.1 <:+: r → k.1 <:+: t.span := by
  obtain ⟨inner, framed⟩ := ready.framed
  obtain ⟨a, z, rfl, rfl⟩ := bare.split ready.firm.ne_nil
  have fit := fits inner z (orderly_of_bare framed ready.firm bare)
  exact ⟨keeps_of_fits bare ready.firm fit, fun k known => (fit.marks k known).1⟩

/-- What fits in the place of a bare span keeps the comments. -/
lemma Kept.splice_bare (kept : Kept dialect terms text b) (ready : Ready text t)
    (bare : Bare b.text t.span pos) {r : Text}
    (fits : ∀ inner z, Orderly t inner z → Fits t.span r z) :
    Kept dialect terms text (b.splice pos (pos + t.span.length) r) := by
  refine kept.splice (bare.le_length ready.firm.ne_nil) (keeps_of_bare ready bare fits).1
    fun d mem k located early late => ?_
  have apart := apart_of_bare bare ready.firm.ne_nil kept.edits mem located
  omega

/-- A literal that is found again stands there as it did in the text. -/
lemma bare_of_located (edits : Edits Keeps text b.edits b.text) (ready : Ready text t)
    (located : b.locate? t.offset t.span.length = some pos) (held : b.holdsAt t.span pos = true) :
    Bare b.text t.span pos := by
  refine ⟨beq_iff_eq.1 held, fun k c x char found => ?_⟩
  have early := (List.getElem?_eq_some_iff.1 char).1
  have carried : Edit.carry? b.edits (t.offset + k) 1 = some (pos + k) :=
    edits.carry?_within early located
  rw [shades_of_carry? edits carried] at found
  exact ready.bare.free k c x char found

/-- No two characters are carried to one place. -/
lemma carry?_injective {es : List Edit} {i j : Nat} (first : Edit.carry? es i 1 = some k)
    (second : Edit.carry? es j 1 = some k) : i = j := by
  rcases Nat.lt_trichotomy i j with before | same | behind
  · exact absurd (Edit.lt_of_carry? before first second) (Nat.lt_irrefl k)
  · exact same
  · exact absurd (Edit.lt_of_carry? behind second first) (Nat.lt_irrefl k)

/-- The attribute before a literal that is found again stood before it in the text. -/
lemma attributeHead_of_located {name : Text} (edits : Edits Keeps text b.edits b.text)
    (sep : Separate text) (inside : pos ≤ b.text.length) (before : start < pos)
    (located : b.locate? t.offset 1 = some pos)
    (head : AttributeHead name (Text.slice b.masked start pos)) :
    ∃ o, t.offset = o + (pos - start) ∧
      (∀ n, n ≤ pos - start → b.locate? (o + n) 1 = some (start + n)) ∧
      AttributeHead name (Text.slice (mask text) o t.offset) := by
  have sep' := separate_of_edits edits sep
  have carried : Edit.carry? b.edits t.offset 1 = some (start + (pos - start)) := by
    rw [Nat.add_sub_cancel' (Nat.le_of_lt before)]
    exact located
  obtain ⟨o, offset, run⟩ := carry?_run_before edits carried
    fun n early => looseAt_of_slice sep' inside head.loose early
  have same : Text.slice (mask text) o t.offset = Text.slice b.masked start pos := by
    refine List.ext_getElem? fun n => ?_
    rw [Text.getElem?_slice, Text.getElem?_slice, offset, Nat.add_sub_cancel_left]
    split
    · rename_i early
      have place := run n (Nat.le_of_lt early)
      have chars := edits.getElem?_of_carry? place
      exact (mask_congr sep sep' chars (shades_of_carry? edits place)).symm
    · rfl
  exact ⟨o, offset, run, same ▸ head⟩

/-- Binding an attribute loses no comments but those that interrupt it. -/
lemma Kept.splice_binding {name method : Text} {q : Quote} (kept : Kept .markup terms text s.buffer)
    (sep : Separate text) (known : t ∈ terms) (ready : Ready text t)
    (neutral : isNeutral method = true) (body : t.isBody = false) (literal : t.isField = false)
    (located : s.buffer.locate? t.offset t.span.length = some pos)
    (held : s.buffer.holdsAt t.span pos = true)
    (site : siteOf? s t pos = some (.plainAttribute name start q)) :
    Kept .markup terms text (s.buffer.splice start (pos + t.span.length)
      (separator s.buffer.text start ++ ':' :: name ++
        '=' :: q.char :: t.call method (some q) ++ [q.char])) := by
  obtain ⟨inner, framed⟩ := ready.framed
  have bare := bare_of_located kept.edits ready located held
  have sep' := separate_of_edits kept.edits sep
  have keeps := (keeps_binding neutral sep' framed ready.firm bare literal site).1
  have before := start_of_plainAttribute literal site
  obtain ⟨head, -⟩ := attributeHead_of_site literal site
  have inside := bare.le_length ready.firm.ne_nil
  refine kept.splice inside keeps fun d mem k there early late => ⟨rfl, t, known, ?_⟩
  have size := List.length_pos_iff.2 ready.firm.ne_nil
  have first : s.buffer.locate? t.offset 1 = some pos := kept.edits.carry?_within size located
  obtain ⟨o, offset, run, stood⟩ :=
    attributeHead_of_located kept.edits sep (by omega) (by omega) first head
  -- the comment lies between the first character of the name and the literal
  have bounds := delimited_bounds mem
  have apart := apart_of_bare bare ready.firm.ne_nil kept.edits mem there
  have behind : start < k := by
    by_contra reaching
    obtain ⟨c, -, -, outside⟩ := head.outside sep' (by omega)
    obtain ⟨x, found, covered⟩ :=
      delimited_of_located kept.edits mem there (j := start - k) (by omega)
    rw [Nat.add_sub_cancel' (by omega), outside] at found
    cases found
    cases covered
  have place : d.start = o + (k - start) := by
    refine carry?_injective (k := k) (kept.edits.carry?_within (j := 0) (by omega) there) ?_
    have carried := run (k - start) (by omega)
    rwa [Nat.add_sub_cancel' (by omega)] at carried
  refine ⟨o, ⟨⟨body, literal⟩, ⟨by omega, by omega⟩, name, stood⟩, start, run 0 (by omega), ?_, ?_⟩
  · exact Nat.le_refl _
  · omega

/-- A step loses no comments but those that interrupt an attribute. -/
lemma kept_step (kept : Kept style.dialect terms text s.buffer) (sep : Separate text)
    (known : t ∈ terms) (ready : Ready text t) (neutral : isNeutral style.method = true)
    (done : step style s t = .ok s') : Kept style.dialect terms text s'.buffer := by
  refine step_induct kept done (fun body _ pos kept shows => ?_)
    fun body pos start r located held ins script => ?_
  · have sep' := separate_of_edits kept.edits sep
    exact kept.splice_bare ready (bare_of_shown sep' ready.firm shows.slices.1 shows.slices.2)
      fun _ _ orderly => fits_body orderly body neutral style.dialect
  · have bare := bare_of_located kept.edits ready located held
    cases ins with
    | call avoid =>
      exact kept.splice_bare ready bare fun _ _ orderly => fits_call orderly neutral ready.named avoid
    | interpolation =>
      exact kept.splice_bare ready bare fun _ _ orderly => fits_interpolated orderly neutral
    | binding literal site =>
      cases dialect : style.dialect with
      | script =>
        have before := start_of_plainAttribute literal site
        have same := (script dialect).1
        omega
      | markup =>
        rw [dialect] at kept
        exact kept.splice_binding sep known ready neutral body literal located held site

/-- A run keeps the comments. -/
lemma kept_localize (style : Style) (registry : Registry) {o : Term.Options} (sep : Separate text)
    (neutral : isNeutral style.method = true)
    (names : ∀ name ∈ o.fieldNames, isNeutral name = true) :
    let terms := Term.extract text dialect o
    Kept style.dialect terms text (localize style registry text terms).1.buffer := by
  intro terms
  refine run_induct (P := fun s => Kept style.dialect terms text s.buffer)
    ⟨.nil text, fun d _ gone => nomatch gone⟩ fun mem kept done => ?_
  exact kept_step kept sep mem (ready_of_mem sep names mem) neutral done

/-- Comments that are still there stand one behind the other. -/
lemma holdsInOrder_of_located (edits : Edits Keeps text b.edits b.text) {ds : List Span} {m : Nat}
    (filled : ∀ d ∈ ds, d.start < d.stop) (ordered : ds.Pairwise fun d e => d.stop ≤ e.start)
    (located : ∀ d ∈ ds, ∃ k, b.locate? d.start (d.stop - d.start) = some k ∧ m ≤ k) :
    Text.HoldsInOrder (ds.map fun d => Text.slice text d.start d.stop) (b.text.drop m) := by
  induction ds generalizing m with
  | nil => trivial
  | cons d ds ih =>
    obtain ⟨k, here, behind⟩ := located d List.mem_cons_self
    obtain ⟨next, rest⟩ := List.pairwise_cons.1 ordered
    have size := filled d List.mem_cons_self
    have slice := edits.slice_of_carry? here
    rw [Nat.add_sub_cancel' (Nat.le_of_lt size)] at slice
    refine ⟨Text.slice b.text m k, b.text.drop (k + (d.stop - d.start)), ?_, ?_⟩
    · dsimp only
      rw [← slice, List.append_assoc, ← Text.drop_eq_slice_append _ (Nat.le_add_right k _)]
      exact Text.drop_eq_slice_append _ behind
    · refine ih (fun e mem => filled e (List.mem_cons_of_mem d mem)) rest fun e mem => ?_
      obtain ⟨l, there, -⟩ := located e (List.mem_cons_of_mem d mem)
      refine ⟨l, there, ?_⟩
      have last := edits.carry?_within (j := d.stop - d.start - 1) (by omega) here
      have size' := filled e (List.mem_cons_of_mem d mem)
      have first := edits.carry?_within (j := 0) (by omega) there
      have order := next e mem
      have apart := Edit.lt_of_carry? (by omega) last first
      omega

/-- As long as a comment is there, so is the name of every attribute that it interrupts. -/
lemma located_name (edits : Edits Keeps text b.edits b.text) (sep : Separate text)
    (mem : d ∈ delimited text) (ready : Ready text t) (interrupts : Interrupts text t start d)
    (there : (b.locate? d.start (d.stop - d.start)).isSome = true) :
    (b.locate? start 1).isSome = true := by
  obtain ⟨k, located⟩ := Option.isSome_iff_exists.1 there
  obtain ⟨name, head⟩ := interrupts.head
  have between := interrupts.between
  have bounds := delimited_bounds mem
  have inside := Nat.le_of_add_right_le (ready.bare.le_length ready.firm.ne_nil)
  refine isSome_carry?_run edits (m := d.start - start) ?_ fun n early => ?_
  · rw [Nat.add_sub_cancel' between.1]
    exact Option.isSome_iff_exists.2 ⟨_, edits.carry?_within (j := 0) (by omega) located⟩
  · exact looseAt_of_slice sep inside head.loose (by omega)

/-- The comments of a separate text that the work leaves in place stand in the new text, as they were
and in their order. A comment is lost exactly if it stands between the name of an attribute and the
literal that is its value, and the attribute is bound: then its name is gone too. So in scripts, and
wherever no comment interrupts an attribute, all of them are kept. The lookup method and the names of
fields must be free of the characters that comments are made of. -/
theorem comments_kept (style : Style) (registry : Registry) (text : Text) (dialect : Dialect)
    (o : Term.Options) (sep : Separate text) (neutral : isNeutral style.method = true)
    (names : ∀ name ∈ o.fieldNames, isNeutral name = true) :
    let terms := Term.extract text dialect o
    let b := (localize style registry text terms).1.buffer
    let kept := fun d : Span => (b.locate? d.start (d.stop - d.start)).isSome
    let shown := fun d : Span => Text.slice text d.start d.stop
    Text.HoldsInOrder (((delimited text).filter kept).map shown) b.text ∧
      (∀ d ∈ delimited text, kept d = true ↔ (style.dialect = .markup →
        ∀ t ∈ terms, ∀ start, Interrupts text t start d → (b.locate? start 1).isSome = true)) ∧
      ((style.dialect = .markup → ∀ d ∈ delimited text, ∀ t ∈ terms, ∀ start,
          ¬ Interrupts text t start d) →
        Text.HoldsInOrder ((delimited text).map shown) b.text) := by
  intro terms b kept shown
  have run : Kept style.dialect terms text b := kept_localize style registry sep neutral names
  have order : Text.HoldsInOrder (((delimited text).filter kept).map shown) b.text := by
    refine holdsInOrder_of_located (m := 0) run.edits (fun d mem => ?_) ?_ fun d mem => ?_
    · exact (delimited_bounds (List.mem_of_mem_filter mem)).1
    · exact (delimited_pairwise text).filter _
    · obtain ⟨k, located⟩ := Option.isSome_iff_exists.1 (List.mem_filter.1 mem).2
      exact ⟨k, located, Nat.zero_le k⟩
  have lostOnly : ∀ d ∈ delimited text, kept d = true ↔ (style.dialect = .markup →
      ∀ t ∈ terms, ∀ start, Interrupts text t start d → (b.locate? start 1).isSome = true) := by
    intro d mem
    constructor
    · intro there _ t known start interrupts
      exact located_name run.edits sep mem (ready_of_mem sep names known) interrupts there
    · intro spared
      by_contra gone
      obtain ⟨markup, t, known, start, interrupts, touched⟩ :=
        run.lost d mem (Option.not_isSome_iff_eq_none.1 gone)
      have there := spared markup t known start interrupts
      rw [touched] at there
      cases there
  refine ⟨order, lostOnly, fun free => ?_⟩
  rwa [List.filter_eq_self.2 fun d mem => (lostOnly d mem).2 fun markup t known start interrupts =>
    absurd interrupts (free markup d mem t known start)] at order

/-- In a script both comments are kept. The comment before the value of an attribute is lost, and so
is the name of the attribute. -/
theorem comments_kept_unless_bound :
    let script := "a = '中' /* '甲' */ b // \"乙\"".toList
    let tag := "<i title<!-- 甲 -->='中'>".toList
    let work := fun dialect text => (localize ⟨dialect, "$t".toList⟩ .empty text
      (Term.extract text dialect {})).1.buffer
    isNeutral "$t".toList = true ∧
      (Separate script ∧ Text.HoldsInOrder ["/* '甲' */".toList, "// \"乙\"".toList]
        (work .script script).text) ∧
      Separate tag ∧ (work .markup tag).text = "<i :title='$t(\"中\")'>".toList ∧
      ∃ t ∈ Term.extract tag .markup {}, ∃ start, Interrupts tag t start ⟨8, 18⟩ ∧
        (work .markup tag).locate? start 1 = none := by
  intro script tag work
  have neutral : isNeutral "$t".toList = true := by decide
  have names : ∀ name ∈ ({} : Term.Options).fieldNames, isNeutral name = true := by decide
  have sep : Separate script := by decide +kernel
  have sep' : Separate tag := by decide +kernel
  obtain ⟨-, -, all⟩ :=
    comments_kept ⟨.script, "$t".toList⟩ .empty script .script {} sep neutral names
  obtain ⟨-, lost, -⟩ :=
    comments_kept ⟨.markup, "$t".toList⟩ .empty tag .markup {} sep' neutral names
  have pieces : (delimited script).map (fun d => Text.slice script d.start d.stop) =
      ["/* '甲' */".toList, "// \"乙\"".toList] := by decide +kernel
  have held := all nofun
  rw [pieces] at held
  refine ⟨neutral, ⟨sep, held⟩, sep', by decide +kernel, ?_⟩
  by_contra spared
  have kept := (lost ⟨8, 18⟩ (by decide +kernel)).2 fun _ t known start interrupts => by
    by_contra gone
    exact spared ⟨t, known, start, interrupts, Option.not_isSome_iff_eq_none.1 gone⟩
  exact absurd kept (by decide +kernel)

end Localize

end Phrasebook
