import Phrasebook.Proofs.Steps
import Phrasebook.Source.Basic

/-!
# What the count of a run stands for

A run counts the terms that it replaces. A term that is counted is registered once, under its key, and
makes at least one edit; a term that is not counted registers nothing and leaves the text alone
(`step_counts`). So the count of a run, the keys that it registers and the edits that it makes can be
read off one list of terms (`accounts_run`), and a run that counts nothing has done nothing. Statements
are put into a source only behind a count, so the same holds of sources (`charged_localizeComponent`,
`charged_localizeModule`).
-/

namespace Phrasebook

/-- Replacing copies makes an edit for each of them. -/
lemma Buffer.length_edits_replaceFrom (b : Buffer) (span r : Text) (start : Nat) :
    (b.replaceFrom span r start).1.edits.length =
      b.edits.length + (b.replaceFrom span r start).2 := by
  fun_induction Buffer.replaceFrom b span r start with
  | case1 => rfl
  | case2 => rfl
  | case3 b start _ pos _ next ih =>
    have one : (b.splice pos (pos + span.length) r).edits.length = b.edits.length + 1 :=
      List.length_append
    show next.1.edits.length = b.edits.length + (next.2 + 1)
    rw [ih, one, Nat.add_assoc, Nat.add_comm 1]

/-- Where there is a copy, some are replaced. -/
lemma Buffer.replaceFrom_count_pos {b : Buffer} {span : Text} (r : Text) {start : Nat}
    (nonempty : span ≠ []) (found : b.findFrom? span start ≠ none) :
    0 < (b.replaceFrom span r start).2 := by
  rw [replaceFrom, if_neg nonempty]
  split
  · rename_i missing
    exact absurd missing found
  · exact Nat.succ_pos _

/-- Against a registry with other texts for the keys, every registration is refused and noted. -/
lemma Registry.length_conflicts_registerAll {r : Registry} {ps : List (Text × Text)}
    (other : ∀ p ∈ ps, ∃ kept, r.phrases.get? p.1 = some kept ∧ kept ≠ p.2) :
    (r.registerAll ps).conflicts.length = r.conflicts.length + ps.length := by
  induction ps generalizing r with
  | nil => rfl
  | cons p ps ih =>
    obtain ⟨kept, found, differs⟩ := other p List.mem_cons_self
    have refused : r.register p.1 p.2 = { r with conflicts := r.conflicts ++ [⟨p.1, kept, p.2⟩] } := by
      rw [register, found]
      exact if_neg differs
    have later := ih (r := r.register p.1 p.2) fun q mem => by
      rw [refused]
      exact other q (List.mem_cons_of_mem p mem)
    rw [registerAll, List.foldl_cons, ← registerAll, later, refused, List.length_append,
      List.length_singleton, Nat.add_assoc, Nat.add_comm 1]
    rfl

/-- The key of a term that does not overflow is its phrase, or the canonical key of its phrase. -/
lemma Term.key_eq {t : Term} (fits : t.overflows = false) :
    t.key = t.content ∨ ∃ c, Template.canonical t.content = .ok c ∧ t.key = c.key := by
  unfold Term.overflows at fits
  unfold Term.key
  cases templated : t.isTemplated with
  | false => exact .inl rfl
  | true =>
    rw [templated, Bool.true_and, decide_eq_false_iff_not] at fits
    refine .inr ⟨Template.lettered t.content, ?_, rfl⟩
    rw [Template.canonical_eq, if_neg fits]

/-- The pairs under which terms are registered. -/
def Term.entries (ts : List Term) : List (Text × Text) :=
  ts.map fun t => (t.key, t.key)

lemma Registry.registerAll_entries_append (r : Registry) (ts us : List Term) :
    r.registerAll (Term.entries (ts ++ us)) =
      (r.registerAll (Term.entries ts)).registerAll (Term.entries us) := by
  rw [Term.entries, List.map_append]
  exact List.foldl_append

namespace Localize

/-- The terms of a run that are counted: those at which the count goes up. -/
def countedFrom (style : Style) : State → List Term → List Term
  | _, [] => []
  | s, t :: ts =>
    match step style s t with
    | .error _ => []
    | .ok s' =>
      if s'.replaced = s.replaced then countedFrom style s' ts else t :: countedFrom style s' ts

/-- Whether the change from one state to another is accounted for by the terms counted. -/
structure Accounts (s : State) (counted : List Term) (s' : State) : Prop where
  replaced : s'.replaced = s.replaced + counted.length
  registry : s'.registry = s.registry.registerAll (Term.entries counted)
  edits : s.buffer.edits.length + counted.length ≤ s'.buffer.edits.length
  idle : counted = [] → s'.buffer = s.buffer
  fits : ∀ t ∈ counted, t.overflows = false

variable {style : Style} {s s' : State} {t : Term} {ts counted : List Term}

lemma accounts_idle (replaced : s'.replaced = s.replaced) (registry : s'.registry = s.registry)
    (buffer : s'.buffer = s.buffer) : Accounts s [] s' where
  replaced := replaced
  registry := registry
  edits := by rw [buffer]; exact Nat.le_refl _
  idle := fun _ => buffer
  fits := fun _ mem => (List.not_mem_nil mem).elim

lemma accounts_single (fits : t.overflows = false) (replaced : s'.replaced = s.replaced + 1)
    (registry : s'.registry = s.registry.register t.key t.key)
    (edits : s.buffer.edits.length < s'.buffer.edits.length) : Accounts s [t] s' where
  replaced := replaced
  registry := registry
  edits := edits
  idle := fun empty => (List.cons_ne_nil t [] empty).elim
  fits := fun u mem => by rwa [List.mem_singleton.1 mem]

lemma Accounts.trans {s'' : State} {more : List Term} (first : Accounts s counted s')
    (second : Accounts s' more s'') : Accounts s (counted ++ more) s'' where
  replaced := by
    rw [second.replaced, first.replaced, List.length_append, Nat.add_assoc]
  registry := by
    rw [second.registry, first.registry, Registry.registerAll_entries_append]
  edits := by
    have early := first.edits
    have late := second.edits
    rw [List.length_append]
    omega
  idle := by
    intro empty
    obtain ⟨empty, empty'⟩ := List.append_eq_nil_iff.1 empty
    exact (second.idle empty').trans (first.idle empty)
  fits := by
    intro u mem
    rcases List.mem_append.1 mem with early | late
    · exact first.fits u early
    · exact second.fits u late

/-- One step counts its term, registers its key and makes edits, or does nothing of these. -/
lemma step_counts (nonempty : t.span ≠ []) (done : step style s t = .ok s') :
    Accounts s [] s' ∨ Accounts s [t] s' := by
  cases body : t.isBody with
  | true =>
    rw [step_body body] at done
    split at done
    · cases done
      exact .inl (accounts_idle rfl rfl rfl)
    · split at done
      · cases done
        exact .inl (accounts_idle rfl rfl rfl)
      · rename_i found
        split at done
        · cases done
        · rename_i fits
          cases done
          -- the copy that was found makes way, so the count goes up
          have copies := Buffer.replaceFrom_count_pos
            (bodyReplacement t (t.call style.method none) style.dialect) nonempty
            (mt Option.isNone_iff_eq_none.2 found)
          refine .inr (accounts_single (Bool.eq_false_iff.2 fits) ?_ rfl ?_)
          · exact if_neg (Nat.ne_of_gt copies)
          · show s.buffer.edits.length < (s.buffer.replaceFrom _ _ 0).1.edits.length
            rw [Buffer.length_edits_replaceFrom]
            exact Nat.lt_add_of_pos_right copies
  | false =>
    rcases step_of_literal style s body with ⟨l, moves⟩ | ⟨pos, start, r, -, -, -, moves⟩
    · rw [moves] at done
      cases done
      exact .inl (accounts_idle rfl rfl rfl)
    · rw [moves] at done
      split at done
      · cases done
      · rename_i fits
        cases done
        refine .inr (accounts_single (Bool.eq_false_iff.2 fits) rfl rfl ?_)
        show s.buffer.edits.length < (s.buffer.edits ++ [_]).length
        rw [List.length_append]
        exact Nat.lt_succ_self _

/-- All steps of a run are accounted for by the terms that it counts. -/
lemma accounts_run (style : Style) (s : State) (nonempty : ∀ t ∈ ts, t.span ≠ []) :
    Accounts s (countedFrom style s ts) (run style s ts).1 ∧ (countedFrom style s ts).Sublist ts := by
  induction ts generalizing s with
  | nil => exact ⟨accounts_idle rfl rfl rfl, List.Sublist.refl []⟩
  | cons t ts ih =>
    unfold run countedFrom
    cases done : step style s t with
    | error o => exact ⟨accounts_idle rfl rfl rfl, List.nil_sublist _⟩
    | ok s' =>
      obtain ⟨later, kept⟩ := ih s' fun u mem => nonempty u (List.mem_cons_of_mem t mem)
      rcases step_counts (nonempty t List.mem_cons_self) done with idle | single
      · have same : s'.replaced = s.replaced := idle.replaced
        dsimp only
        rw [if_pos same]
        exact ⟨idle.trans later, kept.cons t⟩
      · have more : s'.replaced = s.replaced + 1 := single.replaced
        dsimp only
        rw [if_neg (by omega)]
        exact ⟨single.trans later, kept.cons_cons t⟩

/-- A run that counts nothing leaves everything as it was. -/
lemma Accounts.eq_of_zero (accounts : Accounts s counted s') (zero : counted.length = 0) :
    s'.buffer = s.buffer ∧ s'.registry = s.registry := by
  have empty := List.length_eq_zero_iff.1 zero
  refine ⟨accounts.idle empty, ?_⟩
  rw [accounts.registry, empty]
  rfl

end Localize

namespace Source

open Localize

/-- Whether the work from one progress to another is charged to terms: as many as it counts, with the
keys that it registers, and without any the text stays as it is. -/
structure Charged (p : Progress) (counted : List Term) (q : Progress) : Prop where
  replaced : q.replaced = p.replaced + counted.length
  registry : q.registry = p.registry.registerAll (Term.entries counted)
  idle : counted = [] → q.text = p.text

variable {c : Config} {p q : Progress}

lemma charged_refl (p : Progress) : Charged p [] p :=
  ⟨rfl, rfl, fun _ => rfl⟩

lemma Charged.trans {r : Progress} {counted more : List Term} (first : Charged p counted q)
    (second : Charged q more r) : Charged p (counted ++ more) r where
  replaced := by
    rw [second.replaced, first.replaced, List.length_append, Nat.add_assoc]
  registry := by
    rw [second.registry, first.registry, Registry.registerAll_entries_append]
  idle := by
    intro empty
    obtain ⟨empty, empty'⟩ := List.append_eq_nil_iff.1 empty
    exact (second.idle empty').trans (first.idle empty)

lemma charged_localizeBlock {style : Style} {finish : Text → Text} {b : Component.Block}
    {dialect : Dialect} {o : Term.Options}
    (done : localizeBlock style (Term.extract b.body dialect o) finish b p = .ok q) :
    ∃ counted, Charged p counted q := by
  have nonempty : ∀ t ∈ Term.extract b.body dialect o, t.span ≠ [] :=
    fun _ => Term.span_ne_nil_of_mem_extract
  have accounts :=
    (accounts_run style { buffer := .ofText b.body, registry := p.registry } nonempty).1
  obtain ⟨s, ran, rfl⟩ := localizeBlock_eq_ok done
  rw [localize] at ran
  rw [ran] at accounts
  refine ⟨_, ?_, accounts.registry, fun empty => if_pos ?_⟩
  · rw [accounts.replaced, Nat.zero_add]
  · rw [accounts.replaced, empty]
    rfl

lemma charged_localizeTemplate (done : localizeTemplate c p = .ok q) : ∃ counted, Charged p counted q := by
  rcases localizeTemplate_eq_ok done with rfl | ⟨b, -, done⟩
  · exact ⟨[], charged_refl q⟩
  · exact charged_localizeBlock done

lemma charged_localizeScript (done : localizeScript c p = .ok q) : ∃ counted, Charged p counted q := by
  rcases localizeScript_eq_ok done with rfl | ⟨b, -, done⟩
  · exact ⟨[], charged_refl q⟩
  · exact charged_localizeBlock done

lemma charged_localizeComponent {parts : Parts} {registry : Registry} {text : Text}
    (done : localizeComponent c parts registry text = .ok q) :
    ∃ counted, Charged ⟨text, 0, registry, []⟩ counted q := by
  obtain ⟨p, first, second⟩ := localizeComponent_eq_ok done
  have markup : ∃ counted, Charged ⟨text, 0, registry, []⟩ counted p := by
    rcases first with rfl | first
    · exact ⟨[], charged_refl _⟩
    · exact charged_localizeTemplate first
  have script : ∃ counted, Charged p counted q := by
    rcases second with rfl | second
    · exact ⟨[], charged_refl _⟩
    · exact charged_localizeScript second
  obtain ⟨counted, charged⟩ := markup
  obtain ⟨more, charged'⟩ := script
  exact ⟨counted ++ more, charged.trans charged'⟩

lemma charged_localizeModule {suffix : Text} {registry : Registry} {text : Text}
    (done : localizeModule c suffix registry text = .ok q) :
    ∃ counted, Charged ⟨text, 0, registry, []⟩ counted q := by
  have nonempty : ∀ t ∈ moduleTerms c suffix text, t.span ≠ [] :=
    fun _ => Term.span_ne_nil_of_mem_extract
  have accounts := (accounts_run ⟨.script, (c.scriptOptionsFor suffix).method⟩
    { buffer := .ofText text, registry := registry } nonempty).1
  obtain ⟨s, ran, rfl⟩ := localizeModule_eq_ok done
  rw [localize] at ran
  rw [ran] at accounts
  refine ⟨_, accounts.replaced, accounts.registry, fun empty => ?_⟩
  have zero : s.replaced = 0 := by
    rw [accounts.replaced, empty]
    rfl
  dsimp only
  rw [if_pos zero]
  exact congrArg Buffer.text (accounts.idle empty)

/-- A source that counts nothing keeps its text and registers nothing. -/
lemma Charged.eq_of_zero {registry : Registry} {text : Text} {counted : List Term}
    (charged : Charged ⟨text, 0, registry, []⟩ counted q) (zero : q.replaced = 0) :
    q.text = text ∧ q.registry = registry := by
  have size := charged.replaced
  rw [zero, Nat.zero_add] at size
  have empty := List.length_eq_zero_iff.1 size.symm
  refine ⟨charged.idle empty, ?_⟩
  rw [charged.registry, empty]
  rfl

/-- The count of a run is the number of keys that it registers, one for each term that it counts: the
phrase of the term, or the canonical key of the phrase. The registrations can be told apart: where the
registry has other texts for the keys, each one is noted as a conflict. A run that counts nothing
leaves the text and the registry as they were, and so does the work on a component or a script, which
then also puts no statement in. -/
theorem count_accounts_for_keys :
    (∀ (style : Style) (registry : Registry) (text : Text) (terms : List Term),
      (∀ t ∈ terms, t.span ≠ []) →
      let s := (localize style registry text terms).1
      let counted := countedFrom style { buffer := .ofText text, registry } terms
      counted.Sublist terms ∧ s.replaced = counted.length ∧
      s.registry = registry.registerAll (counted.map fun t => (t.key, t.key)) ∧
      ((∀ t ∈ counted, ∃ kept, registry.phrases.get? t.key = some kept ∧ kept ≠ t.key) →
        s.registry.conflicts.length = registry.conflicts.length + s.replaced) ∧
      (∀ t ∈ counted,
        t.key = t.content ∨ ∃ c, Template.canonical t.content = .ok c ∧ t.key = c.key) ∧
      s.replaced ≤ s.buffer.edits.length ∧
      (s.replaced = 0 → s.buffer.text = text ∧ s.registry = registry)) ∧
    (∀ (c : Config) (parts : Parts) (registry : Registry) (text : Text) (q : Progress),
      localizeComponent c parts registry text = .ok q →
      (∃ counted : List Term, q.replaced = counted.length ∧
        q.registry = registry.registerAll (counted.map fun t => (t.key, t.key))) ∧
      (q.replaced = 0 → q.text = text ∧ q.registry = registry)) ∧
    ∀ (c : Config) (suffix : Text) (registry : Registry) (text : Text) (q : Progress),
      localizeModule c suffix registry text = .ok q →
      (∃ counted : List Term, q.replaced = counted.length ∧
        q.registry = registry.registerAll (counted.map fun t => (t.key, t.key))) ∧
      (q.replaced = 0 → q.text = text ∧ q.registry = registry) := by
  have source : ∀ {registry : Registry} {text : Text} {q : Progress},
      (∃ counted, Charged ⟨text, 0, registry, []⟩ counted q) →
      (∃ counted : List Term, q.replaced = counted.length ∧
        q.registry = registry.registerAll (counted.map fun t => (t.key, t.key))) ∧
      (q.replaced = 0 → q.text = text ∧ q.registry = registry) := by
    rintro registry text q ⟨counted, charged⟩
    refine ⟨⟨counted, ?_, charged.registry⟩, charged.eq_of_zero⟩
    rw [charged.replaced, Nat.zero_add]
  refine ⟨fun style registry text terms nonempty => ?_, ?_, ?_⟩
  · intro s counted
    obtain ⟨accounts, kept⟩ := accounts_run style { buffer := .ofText text, registry } nonempty
    have size : s.replaced = counted.length := accounts.replaced.trans (Nat.zero_add _)
    refine ⟨kept, size, accounts.registry, fun other => ?_,
      fun t mem => Term.key_eq (accounts.fits t mem), ?_, ?_⟩
    · have registry : s.registry = _ := accounts.registry
      rw [registry, Registry.length_conflicts_registerAll, size]
      · exact congrArg _ (List.length_map _)
      · intro p mem
        obtain ⟨t, counts, rfl⟩ := List.mem_map.1 mem
        exact other t counts
    · have edits : 0 + counted.length ≤ s.buffer.edits.length := accounts.edits
      rwa [size, ← Nat.zero_add counted.length]
    · intro zero
      obtain ⟨buffer, same⟩ := accounts.eq_of_zero (size.symm.trans zero)
      exact ⟨congrArg Buffer.text buffer, same⟩
  · exact fun c parts registry text q done => source (charged_localizeComponent done)
  · exact fun c suffix registry text q done => source (charged_localizeModule done)

/-- A phrase that stands in a script twice is counted twice and registered twice, under one key. -/
theorem count_accounts_for_repeated_key :
    let text := "'中'+'中'".toList
    let terms := Term.extract text .script {}
    let s := (localize ⟨.script, "t".toList⟩ .empty text terms).1
    (∀ t ∈ terms, t.span ≠ []) ∧ s.replaced = 2 ∧
      s.registry = Registry.empty.registerAll
        [("中".toList, "中".toList), ("中".toList, "中".toList)] := by
  intro text terms s
  have nonempty : ∀ t ∈ terms, t.span ≠ [] := by decide +kernel
  have counted : (countedFrom ⟨.script, "t".toList⟩ { buffer := .ofText text, registry := .empty }
      terms).map (fun t => (t.key, t.key)) =
        [("中".toList, "中".toList), ("中".toList, "中".toList)] := by decide +kernel
  obtain ⟨-, count, registry, -⟩ :=
    count_accounts_for_keys.1 ⟨.script, "t".toList⟩ .empty text terms nonempty
  refine ⟨nonempty, ?_, ?_⟩
  · rw [← List.length_map (fun t : Term => (t.key, t.key)), counted] at count
    exact count
  · rw [counted] at registry
    exact registry

end Source

end Phrasebook
