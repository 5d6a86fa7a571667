import Phrasebook.Proofs.Containment
import Phrasebook.Proofs.Reading
import Phrasebook.Proofs.Visits
import Phrasebook.Proofs.Wiring

/-!
# What a changed file keeps

The text of a source is rewritten part by part, by edits under the rules of its parts (`Rewritten`),
and written back as it is. But the text that is rewritten is the one that was read, with line feeds
for all line ends. So a character that no edit touched is kept unless it is a carriage return
(`process_keeps_untouched_iff`).
-/

namespace Phrasebook

open Files

namespace Source

/-- A part of a source that is worked on: its block, the lookup method, the terms, and the statements
that may be added. -/
inductive Part (c : Config) (suffix text : Text) :
    Component.Block → Text → List Term → List Text → Prop where
  | template {b : Component.Block} :
    suffix = componentSuffix → Component.template? text = some b →
    Part c suffix text b c.vue.templateMethod (templateTerms c b) []
  | script {b : Component.Block} :
    suffix = componentSuffix → Component.script? text = some b →
    Part c suffix text b c.vue.scriptMethod (scriptTerms c b)
      [c.vue.importStatement, c.vue.instanceStatement]
  | whole :
    suffix ∈ scriptSuffixes →
    Part c suffix text ⟨0, [], text⟩ (c.scriptOptionsFor suffix).method (moduleTerms c suffix text)
      [(c.scriptOptionsFor suffix).importStatement]

/-- The rule for a part: terms make way for their calls, and lines with statements are added. -/
def partRule (method : Text) (terms : List Term) (statements : List Text) : EditRule :=
  fun u start stop r =>
    Localize.Exchange method terms u start stop r ∨ Script.Wires statements u start stop r

/-- How the text of a source may change, part by part, and the log of all edits. -/
inductive Rewritten (c : Config) (suffix : Text) : Text → List Edit → Text → Prop where
  | same (text : Text) : Rewritten c suffix text [] text
  | part {text before body method : Text} {es log : List Edit} {b : Component.Block}
      {terms : List Term} {statements : List Text} :
    Rewritten c suffix text es before →
    Part c suffix before b method terms statements →
    Edits (partRule method terms statements) b.body log body →
    Rewritten c suffix text (es ++ log.map (Edit.behind b.start)) (Component.withBody before b body)

variable {c : Config} {suffix text out method : Text} {b : Component.Block} {terms : List Term}
  {statements : List Text} {es : List Edit}

lemma Part.standsIn (part : Part c suffix text b method terms statements) : b.StandsIn text := by
  cases part with
  | template _ found => exact Component.standsIn_of_template? found
  | script _ found => exact Component.standsIn_of_script? found
  | whole _ => exact ⟨[], [], (List.append_nil text).symm, rfl⟩

/-- A rewritten text comes from the first one by the edits of the log. -/
lemma Rewritten.edits (rewritten : Rewritten c suffix text es out) :
    Edits (fun _ _ _ _ => True) text es out := by
  induction rewritten with
  | same => exact .nil text
  | part _ part edits ih => exact ih.trans (Component.edits_withBody part.standsIn edits)

/-! ## The work on a text -/

/-- What a run on a part does to its text, with statements added behind it or not. -/
lemma edits_part {style : Localize.Style} {registry : Registry} {u body : Text} {dialect : Dialect}
    {o : Term.Options} {s : Localize.State} {overflow : Option Template.Overflow} {log : List Edit}
    (ran : Localize.localize style registry u (Term.extract u dialect o) = (s, overflow))
    (wired : Edits (Script.Wires statements) s.buffer.text log body) :
    ∃ es, Edits (partRule style.method (Term.extract u dialect o) statements) u es body := by
  have run := Localize.edits_localize style registry u dialect o
  dsimp only at run
  rw [ran] at run
  exact ⟨_, (run.mono .inl).trans (wired.mono .inr)⟩

lemma rewritten_localizeBlock {style : Localize.Style} {finish : Text → Text} {p q : Progress}
    {dialect : Dialect} {o : Term.Options}
    (before : Rewritten c suffix text es p.text)
    (part : Part c suffix p.text b style.method (Term.extract b.body dialect o) statements)
    (finishes : ∀ u, ∃ log, Edits (Script.Wires statements) u log (finish u))
    (done : localizeBlock style (Term.extract b.body dialect o) finish b p = .ok q) :
    ∃ es, Rewritten c suffix text es q.text := by
  obtain ⟨s, ran, rfl⟩ := localizeBlock_eq_ok done
  dsimp only
  split
  · exact ⟨es, before⟩
  · obtain ⟨log, wired⟩ := finishes s.buffer.text
    obtain ⟨log', edits⟩ := edits_part ran wired
    exact ⟨_, .part before part edits⟩

lemma rewritten_localizeTemplate {p q : Progress} (component : suffix = componentSuffix)
    (before : Rewritten c suffix text es p.text) (done : localizeTemplate c p = .ok q) :
    ∃ es, Rewritten c suffix text es q.text := by
  rcases localizeTemplate_eq_ok done with rfl | ⟨b, found, done⟩
  · exact ⟨es, before⟩
  · exact rewritten_localizeBlock before (.template component found) (fun u => ⟨[], .nil u⟩) done

lemma rewritten_localizeScript {p q : Progress} (component : suffix = componentSuffix)
    (before : Rewritten c suffix text es p.text) (done : localizeScript c p = .ok q) :
    ∃ es, Rewritten c suffix text es q.text := by
  rcases localizeScript_eq_ok done with rfl | ⟨b, found, done⟩
  · exact ⟨es, before⟩
  · exact rewritten_localizeBlock before (.script component found)
      (fun u => Script.edits_wireComponent u _ _) done

lemma rewritten_localizeComponent {parts : Parts} {registry : Registry} {q : Progress}
    (component : suffix = componentSuffix)
    (done : localizeComponent c parts registry text = .ok q) :
    ∃ es, Rewritten c suffix text es q.text := by
  obtain ⟨p, first, second⟩ := localizeComponent_eq_ok done
  have markup : ∃ es, Rewritten c suffix text es p.text := by
    rcases first with rfl | first
    · exact ⟨[], .same text⟩
    · exact rewritten_localizeTemplate component (.same text) first
  obtain ⟨es, before⟩ := markup
  rcases second with rfl | second
  · exact ⟨es, before⟩
  · exact rewritten_localizeScript component before second

lemma rewritten_localizeModule {registry : Registry} {q : Progress} (known : suffix ∈ scriptSuffixes)
    (done : localizeModule c suffix registry text = .ok q) :
    ∃ es, Rewritten c suffix text es q.text := by
  obtain ⟨s, ran, rfl⟩ := localizeModule_eq_ok done
  have wired : ∃ log, Edits (Script.Wires [(c.scriptOptionsFor suffix).importStatement])
      s.buffer.text log (if s.replaced = 0 then s.buffer.text
        else Script.wireModule s.buffer.text (c.scriptOptionsFor suffix).importStatement) := by
    split
    · exact ⟨[], .nil _⟩
    · exact Script.edits_wireModule _ _
  obtain ⟨log, wired⟩ := wired
  obtain ⟨log', edits⟩ := edits_part ran wired
  have rewritten := Rewritten.part (.same text) (.whole known) edits
  simp only [Component.withBody, List.take_zero, List.nil_append, Nat.zero_add, List.drop_length,
    List.append_nil] at rewritten
  exact ⟨_, rewritten⟩

/-- Whatever work a file gets, its text is rewritten part by part. -/
lemma rewritten_of_worker {parts : Parts} {work : Text → Except Failure Progress} {q : Progress}
    (chosen : worker c parts suffix = .ok work) (done : work text = .ok q) :
    ∃ es, Rewritten c suffix text es q.text := by
  rcases worker_eq_ok chosen with ⟨component, rfl⟩ | ⟨known, -, rfl⟩
  · exact rewritten_localizeComponent component done
  · exact rewritten_localizeModule known done

/-! ## Reading back -/

variable {o : Options} {t t' : FileTree} {p : Path} {disk : Disk}

/-- A file that was written over another one reads back. -/
lemma readBytes_put {folder : Location} {old : Bytes} (located : t.locateParent p = .ok folder)
    (named : FileTree.namesEntry p = true)
    (stands : t.node? (folder ++ [p.name]) = some (.file old)) (new : Bytes) :
    (t.put (folder ++ [p.name]) (.file new)).readBytes p = .ok new := by
  have below : folder ++ [p.name] ≠ [] := by simp
  rw [FileTree.readBytes, FileTree.stat, FileTree.locate_put_file stands below,
    FileTree.locate_of_stands located named stands (by simp)]
  simp only [FileTree.node?_put_self below]

/-- A file that was saved reads back. -/
lemma readBytes_of_save {before after : Text} {bytes : Bytes} (writes : o.dryRun = false)
    (direct : t.isLink p = false) (read : t.readBytes p = .ok bytes) {folder : Location}
    (above : t.locate true p.parent = .ok folder)
    (saved : save t p o before after disk = (t', none)) :
    t'.readBytes p = .ok (Utf8.encode after) := by
  have plain := FileTree.makeFolders_of_located above
  -- without a backup, or where one was kept before, the file takes the place of the old one
  have direct_write : t.writeText p after disk = (t', none) →
      t'.readBytes p = .ok (Utf8.encode after) := by
    intro written
    rcases FileTree.write_cases plain (Utf8.encode after) disk with ⟨f, failed⟩ | ⟨loc, located, named, moves⟩
    · cases (Prod.mk.inj (written.symm.trans failed)).2
    · obtain rfl := (Prod.mk.inj (written.symm.trans moves)).1
      exact readBytes_put located named (FileTree.node?_of_readBytes located named direct read) _
  unfold save at saved
  rw [writes] at saved
  simp only [Bool.false_eq_true, if_false] at saved
  split at saved
  · rcases backup_cases above before disk with ⟨fault, idle⟩ | ⟨made, free⟩
    · rw [idle] at saved
      cases fault with
      | some f => cases saved
      | none => exact direct_write saved
    · rw [made] at saved
      dsimp only at saved
      generalize place : folder ++ [(backupPath p before).name] = kept at made free saved
      have below : kept ≠ [] := by simp [← place]
      have again := FileTree.makeFolders_put above below free (Utf8.encode before)
      rcases FileTree.write_cases again (Utf8.encode after) disk with
        ⟨f, failed⟩ | ⟨loc, located, named, moves⟩
      · cases (Prod.mk.inj (saved.symm.trans failed)).2
      · obtain rfl := (Prod.mk.inj (saved.symm.trans moves)).1
        -- the backup did not change where the folder of the file is found
        obtain ⟨rfl, located'⟩ := FileTree.locateParent_of_put above below free located
        have stands := FileTree.node?_of_readBytes located' named direct read
        have file : ∃ old, (t.put kept (.file (Utf8.encode before))).node? (loc ++ [p.name]) =
            some (.file old) := by
          rw [FileTree.node?_put below]
          split
          · exact ⟨_, rfl⟩
          · exact ⟨_, stands⟩
        obtain ⟨old, stands⟩ := file
        exact readBytes_put located named stands _
  · exact direct_write saved

/-- A file that is not too large is worked on. -/
lemma precheck_of_stands {folder : Location} {bytes : Bytes}
    (located : t.locateParent p = .ok folder) (named : FileTree.namesEntry p = true)
    (stands : t.node? (folder ++ [p.name]) = some (.file bytes)) {maxSize : Option Int}
    (fits : ∀ limit, maxSize = some limit → limit = 0 ∨ (bytes.length : Int) ≤ limit) :
    precheck t p maxSize = .ok none := by
  have leads := FileTree.locate_of_stands located named stands nofun
  unfold precheck
  rw [FileTree.obstacle?_of_locate (FileTree.locate_of_file located named stands false),
    FileTree.isLink_of_file located named stands]
  simp only [Bool.false_eq_true, if_false]
  cases limited : maxSize with
  | none => rfl
  | some limit =>
    have size : t.sizeOf p = .ok bytes.length := by
      simp only [FileTree.sizeOf, FileTree.stat, leads, stands]
    dsimp only
    split
    · rfl
    · rename_i positive
      have small := (fits limit limited).resolve_left positive
      rw [size]
      simp only [if_neg (Int.not_lt.2 small)]

lemma readText_of_stands {folder : Location} {bytes : Bytes} {old : Text}
    (located : t.locateParent p = .ok folder) (named : FileTree.namesEntry p = true)
    (stands : t.node? (folder ++ [p.name]) = some (.file bytes))
    (decoded : Utf8.decode bytes = .ok old) : readText t p = .ok (Text.foldNewlines old) := by
  have leads := FileTree.locate_of_stands located named stands nofun
  simp only [readText, textOf, FileTree.readBytes, FileTree.stat, leads, stands, decoded]

/-- A file that changes is written, unless it is too large or its draft fails. -/
lemma process_of_stands {folder drafts : Location} {bytes : Bytes} {old : Text}
    {work : Text → Except Failure Progress} {q : Progress}
    (located : t.locateParent p = .ok folder) (named : FileTree.namesEntry p = true)
    (stands : t.node? (folder ++ [p.name]) = some (.file bytes))
    (drafted : t.locateFolder (t.draftFolder p) = .ok drafts) (sound : disk.mishap p = none)
    (fits : ∀ limit, o.maxSize = some limit → limit = 0 ∨ (bytes.length : Int) ≤ limit)
    (chosen : worker c o.parts (Path.lower p.suffix) = .ok work)
    (decoded : Utf8.decode bytes = .ok old) (worked : work (Text.foldNewlines old) = .ok q)
    (changed : q.text ≠ Text.foldNewlines old) (writes : o.dryRun = false)
    (bare : o.backup = false) :
    (process c o t p disk).outcome = .done q.replaced true
        (if o.showDiff then some (LineDiff.unified (Text.foldNewlines old) q.text p.toText) else none) ∧
      (process c o t p disk).tree = t.put (folder ++ [p.name]) (.file (Utf8.encode q.text)) := by
  have checked := precheck_of_stands located named stands fits
  have read := readText_of_stands located named stands decoded
  have saved : save t p o (Text.foldNewlines old) q.text disk =
      (t.put (folder ++ [p.name]) (.file (Utf8.encode q.text)), none) := by
    simp only [save, writes, bare, Bool.false_eq_true, if_false]
    exact FileTree.write_of_free located named (by simp [stands]) (by simp [stands]) drafted sound _
  have other : (q.text != Text.foldNewlines old) = true := bne_iff_ne.2 changed
  rw [process_eq_finished checked chosen read worked, if_pos other, saved]
  simp only [finished, other, Bool.true_and, and_self]

/-- A file whose text stays as it is is not written. -/
lemma process_of_same {folder : Location} {bytes : Bytes} {old : Text}
    {work : Text → Except Failure Progress} {q : Progress}
    (located : t.locateParent p = .ok folder) (named : FileTree.namesEntry p = true)
    (stands : t.node? (folder ++ [p.name]) = some (.file bytes))
    (fits : ∀ limit, o.maxSize = some limit → limit = 0 ∨ (bytes.length : Int) ≤ limit)
    (chosen : worker c o.parts (Path.lower p.suffix) = .ok work)
    (decoded : Utf8.decode bytes = .ok old) (worked : work (Text.foldNewlines old) = .ok q)
    (same : q.text = Text.foldNewlines old) :
    (process c o t p disk).outcome = .done q.replaced false none ∧
      (process c o t p disk).tree = t := by
  have checked := precheck_of_stands located named stands fits
  have read := readText_of_stands located named stands decoded
  have idle : (q.text != Text.foldNewlines old) = false := bne_eq_false_iff_eq.2 same
  rw [process_eq_finished checked chosen read worked, if_neg (Bool.eq_false_iff.1 idle)]
  simp only [finished, idle, Bool.false_and, Bool.false_eq_true, if_false, and_self]

/-- The way to a changed file. -/
lemma process_of_changed {n : Nat} {diff : Option Text}
    (done : (process c o t p disk).outcome = .done n true diff) :
    ∃ work text q, t.isLink p = false ∧ worker c o.parts (Path.lower p.suffix) = .ok work ∧
      readText t p = .ok text ∧ work text = .ok q ∧
      save t p o text q.text disk = ((process c o t p disk).tree, none) := by
  rcases process_cases c o t p with ⟨w, fruitless, ended⟩ | ⟨work, text, q, checked, chosen, read, worked⟩
  · rw [ended o rfl rfl disk] at done
    cases fruitless <;> cases done
  · refine ⟨work, text, q, isLink_of_precheck checked, chosen, read, worked, ?_⟩
    rw [process_eq_finished checked chosen read worked] at done ⊢
    cases changed : q.text != text with
    | false =>
      rw [changed, if_neg Bool.false_ne_true, finished, changed] at done
      cases done
    | true =>
      rw [changed, if_pos rfl] at done
      rw [if_pos rfl]
      cases saved : save t p o text q.text disk with
      | mk after fault =>
        rw [saved] at done
        cases fault with
        | some f => cases done
        | none => rfl

/-! ## What is kept -/

/-- Every character of the old text that no edit of its folded text touched stands in the new one, in
the old order. -/
structure KeepsUntouched (old : Text) (es : List Edit) (new : Text) : Prop where
  chars : ∀ i c k, old[i]? = some c → Edit.carry? es (Text.foldedPlace old i) 1 = some k →
    new[k]? = some c
  order : ∀ i j k l, i < j → j < old.length →
    Edit.carry? es (Text.foldedPlace old i) 1 = some k →
    Edit.carry? es (Text.foldedPlace old j) 1 = some l → k < l

/-- Edits of a folded text keep what they do not touch exactly if that holds no carriage return. -/
lemma keepsUntouched_iff {rule : EditRule} {old new : Text}
    (edits : Edits rule (Text.foldNewlines old) es new) :
    KeepsUntouched old es new ↔
      ∀ i, old[i]? = some '\r' → Edit.carry? es (Text.foldedPlace old i) 1 = none := by
  constructor
  · intro keeps i feed
    by_contra touched
    obtain ⟨k, carried⟩ := Option.ne_none_iff_exists'.1 touched
    -- the carriage return has become a line feed before any edit
    have kept := keeps.chars i _ k feed carried
    rw [edits.getElem?_of_carry? carried, Text.getElem?_foldNewlines feed] at kept
    cases kept
  · intro apart
    have plain : ∀ {i k}, Edit.carry? es (Text.foldedPlace old i) 1 = some k →
        old[i]? ≠ some '\r' := by
      intro i k carried feed
      rw [apart i feed] at carried
      cases carried
    constructor
    · intro i c k stands carried
      have other : c ≠ '\r' := by
        rintro rfl
        exact plain carried stands
      rw [edits.getElem?_of_carry? carried, Text.getElem?_foldNewlines stands, Text.foldNewline,
        if_neg other]
    · intro i j k l order inside first second
      exact Edit.lt_of_carry? (Text.foldedPlace_lt order inside (plain first)) first second

/-- A file that is changed holds valid bytes before. Its text, with line feeds for all line ends, is
rewritten part by part, each edit putting a call in place of a term or adding lines with a statement,
and its bytes are those of the new text. The characters that no edit touches are kept, in order,
exactly if no carriage return is among them. -/
theorem process_keeps_untouched_iff {n : Nat} {diff : Option Text} (writes : o.dryRun = false)
    (changed : (process c o t p disk).outcome = .done n true diff) :
    ∃ bytes old es new, t.readBytes p = .ok bytes ∧ Utf8.decode bytes = .ok old ∧
      bytes = Utf8.encode old ∧
      (process c o t p disk).tree.readBytes p = .ok (Utf8.encode new) ∧
      Rewritten c (Path.lower p.suffix) (Text.foldNewlines old) es new ∧
      (KeepsUntouched old es new ↔
        ∀ i, old[i]? = some '\r' → Edit.carry? es (Text.foldedPlace old i) 1 = none) := by
  obtain ⟨work, text, q, direct, chosen, read, worked, saved⟩ := process_of_changed changed
  obtain ⟨folder, above⟩ := locate_parent_of_readText read
  unfold readText at read
  cases file : t.readBytes p with
  | error f =>
    rw [file] at read
    cases read
  | ok bytes =>
    rw [file, textOf] at read
    cases decoded : Utf8.decode bytes with
    | error f =>
      rw [decoded] at read
      cases read
    | ok old =>
      rw [decoded] at read
      obtain rfl : Text.foldNewlines old = text := Except.ok.inj read
      obtain ⟨es, rewritten⟩ := rewritten_of_worker chosen worked
      exact ⟨bytes, old, es, q.text, rfl, decoded, (Utf8.encode_of_decode decoded).symm,
        readBytes_of_save writes direct file above saved, rewritten,
        keepsUntouched_iff rewritten.edits⟩

/-- A module whose only line ends in a carriage return and a line feed. -/
theorem process_keeps_untouched_carriage_return :
    let name := "a.ts".toList
    let t := (FileTree.empty []).put [name] (.file (Utf8.encode "a = '中'\r\n".toList))
    let p : Path := ⟨0, [name]⟩
    (process default {} t p).outcome = .done 1 true none ∧
      ∃ bytes old es new, t.readBytes p = .ok bytes ∧ Utf8.decode bytes = .ok old ∧
        bytes = Utf8.encode old ∧
        (process default {} t p).tree.readBytes p = .ok (Utf8.encode new) ∧
        Rewritten default (Path.lower p.suffix) (Text.foldNewlines old) es new ∧
        (KeepsUntouched old es new ↔
          ∀ i, old[i]? = some '\r' → Edit.carry? es (Text.foldedPlace old i) 1 = none) := by
  intro name t p
  have located : t.locateParent p = .ok [] := FileTree.locateFolder_root rfl 0
  have drafted : t.locateFolder (t.draftFolder p) = .ok [] := FileTree.locateFolder_root rfl 1
  have stands : t.node? ([] ++ [p.name]) = some (.file (Utf8.encode "a = '中'\r\n".toList)) := by
    decide +kernel
  have chosen : worker default {} (Path.lower p.suffix) =
    .ok (localizeModule default ".ts".toList .empty) := rfl
  have decoded : Utf8.decode (Utf8.encode "a = '中'\r\n".toList) = .ok "a = '中'\r\n".toList := rfl
  have worked : (localizeModule default ".ts".toList .empty "a = '中'\n".toList).toOption.any
      (fun q => q.replaced == 1 && q.text != "a = '中'\n".toList) = true := by
    decide +kernel
  have outcome : (process default {} t p).outcome = .done 1 true none := by
    cases ended : localizeModule default ".ts".toList .empty "a = '中'\n".toList with
    | error f =>
      rw [ended] at worked
      cases worked
    | ok q =>
      rw [ended] at worked
      obtain ⟨one, changed⟩ := Bool.and_eq_true_iff.1 worked
      have sound : Disk.sound.mishap p = none := rfl
      have saved := process_of_stands (o := {}) located (by decide) stands drafted sound
        (fun limit same => .inr (by cases same; decide)) chosen decoded ended (bne_iff_ne.1 changed)
        rfl rfl
      rw [beq_iff_eq.1 one] at saved
      exact saved.1
  exact ⟨outcome, process_keeps_untouched_iff rfl outcome⟩

end Source

end Phrasebook
