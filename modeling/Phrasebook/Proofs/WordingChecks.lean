import Phrasebook.Proofs.MappingFiles
import Phrasebook.Proofs.WrittenPieces

/-!
# Checking the wording of a written mapping

The check takes every quote it meets for a delimiter, those that belong to a text included. So a value
is read up to its first quote and a key from its last, and where a quote is taken for another one, the
members behind may be read askew. What carries over from a member to the next is how many of the two
quotes in front of the next key are used up, `pass`, and with this state the report is told member by
member (`issues_dump`). Compared with what is due (`due`), the check reports only members with flagged
characters, in order and on their lines. It reports all of them, as they are written, exactly if they
meet `IsReported` (`wording_check_complete_iff`).
-/

namespace Phrasebook.Check

variable {language : Text} {taken : Nat}

/-! ## Flagged characters -/

/-- A character that a language's rule flags is none of ASCII. -/
lemma flags_eq_false {c : Char} (ascii : c.toNat < 0x80) (language : Text) :
    (ruleFor language).flags c = false := by
  have large : (simplified ++ traditional).all (fun d => 0x80 ≤ d.toNat) = true := by decide +kernel
  have absent : c ∉ simplified ++ traditional := by
    intro mem
    have := List.all_eq_true.1 large c mem
    simp only [decide_eq_true_eq] at this
    omega
  rw [List.mem_append, not_or] at absent
  unfold ruleFor
  split
  · simpa using absent.1
  split
  · simpa using absent.2
  · show Prose.isTarget c = false
    rw [Prose.isTarget, decide_eq_false (by omega), Bool.false_and]

lemma any_flags_eq_false {p : Text} (ascii : ∀ c ∈ p, c.toNat < 0x80) :
    p.any (ruleFor language).flags = false := by
  rw [List.any_eq_false]
  intro c mem
  rw [flags_eq_false (ascii c mem)]
  exact Bool.false_ne_true

/-- Writing a text keeps whether it holds flagged characters. -/
lemma any_written (v language : Text) :
    (written v).any (ruleFor language).flags = v.any (ruleFor language).flags := by
  rw [written, List.any_flatMap]
  congr 1
  funext c
  rcases Json.escapeChar_cases c with ⟨itself, -⟩ | ⟨ascii, signs⟩
  · simp [itself]
  · have small : ∀ d ∈ Json.escapeChar c, d.toNat < 0x80 := by
      intro d mem
      have sign := (signs d mem).1
      rw [Json.isSign, Bool.and_eq_true, decide_eq_true_eq, decide_eq_true_eq] at sign
      exact sign.2
    rw [flags_eq_false ascii, any_flags_eq_false small]

/-! ## What the check reports -/

/-- What is reported of the entries that the check reads. -/
def reports (language : Text) (ws : List (Nat × Written)) : List Issue :=
  ws.filterMap fun w =>
    if w.2.value.any (ruleFor language).flags then some ⟨w.1, w.2.key, w.2.value⟩ else none

/-- How many of the two quotes in front of the next key are used up behind a value, where `taken` are
from the one that ends its key on. -/
def passValue (taken : Nat) (value : Text) : Nat :=
  if endsAsColon taken value then 2 else 0

/-- How many of the two quotes in front of the next key are used up behind a member, where `taken` are
in front of its own. -/
def pass (taken : Nat) (e : Text × Text) : Nat :=
  if endsAsColon taken e.1 then passValue 2 e.2
  else if taken ≤ e.1.count '"' + 1 ∧ lastPiece e.1 ≠ [] then
    if '"' ∈ e.2 then passValue 3 e.2 else 1
  else passValue 0 e.2

/-- Whether the last piece of a key is read as a key: its quote is not used up, and it is not read as a
colon. -/
def isRead (taken : Nat) (key : Text) : Bool :=
  taken ≤ key.count '"' + 1 && !endsAsColon taken key

/-- What is reported of a member: its key from the last quote on and its value up to the first. -/
def report (language : Text) (line taken : Nat) (e : Text × Text) : List Issue :=
  if isRead taken e.1 && !(lastPiece e.1).isEmpty && (firstPiece e.2).any (ruleFor language).flags then
    [⟨line, lastPiece e.1, firstPiece e.2⟩]
  else []

/-- What is reported of members, where the first is on the given line. -/
def found (language : Text) (line taken : Nat) : List (Text × Text) → List Issue
  | [] => []
  | e :: es => report language line taken e ++ found language (line + 1) (pass taken e) es

lemma reports_cons (w : Nat × Written) (ws : List (Nat × Written)) :
    reports language (w :: ws) =
      (if w.2.value.any (ruleFor language).flags then [⟨w.1, w.2.key, w.2.value⟩] else []) ++
        reports language ws := by
  rw [reports, List.filterMap_cons]
  split_ifs <;> rfl

/-- Behind a value the check goes on with the row. -/
lemma reports_value (line taken : Nat) (v : Text) (es : List (Text × Text)) :
    reports language (entriesAmong
        ((stretch line (line, valueSep) v).drop taken ++ numbered line (row es))) =
      reports language (entriesAmong ((numbered line (row es)).drop (passValue taken v))) := by
  obtain ⟨p, ps, split, plain, ascii⟩ := row_eq_cons es
  rw [split, numbered, passValue]
  cases colon : endsAsColon taken v with
  | true =>
    obtain ⟨a, named, left⟩ := entriesAmong_colon line (s := (line, valueSep))
      (by simp [valueSep]) colon
    rw [left]
    rw [endsAsColon, Bool.and_eq_true] at colon
    cases ps with
    | nil => simp [numbered, entriesAmong]
    | cons q ps =>
      rw [numbered, entriesAmong_read named colon.2, reports_cons, any_flags_eq_false ascii]
      rfl
  | false =>
    by_cases inside : taken ≤ v.count '"' + 1
    · rw [entriesAmong_stretch line (by simp [valueSep]) inside colon, entriesAmong_pass]
      · rfl
      · exact .inr (by simpa using plain)
    · rw [List.drop_of_length_le (by rw [length_stretch]; omega)]
      rfl

/-- A key is read with the first piece of its value. -/
lemma reports_key {key : Nat × Text} (named : key.2 ≠ []) (line : Nat) (v : Text)
    (es : List (Text × Text)) :
    reports language (entriesAmong
        (key :: (stretch line (line, valueSep) v ++ numbered line (row es)))) =
      (if (firstPiece v).any (ruleFor language).flags then [⟨key.1, key.2, firstPiece v⟩] else []) ++
        reports language (entriesAmong
          ((numbered line (row es)).drop (if '"' ∈ v then passValue 3 v else 1))) := by
  by_cases quote : '"' ∈ v
  · obtain ⟨p, ps, split⟩ := pieces_of_quote quote
    have three : stretch line (line, valueSep) v =
        (line, valueSep) :: (line, firstPiece v) :: (line, p) ::
          (stretch line (line, valueSep) v).drop 3 := by
      rw [stretch, split]
      rfl
    rw [if_pos quote, ← reports_value, three]
    exact (congrArg _ (entriesAmong_read named rfl)).trans (reports_cons ..)
  · obtain ⟨p, ps, split, -⟩ := row_eq_cons es
    rw [if_neg quote, stretch, pieces_of_free quote, split]
    exact (congrArg _ (entriesAmong_read named rfl)).trans (reports_cons ..)

/-- A member is reported as its state says, and the check goes on with the row behind it. -/
lemma reports_member (small : taken ≤ 2) (line : Nat) (e : Text × Text) (es : List (Text × Text)) :
    reports language (entriesAmong ((numbered line (row (e :: es))).drop taken)) =
      report language (line + 1) taken e ++
        reports language (entriesAmong ((numbered (line + 1) (row es)).drop (pass taken e))) := by
  have solid : ((line, memberSep) : Nat × Text).2 ≠ [] := by simp [memberSep]
  have length := length_stretch (line + 1) (line, memberSep) e.1
  rw [numbered_row, List.drop_append_of_le_length (by omega)]
  cases colon : endsAsColon taken e.1 with
  | true =>
    -- the key is what stands in front of the last piece, and the separator is the value
    obtain ⟨a, named, left⟩ := entriesAmong_colon (line + 1) solid colon
    obtain ⟨more, split⟩ := pieces_eq_cons e.2
    have two : stretch (line + 1) (line + 1, valueSep) e.2 =
        (line + 1, valueSep) :: (line + 1, firstPiece e.2) ::
          (stretch (line + 1) (line + 1, valueSep) e.2).drop 2 := by
      rw [stretch, split]
      rfl
    have unread : report language (line + 1) taken e = [] := by simp [report, isRead, colon]
    have next : pass taken e = passValue 2 e.2 := by rw [pass, colon, if_pos rfl]
    rw [endsAsColon, Bool.and_eq_true] at colon
    rw [left, two, unread, next, ← reports_value]
    refine (congrArg _ (entriesAmong_read named colon.2)).trans ((reports_cons ..).trans ?_)
    rw [any_flags_eq_false (by simp [valueSep])]
    rfl
  | false =>
    by_cases inside : taken ≤ e.1.count '"' + 1
    · rw [entriesAmong_stretch (line + 1) solid inside colon]
      by_cases empty : lastPiece e.1 = []
      · have unread : report language (line + 1) taken e = [] := by simp [report, empty]
        have next : pass taken e = passValue 0 e.2 := by simp [pass, colon, empty]
        rw [entriesAmong_pass (.inl empty), unread, next, ← reports_value]
        rfl
      · have next : pass taken e = if '"' ∈ e.2 then passValue 3 e.2 else 1 := by
          simp [pass, colon, empty, inside]
        rw [next, reports_key empty, report, isRead, colon, decide_eq_true inside]
        simp [empty]
    · have unread : report language (line + 1) taken e = [] := by simp [report, isRead, inside]
      have next : pass taken e = passValue 0 e.2 := by simp [pass, colon, inside]
      rw [List.drop_of_length_le (by omega), unread, next, ← reports_value]
      rfl

lemma pass_le (taken : Nat) (e : Text × Text) : pass taken e ≤ 2 := by
  unfold pass passValue
  split_ifs <;> omega

lemma reports_row (small : taken ≤ 2) (line : Nat) (es : List (Text × Text)) :
    reports language (entriesAmong ((numbered line (row es)).drop taken)) =
      found language (line + 1) taken es := by
  induction es generalizing line taken with
  | nil =>
    have nothing : entriesAmong ((numbered line (row [])).drop taken) = [] := by
      rcases taken with _ | taken
      · simp [row, numbered, entriesAmong]
      · simp [row, numbered, entriesAmong]
    rw [nothing]
    rfl
  | cons e es ih => rw [reports_member small, ih (pass_le taken e), found]

/-- The check of a text reports its entries. -/
lemma issues_eq (text language : Text) :
    issues text language = reports language ((Text.hits entryShape text).map (located text)) := by
  rw [issues, reports, List.filterMap_map]
  rfl

/-- What is reported of the text of a mapping. -/
lemma issues_dump (m : Mapping) (language : Text) :
    issues m.dump language = found language 2 1 m.entries := by
  rw [issues_eq, Mapping.dump_eq]
  cases m.entries with
  | nil => rfl
  | cons e es =>
    -- the row without what would part the first member from one before
    obtain ⟨ps, split⟩ : ∃ ps, row (e :: es) = memberSep :: ps := ⟨_, rfl⟩
    let front : Text := ['\x7b', '\n', ' ', ' ']
    have text : Json.pretty 0 (.obj (Json.strings (e :: es))) = front ++ behindQuotes ps := by
      have whole := behindQuotes_row (e :: es)
      rw [split, behindQuotes_cons] at whole
      rw [Json.pretty_strings]
      exact congrArg ('\x7b' :: ·) (List.cons.inj (List.cons.inj whole).2).2.symm
    have free : ∀ p ∈ ps, '"' ∉ p := by
      intro p mem
      exact row_free (e :: es) p (split ▸ List.mem_cons_of_mem _ mem)
    obtain ⟨last, passed⟩ := hitsFrom_pass (a := front) (by decide) 0 none (behindQuotes ps)
    rw [text, Text.hits, passed, Nat.zero_add, findsAmong ps free front last,
      ← reports_row (by decide) 1 (e :: es), split]
    rfl

/-! ## What is due -/

/-- The issues due for members, where the first has the given number: those with flagged characters in
the value, each on its own line and with key and value as written. -/
def due (language : Text) (first : Nat) (es : List (Text × Text)) : List Issue :=
  (es.zipIdx first).filterMap fun (e, i) =>
    if e.2.any (ruleFor language).flags then some ⟨i + 2, written e.1, written e.2⟩ else none

/-- A member that is reported as it is written: its key is not empty, key and value are without quotes,
and its key is read. -/
def IsReported (taken : Nat) (e : Text × Text) : Prop :=
  e.1 ≠ [] ∧ '"' ∉ e.1 ∧ '"' ∉ e.2 ∧ isRead taken e.1 = true

/-- How many of the two quotes in front of a key are used up behind the first members of a file; there
is but one in front of the first key, as if the other were used up. -/
def quotesTaken (es : List (Text × Text)) : Nat :=
  es.foldl pass 1

variable {e : Text × Text} {es : List (Text × Text)}

/-- What is reported of a member is on its line, and stands in its key and its value. -/
lemma mem_report {line taken : Nat} {issue : Issue} (mem : issue ∈ report language line taken e) :
    e.2.any (ruleFor language).flags = true ∧ issue.line = line ∧ issue.key <:+ written e.1 ∧
      issue.value <+: written e.2 := by
  unfold report at mem
  split at mem
  · rename_i reads
    obtain ⟨-, flagged⟩ := Bool.and_eq_true_iff.1 reads
    rw [List.mem_singleton.1 mem]
    refine ⟨?_, rfl, suffix_lastPiece _, prefix_firstPiece _⟩
    obtain ⟨c, held, flag⟩ := List.any_eq_true.1 flagged
    rw [← any_written]
    exact List.any_eq_true.2 ⟨c, (prefix_firstPiece e.2).subset held, flag⟩
  · cases mem

lemma report_cases (language : Text) (line taken : Nat) (e : Text × Text) :
    report language line taken e = [] ∨ ∃ issue, report language line taken e = [issue] := by
  unfold report
  split
  · exact .inr ⟨_, rfl⟩
  · exact .inl rfl

/-- A member with flagged characters is reported as it is written under the conditions given. -/
lemma report_eq_iff (flagged : e.2.any (ruleFor language).flags = true) (line taken : Nat) :
    report language line taken e = [⟨line, written e.1, written e.2⟩] ↔ IsReported taken e := by
  unfold report IsReported
  constructor
  · intro reported
    split at reported
    · rename_i reads
      simp only [List.cons.injEq, Issue.mk.injEq, true_and, and_true] at reported
      simp only [Bool.and_eq_true, Bool.not_eq_true', List.isEmpty_eq_false_iff] at reads
      refine ⟨?_, lastPiece_eq_written_iff.1 reported.1, firstPiece_eq_written_iff.1 reported.2,
        reads.1.1⟩
      rw [reported.1] at reads
      exact mt written_eq_nil_iff.2 reads.1.2
    · cases reported
  · rintro ⟨named, key, value, read⟩
    rw [lastPiece_eq_written_iff.2 key, firstPiece_eq_written_iff.2 value, any_written, flagged, read]
    simp [written_eq_nil_iff, named]

/-- What is reported is on the line of a member with flagged characters, and stands in its key and its
value. -/
lemma mem_found {line taken : Nat} {issue : Issue}
    (mem : issue ∈ found language line taken es) :
    ∃ i e, es[i]? = some e ∧ e.2.any (ruleFor language).flags = true ∧ issue.line = i + line ∧
      issue.key <:+ written e.1 ∧ issue.value <+: written e.2 := by
  induction es generalizing line taken with
  | nil => cases mem
  | cons e es ih =>
    rcases List.mem_append.1 mem with here | later
    · obtain ⟨flagged, first, key, value⟩ := mem_report here
      exact ⟨0, e, rfl, flagged, by omega, key, value⟩
    · obtain ⟨i, d, place, flagged, behind, key, value⟩ := ih later
      exact ⟨i + 1, d, place, flagged, by omega, key, value⟩

lemma found_pairwise (line taken : Nat) (es : List (Text × Text)) :
    (found language line taken es).Pairwise (·.line < ·.line) := by
  induction es generalizing line taken with
  | nil => exact List.Pairwise.nil
  | cons e es ih =>
    refine List.pairwise_append.2 ⟨?_, ih _ _, ?_⟩
    · rcases report_cases language line taken e with nothing | ⟨issue, one⟩
      · rw [nothing]
        exact List.Pairwise.nil
      · rw [one]
        exact List.pairwise_singleton _ issue
    · intro a here b later
      have first := (mem_report here).2.1
      obtain ⟨i, -, -, -, behind, -⟩ := mem_found later
      omega

lemma due_cons (first : Nat) (e : Text × Text) (es : List (Text × Text)) :
    due language first (e :: es) =
      (if e.2.any (ruleFor language).flags then [⟨first + 2, written e.1, written e.2⟩] else []) ++
        due language (first + 1) es := by
  rw [due, List.zipIdx_cons, List.filterMap_cons]
  dsimp only
  split_ifs <;> rfl

/-- What is due of a first member is reported, and the others agree, if all agree. -/
lemma found_cons_eq_due_iff (first taken : Nat) (e : Text × Text) (es : List (Text × Text)) :
    found language (first + 2) taken (e :: es) = due language first (e :: es) ↔
      (e.2.any (ruleFor language).flags = true → IsReported taken e) ∧
        found language (first + 1 + 2) (pass taken e) es = due language (first + 1) es := by
  rw [found, due_cons]
  by_cases flagged : e.2.any (ruleFor language).flags = true
  · rw [if_pos flagged, ← report_eq_iff flagged (first + 2) taken]
    constructor
    · intro same
      rcases report_cases language (first + 2) taken e with nothing | ⟨issue, one⟩
      · -- what is due here would have to be reported further down
        have mem : (⟨first + 2, written e.1, written e.2⟩ : Issue) ∈
            found language (first + 2 + 1) (pass taken e) es := by
          rw [nothing, List.nil_append] at same
          rw [same]
          exact List.mem_cons_self
        obtain ⟨i, -, -, -, behind, -⟩ := mem_found mem
        dsimp only at behind
        omega
      · rw [one, List.singleton_append, List.singleton_append, List.cons.injEq] at same
        exact ⟨fun _ => by rw [one, same.1], same.2⟩
    · rintro ⟨here, later⟩
      rw [here flagged, later]
  · have nothing : report language (first + 2) taken e = [] :=
      List.eq_nil_iff_forall_not_mem.2 fun issue mem => flagged (mem_report mem).1
    rw [if_neg flagged, nothing, List.nil_append, List.nil_append]
    exact (and_iff_right fun flags => absurd flags flagged).symm

/-- Exactly what is due is reported if every member with flagged characters is. -/
lemma found_eq_due_iff (language : Text) (first taken : Nat) (es : List (Text × Text)) :
    found language (first + 2) taken es = due language first es ↔
      ∀ i e, es[i]? = some e → e.2.any (ruleFor language).flags = true →
        IsReported ((es.take i).foldl pass taken) e := by
  induction es generalizing first taken with
  | nil => exact iff_of_true rfl (by simp)
  | cons e es ih =>
    rw [found_cons_eq_due_iff, ih]
    constructor
    · rintro ⟨here, later⟩ i d place flagged
      cases i with
      | zero =>
        obtain rfl := Option.some.inj place
        exact here flagged
      | succ i => exact later i d place flagged
    · intro all
      exact ⟨all 0 e rfl, fun i => all (i + 1)⟩

/-- Members with keys and without quotes use up one of the quotes each. -/
lemma quotesTaken_eq_one (plain : ∀ e ∈ es, e.1 ≠ [] ∧ '"' ∉ e.1 ∧ '"' ∉ e.2) :
    quotesTaken es = 1 := by
  induction es with
  | nil => rfl
  | cons e es ih =>
    obtain ⟨named, key, value⟩ := plain e List.mem_cons_self
    have read : lastPiece e.1 ≠ [] := by
      rw [lastPiece_eq_written_iff.2 key]
      exact mt written_eq_nil_iff.1 named
    have next : pass 1 e = 1 := by
      simp [pass, endsAsColon, List.count_eq_zero.2 key, read, value]
    rw [quotesTaken, List.foldl_cons, next]
    exact ih fun d mem => plain d (List.mem_cons_of_mem e mem)

/-- In the file of a mapping the check reports only members with flagged characters in the value, in
order and each on its line. It reports all of them, with key and value as written, exactly if each has a
key that is not empty, no quote in key or value, and a key that is read where it stands behind the
members before. That is so if no key is empty and there is no quote in any key or value. -/
theorem wording_check_complete_iff (m : Mapping) (language : Text) :
    ((issues m.dump language).Pairwise (·.line < ·.line) ∧
        ∀ issue ∈ issues m.dump language, ∃ i e, m.entries[i]? = some e ∧
          e.2.any (ruleFor language).flags = true ∧ issue.line = i + 2 ∧
          issue.key <:+ written e.1 ∧ issue.value <+: written e.2) ∧
      (issues m.dump language = due language 0 m.entries ↔
        ∀ i e, m.entries[i]? = some e → e.2.any (ruleFor language).flags = true →
          IsReported (quotesTaken (m.entries.take i)) e) ∧
      ((∀ e ∈ m.entries, e.1 ≠ [] ∧ '"' ∉ e.1 ∧ '"' ∉ e.2) →
        issues m.dump language = due language 0 m.entries) := by
  have complete := found_eq_due_iff language 0 1 m.entries
  rw [issues_dump]
  refine ⟨⟨found_pairwise 2 1 m.entries, fun issue => mem_found⟩, complete, ?_⟩
  intro plain
  apply complete.2
  intro i e place flagged
  have first : quotesTaken (m.entries.take i) = 1 :=
    quotesTaken_eq_one fun d mem => plain d (List.mem_of_mem_take mem)
  obtain ⟨named, key, value⟩ := plain e (List.mem_of_getElem? place)
  refine ⟨named, key, value, ?_⟩
  rw [quotesTaken] at first
  simp [first, isRead, endsAsColon, List.count_eq_zero.2 key]

/-- A text that starts with a quote is not reported, and a text with a quote hides a member behind it
whose key is a colon. -/
theorem wording_check_incomplete :
    issues (Mapping.ofPairs [("k".toList, "\"中".toList)]).dump "en".toList ≠
        due "en".toList 0 [("k".toList, "\"中".toList)] ∧
      issues (Mapping.ofPairs [("k".toList, "a\"b".toList), (":".toList, "中".toList)]).dump
          "en".toList ≠
        due "en".toList 0 [("k".toList, "a\"b".toList), (":".toList, "中".toList)] := by
  constructor
  · intro complete
    obtain ⟨-, -, value, -⟩ := (wording_check_complete_iff _ _).2.1.1 complete 0 _ rfl rfl
    exact value (by decide)
  · intro complete
    obtain ⟨-, -, -, read⟩ := (wording_check_complete_iff _ _).2.1.1 complete 1 _ rfl rfl
    exact absurd read (by decide)

end Phrasebook.Check
