import Phrasebook.Mapping.LocaleModule
import Phrasebook.Proofs.MappingFiles
import Phrasebook.Proofs.OpenedComments
import Phrasebook.Proofs.TemplateReach

/-!
# Reading back a locale module

A mapping is written as a module with an entry a line (`render`). As long as the module has no comments
its entries are read as they are (`memberShape_memberLine`, `hits_members`). But what looks like a
comment is removed before the module is read, also within the quotes of a key or a text. A removed
comment takes an opening character with it that nothing brings back: what is read holds at most the
opening characters that are left (`sum_hitsFrom_le`, `Entries.sum_ofPairs_le`). So the mapping is read
back exactly if no comment opens in its keys and texts.
-/

namespace Phrasebook

namespace Text

variable {α : Type} {shape : Shape α} {p : Char → Bool} {weight : α → Nat}

/-- If each value weighs no more than the characters it is read from, then the values of a scan weigh no
more than the text. -/
lemma sum_hitsFrom_le
    (reads : ∀ prev t n a, shape prev t = some (n, a) → 0 < n ∧ weight a ≤ (t.take n).countP p)
    (skip pos : Nat) (prev : Option Char) (t : Text) :
    ((hitsFrom shape skip pos prev t).map fun h => weight h.value).sum ≤ (t.drop skip).countP p := by
  induction t generalizing skip pos prev with
  | nil => simp [hitsFrom]
  | cons c cs ih =>
    cases skip with
    | succ skip => exact ih skip (pos + 1) (some c)
    | zero =>
      rw [hitsFrom, List.drop_zero]
      split
      · rename_i n a read
        obtain ⟨positive, light⟩ := reads _ _ _ _ read
        obtain ⟨n, rfl⟩ := Nat.exists_eq_add_one.2 positive
        have later := ih n (pos + 1) (some c)
        have whole := congrArg (List.countP p) (List.take_append_drop (n + 1) (c :: cs))
        rw [List.countP_append, List.drop_succ_cons] at whole
        rw [Nat.add_sub_cancel, List.map_cons, List.sum_cons, ← whole]
        exact Nat.add_le_add light later
      · have later := ih 0 (pos + 1) (some c)
        rw [List.drop_zero] at later
        exact later.trans (List.sublist_cons_self c cs).countP_le

lemma firstFit_suffix {read : Text → Option Text} {t rest : Text}
    (reads : ∀ {t rest}, read t = some rest → rest <:+ t) (found : firstFit read t = some rest) :
    rest <:+ t := by
  induction t with
  | nil => exact reads found
  | cons c cs ih =>
    rw [firstFit] at found
    cases here : read (c :: cs) with
    | some r =>
      rw [here] at found
      exact reads (here.trans found)
    | none =>
      rw [here] at found
      exact (ih found).trans (List.suffix_cons c cs)

end Text

namespace Entries

variable {weight : Text × Text → Nat}

lemma sum_insert_le (weight : Text × Text → Nat) (key value : Text) (es : Entries Text) :
    ((insert key value es).map weight).sum ≤ (es.map weight).sum + weight (key, value) := by
  induction es with
  | nil => simp [insert]
  | cons e es ih =>
    by_cases here : e.1 = key
    · rw [insert, if_pos here, here]
      simp only [List.map_cons, List.sum_cons]
      omega
    · rw [insert, if_neg here]
      simp only [List.map_cons, List.sum_cons, Prod.mk.eta]
      omega

lemma sum_foldl_insert_le (weight : Text × Text → Nat) (ps es : Entries Text) :
    ((ps.foldl (fun es p => insert p.1 p.2 es) es).map weight).sum ≤
      (es.map weight).sum + (ps.map weight).sum := by
  induction ps generalizing es with
  | nil => simp
  | cons p ps ih =>
    have first := sum_insert_le weight p.1 p.2 es
    have rest := ih (insert p.1 p.2 es)
    simp only [List.foldl_cons, List.map_cons, List.sum_cons, Prod.mk.eta] at first ⊢
    omega

/-- The entries that pairs make weigh no more than the pairs. -/
lemma sum_ofPairs_le (weight : Text × Text → Nat) (ps : List (Text × Text)) :
    ((ofPairs ps).map weight).sum ≤ (ps.map weight).sum := by
  have bound := sum_foldl_insert_le weight ps []
  rwa [List.map_nil, List.sum_nil, Nat.zero_add] at bound

end Entries

namespace LocaleModule

open Comment (isOpener Opens Gap gapped)

/-! ## Writing a module -/

/-- The line of an entry, key and text in single quotes. -/
def memberLine (e : Text × Text) : Text :=
  '\'' :: (e.1 ++ ("': '".toList ++ (e.2 ++ "',".toList)))

/-- The module that exports a mapping by default, with an entry a line. -/
def render (m : Mapping) : Text :=
  Text.unlines ("export default \x7b".toList :: m.entries.map memberLine ++ ["\x7d;".toList])

/-- The characters that need care inside quotes: the three quotes, the backslash and the line feed. -/
def isReserved (c : Char) : Bool :=
  c == '\'' || c == '"' || c == '\x60' || c == '\\' || c == '\n'

/-- An entry that can stand on its line as it is. -/
structure Plain (e : Text × Text) : Prop where
  named : e.1 ≠ []
  stripped : Text.strip e.1 = e.1
  key : ∀ c ∈ e.1, isReserved c = false ∧ c ≠ ':'
  text : ∀ c ∈ e.2, isReserved c = false

/-- The keys and texts of a mapping, in order. -/
def texts (m : Mapping) : List Text :=
  m.entries.flatMap fun e => [e.1, e.2]

/-- What stands between the braces of a module. -/
def members : Entries Text → Text
  | [] => ['\n']
  | e :: es => '\n' :: (memberLine e ++ members es)

lemma members_eq (es : Entries Text) :
    members es = '\n' :: (es.map memberLine).flatMap (· ++ ['\n']) := by
  induction es with
  | nil => rfl
  | cons e es ih => simp [members, ih]

lemma render_eq (m : Mapping) :
    render m = "export default \x7b".toList ++ (members m.entries ++ "\x7d;".toList) := by
  rw [render, Text.unlines_append _ (by simp), members_eq]
  simp [Text.unlines]

lemma unbroken_memberLine {e : Text × Text} (plain : Plain e) : '\n' ∉ memberLine e := by
  have key : '\n' ∉ e.1 := fun mem => absurd (plain.key _ mem).1 (by decide)
  have text : '\n' ∉ e.2 := fun mem => absurd (plain.text _ mem) (by decide)
  simp [memberLine, key, text]

lemma not_isHashLine_of_mem {m : Mapping} (plain : ∀ e ∈ m.entries, Plain e) :
    ∀ l ∈ Text.lines (render m), Comment.isHashLine l = false := by
  have unbroken : ∀ l ∈ "export default \x7b".toList :: m.entries.map memberLine ++ ["\x7d;".toList],
      '\n' ∉ l := by
    simp only [List.cons_append, List.mem_cons, List.mem_append, List.mem_map, List.not_mem_nil, or_false]
    rintro l (rfl | ⟨e, mem, rfl⟩ | rfl)
    · decide
    · exact unbroken_memberLine (plain e mem)
    · decide
  rw [render, Comment.lines_unlines (by simp) unbroken]
  simp only [List.cons_append, List.mem_cons, List.mem_append, List.mem_map, List.not_mem_nil, or_false]
  rintro l (rfl | ⟨e, -, rfl⟩ | rfl)
  · decide
  · rfl
  · decide

/-! ## Reading it -/

lemma object?_render (m : Mapping) : object? (render m) = some (members m.entries) := by
  have brace : ∀ rest, exportBrace? ("export default \x7b".toList ++ rest) = some rest := fun _ => rfl
  have first : ∀ rest, Text.firstFit exportBrace? ("export default \x7b".toList ++ rest) = some rest := by
    intro rest
    have here := brace rest
    rw [show "export default \x7b".toList = 'e' :: "xport default \x7b".toList from rfl,
      List.cons_append] at here ⊢
    rw [Text.firstFit, here]
    rfl
  have last : Text.findLast? ['\x7d'] (members m.entries ++ "\x7d;".toList) =
      some ((members m.entries).length + 0) :=
    Text.findLast?_append _ (by decide)
  have behind : (members m.entries ++ "\x7d;".toList).drop ((members m.entries).length + 1) = [';'] := by
    rw [show "\x7d;".toList = '\x7d' :: [';'] from rfl, List.append_cons]
    exact List.drop_left' (by simp)
  rw [render_eq, object?, first]
  simp only [last, Nat.add_zero, List.take_left, behind]
  rfl

lemma isKeyChar_of_plain {e : Text × Text} (plain : Plain e) : ∀ c ∈ e.1, isKeyChar c = true := by
  intro c mem
  obtain ⟨free, colon⟩ := plain.key c mem
  simp only [isReserved, Bool.or_eq_false_iff, beq_eq_false_iff_ne] at free
  simp [isKeyChar, free, colon]

lemma key?_plain {e : Text × Text} (plain : Plain e) (rest : Text) :
    key? ('\'' :: (e.1 ++ '\'' :: rest)) = some (e.1, rest) := by
  have chars := isKeyChar_of_plain plain
  have quote : isKeyChar '\'' = false := by decide
  have isQuote : Prose.isQuote '\'' = true := by decide
  have named : e.1.isEmpty = false := List.isEmpty_eq_false_iff.2 plain.named
  rw [key?, if_pos isQuote, List.takeWhile_append_of_pos chars, List.dropWhile_append_of_pos chars,
    List.takeWhile_cons_of_neg (by simp [quote]), List.dropWhile_cons_of_neg (by simp [quote])]
  simp [named]

/-- The line of a plain entry is read as the entry. -/
lemma memberShape_memberLine {e : Text × Text} (plain : Plain e) (prev : Option Char) (rest : Text) :
    memberShape prev (memberLine e ++ rest) = some ((memberLine e).length, e) := by
  have quote : ∀ c ∈ e.2, (c != '\'') = true := by
    intro c mem
    have free := plain.text c mem
    simp only [isReserved, Bool.or_eq_false_iff, beq_eq_false_iff_ne] at free
    simp [free]
  have line : memberLine e ++ rest =
      '\'' :: (e.1 ++ '\'' :: ':' :: ' ' :: '\'' :: (e.2 ++ '\'' :: ',' :: rest)) := by
    simp [memberLine]
  have colon : (':' :: ' ' :: '\'' :: (e.2 ++ '\'' :: ',' :: rest)).dropWhile isBlank =
      ':' :: ' ' :: '\'' :: (e.2 ++ '\'' :: ',' :: rest) := rfl
  have opening : (' ' :: '\'' :: (e.2 ++ '\'' :: ',' :: rest)).dropWhile isBlank =
      '\'' :: (e.2 ++ '\'' :: ',' :: rest) := rfl
  have comma : (',' :: rest).dropWhile isBlank = ',' :: rest := rfl
  have isString : isStringQuote '\'' = true := by decide
  have value : (e.2 ++ '\'' :: ',' :: rest).takeWhile (· != '\'') = e.2 := by
    rw [List.takeWhile_append_of_pos quote, List.takeWhile_cons_of_neg (by simp), List.append_nil]
  have behind : (e.2 ++ '\'' :: ',' :: rest).dropWhile (· != '\'') = '\'' :: ',' :: rest := by
    rw [List.dropWhile_append_of_pos quote, List.dropWhile_cons_of_neg (by simp)]
  have length : (memberLine e ++ rest).length - rest.length = (memberLine e).length := by
    rw [List.length_append, Nat.add_sub_cancel]
  rw [← length, line, memberShape, key?_plain plain]
  simp only [colon, opening, isString, if_true, behind, comma, List.head?_cons, List.drop_one,
    List.tail_cons, value, plain.stripped]

/-- The members of a module of plain entries are read in order. -/
lemma hits_members {es : Entries Text} (plain : ∀ e ∈ es, Plain e) (pos : Nat) (prev : Option Char) :
    (Text.hitsFrom memberShape 0 pos prev (members es)).map Hit.value = es := by
  have feed : ∀ pos prev t, Text.hitsFrom memberShape 0 pos prev ('\n' :: t) =
      Text.hitsFrom memberShape 0 (pos + 1) (some '\n') t := by
    intro pos prev t
    have unread : memberShape prev ('\n' :: t) = none := rfl
    rw [Text.hitsFrom, unread]
  induction es generalizing pos prev with
  | nil => rw [members, feed]; rfl
  | cons e es ih =>
    obtain ⟨first, rest⟩ := List.forall_mem_cons.1 plain
    have read := memberShape_memberLine first (some '\n') (members es)
    obtain ⟨q, line, split⟩ : ∃ q line, memberLine e = q :: line := ⟨_, _, rfl⟩
    rw [split, List.cons_append] at read
    obtain ⟨last, passed⟩ := Text.hitsFrom_skip memberShape (pos + 1 + 1) (some q) line (members es)
    rw [members, feed, split, List.cons_append, Text.hitsFrom, read]
    simp only [List.length_cons, Nat.add_sub_cancel, passed, List.map_cons, ih rest]

/-- A module without comments is read as its mapping. -/
lemma read_render {m : Mapping} (nonempty : m.entries ≠ []) (plain : ∀ e ∈ m.entries, Plain e)
    (clean : ¬Opens (render m) []) : read (render m) = .ok m := by
  have found : (Text.hits memberShape (members m.entries)).map Hit.value = m.entries :=
    hits_members plain 0 none
  have same : Mapping.ofPairs m.entries = m := Mapping.ext (Entries.ofPairs_of_nodup m.nodup)
  rw [read, Comment.strip_eq_self (not_isHashLine_of_mem plain) clean, object?_render]
  simp only
  rw [found]
  split
  · rename_i empty
    exact absurd empty nonempty
  · rw [same]

/-! ## What is read weighs no more than what is left -/

/-- How many opening characters an entry holds. -/
def weight (e : Text × Text) : Nat :=
  e.1.countP isOpener + e.2.countP isOpener

lemma countP_render (m : Mapping) :
    (render m).countP isOpener = (m.entries.map weight).sum := by
  have feed : isOpener '\n' = false := rfl
  have quote : isOpener '\'' = false := rfl
  have colon : "': '".toList.countP isOpener = 0 := rfl
  have comma : "',".toList.countP isOpener = 0 := rfl
  have inner : ∀ es, (members es).countP isOpener = (es.map weight).sum := by
    intro es
    induction es with
    | nil => rfl
    | cons e es ih =>
      rw [List.map_cons, List.sum_cons, ← ih, weight]
      simp only [members, memberLine, List.countP_cons, List.countP_append, feed, quote, colon, comma,
        Bool.false_eq_true, if_false]
      omega
  have front : "export default \x7b".toList.countP isOpener = 0 := by decide
  have back : "\x7d;".toList.countP isOpener = 0 := by decide
  rw [render_eq, List.countP_append, List.countP_append, inner, front, back]
  omega

lemma split_of_key? {t key rest : Text} (read : key? t = some (key, rest)) :
    ∃ a b, t = a ++ (key ++ (b ++ rest)) := by
  cases t with
  | nil => cases read
  | cons q t =>
    rw [key?] at read
    dsimp only at read
    split at read
    · split at read
      · rename_i closed
        cases read
        rw [Bool.and_eq_true, decide_eq_true_iff] at closed
        obtain ⟨behind, split⟩ := List.head?_eq_some_iff.1 closed.2
        refine ⟨[q], [q], ?_⟩
        rw [split, List.drop_one, List.tail_cons, List.singleton_append, List.singleton_append, ← split,
          List.takeWhile_append_dropWhile]
      · cases read
    · split at read
      · cases read
      · cases read
        refine ⟨[], [], ?_⟩
        rw [List.nil_append, List.nil_append, List.takeWhile_append_dropWhile]

/-- A member is read from characters that hold its key, before it is stripped, and behind that its
text. -/
lemma split_of_memberShape {prev : Option Char} {t : Text} {n : Nat} {e : Text × Text}
    (read : memberShape prev t = some (n, e)) :
    ∃ a key b c, e.1 = Text.strip key ∧ t.take n = a ++ (key ++ (b ++ (e.2 ++ c))) ∧ c ≠ [] := by
  unfold memberShape at read
  split at read
  · cases read
  rename_i key rest keyRead
  split at read
  · rename_i r colon
    split at read
    · rename_i q value opening
      split at read
      · split at read
        · cases read
        · rename_i d behind closing
          obtain ⟨a, b, rfl⟩ := split_of_key? keyRead
          -- the text is what was passed over, piece by piece, and what is left
          have upToColon := Text.eq_append_of_dropWhile colon
          have upToQuote := Text.eq_append_of_dropWhile opening
          have upToEnd := Text.eq_append_of_dropWhile closing
          have blanks := (List.takeWhile_append_dropWhile (p := isBlank) (l := behind)).symm
          dsimp only at read
          generalize behind.dropWhile isBlank = next at read blanks
          generalize left : (if next.head? = some ',' then next.drop 1 else next) = rest' at read
          obtain ⟨comma, split⟩ : ∃ comma, next = comma ++ rest' := by
            rw [← left]
            split
            · exact ⟨next.take 1, (List.take_append_drop 1 next).symm⟩
            · exact ⟨[], rfl⟩
          rw [Option.some.injEq, Prod.mk.injEq] at read
          obtain ⟨rfl, rfl⟩ := read
          refine ⟨a, key, b ++ (rest.takeWhile isBlank ++ ':' :: (r.takeWhile isBlank ++ [q])),
            d :: (behind.takeWhile isBlank ++ comma), rfl, ?_, by simp⟩
          have whole : a ++ (key ++ (b ++ rest)) =
              a ++ (key ++ ((b ++ (rest.takeWhile isBlank ++ ':' :: (r.takeWhile isBlank ++ [q]))) ++
                (value.takeWhile (· != q) ++ d :: (behind.takeWhile isBlank ++ comma)))) ++ rest' := by
            conv_lhs =>
              rw [upToColon, upToQuote, upToEnd, blanks, split]
            simp only [List.append_assoc, List.cons_append, List.nil_append]
          rw [whole, List.length_append, Nat.add_sub_cancel, List.take_left]
      · cases read
    · cases read
  · cases read

lemma weight_le_of_memberShape {prev : Option Char} {t : Text} {n : Nat} {e : Text × Text}
    (read : memberShape prev t = some (n, e)) : 0 < n ∧ weight e ≤ (t.take n).countP isOpener := by
  obtain ⟨a, key, b, c, stripped, front, filled⟩ := split_of_memberShape read
  have kept : e.1.countP isOpener ≤ key.countP isOpener := by
    obtain ⟨before, after, split, -⟩ := Text.strip_split key
    rw [stripped]
    conv_rhs => rw [split]
    rw [List.countP_append, List.countP_append]
    omega
  constructor
  · apply Nat.pos_of_ne_zero
    rintro rfl
    simp [filled] at front
  · rw [weight, front]
    simp only [List.countP_append]
    omega

lemma suffix_of_exportBrace? {t rest : Text} (found : exportBrace? t = some rest) : rest <:+ t := by
  unfold exportBrace? at found
  split at found
  · cases found
  rename_i behind exports
  split at found
  · split at found
    · rename_i inner brace
      cases found
      obtain ⟨tail, defaults, dropped⟩ := Option.map_eq_some_iff.1 brace
      have first := Text.eq_append_of_after? exports
      have second := Text.eq_append_of_after? defaults
      calc rest <:+ '\x7b' :: rest := List.suffix_cons _ _
        _ <:+ tail := dropped ▸ List.dropWhile_suffix _
        _ <:+ behind.dropWhile isBlank := second ▸ List.suffix_append _ _
        _ <:+ behind := List.dropWhile_suffix _
        _ <:+ t := first ▸ List.suffix_append _ _
    · cases found
  · cases found

lemma sublist_of_object? {t inner : Text} (found : object? t = some inner) : inner.Sublist t := by
  unfold object? at found
  split at found
  · cases found
  rename_i behind brace
  split at found
  · cases found
  · dsimp only at found
    rw [Option.ite_none_right_eq_some] at found
    cases found.2
    have suffix := Text.firstFit_suffix suffix_of_exportBrace? brace
    exact (List.take_sublist _ _).trans suffix.sublist

/-- The mapping that a module is read as holds no more opening characters than the module without its
comments. -/
lemma weight_le_of_read {t : Text} {m : Mapping} (found : read t = .ok m) :
    (m.entries.map weight).sum ≤ (Comment.strip t).countP isOpener := by
  unfold read at found
  split at found
  · cases found
  rename_i inner object
  have scanned : ((Text.hits memberShape inner).map fun h => weight h.value).sum ≤
      inner.countP isOpener :=
    Text.sum_hitsFrom_le (fun _ _ _ _ => weight_le_of_memberShape) 0 0 none inner
  have values : ((Text.hits memberShape inner).map fun h => weight h.value).sum =
      (((Text.hits memberShape inner).map Hit.value).map weight).sum := by
    rw [List.map_map]
    rfl
  split at found
  · cases found
  · cases found
    calc _ ≤ (((Text.hits memberShape inner).map Hit.value).map weight).sum :=
          Entries.sum_ofPairs_le weight _
      _ = ((Text.hits memberShape inner).map fun h => weight h.value).sum := values.symm
      _ ≤ inner.countP isOpener := scanned
      _ ≤ (Comment.strip t).countP isOpener := (sublist_of_object? object).countP_le

/-! ## Comments in keys and texts -/

/-- The keys and texts of entries with what stands behind each of them in a module. -/
def parts : Entries Text → List (Text × Text)
  | [] => []
  | e :: es =>
    (e.1, "': '".toList) ::
      (e.2, if es.isEmpty then "',\n\x7d;".toList else "',\n'".toList) :: parts es

lemma map_fst_parts (es : Entries Text) :
    (parts es).map Prod.fst = es.flatMap fun e => [e.1, e.2] := by
  induction es with
  | nil => rfl
  | cons e es ih =>
    rw [parts, List.map_cons, List.map_cons, ih, List.flatMap_cons]
    rfl

lemma gap_of_mem_parts {es : Entries Text} : ∀ p ∈ parts es, Gap p.2 := by
  induction es with
  | nil => exact fun _ mem => (List.not_mem_nil mem).elim
  | cons e es ih =>
    have colon : Gap "': '".toList := ⟨by simp, by simp [Comment.isMark], rfl⟩
    have comma : Gap "',\n'".toList := ⟨by simp, by simp [Comment.isMark], rfl⟩
    have brace : Gap "',\n\x7d;".toList := ⟨by simp, by simp [Comment.isMark], rfl⟩
    rw [parts, List.forall_mem_cons, List.forall_mem_cons]
    refine ⟨colon, ?_, ih⟩
    split
    · exact brace
    · exact comma

lemma gapped_parts (e : Text × Text) (es : Entries Text) :
    members (e :: es) ++ "\x7d;".toList = "\n'".toList ++ gapped (parts (e :: es)) := by
  induction es generalizing e with
  | nil => simp [members, memberLine, parts, gapped]
  | cons d es ih =>
    have line : members (e :: d :: es) ++ "\x7d;".toList =
        '\n' :: (memberLine e ++ (members (d :: es) ++ "\x7d;".toList)) := by
      rw [members, List.cons_append, List.append_assoc]
    have woven : gapped (parts (e :: d :: es)) =
        e.1 ++ ("': '".toList ++ (e.2 ++ ("',\n'".toList ++ gapped (parts (d :: es))))) := by
      rw [parts, Comment.gapped_cons, Comment.gapped_cons]
      rfl
    rw [line, ih, woven]
    simp [memberLine]

/-- A comment in a module opens in a key or a text and is closed there or in a later one. -/
lemma opens_render_iff {m : Mapping} (nonempty : m.entries ≠ []) :
    Opens (render m) [] ↔ ∃ t later, t :: later <:+ texts m ∧ Opens t later := by
  obtain ⟨e, es, split⟩ := List.exists_cons_of_ne_nil nonempty
  have front : Gap "export default \x7b\n'".toList := ⟨by simp, by simp [Comment.isMark], rfl⟩
  have woven : render m = [] ++ ("export default \x7b\n'".toList ++ gapped (parts m.entries)) := by
    rw [render_eq, split, gapped_parts, ← List.append_assoc]
    rfl
  have nothing : ∀ later, ¬Opens [] later := by
    intro later opens
    generalize empty : ([] : Text) = t at opens
    cases opens with
    | bracket known closed =>
      have parts := List.append_eq_nil_iff.1 (List.append_eq_nil_iff.1 empty.symm).2
      exact (Comment.brackets_ne_nil known).1 parts.1
    | line free => simp at empty
  rw [woven, Comment.opens_gap front, Comment.opens_gapped gap_of_mem_parts, map_fst_parts]
  exact ⟨fun either => either.resolve_left (nothing _), .inr⟩

/-- A mapping of plain entries, written as a module with an entry a line, is read back with the same
entries in the same order exactly if no comment opens in a key or a text: no two slashes that do not
stand behind a colon, and no opening of a block or markup comment whose end follows in the same key or
text or in a later one. -/
theorem module_reads_back_iff (m : Mapping) (nonempty : m.entries ≠ [])
    (plain : ∀ e ∈ m.entries, Plain e) :
    read (render m) = .ok m ↔ ¬∃ t later, t :: later <:+ texts m ∧ Opens t later := by
  rw [← opens_render_iff nonempty]
  constructor
  · intro found opens
    have left := Comment.countP_strip_lt (not_isHashLine_of_mem plain) opens
    have held := weight_le_of_read found
    rw [countP_render] at left
    exact absurd left (Nat.not_lt.2 held)
  · exact read_render nonempty plain

/-- An address is read back, slashes without a colon are not. -/
theorem module_with_slashes_not_read_back :
    read (render (.ofPairs [("k".toList, "http://x".toList)])) =
        .ok (.ofPairs [("k".toList, "http://x".toList)]) ∧
      read (render (.ofPairs [("k".toList, "a//b".toList)])) ≠
        .ok (.ofPairs [("k".toList, "a//b".toList)]) := by
  have plain : ∀ t : Text, (∀ c ∈ t, isReserved c = false) → ∀ e ∈ [("k".toList, t)], Plain e := by
    intro t text e mem
    rw [List.mem_singleton.1 mem]
    exact ⟨List.cons_ne_nil _ _, rfl, by simp [isReserved], text⟩
  constructor
  · apply (module_reads_back_iff _ (List.cons_ne_nil _ _) (plain _ (by simp [isReserved]))).2
    rw [← opens_render_iff (List.cons_ne_nil _ _), ← Comment.delimited_eq_nil_iff]
    decide
  · intro found
    apply (module_reads_back_iff _ (List.cons_ne_nil _ _) (plain _ (by simp [isReserved]))).1 found
    exact ⟨"a//b".toList, [], ⟨["k".toList], rfl⟩, Opens.line (a := ['a']) (b := ['b']) rfl⟩

end LocaleModule

end Phrasebook
