import Phrasebook.Proofs.Edits

/-!
# Where the characters of a text come from

A tracked text knows of each character at which offset of the first text it stood, and of a character
put in later that it stood nowhere. The splices that change a buffer change the tracked text along
with it (`Tracks`), so the log of the buffer can be held against what has become of the characters.

`shift?_cases` compares the two for one splice and `carry?_cases` for many: a range is found again if
and only if none of its characters was taken out, and then at the place where its characters stand.
Places keep their order, because splices never change the order of the characters that they leave.
-/

namespace Phrasebook

/-- A character with the offset that it had in the first text; one put in later had none. -/
structure Tracked where
  char : Char
  origin : Option Nat
  deriving Repr, DecidableEq

/-- The edit with which a splice is logged. -/
def Patch.edit (p : Patch) : Edit :=
  ⟨p.start, p.stop, p.text.length⟩

namespace Buffer

/-- Makes splices one after another, each at offsets of the text as it is by then. -/
def spliceAll (b : Buffer) (ps : List Patch) : Buffer :=
  ps.foldl (fun b p => b.splice p.start p.stop p.text) b

/-- Whether each of some splices replaces a range that takes a character and lies in the text as it
is by then. -/
def Admits : Buffer → List Patch → Prop
  | _, [] => True
  | b, p :: ps =>
    p.start < p.stop ∧ p.stop ≤ b.text.length ∧ Admits (b.splice p.start p.stop p.text) ps

instance decidableAdmits : (b : Buffer) → (ps : List Patch) → Decidable (b.Admits ps)
  | _, [] => .isTrue trivial
  | b, p :: ps =>
    have := decidableAdmits (b.splice p.start p.stop p.text) ps
    inferInstanceAs (Decidable (_ ∧ _ ∧ _))

lemma edits_spliceAll (b : Buffer) (ps : List Patch) :
    (b.spliceAll ps).edits = b.edits ++ ps.map Patch.edit := by
  induction ps generalizing b with
  | nil => exact (List.append_nil _).symm
  | cons p ps ih =>
    show ((b.splice p.start p.stop p.text).spliceAll ps).edits = _
    rw [ih, splice, List.append_assoc]
    rfl

end Buffer

/-- The log is followed from its front, one edit after another. -/
lemma Edit.carry?_cons (e : Edit) (es : List Edit) (pos n : Nat) :
    carry? (e :: es) pos n = (e.shift? n pos).bind fun q => carry? es q n := by
  have lost : ∀ fs : List Edit, fs.foldl (fun pos e => pos.bind (e.shift? n)) none = none := by
    intro fs
    induction fs with
    | nil => rfl
    | cons f fs ih => exact ih
  show (e :: es).foldl (fun pos e => pos.bind (e.shift? n)) (some pos) = _
  rw [List.foldl_cons, Option.bind_some]
  cases e.shift? n pos with
  | none => exact lost es
  | some q => rfl

namespace Tracked

/-- The tracked text of a text that has not been edited. -/
def ofText (t : Text) : List Tracked :=
  t.zipIdx.map fun x => ⟨x.1, some x.2⟩

/-- A splice takes characters out and puts new ones in, which were nowhere before. -/
def splice (u : List Tracked) (p : Patch) : List Tracked :=
  u.take p.start ++ p.text.map (⟨·, none⟩) ++ u.drop p.stop

def spliceAll (u : List Tracked) (ps : List Patch) : List Tracked :=
  ps.foldl splice u

/-- Whether the character that was at offset `i` of the first text stands at `k`. -/
def StandsAt (u : List Tracked) (i k : Nat) : Prop :=
  u[k]?.bind (·.origin) = some i

/-- Whether the character that was at offset `i` of the first text stood in a range that one of some
splices replaced. -/
def TakenOut (i : Nat) : List Tracked → List Patch → Prop
  | _, [] => False
  | u, p :: ps =>
    (∃ k, p.start ≤ k ∧ k < p.stop ∧ StandsAt u i k) ∨ TakenOut i (splice u p) ps

end Tracked

/-- Whether a tracked text belongs to a buffer that began with the text `t`. -/
structure Tracks (t : Text) (b : Buffer) (u : List Tracked) : Prop where
  text : u.map (·.char) = b.text
  genuine : ∀ x ∈ u, ∀ i, x.origin = some i → t[i]? = some x.char
  ordered : (u.filterMap (·.origin)).Pairwise (· < ·)

variable {t : Text} {b : Buffer} {u : List Tracked} {p : Patch} {ps : List Patch}
  {i j k l n o pos : Nat}

namespace Tracks

lemma ofText (t : Text) : Tracks t (.ofText t) (Tracked.ofText t) where
  text := by
    rw [Tracked.ofText, List.map_map]
    exact List.zipIdx_map_fst 0 t
  genuine := by
    intro x mem i origin
    obtain ⟨y, found, rfl⟩ := List.mem_map.1 mem
    cases origin
    exact List.mem_zipIdx_iff_getElem?.1 found
  ordered := by
    have origins : (Tracked.ofText t).filterMap (·.origin) = List.range' 0 t.length := by
      rw [Tracked.ofText, List.filterMap_map]
      show t.zipIdx.filterMap (some ∘ Prod.snd) = _
      rw [List.filterMap_eq_map, List.zipIdx_map_snd]
    rw [origins]
    exact List.pairwise_lt_range'

lemma splice (tracks : Tracks t b u) (order : p.start ≤ p.stop) :
    Tracks t (b.splice p.start p.stop p.text) (Tracked.splice u p) where
  text := by
    have chars : (p.text.map fun c => (⟨c, none⟩ : Tracked)).map (·.char) = p.text := by
      rw [List.map_map]
      exact List.map_id _
    rw [Tracked.splice, List.map_append, List.map_append, List.map_take, List.map_drop, tracks.text,
      chars]
    rfl
  genuine := by
    intro x mem i origin
    rcases List.mem_append.1 mem with front | behind
    · rcases List.mem_append.1 front with old | new
      · exact tracks.genuine x (List.mem_of_mem_take old) i origin
      · obtain ⟨c, -, rfl⟩ := List.mem_map.1 new
        cases origin
    · exact tracks.genuine x (List.mem_of_mem_drop behind) i origin
  ordered := by
    have new : (p.text.map fun c => (⟨c, none⟩ : Tracked)).filterMap (·.origin) = [] := by
      rw [List.filterMap_map]
      exact List.filterMap_eq_nil_iff.2 fun _ _ => rfl
    have left : List.Sublist (u.take p.start ++ u.drop p.stop) u := by
      conv_rhs => rw [← List.take_append_drop p.start u]
      exact (List.Sublist.refl _).append (List.drop_sublist_drop_left u order)
    rw [Tracked.splice, List.filterMap_append, List.filterMap_append, new, List.append_nil,
      ← List.filterMap_append]
    exact tracks.ordered.sublist (left.filterMap _)

lemma spliceAll (tracks : Tracks t b u) (admits : b.Admits ps) :
    Tracks t (b.spliceAll ps) (Tracked.spliceAll u ps) := by
  induction ps generalizing b u with
  | nil => exact tracks
  | cons p ps ih =>
    obtain ⟨nonempty, -, rest⟩ := admits
    exact ih (tracks.splice (Nat.le_of_lt nonempty)) rest

lemma length_eq (tracks : Tracks t b u) : u.length = b.text.length := by
  rw [← tracks.text, List.length_map]

/-- The characters of the first text that are left stand in their old order. -/
lemma lt_of_lt (tracks : Tracks t b u) (first : Tracked.StandsAt u i k)
    (second : Tracked.StandsAt u j l) (order : k < l) : i < j := by
  obtain ⟨x, atK, origin⟩ := Option.bind_eq_some_iff.1 first
  obtain ⟨y, atL, origin'⟩ := Option.bind_eq_some_iff.1 second
  obtain ⟨insideK, rfl⟩ := List.getElem?_eq_some_iff.1 atK
  obtain ⟨insideL, rfl⟩ := List.getElem?_eq_some_iff.1 atL
  have pairs := List.pairwise_iff_getElem.1 (List.pairwise_filterMap.1 tracks.ordered)
  exact pairs k l insideK insideL order i origin j origin'

/-- A character stands at one place only. -/
lemma place_unique (tracks : Tracks t b u) (first : Tracked.StandsAt u i k)
    (second : Tracked.StandsAt u i l) : k = l := by
  rcases Nat.lt_trichotomy k l with order | same | order
  · exact absurd (tracks.lt_of_lt first second order) (Nat.lt_irrefl i)
  · exact same
  · exact absurd (tracks.lt_of_lt second first order) (Nat.lt_irrefl i)

lemma place_lt (tracks : Tracks t b u) (first : Tracked.StandsAt u i k)
    (second : Tracked.StandsAt u j l) (order : i < j) : k < l := by
  rcases Nat.lt_trichotomy k l with below | rfl | above
  · exact below
  · obtain rfl : j = i := Option.some.inj (second.symm.trans first)
    exact absurd order (Nat.lt_irrefl j)
  · exact absurd (tracks.lt_of_lt second first above) (Nat.lt_asymm order)

/-- The text holds at a place the character that stands there. -/
lemma getElem?_text (tracks : Tracks t b u) (stands : Tracked.StandsAt u i k) :
    b.text[k]? = t[i]? := by
  obtain ⟨x, found, origin⟩ := Option.bind_eq_some_iff.1 stands
  rw [← tracks.text, List.getElem?_map, found, tracks.genuine x (List.mem_of_getElem? found) i origin]
  rfl

end Tracks

lemma Tracked.standsAt_ofText (inside : i < t.length) : StandsAt (ofText t) i i := by
  rw [StandsAt, ofText, List.getElem?_map, List.getElem?_zipIdx, List.getElem?_eq_getElem inside]
  exact congrArg some (Nat.zero_add i)

/-- A character that a splice leaves stands where the edit moves it. -/
lemma Tracked.standsAt_splice (order : p.start ≤ p.stop) (inside : p.stop ≤ u.length)
    (moved : p.edit.shift? 1 k = some l) (stands : StandsAt u i k) : StandsAt (splice u p) i l := by
  have size : p.edit = ⟨p.start, p.stop, (p.text.map fun c => (⟨c, none⟩ : Tracked)).length⟩ := by
    rw [List.length_map]
    rfl
  rw [size] at moved
  rw [StandsAt, splice, Edits.getElem?_of_shift? order inside moved]
  exact stands

/-- One splice: it loses a range of which it takes a character out, and moves every other range along
with its characters. -/
lemma Tracks.shift?_cases (tracks : Tracks t b u) (nonempty : p.start < p.stop)
    (inside : p.stop ≤ b.text.length) (size : 0 < n)
    (stands : ∀ j < n, Tracked.StandsAt u (o + j) (pos + j)) :
    (p.edit.shift? n pos = none ∧
      ∃ j < n, ∃ k, p.start ≤ k ∧ k < p.stop ∧ Tracked.StandsAt u (o + j) k) ∨
    ∃ q, p.edit.shift? n pos = .some q ∧
      (∀ j < n, Tracked.StandsAt (Tracked.splice u p) (o + j) (q + j)) ∧
      ∀ j < n, ¬ ∃ k, p.start ≤ k ∧ k < p.stop ∧ Tracked.StandsAt u (o + j) k := by
  cases moved : p.edit.shift? n pos with
  | none =>
    -- the two overlap, so the later one of their starts lies in both
    have touched : pos < p.stop ∧ p.start < pos + n := Edit.shift?_eq_none_iff.1 moved
    refine .inl ⟨rfl, max p.start pos - pos, by omega, max p.start pos, by omega, by omega, ?_⟩
    have place : pos + (max p.start pos - pos) = max p.start pos := by omega
    rw [← place]
    simpa using stands (max p.start pos - pos) (by omega)
  | some q =>
    refine .inr ⟨q, rfl, fun j small => ?_, fun j small => ?_⟩
    · rw [← tracks.length_eq] at inside
      apply Tracked.standsAt_splice (Nat.le_of_lt nonempty) inside _ (stands j small)
      exact Edit.shift?_within (e := p.edit) (Nat.le_of_lt nonempty) small moved
    · rintro ⟨k, low, high, here⟩
      have same := tracks.place_unique here (stands j small)
      have lost : p.edit.shift? n pos = none :=
        Edit.shift?_eq_none_iff.2 ⟨show pos < p.stop by omega, show p.start < pos + n by omega⟩
      rw [lost] at moved
      cases moved

/-- Many splices: the log loses a range if and only if one of its characters was taken out, and finds
every other range where its characters stand. -/
lemma Tracks.carry?_cases (tracks : Tracks t b u) (admits : b.Admits ps) (size : 0 < n)
    (stands : ∀ j < n, Tracked.StandsAt u (o + j) (pos + j)) :
    (Edit.carry? (ps.map Patch.edit) pos n = none ∧ ∃ j < n, Tracked.TakenOut (o + j) u ps) ∨
    ∃ q, Edit.carry? (ps.map Patch.edit) pos n = some q ∧
      (∀ j < n, Tracked.StandsAt (Tracked.spliceAll u ps) (o + j) (q + j)) ∧
      ∀ j < n, ¬ Tracked.TakenOut (o + j) u ps := by
  induction ps generalizing b u pos with
  | nil => exact .inr ⟨pos, rfl, stands, fun _ _ => id⟩
  | cons p ps ih =>
    obtain ⟨nonempty, inside, rest⟩ := admits
    rw [List.map_cons, Edit.carry?_cons]
    rcases tracks.shift?_cases nonempty inside size stands with
      ⟨lost, j, small, out⟩ | ⟨q, moved, stands', kept⟩
    · rw [lost]
      exact .inl ⟨rfl, j, small, .inl out⟩
    · rw [moved, Option.bind_some]
      rcases ih (tracks.splice (Nat.le_of_lt nonempty)) rest stands' with
        ⟨lost, j, small, out⟩ | ⟨r, found, final, kept'⟩
      · exact .inl ⟨lost, j, small, .inr out⟩
      · refine .inr ⟨r, found, final, fun j small out => ?_⟩
        rcases out with now | later
        · exact kept j small now
        · exact kept' j small later

lemma Buffer.locate?_spliceAll (t : Text) (ps : List Patch) (o n : Nat) :
    ((ofText t).spliceAll ps).locate? o n = Edit.carry? (ps.map Patch.edit) o n := by
  show ((ofText t).spliceAll ps).edits.foldl _ _ = _
  rw [edits_spliceAll]
  rfl

/-- What the log of an edited buffer says about a range of the first text. -/
lemma Buffer.locate?_cases (admits : (ofText t).Admits ps) (size : 0 < n) (inside : o + n ≤ t.length) :
    (((ofText t).spliceAll ps).locate? o n = none ∧
      ∃ j < n, Tracked.TakenOut (o + j) (Tracked.ofText t) ps) ∨
    ∃ pos, ((ofText t).spliceAll ps).locate? o n = some pos ∧
      (∀ j < n, Tracked.StandsAt (Tracked.spliceAll (Tracked.ofText t) ps) (o + j) (pos + j)) ∧
      ∀ j < n, ¬ Tracked.TakenOut (o + j) (Tracked.ofText t) ps := by
  rw [locate?_spliceAll]
  apply (Tracks.ofText t).carry?_cases admits size
  intro j small
  exact Tracked.standsAt_ofText (by omega)

lemma Buffer.standsAt_of_locate? (admits : (ofText t).Admits ps) (size : 0 < n)
    (inside : o + n ≤ t.length) (located : ((ofText t).spliceAll ps).locate? o n = some pos) :
    ∀ j < n, Tracked.StandsAt (Tracked.spliceAll (Tracked.ofText t) ps) (o + j) (pos + j) := by
  rcases locate?_cases admits size inside with ⟨lost, -⟩ | ⟨q, found, stands, -⟩
  · rw [lost] at located
    cases located
  · rw [found] at located
    cases located
    exact stands

/-- A range is found if and only if none of its characters was taken out. -/
lemma Buffer.locate?_iff (admits : (ofText t).Admits ps) (size : 0 < n) (inside : o + n ≤ t.length) :
    (∃ pos, ((ofText t).spliceAll ps).locate? o n = some pos) ↔
      ∀ i, o ≤ i → i < o + n → ¬ Tracked.TakenOut i (Tracked.ofText t) ps := by
  constructor
  · rintro ⟨pos, located⟩ i low high out
    rcases locate?_cases admits size inside with ⟨lost, -⟩ | ⟨q, -, -, kept⟩
    · rw [lost] at located
      cases located
    · apply kept (i - o) (by omega)
      rwa [Nat.add_sub_cancel' low]
  · intro kept
    rcases locate?_cases admits size inside with ⟨-, j, small, out⟩ | ⟨q, found, -⟩
    · exact absurd out (kept (o + j) (by omega) (by omega))
    · exact ⟨q, found⟩

lemma Tracks.slice_text (tracks : Tracks t b u)
    (stands : ∀ j < n, Tracked.StandsAt u (o + j) (pos + j)) :
    Text.slice b.text pos (pos + n) = Text.slice t o (o + n) := by
  apply List.ext_getElem?
  intro j
  rw [Text.getElem?_slice, Text.getElem?_slice, Nat.add_sub_cancel_left, Nat.add_sub_cancel_left]
  split
  · rename_i small
    exact tracks.getElem?_text (stands j small)
  · rfl

/-- The log of a buffer after any splices finds a range of the first text again if and only if none
of its characters was taken out. It finds it where its very characters stand, one behind the other,
and ranges apart from each other at places apart, in the same order. -/
theorem Buffer.locate?_exact (t : Text) (ps : List Patch) (admits : (ofText t).Admits ps) :
    let b := (ofText t).spliceAll ps
    let u := Tracked.spliceAll (Tracked.ofText t) ps
    u.map (·.char) = b.text ∧
    (∀ o n, 0 < n → o + n ≤ t.length →
      ((∃ pos, b.locate? o n = some pos) ↔
        ∀ i, o ≤ i → i < o + n → ¬ Tracked.TakenOut i (Tracked.ofText t) ps) ∧
      ∀ pos, b.locate? o n = some pos →
        Text.slice b.text pos (pos + n) = Text.slice t o (o + n) ∧
        ∀ j < n, ∀ k, Tracked.StandsAt u (o + j) k ↔ k = pos + j) ∧
    ∀ o n o' n' pos pos', 0 < n → o + n ≤ o' → 0 < n' → o' + n' ≤ t.length →
      b.locate? o n = some pos → b.locate? o' n' = some pos' → pos + n ≤ pos' := by
  intro b u
  have tracks : Tracks t b u := (Tracks.ofText t).spliceAll admits
  refine ⟨tracks.text, fun o n size inside => ⟨locate?_iff admits size inside, ?_⟩, ?_⟩
  · intro pos located
    have stands := standsAt_of_locate? admits size inside located
    refine ⟨tracks.slice_text stands, fun j small k => ⟨fun here => ?_, ?_⟩⟩
    · exact tracks.place_unique here (stands j small)
    · rintro rfl
      exact stands j small
  · intro o n o' n' pos pos' size apart size' inside located located'
    -- the last character of the first range stands before the first one of the second range
    have last := standsAt_of_locate? admits size (by omega) located (n - 1) (by omega)
    have first := standsAt_of_locate? admits size' inside located' 0 size'
    have order := tracks.place_lt last first (by omega)
    omega

/-- A literal behind a replaced one is found again, also after a character before both has gone. -/
theorem Buffer.locate?_exact_behind :
    let t := "a'b'c'd'".toList
    let ps : List Patch := [⟨⟨1, 4⟩, "t('b')".toList⟩, ⟨⟨0, 1⟩, []⟩]
    let b := (ofText t).spliceAll ps
    (ofText t).Admits ps ∧ b.locate? 5 3 = some 7 ∧
      Text.slice b.text 7 10 = "'d'".toList ∧
      (∀ i, 5 ≤ i → i < 8 → ¬ Tracked.TakenOut i (Tracked.ofText t) ps) ∧
      ∀ k, Tracked.StandsAt (Tracked.spliceAll (Tracked.ofText t) ps) 6 k ↔ k = 8 := by
  intro t ps b
  have admits : (ofText t).Admits ps := by decide
  have located : b.locate? 5 3 = some 7 := by decide
  obtain ⟨found, places⟩ := (locate?_exact t ps admits).2.1 5 3 (by decide) (by decide)
  obtain ⟨same, stands⟩ := places 7 located
  exact ⟨admits, located, same, found.1 ⟨7, located⟩, stands 1 (by decide)⟩

end Phrasebook
