import Mathlib.Data.List.Infix
import Mathlib.Tactic.Lemma
import Phrasebook.Files.Ignore

/-!
# Ignored paths below ignored ones

A path below a root is seen from it as the names that lead there (`seenFrom_descend`). A pattern
without wildcards that ignores it ignores everything below it, whether it is the name, one of the
names, or a run of names (`ignores_append`, `isIgnored_descend`). A pattern with wildcards need not.
-/

namespace Phrasebook

namespace Text

lemma occurs_iff {p t : Text} : occurs p t = true ↔ p <:+: t := by
  rw [occurs]
  induction t with
  | nil =>
    rw [find?, List.infix_nil]
    cases p <;> simp
  | cons c cs ih =>
    rw [find?, List.infix_cons_iff, ← List.isPrefixOf_iff_prefix]
    split
    · rename_i first
      simp [first]
    · rename_i later
      rw [Option.isSome_map, ih]
      simp [later]

end Text

namespace Path

/-- The path that names lead to from another one. -/
def descend (p : Path) (names : List Text) : Path :=
  ⟨p.slashes, p.parts ++ names⟩

lemma descend_child (p : Path) (name : Text) (names : List Text) :
    (p.child name).descend names = p.descend (name :: names) := by
  rw [descend, descend, child, List.append_assoc, List.singleton_append]

lemma descend_injective (p : Path) : Function.Injective p.descend := by
  intro names names' same
  exact List.append_cancel_left (congrArg parts same)

lemma name_descend {names : List Text} (nonempty : names ≠ []) (p : Path) :
    (p.descend names).name = names.getLast nonempty := by
  rw [name, descend, List.getLast?_append_of_ne_nil _ nonempty,
    List.getLast?_eq_getLast_of_ne_nil nonempty, Option.getD_some]

lemma toText_of_ne_nil {names : List Text} (nonempty : names ≠ []) :
    toText ⟨0, names⟩ = ['/'].intercalate names := by
  have filled : names.isEmpty = false := by simpa using nonempty
  simp [toText, filled]

lemma toText_append {names more : List Text} (nonempty : names ≠ []) (further : more ≠ []) :
    toText ⟨0, names ++ more⟩ = toText ⟨0, names⟩ ++ '/' :: toText ⟨0, more⟩ := by
  rw [toText_of_ne_nil nonempty, toText_of_ne_nil further,
    toText_of_ne_nil (List.append_ne_nil_of_left_ne_nil nonempty more)]
  induction names with
  | nil => exact absurd rfl nonempty
  | cons a names ih =>
    cases names with
    | nil =>
      rw [List.singleton_append, List.intercalate_cons_of_ne_nil further, List.intercalate_singleton,
        List.append_assoc, List.singleton_append]
    | cons b names =>
      rw [List.cons_append, List.intercalate_cons_of_ne_nil (by simp), ih (by simp),
        List.intercalate_cons_of_ne_nil (List.cons_ne_nil b names)]
      simp

end Path

namespace Files

variable {pattern : Text} {names : List Text}

lemma seenFrom_descend (root : Path) (names : List Text) :
    seenFrom (some root) (root.descend names) = ⟨0, names⟩ := by
  rw [seenFrom, Path.relativeTo?, Path.descend]
  simp

/-- A pattern without wildcards and without the slashes around it is the name of what it ignores, or
one of the names on the way there, or a run of them. -/
lemma ignores_iff_of_plain (plain : Wildcard.isWild pattern = false) (name : Text) (seen : Path) :
    ignores pattern name seen = true ↔ pattern ≠ [] ∧
      (name = Text.trim (· == '/') pattern ∨ Text.trim (· == '/') pattern ∈ seen.orderKey ∨
        '/' ∈ Text.trim (· == '/') pattern ∧
          (seen.toText = Text.trim (· == '/') pattern ∨
            Text.trim (· == '/') pattern ++ ['/'] <+: seen.toText ∨
            '/' :: Text.trim (· == '/') pattern ++ ['/'] <:+: '/' :: seen.toText ++ ['/'])) := by
  rw [ignores]
  cases pattern with
  | nil => simp
  | cons c cs =>
    simp only [plain, List.isEmpty_cons, Bool.false_eq_true, if_false, Bool.or_eq_true,
      Bool.and_eq_true, beq_iff_eq, List.contains_iff_mem, List.isPrefixOf_iff_prefix,
      Text.occurs_iff, ne_eq, reduceCtorEq, not_false_eq_true, true_and, or_assoc]

/-- What a pattern without wildcards ignores, it ignores with everything below. -/
lemma ignores_append (plain : Wildcard.isWild pattern = false) (nonempty : names ≠ [])
    (more : List Text) (ignored : ignores pattern (names.getLast nonempty) ⟨0, names⟩ = true) :
    ignores pattern ((names ++ more).getLast (List.append_ne_nil_of_left_ne_nil nonempty more))
      ⟨0, names ++ more⟩ = true := by
  by_cases further : more = []
  · subst further
    simpa only [List.append_nil] using ignored
  rw [ignores_iff_of_plain plain] at ignored ⊢
  obtain ⟨filled, ignored⟩ := ignored
  refine ⟨filled, .inr ?_⟩
  generalize Text.trim (· == '/') pattern = stripped at ignored ⊢
  rcases ignored with same | among | ⟨slash, run⟩
  · refine .inl (List.mem_append_left more ?_)
    rw [← same]
    exact List.getLast_mem nonempty
  · exact .inl (List.mem_append_left more among)
  · refine .inr ⟨slash, .inr ?_⟩
    rw [Path.toText_append nonempty further]
    generalize Path.toText ⟨0, names⟩ = upper at run ⊢
    generalize Path.toText ⟨0, more⟩ = lower
    rcases run with rfl | front | inner
    · refine .inl ⟨lower, ?_⟩
      rw [List.append_assoc, List.singleton_append]
    · exact .inl (front.trans (List.prefix_append _ _))
    · refine .inr (inner.trans ⟨[], lower ++ ['/'], ?_⟩)
      simp

/-- With patterns without wildcards, everything below an ignored path is ignored. -/
lemma isIgnored_descend {patterns : List Text}
    (plain : ∀ pattern ∈ patterns, Wildcard.isWild pattern = false) (nonempty : names ≠ [])
    (more : List Text) {root : Path}
    (ignored : isIgnored patterns (.some root) (root.descend names) = true) :
    isIgnored patterns (.some root) (root.descend (names ++ more)) = true := by
  rw [isIgnored, List.any_eq_true] at ignored ⊢
  obtain ⟨pattern, among, hit⟩ := ignored
  refine ⟨pattern, among, ?_⟩
  rw [seenFrom_descend, Path.name_descend nonempty] at hit
  rw [seenFrom_descend, Path.name_descend (List.append_ne_nil_of_left_ne_nil nonempty more)]
  exact ignores_append (plain pattern among) nonempty more hit

end Files

end Phrasebook
