import Phrasebook.Config.Basic
import Phrasebook.Localize
import Phrasebook.Script.Imports
import Phrasebook.Source.Component
import Phrasebook.Term.Extract

/-!
# Sources

The work on the whole text of a component or of a script: its terms are found and replaced, and the
statements that the new calls need are added.
-/

namespace Phrasebook.Source

/-- Which parts of the sources are worked on. -/
structure Parts where
  /-- The markup of components. -/
  template : Bool := true
  /-- The scripts of components. -/
  script : Bool := true
  /-- Scripts of their own. -/
  ts : Bool := true
  deriving Repr, DecidableEq

/-- What the work on a source has come to. -/
structure Progress where
  /-- The text so far. -/
  text : Text
  /-- How many terms have been replaced. -/
  replaced : Nat
  /-- The phrases registered so far. -/
  registry : Registry
  /-- The spans without a place for a call. -/
  leftAlone : List Text := []

/-- What the scanners are told under a configuration. -/
def scanOptions (c : Config) (jsx : Bool) : Term.Options :=
  ⟨c.lookupNames, c.fieldNames, jsx⟩

/-- The terms of the markup of a component. -/
def templateTerms (c : Config) (b : Component.Block) : List Term :=
  Term.extract b.body .markup (scanOptions c false)

/-- The terms of the script of a component. -/
def scriptTerms (c : Config) (b : Component.Block) : List Term :=
  Term.extract b.body .script (scanOptions c (Component.hasTags b.tag))

/-- Work that stopped at an overflow: what had been registered, and the spans left alone, until
then. -/
structure Failure where
  /-- The template with too many markers. -/
  overflow : Template.Overflow
  /-- The phrases registered before. -/
  registry : Registry
  /-- The spans without a place for a call. -/
  leftAlone : List Text

/-- Works on one block of a component; `finish` completes a body in which terms were replaced. -/
def localizeBlock (style : Localize.Style) (terms : List Term) (finish : Text → Text)
    (b : Component.Block) (p : Progress) : Except Failure Progress :=
  match Localize.localize style p.registry b.body terms with
  | (s, some o) => .error ⟨o, s.registry, p.leftAlone ++ s.leftAlone⟩
  | (s, none) =>
    .ok {
      text :=
        if s.replaced = 0 then p.text else Component.withBody p.text b (finish s.buffer.text)
      replaced := p.replaced + s.replaced
      registry := s.registry
      leftAlone := p.leftAlone ++ s.leftAlone }

/-- Work on a block that is done was a run without an overflow. -/
theorem localizeBlock_eq_ok {style : Localize.Style} {terms : List Term} {finish : Text → Text}
    {b : Component.Block} {p q : Progress} (done : localizeBlock style terms finish b p = .ok q) :
    ∃ s, Localize.localize style p.registry b.body terms = (s, none) ∧
      q = {
        text :=
          if s.replaced = 0 then p.text else Component.withBody p.text b (finish s.buffer.text)
        replaced := p.replaced + s.replaced
        registry := s.registry
        leftAlone := p.leftAlone ++ s.leftAlone } := by
  unfold localizeBlock at done
  split at done
  · cases done
  · rename_i s ran
    exact ⟨s, ran, (Except.ok.inj done).symm⟩

/-- Works on the markup of a component. -/
def localizeTemplate (c : Config) (p : Progress) : Except Failure Progress :=
  match Component.template? p.text with
  | none => .ok p
  | some b =>
    localizeBlock ⟨.markup, c.vue.templateMethod⟩ (templateTerms c b) id b p

theorem localizeTemplate_eq_ok {c : Config} {p q : Progress} (done : localizeTemplate c p = .ok q) :
    q = p ∨ ∃ b, Component.template? p.text = some b ∧
      localizeBlock ⟨.markup, c.vue.templateMethod⟩ (templateTerms c b) id b p = .ok q := by
  unfold localizeTemplate at done
  split at done
  · exact .inl (Except.ok.inj done).symm
  · rename_i b found
    exact .inr ⟨b, found, done⟩

/-- Works on the script of a component. -/
def localizeScript (c : Config) (p : Progress) : Except Failure Progress :=
  match Component.script? p.text with
  | none => .ok p
  | some b =>
    localizeBlock ⟨.script, c.vue.scriptMethod⟩ (scriptTerms c b)
      (fun body => Script.wireComponent body c.vue.importStatement c.vue.instanceStatement) b p

theorem localizeScript_eq_ok {c : Config} {p q : Progress} (done : localizeScript c p = .ok q) :
    q = p ∨ ∃ b, Component.script? p.text = some b ∧
      localizeBlock ⟨.script, c.vue.scriptMethod⟩ (scriptTerms c b)
        (fun body => Script.wireComponent body c.vue.importStatement c.vue.instanceStatement) b p =
          .ok q := by
  unfold localizeScript at done
  split at done
  · exact .inl (Except.ok.inj done).symm
  · rename_i b found
    exact .inr ⟨b, found, done⟩

/-- Works on a component: first its markup, then its script. -/
def localizeComponent (c : Config) (parts : Parts) (registry : Registry) (text : Text) :
    Except Failure Progress := do
  let start : Progress := ⟨text, 0, registry, []⟩
  let p ← if parts.template then localizeTemplate c start else pure start
  if parts.script then localizeScript c p else pure p

/-- The work on a component is the work on its markup, if that is asked for, and then on its script. -/
theorem localizeComponent_eq_ok {c : Config} {parts : Parts} {registry : Registry} {text : Text}
    {q : Progress} (done : localizeComponent c parts registry text = .ok q) :
    ∃ p, (p = ⟨text, 0, registry, []⟩ ∨ localizeTemplate c ⟨text, 0, registry, []⟩ = .ok p) ∧
      (q = p ∨ localizeScript c p = .ok q) := by
  unfold localizeComponent at done
  simp only [bind, Except.bind] at done
  have script : ∀ {p}, (if parts.script then localizeScript c p else pure p) = .ok q →
      q = p ∨ localizeScript c p = .ok q := by
    intro p rest
    split at rest
    · exact .inr rest
    · cases rest
      exact .inl rfl
  split at done
  · split at done
    · cases done
    · rename_i p first
      exact ⟨p, .inr first, script done⟩
  · exact ⟨_, .inl rfl, script done⟩

/-- The suffixes of scripts that hold tags. -/
def jsxSuffixes : List Text :=
  [".tsx".toList, ".jsx".toList]

/-- The suffixes of scripts of their own. -/
def scriptSuffixes : List Text :=
  [".ts".toList, ".tsx".toList, ".js".toList, ".jsx".toList, ".mjs".toList, ".cjs".toList]

/-- The suffix of components. -/
def componentSuffix : Text :=
  ".vue".toList

/-- The terms of a script of its own. -/
def moduleTerms (c : Config) (suffix text : Text) : List Term :=
  Term.extract text .script (scanOptions c (jsxSuffixes.contains suffix))

/-- Works on a script of its own. -/
def localizeModule (c : Config) (suffix : Text) (registry : Registry) (text : Text) :
    Except Failure Progress :=
  let options := c.scriptOptionsFor suffix
  match Localize.localize ⟨.script, options.method⟩ registry text (moduleTerms c suffix text) with
  | (s, some o) => .error ⟨o, s.registry, s.leftAlone⟩
  | (s, none) =>
    .ok {
      text :=
        if s.replaced = 0 then s.buffer.text
        else Script.wireModule s.buffer.text options.importStatement
      replaced := s.replaced
      registry := s.registry
      leftAlone := s.leftAlone }

/-- Work on a script that is done was a run without an overflow. -/
theorem localizeModule_eq_ok {c : Config} {suffix text : Text} {registry : Registry} {q : Progress}
    (done : localizeModule c suffix registry text = .ok q) :
    ∃ s, Localize.localize ⟨.script, (c.scriptOptionsFor suffix).method⟩ registry text
        (moduleTerms c suffix text) = (s, none) ∧
      q = {
        text :=
          if s.replaced = 0 then s.buffer.text
          else Script.wireModule s.buffer.text (c.scriptOptionsFor suffix).importStatement
        replaced := s.replaced
        registry := s.registry
        leftAlone := s.leftAlone } := by
  unfold localizeModule at done
  dsimp only at done
  split at done
  · cases done
  · rename_i s ran
    exact ⟨s, ran, (Except.ok.inj done).symm⟩

/-- The terms of a source with a given suffix. -/
def terms (c : Config) (parts : Parts) (suffix text : Text) : List Term :=
  if suffix = componentSuffix then
    (if parts.template then ((Component.template? text).map (templateTerms c)).getD [] else []) ++
      (if parts.script then ((Component.script? text).map (scriptTerms c)).getD [] else [])
  else if scriptSuffixes.contains suffix && parts.ts then moduleTerms c suffix text
  else []

end Phrasebook.Source
