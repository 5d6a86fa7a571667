import Phrasebook.Proofs.CallLiterals
import Phrasebook.Proofs.Overlays
import Phrasebook.Proofs.Replacements

/-!
# Configurations that come back

A configuration that was read is sound (`Config.Sound`): its extensions have their dots, and none of
its lookup methods is empty. The members of a configuration name everything that the defaults name,
so nothing of the defaults is left when they are laid over them (`complete_toMembers`), and a sound
configuration is read back from its members as it was (`ofMembers_toMembers`).
-/

namespace Phrasebook

namespace Text

/-- A text with no white space at its ends is stripped already. -/
lemma strip_of_solid {t : Text} (first : ∀ c, t.head? = some c → isBlank c = false)
    (last : ∀ c, t.getLast? = some c → isBlank c = false) : strip t = t := by
  have front : t.dropWhile isBlank = t := by
    cases t with
    | nil => rfl
    | cons c cs =>
      refine List.dropWhile_cons_of_neg ?_
      rw [first c rfl]
      exact Bool.false_ne_true
  rw [strip, trim, front]
  refine List.rdropWhile_eq_self_iff.2 fun nonempty => ?_
  rw [last _ (List.getLast?_eq_getLast_of_ne_nil nonempty)]
  exact Bool.false_ne_true

lemma strip_strip (t : Text) : strip (strip t) = strip t :=
  strip_of_solid (fun _ first => head?_strip first) fun _ last => getLast?_strip last

end Text

namespace Config

open Json (overlay overlayMembers)

/-- Dotting an extension twice is dotting it once. -/
lemma dotted_dotted (e : Text) : dotted (dotted e) = dotted e := by
  by_cases point : (Text.strip e).head? = some '.'
  · have once : dotted e = Text.strip e := if_pos point
    rw [once, dotted, Text.strip_strip, if_pos point]
  · have once : dotted e = '.' :: Text.strip e := if_neg point
    have solid : Text.strip ('.' :: Text.strip e) = '.' :: Text.strip e := by
      refine Text.strip_of_solid ?_ ?_
      · intro c first
        cases first
        rfl
      · intro c last
        rw [List.getLast?_cons] at last
        cases behind : (Text.strip e).getLast? with
        | none =>
          rw [behind] at last
          cases last
          rfl
        | some d =>
          rw [behind] at last
          cases last
          exact Text.getLast?_strip behind
    rw [once, dotted, solid]
    rfl

/-- What holds of every configuration that was read. -/
structure Sound (c : Config) : Prop where
  /-- Each extension has its dot and no white space around it. -/
  extensions : ∀ e ∈ c.fileExtensions, dotted e = e
  template : c.vue.templateMethod ≠ []
  script : c.vue.scriptMethod ≠ []
  typescript : c.typescript.method ≠ []
  javascript : c.javascript.method ≠ []

section Reading

variable {members : Entries Json} {name label : String}

lemma exists_of_bind {ε α β : Type} {x : Except ε α} {f : α → Except ε β} {b : β}
    (done : (x >>= f) = .ok b) : ∃ a, x = .ok a ∧ f a = .ok b := by
  cases x with
  | error e => cases done
  | ok a => exact ⟨a, rfl, done⟩

lemma ne_nil_of_wordMember {t : Text} (taken : wordMember members name label = .ok t) :
    t ≠ [] := by
  unfold wordMember at taken
  split at taken
  · cases taken
    exact List.cons_ne_nil _ _
  · cases taken

lemma methods_of_componentSection {o : ComponentOptions} (taken : componentSection members = .ok o) :
    o.templateMethod ≠ [] ∧ o.scriptMethod ≠ [] := by
  unfold componentSection at taken
  split at taken
  · split at taken
    · obtain ⟨_, -, taken⟩ := exists_of_bind taken
      obtain ⟨_, -, taken⟩ := exists_of_bind taken
      obtain ⟨template, first, taken⟩ := exists_of_bind taken
      obtain ⟨script, second, taken⟩ := exists_of_bind taken
      cases taken
      exact ⟨ne_nil_of_wordMember first, ne_nil_of_wordMember second⟩
    · cases taken
  · cases taken

lemma method_of_scriptSection {o : ScriptOptions} (taken : scriptSection members name = .ok o) :
    o.method ≠ [] := by
  unfold scriptSection at taken
  split at taken
  · obtain ⟨_, -, taken⟩ := exists_of_bind taken
    obtain ⟨method, word, taken⟩ := exists_of_bind taken
    cases taken
    exact ne_nil_of_wordMember word
  · cases taken

lemma sound_of_ofMembers {c : Config} (taken : ofMembers members = .ok c) : c.Sound := by
  unfold ofMembers at taken
  obtain ⟨_, -, taken⟩ := exists_of_bind taken
  obtain ⟨_, -, taken⟩ := exists_of_bind taken
  obtain ⟨extensions, -, taken⟩ := exists_of_bind taken
  obtain ⟨_, -, taken⟩ := exists_of_bind taken
  obtain ⟨vue, component, taken⟩ := exists_of_bind taken
  obtain ⟨typescript, first, taken⟩ := exists_of_bind taken
  obtain ⟨javascript, second, taken⟩ := exists_of_bind taken
  cases taken
  refine ⟨?_, (methods_of_componentSection component).1, (methods_of_componentSection component).2,
    method_of_scriptSection first, method_of_scriptSection second⟩
  intro e mem
  obtain ⟨raw, -, rfl⟩ := List.mem_map.1 mem
  exact dotted_dotted raw

end Reading

section Writing

/-- What is laid over anything but an object takes its place. -/
lemma overlay_null (v : Json) : overlay (some .null) v = v := by
  cases v <;> rfl

/-- The members of a configuration leave nothing to the defaults. -/
lemma complete_toMembers (c : Config) : complete c.toMembers = c.toMembers := by
  have merged : complete c.toMembers =
      toMembers { c with logLevel := overlay (some .null) c.logLevel } := rfl
  rw [merged, overlay_null]

lemma strings?_map_str (ts : List Text) : strings? (ts.map .str) = some ts := by
  induction ts with
  | nil => rfl
  | cons t ts ih => rw [List.map_cons, strings?, ih, Option.map_some]

lemma wordMember_of_ne_nil {members : Entries Json} {name label : String} {t : Text}
    (found : Entries.get? name.toList members = some (.str t)) (word : t ≠ []) :
    wordMember members name label = .ok t := by
  cases t with
  | nil => exact absurd rfl word
  | cons c cs => rw [wordMember, found]

lemma stringsMember_map_str {members : Entries Json} {name : String} {ts : List Text}
    (found : Entries.get? name.toList members = some (.arr (ts.map .str))) :
    stringsMember members name = .ok ts := by
  rw [stringsMember, found]
  dsimp only
  rw [strings?_map_str]

lemma scriptSection_scriptMembers {members : Entries Json} {name : String} {o : ScriptOptions}
    (found : Entries.get? name.toList members = some (.obj (scriptMembers o)))
    (word : o.method ≠ []) : scriptSection members name = .ok o := by
  have method : wordMember (scriptMembers o) "i18nMethod" (name ++ ".i18nMethod") = .ok o.method :=
    wordMember_of_ne_nil rfl word
  rw [scriptSection, found]
  dsimp only
  rw [method]
  rfl

lemma componentSection_toMembers {c : Config} (sound : c.Sound) :
    componentSection c.toMembers = .ok c.vue := by
  have first : wordMember [entry "template" (.str c.vue.templateMethod),
      entry "script" (.str c.vue.scriptMethod)] "template" "vue.i18nMethod.template" =
        .ok c.vue.templateMethod :=
    wordMember_of_ne_nil rfl sound.template
  have second : wordMember [entry "template" (.str c.vue.templateMethod),
      entry "script" (.str c.vue.scriptMethod)] "script" "vue.i18nMethod.script" =
        .ok c.vue.scriptMethod :=
    wordMember_of_ne_nil rfl sound.script
  have step : componentSection c.toMembers = (do
      let template ← wordMember [entry "template" (.str c.vue.templateMethod),
        entry "script" (.str c.vue.scriptMethod)] "template" "vue.i18nMethod.template"
      let script ← wordMember [entry "template" (.str c.vue.templateMethod),
        entry "script" (.str c.vue.scriptMethod)] "script" "vue.i18nMethod.script"
      return { c.vue with templateMethod := template, scriptMethod := script }) := rfl
  rw [step, first, second]
  rfl

/-- A sound configuration is read back from its members. -/
lemma ofMembers_toMembers {c : Config} (sound : c.Sound) : ofMembers c.toMembers = .ok c := by
  have path : stringMember c.toMembers "outputPath" "outputPath" = .ok c.outputPath := rfl
  have ignored : stringsMember c.toMembers "ignorePaths" = .ok c.ignorePaths :=
    stringsMember_map_str rfl
  have extensions : stringsMember c.toMembers "fileExtensions" = .ok c.fileExtensions :=
    stringsMember_map_str rfl
  have fields : stringsMember c.toMembers "fieldNames" = .ok c.fieldNames :=
    stringsMember_map_str rfl
  have typescript : scriptSection c.toMembers "typescript" = .ok c.typescript :=
    scriptSection_scriptMembers rfl sound.typescript
  have javascript : scriptSection c.toMembers "javascript" = .ok c.javascript :=
    scriptSection_scriptMembers rfl sound.javascript
  have level : (Entries.get? "logLevel".toList c.toMembers).getD .null = c.logLevel := rfl
  have dots : c.fileExtensions.map dotted = c.fileExtensions :=
    List.map_congr_left sound.extensions |>.trans (List.map_id _)
  rw [ofMembers, complete_toMembers, path, ignored, extensions, fields,
    componentSection_toMembers sound, typescript, javascript, level]
  exact congrArg (fun es => Except.ok { c with fileExtensions := es }) dots

end Writing

lemma distinct_strings (ts : List Text) : (Json.arr (ts.map .str)).Distinct :=
  .arr (List.forall_mem_map.2 fun t _ => .str t)

lemma distinct_scriptMembers (o : ScriptOptions) : (Json.obj (scriptMembers o)).Distinct := by
  have names : (["importStatement", "i18nMethod"].map String.toList).Nodup := by decide
  refine .obj names ?_
  simp only [scriptMembers, List.forall_mem_cons]
  exact ⟨.str _, .str _, List.forall_mem_nil _⟩

/-- The members of a configuration are distinct where its log level is. -/
lemma distinct_toMembers {c : Config} (level : c.logLevel.Distinct) :
    (Json.obj c.toMembers).Distinct := by
  have names : (["outputPath", "ignorePaths", "fileExtensions", "fieldNames", "logLevel", "vue",
      "typescript", "javascript"].map String.toList).Nodup := by decide
  have inner : (["importStatement", "instanceStatement", "i18nMethod"].map String.toList).Nodup := by
    decide
  have methods : (["template", "script"].map String.toList).Nodup := by decide
  refine .obj names ?_
  simp only [toMembers, List.forall_mem_cons]
  refine ⟨.str _, distinct_strings _, distinct_strings _, distinct_strings _, level,
    .obj inner ?_, distinct_scriptMembers _, distinct_scriptMembers _, List.forall_mem_nil _⟩
  simp only [List.forall_mem_cons]
  refine ⟨.str _, .str _, .obj methods ?_, List.forall_mem_nil _⟩
  simp only [List.forall_mem_cons]
  exact ⟨.str _, .str _, List.forall_mem_nil _⟩

lemma distinct_defaults : (Json.obj defaults).Distinct :=
  distinct_toMembers (c := standard) .null

lemma ofValue_obj (members : Entries Json) :
    ofValue (.obj members) = (ofMembers members).mapError .invalid := by
  delta ofValue
  dsimp only
  cases ofMembers members with
  | error f => rfl
  | ok c => rfl

lemma ofValue_obj_eq_ok {members : Entries Json} {c : Config} :
    ofValue (.obj members) = .ok c ↔ ofMembers members = .ok c := by
  rw [ofValue_obj]
  cases ofMembers members with
  | error f => simp [Except.mapError]
  | ok b => simp [Except.mapError]

/-- An object whose members are distinct is refused for a member that does not fit, or it gives a
configuration whose members give it back. The configurations that come back from their members are
the sound ones. Laying the object a second time over the defaults changes nothing: each of its members
has been laid over the default of that name, and all other defaults stand as they were. -/
theorem configuration_round_trips (d : Entries Json) (distinct : (Json.obj d).Distinct) :
    ((∃ f, ofValue (.obj d) = .error (.invalid f)) ∨
        ∃ c, ofValue (.obj d) = .ok c ∧ ofValue (.obj c.toMembers) = .ok c) ∧
      (∀ c : Config, ofValue (.obj c.toMembers) = .ok c ↔ c.Sound) ∧
      overlayMembers defaults (overlayMembers defaults d) = overlayMembers defaults d ∧
      ∀ k, Entries.get? k (overlayMembers defaults d) =
        ((Entries.get? k d).map (overlay (Entries.get? k defaults))).or
          (Entries.get? k defaults) := by
  refine ⟨?_, fun c => ?_, ?_, ?_⟩
  · cases taken : ofMembers d with
    | error f =>
      refine .inl ⟨f, ?_⟩
      rw [ofValue_obj, taken]
      rfl
    | ok c =>
      have sound := sound_of_ofMembers taken
      exact .inr ⟨c, ofValue_obj_eq_ok.2 taken, ofValue_obj_eq_ok.2 (ofMembers_toMembers sound)⟩
  · rw [ofValue_obj_eq_ok]
    exact ⟨sound_of_ofMembers, ofMembers_toMembers⟩
  · exact Json.overlayMembers_overlayMembers distinct distinct_defaults
  · cases distinct with
    | obj nodup _ => exact Json.get?_overlayMembers nodup defaults

/-- Members that set one script language, one method of components and an extension without its
dot, with a member that no setting has. -/
def tunedMembers : Entries Json :=
  [entry "fileExtensions" (.arr [text " ts"]),
    entry "typescript" (.obj [entry "i18nMethod" (text "tr")]),
    entry "vue" (.obj [entry "i18nMethod" (.obj [entry "script" (text "say")])]),
    entry "notes" (.obj [entry "vue" .null])]

/-- The settings in `tunedMembers`. -/
def tuned : Config :=
  { standard with
    fileExtensions := [".ts".toList]
    vue := { standard.vue with scriptMethod := "say".toList }
    typescript := { standard.typescript with method := "tr".toList }
    javascript := { standard.typescript with method := "tr".toList } }

theorem configuration_round_trips_tuned :
    (Json.obj tunedMembers).Distinct ∧ ofValue (.obj tunedMembers) = .ok tuned ∧
      ofValue (.obj tuned.toMembers) = .ok tuned ∧
      overlayMembers defaults (overlayMembers defaults tunedMembers) =
        overlayMembers defaults tunedMembers := by
  have single : ∀ name v, v.Distinct → (Json.obj [entry name v]).Distinct := fun name v inner =>
    .obj (List.pairwise_singleton _ _) (List.forall_mem_singleton.2 inner)
  have distinct : (Json.obj tunedMembers).Distinct := by
    refine .obj (by decide) ?_
    simp only [tunedMembers, List.forall_mem_cons]
    exact ⟨distinct_strings [" ts".toList], single _ _ (.str _), single _ _ (single _ _ (.str _)),
      single _ _ .null, List.forall_mem_nil _⟩
  have taken : ofValue (.obj tunedMembers) = .ok tuned := rfl
  have trips := configuration_round_trips tunedMembers distinct
  refine ⟨distinct, taken, ?_, trips.2.2.1⟩
  rcases trips.1 with ⟨f, refused⟩ | ⟨c, read, back⟩
  · rw [taken] at refused
    cases refused
  · rw [taken] at read
    cases read
    exact back

end Config

end Phrasebook
