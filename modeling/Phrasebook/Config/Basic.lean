import Phrasebook.Json.Basic
import Phrasebook.Text.Blank

/-!
# Configurations

A configuration is read from a JSON object laid over the defaults, member by member in nested
objects. Reading checks the members in a fixed order and stops at the first that does not fit.
-/

namespace Phrasebook

namespace Json

mutual

/-- A value laid over another: members of objects are merged, anything else takes the place of what
was there. -/
def overlay (base : Option Json) : Json → Json
  | .obj members =>
    match base with
    | some (.obj below) => .obj (overlayMembers below members)
    | _ => .obj members
  | v => v

/-- The members of an object laid over those of another. -/
def overlayMembers (below : Entries Json) : List (Text × Json) → Entries Json
  | [] => below
  | (key, v) :: rest =>
    overlayMembers (Entries.insert key (overlay (Entries.get? key below) v) below) rest

end

end Json

/-- How lookup calls are written in a component. -/
structure ComponentOptions where
  /-- The import statement that the script needs. -/
  importStatement : Text
  /-- The statement that creates the lookup instance. -/
  instanceStatement : Text
  /-- The lookup method in markup. -/
  templateMethod : Text
  /-- The lookup method in the script. -/
  scriptMethod : Text
  deriving Repr, DecidableEq

/-- How lookup calls are written in a script of its own. -/
structure ScriptOptions where
  /-- The import statement that the script needs. -/
  importStatement : Text
  /-- The lookup method. -/
  method : Text
  deriving Repr, DecidableEq

/-- The settings of a run. -/
structure Config where
  /-- Where the mapping goes. -/
  outputPath : Text
  /-- Patterns of paths that are passed over. -/
  ignorePaths : List Text
  /-- The extensions, each with its dot, of the files that are looked at. -/
  fileExtensions : List Text
  /-- The fields whose single-quoted values are terms. -/
  fieldNames : List Text
  /-- The log level, unchecked. -/
  logLevel : Json
  /-- Components. -/
  vue : ComponentOptions
  /-- TypeScript modules. -/
  typescript : ScriptOptions
  /-- JavaScript modules. -/
  javascript : ScriptOptions

namespace Config

/-- Shorthand for a member of an object. -/
def entry (name : String) (v : Json) : Text × Json :=
  (name.toList, v)

/-- Shorthand for a string value. -/
def text (s : String) : Json :=
  .str s.toList

/-- The members of the default section of a script language. -/
def scriptDefaults : Entries Json :=
  [entry "importStatement" (text "import \x7b i18n \x7d from '@/i18n';"),
    entry "i18nMethod" (text "i18n.global.t")]

/-- The default configuration. -/
def defaults : Entries Json :=
  [entry "outputPath" (text "./i18n-mapping.json"),
    entry "ignorePaths" (.arr [text "node_modules", text "dist", text ".git", text "*.d.ts"]),
    entry "fileExtensions" (.arr [text ".vue", text ".ts", text ".js"]),
    entry "fieldNames" (.arr [text "i18n"]),
    entry "logLevel" .null,
    entry "vue" (.obj
      [entry "importStatement" (text "import \x7b useI18n \x7d from 'vue-i18n';"),
        entry "instanceStatement" (text "const \x7b t \x7d = useI18n();"),
        entry "i18nMethod" (.obj [entry "template" (text "$t"), entry "script" (text "t")])]),
    entry "typescript" (.obj scriptDefaults),
    entry "javascript" (.obj scriptDefaults)]

/-- Why a configuration object is refused. -/
inductive Fault where
  /-- The member is no string. -/
  | notString (name : String)
  /-- The member is no list of strings. -/
  | notStrings (name : String)
  /-- The section is no object. -/
  | notObject (name : String)
  /-- The lookup methods of components are no object. -/
  | noMethods
  /-- The member is no string, or an empty one. -/
  | emptyString (name : String)
  deriving Repr, DecidableEq

/-- The message of a fault. -/
def Fault.message : Fault → Text
  | notString name => name.toList ++ " must be a string".toList
  | notStrings name => name.toList ++ " must be a list of strings".toList
  | notObject name => name.toList ++ " must be an object".toList
  | noMethods => "vue.i18nMethod must be an object with 'template' and 'script'".toList
  | emptyString name => name.toList ++ " must be a non-empty string".toList

/-- A member that has to be a string; `label` names it in a fault. -/
def stringMember (members : Entries Json) (name label : String) : Except Fault Text :=
  match Entries.get? name.toList members with
  | some (.str t) => .ok t
  | _ => .error (.notString label)

/-- A member that has to be a string with something in it. -/
def wordMember (members : Entries Json) (name label : String) : Except Fault Text :=
  match Entries.get? name.toList members with
  | some (.str (c :: cs)) => .ok (c :: cs)
  | _ => .error (.emptyString label)

/-- The texts of a list of strings. -/
def strings? : List Json → Option (List Text)
  | [] => some []
  | .str t :: vs => (strings? vs).map (t :: ·)
  | _ :: _ => none

/-- A member that has to be a list of strings. -/
def stringsMember (members : Entries Json) (name : String) : Except Fault (List Text) :=
  match Entries.get? name.toList members with
  | some (.arr vs) =>
    match strings? vs with
    | some ts => .ok ts
    | none => .error (.notStrings name)
  | _ => .error (.notStrings name)

/-- The section on components. -/
def componentSection (members : Entries Json) : Except Fault ComponentOptions :=
  match Entries.get? "vue".toList members with
  | some (.obj vue) =>
    match Entries.get? "i18nMethod".toList vue with
    | some (.obj methods) => do
      let importStatement ← stringMember vue "importStatement" "vue.importStatement"
      let instanceStatement ← stringMember vue "instanceStatement" "vue.instanceStatement"
      let templateMethod ← wordMember methods "template" "vue.i18nMethod.template"
      let scriptMethod ← wordMember methods "script" "vue.i18nMethod.script"
      return ⟨importStatement, instanceStatement, templateMethod, scriptMethod⟩
    | _ => .error .noMethods
  | _ => .error .noMethods

/-- The section on a script language. -/
def scriptSection (members : Entries Json) (name : String) : Except Fault ScriptOptions :=
  match Entries.get? name.toList members with
  | some (.obj options) => do
    let importStatement ← stringMember options "importStatement" (name ++ ".importStatement")
    let method ← wordMember options "i18nMethod" (name ++ ".i18nMethod")
    return ⟨importStatement, method⟩
  | _ => .error (.notObject name)

/-- An extension without white space around it and with its dot. -/
def dotted (extension : Text) : Text :=
  let t := Text.strip extension
  if t.head? = some '.' then t else '.' :: t

/-- The members of a configuration laid over the defaults. Where the user configured only one of
the two script languages, TypeScript, its section holds for the other too. -/
def complete (members : Entries Json) : Entries Json :=
  let merged := Json.overlayMembers defaults members
  if (Entries.get? "javascript".toList members).isNone then
    match Entries.get? "typescript".toList members with
    | some _ =>
      Entries.insert "javascript".toList
        ((Entries.get? "typescript".toList merged).getD .null) merged
    | none => merged
  else merged

/-- Reads a configuration from the members of an object. -/
def ofMembers (members : Entries Json) : Except Fault Config := do
  let merged := complete members
  let outputPath ← stringMember merged "outputPath" "outputPath"
  let ignorePaths ← stringsMember merged "ignorePaths"
  let fileExtensions ← stringsMember merged "fileExtensions"
  let fieldNames ← stringsMember merged "fieldNames"
  let vue ← componentSection merged
  let typescript ← scriptSection merged "typescript"
  let javascript ← scriptSection merged "javascript"
  return {
    outputPath, ignorePaths, fieldNames, vue, typescript, javascript
    fileExtensions := fileExtensions.map dotted
    logLevel := (Entries.get? "logLevel".toList merged).getD .null }

/-- Why a value is refused as a configuration. -/
inductive ValueFault where
  /-- The value is of a kind that has no members, and it is not empty. -/
  | noMembers (kind : String)
  /-- The members do not fit. -/
  | invalid (fault : Fault)
  deriving Repr, DecidableEq

/-- The message of a fault. -/
def ValueFault.message : ValueFault → Text
  | noMembers kind => '\'' :: kind.toList ++ "' object has no attribute 'items'".toList
  | invalid f => f.message

/-- Reads a configuration from any value: an empty one of any kind, and zero, stands for the empty
object. -/
def ofValue (v : Json) : Except ValueFault Config :=
  let members : Except ValueFault (Entries Json) :=
    match v with
    | .obj members => .ok members
    | .null | .bool false | .int 0 | .str [] | .arr [] => .ok []
    | .bool true => .error (.noMembers "bool")
    | .int _ => .error (.noMembers "int")
    | .decimal literal => if Json.isNought literal then .ok [] else .error (.noMembers "float")
    | .str _ => .error (.noMembers "str")
    | .arr _ => .error (.noMembers "list")
  match members with
  | .error f => .error f
  | .ok members =>
    match ofMembers members with
    | .ok c => .ok c
    | .error f => .error (.invalid f)

/-- The section of a script language as members. -/
def scriptMembers (o : ScriptOptions) : Entries Json :=
  [entry "importStatement" (.str o.importStatement), entry "i18nMethod" (.str o.method)]

/-- A configuration as the members of an object. -/
def toMembers (c : Config) : Entries Json :=
  [entry "outputPath" (.str c.outputPath),
    entry "ignorePaths" (.arr (c.ignorePaths.map .str)),
    entry "fileExtensions" (.arr (c.fileExtensions.map .str)),
    entry "fieldNames" (.arr (c.fieldNames.map .str)),
    entry "logLevel" c.logLevel,
    entry "vue" (.obj
      [entry "importStatement" (.str c.vue.importStatement),
        entry "instanceStatement" (.str c.vue.instanceStatement),
        entry "i18nMethod" (.obj [entry "template" (.str c.vue.templateMethod),
          entry "script" (.str c.vue.scriptMethod)])]),
    entry "typescript" (.obj (scriptMembers c.typescript)),
    entry "javascript" (.obj (scriptMembers c.javascript))]

/-- The configuration with nothing but defaults. -/
def standard : Config where
  outputPath := "./i18n-mapping.json".toList
  ignorePaths := ["node_modules".toList, "dist".toList, ".git".toList, "*.d.ts".toList]
  fileExtensions := [".vue".toList, ".ts".toList, ".js".toList]
  fieldNames := ["i18n".toList]
  logLevel := .null
  vue := ⟨"import \x7b useI18n \x7d from 'vue-i18n';".toList,
    "const \x7b t \x7d = useI18n();".toList, "$t".toList, "t".toList⟩
  typescript := ⟨"import \x7b i18n \x7d from '@/i18n';".toList, "i18n.global.t".toList⟩
  javascript := ⟨"import \x7b i18n \x7d from '@/i18n';".toList, "i18n.global.t".toList⟩

instance : Inhabited Config := ⟨standard⟩

/-- The empty object gives the standard configuration. -/
theorem ofMembers_nil : ofMembers [] = .ok standard := by
  rfl

/-- The suffixes of JavaScript modules. -/
def javascriptSuffixes : List Text :=
  [".js".toList, ".jsx".toList, ".mjs".toList, ".cjs".toList]

/-- The options for a script of its own with a given suffix. -/
def scriptOptionsFor (c : Config) (suffix : Text) : ScriptOptions :=
  if javascriptSuffixes.contains suffix then c.javascript else c.typescript

/-- The configured lookup methods, each once. -/
def lookupNames (c : Config) : List Text :=
  [c.vue.templateMethod, c.vue.scriptMethod, c.typescript.method, c.javascript.method].foldl
    (fun seen name => if name.isEmpty || seen.contains name then seen else seen ++ [name]) []

end Config

end Phrasebook
