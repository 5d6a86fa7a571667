import Phrasebook.Prose

/-!
# Checking the wording of a locale file

A locale file is checked for texts with characters that its language does not use. The check reads
the file as it is written, not the mapping it holds, so that it can report lines.
-/

namespace Phrasebook.Check

/-- What a language's texts should not hold. -/
structure Rule where
  /-- What is said of a text that breaks the rule. -/
  message : String
  /-- The characters that break it. -/
  flags : Char → Bool

/-- Common characters that only simplified writing has. -/
def simplified : Text :=
  "国际化处理配置文件夹路径输出模板脚本标签选项显示帮助信息".toList

/-- Common characters that only traditional writing has. -/
def traditional : Text :=
  "繁體".toList

/-- The rule for a language; an unknown one is checked like English. -/
def ruleFor (language : Text) : Rule :=
  if language = "zh-TW".toList then ⟨"may contain simplified Chinese", simplified.contains⟩
  else if language = "zh-CN".toList then ⟨"may contain traditional Chinese", traditional.contains⟩
  else ⟨"contains Chinese characters", Prose.isTarget⟩

/-- An entry as it is written in a file. -/
structure Written where
  /-- The text between the quotes of the key. -/
  key : Text
  /-- The text from the opening quote of the value to the next quote. -/
  value : Text
  deriving Repr, DecidableEq

/-- The shape of an entry: a key in double quotes that is not empty, a colon, and a value in double
quotes. -/
def entryShape : Shape Written := fun _ t =>
  match Text.enclosed? (· == '"') (· == '"') t with
  | none => none
  | some (key, rest) =>
    match key, rest with
    | _ :: _, ':' :: r =>
      match Text.enclosed? (· == '"') (· == '"') (r.dropWhile isBlank) with
      | none => none
      | some (value, behind) => some (t.length - behind.length, ⟨key, value⟩)
    | _, _ => none

/-- A text that breaks the rule of its language. -/
structure Issue where
  /-- The line of its entry. -/
  line : Nat
  /-- The key as written. -/
  key : Text
  /-- The text as written. -/
  value : Text
  deriving Repr, DecidableEq

/-- The issues of a locale file, in order. -/
def issues (text language : Text) : List Issue :=
  let rule := ruleFor language
  (Text.hits entryShape text).filterMap fun h =>
    if h.value.value.any rule.flags then
      some ⟨(text.take h.start).count '\n' + 1, h.value.key, h.value.value⟩
    else none

end Phrasebook.Check
