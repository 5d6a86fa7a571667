import Phrasebook.Text.Blank
import Phrasebook.Text.Scan
import Phrasebook.Text.WordChar

/-!
# The shape of a literal's content

Only prose becomes a phrase: a content that holds a Chinese character and that is neither a script
expression, nor code, nor the path of a file. The tests here go by the look of the text alone.
-/

namespace Phrasebook.Prose

/-- The characters that make a text worth looking up: the ideographs U+4E00 to U+9FA5. -/
def isTarget (c : Char) : Bool :=
  0x4E00 ≤ c.toNat && c.toNat ≤ 0x9FA5

/-- Whether a text holds a target character. -/
def hasTarget (t : Text) : Bool :=
  t.any isTarget

/-- The two quotes that delimit script strings and attribute values. -/
def isQuote (c : Char) : Bool :=
  c == '\'' || c == '"'

/-- Whether a question mark is followed by a colon on the same line. -/
def hasTernary (t : Text) : Bool :=
  Text.fitsSomewhere (fun _ rest =>
    match rest with
    | '?' :: r => (r.takeWhile (· != '\n')).contains ':'
    | _ => false) t

/-- Whether a text looks like a script expression: a conditional, a comparison, a connective, or
two quotes. -/
def isExpression (t : Text) : Bool :=
  hasTernary t ||
    ["!==", "===", "!=", "<=", ">=", "&&", "||"].any (fun p => Text.occurs p.toList t) ||
    2 ≤ t.countP isQuote

/-- The script words that give code away. -/
def keywords : List String :=
  ["function", "const", "let", "var", "if", "else", "for", "while", "return", "await", "async",
    "import", "export"]

/-- Whether the character next to a word, if any, lies outside the class of word characters. -/
def endsWord (isWordChar : Char → Bool) (next : Option Char) : Bool :=
  !next.any isWordChar

/-- Whether a script word stands at a place with no ASCII word character next to it. -/
def keywordAt (prev : Option Char) (rest : Text) : Bool :=
  endsWord isAsciiWord prev && keywords.any fun k =>
    match Text.after? k.toList rest with
    | some r => endsWord isAsciiWord r.head?
    | none => false

/-- Whether a text begins, behind optional white space, with `c`. -/
def startsWithChar (c : Char) (t : Text) : Bool :=
  (t.dropWhile isAsciiBlank).head? == some c

/-- A word character before a pair of parentheses with nothing in between. -/
def emptyCallAt : Text → Bool
  | c :: rest =>
    isAsciiWord c &&
      match rest.dropWhile isAsciiBlank with
      | '(' :: r => startsWithChar ')' r
      | _ => false
  | [] => false

/-- A word character before an opening parenthesis. -/
def callAt : Text → Bool
  | c :: rest => isAsciiWord c && startsWithChar '(' rest
  | [] => false

/-- A word character before an equals sign that another character than `=` follows. -/
def assignmentAt : Text → Bool
  | c :: rest =>
    isAsciiWord c &&
      match rest.dropWhile isAsciiBlank with
      | '=' :: d :: _ => d != '='
      | _ => false
  | [] => false

/-- A word character, a dot, and a word before an opening parenthesis. -/
def methodCallAt : Text → Bool
  | c :: '.' :: rest =>
    isAsciiWord c && rest.head?.any isAsciiWord && startsWithChar '(' (rest.dropWhile isAsciiWord)
  | _ => false

/-- Whether a text begins, behind white space, with a word and an opening parenthesis. -/
def startsWithCall (t : Text) : Bool :=
  let r := t.dropWhile isAsciiBlank
  r.head?.any isAsciiWord && startsWithChar '(' (r.dropWhile isAsciiWord)

/-- The characters of labels such as `温度(℃)`. -/
def isLabelChar (c : Char) : Bool :=
  isTarget c || c.isAlphanum || isBlank c || "()（）[]【】℃°%".toList.contains c

/-- Whether a text shows one of the marks of code. -/
def hasCodeMark (t : Text) : Bool :=
  Text.fitsSomewhere keywordAt t ||
    t.any (fun c => c == '\x7b' || c == '\x7d') ||
    (Text.chopNewline t).getLast? == some ';' ||
    Text.occurs "=>".toList t ||
    Text.fitsSomewhere (fun _ rest => emptyCallAt rest) t ||
    startsWithCall t ||
    Text.fitsSomewhere (fun _ rest => assignmentAt rest) t ||
    Text.fitsSomewhere (fun _ rest => methodCallAt rest) t ||
    Text.occurs "ElMessage.".toList t ||
    Text.occurs "console.".toList t

/-- Whether a text looks like code. A label is code only if it reads like a call with no target
character before its first parenthesis. -/
def isCode (t : Text) : Bool :=
  if !t.isEmpty && t.all isLabelChar then
    Text.fitsSomewhere (fun _ rest => callAt rest) t && !hasTarget (t.takeWhile (· != '('))
  else hasCodeMark t

/-- The extensions that mark the name of a file, whatever stands before them. -/
def fileExtensions : List String :=
  ["png", "jpg", "jpeg", "gif", "svg", "webp", "bmp", "ico", "mp4", "mp3", "wav", "pdf", "doc",
    "docx", "xls", "xlsx", "zip", "rar", "ttf", "woff", "woff2", "eot", "otf", "css", "scss",
    "less", "json", "xml", "txt", "md"]

/-- The small letter that a character stands for when case does not matter, among ASCII letters:
dotted and dotless i count as `i`, the long s as `s`, the Kelvin sign as `k`. -/
def foldCase (c : Char) : Char :=
  if c == 'İ' || c == 'ı' then 'i'
  else if c == 'ſ' then 's'
  else if c == 'K' then 'k'
  else c.toLower

/-- Whether a text ends, up to one line feed, with a dot and a known file extension. -/
def hasFileExtension (t : Text) : Bool :=
  let folded := (Text.chopNewline t).map foldCase
  fileExtensions.any fun e => ('.' :: e.toList).isSuffixOf folded

/-- Whether a text ends, up to one line feed, with a dot and two to four ASCII word characters. -/
def hasShortExtension (t : Text) : Bool :=
  let r := (Text.chopNewline t).reverse
  let n := (r.takeWhile isAsciiWord).length
  2 ≤ n && n ≤ 4 && (r.drop n).head? == some '.'

/-- Whether a text begins like a path: `./`, `../`, `@/`, `~/`, or one slash. -/
def hasPathStart : Text → Bool
  | '.' :: '/' :: _ => true
  | '.' :: '.' :: '/' :: _ => true
  | '@' :: '/' :: _ => true
  | '~' :: '/' :: _ => true
  | '/' :: c :: _ => c != '/'
  | _ => false

/-- Whether a text looks like the path of a file. -/
def isFilePath (t : Text) : Bool :=
  ((t.contains '/' || t.contains '\\') && hasShortExtension t) || hasPathStart t ||
    hasFileExtension t

/-- Whether a content is prose: it holds a target character and looks like neither code nor a
file path. -/
def isProse (t : Text) : Bool :=
  hasTarget t && !isCode t && !isFilePath t

end Phrasebook.Prose
