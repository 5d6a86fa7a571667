import Phrasebook.Comment
import Phrasebook.Script.Place

/-!
# Imports and instances of a script

A script that calls a lookup function has to import it, and a component's script has to create an
instance. Both statements are put behind the leading import section, or before the first line of
code, and only where the script does not have them yet.
-/

namespace Phrasebook.Script

/-- Whether a line, stripped of white space, is or continues a comment. -/
def isCommentLine (line : Text) : Bool :=
  "//".toList.isPrefixOf line || "/*".toList.isPrefixOf line || ['*'].isPrefixOf line

/-- The name in quotes at the front of a text, and the text behind it. The two quotes need not be
the same. -/
def quotedName? (t : Text) : Option (Text × Text) :=
  (Text.enclosed? Prose.isQuote Prose.isQuote t).filter (!·.1.isEmpty)

/-- The module named by a `from` clause at the front of a text. -/
def fromModule? (t : Text) : Option Text :=
  (Text.after? "from".toList t).bind fun rest =>
    (quotedName? (rest.dropWhile isBlank)).map Prod.fst

/-- Whether a line imports a module for its effects. -/
def isBareImport (line : Text) : Bool :=
  match Text.after? "import".toList line with
  | none => false
  | some rest => rest.head?.any isBlank && (quotedName? (rest.dropWhile isBlank)).isSome

/-- Whether an import statement ends on a line, stripped of white space. -/
def endsImport (line : Text) : Bool :=
  (Text.firstFit fromModule? line).isSome || isBareImport line || line.getLast? = some ';'

/-- Whether an import statement starts on a line, stripped of white space. -/
def startsImport (line : Text) : Bool :=
  (afterWord? "import".toList line).isSome

/-- The number of lines up to the end of the leading import section, given the lines from number
`pos` on, the length found so far, and whether an import statement is still open. -/
def sectionFrom : Nat → Nat → Bool → List Text → Nat
  | _, found, _, [] => found
  | pos, found, isOpen, l :: ls =>
    let line := Text.strip l
    if isOpen then sectionFrom (pos + 1) (pos + 1) (!endsImport line) ls
    else if isCommentLine line then sectionFrom (pos + 1) found false ls
    else if startsImport line then sectionFrom (pos + 1) (pos + 1) (!endsImport line) ls
    else if !line.isEmpty && 0 < found then found
    else sectionFrom (pos + 1) found false ls

/-- The number of lines up to the end of the leading import section; none if there is no import. -/
def importSection (ls : List Text) : Nat :=
  sectionFrom 0 0 false ls

/-- The number of lines before the first line of code. -/
def linesBeforeCode (ls : List Text) : Nat :=
  (ls.takeWhile fun l => let line := Text.strip l; line.isEmpty || isCommentLine line).length

/-- Whether a `from` clause that names `module` follows in a text before any semicolon. -/
def namesModule (module : Text) : Text → Bool
  | [] => false
  | c :: cs =>
    (match Text.after? "from".toList (c :: cs) with
      | none => false
      | some rest =>
        match rest.dropWhile isBlank with
        | q :: r =>
          Prose.isQuote q && module.isPrefixOf r && (r.drop module.length).head?.any Prose.isQuote
        | [] => false) ||
      (c != ';' && namesModule module cs)

/-- Whether a script imports the module that an import statement names. A statement that names none
must stand in the script itself. -/
def hasImport (script statement : Text) : Bool :=
  let code := Comment.strip script
  match Text.firstFit fromModule? statement with
  | none => Text.occurs (Text.strip statement) code
  | some module =>
    Text.fitsSomewhere (fun _ rest => (afterWord? "import".toList rest).any (namesModule module))
      code

/-- The characters of a dotted name. -/
def isPathChar (c : Char) : Bool :=
  isWord c || c == '$' || c == '.'

/-- The function called on the right of the equals sign with which a text begins. -/
def calleeAt? : Text → Option Text
  | '=' :: rest =>
    let r := rest.dropWhile isBlank
    let name := r.takeWhile isPathChar
    if !name.isEmpty && ((r.drop name.length).dropWhile isBlank).head? = some '(' then some name
    else none
  | _ => none

/-- Whether a line calls a function. -/
def callsOn (callee line : Text) : Bool :=
  Text.fitsSomewhere (fun prev rest =>
    !prev.any isPathChar &&
      match Text.after? callee rest with
      | none => false
      | some r => (r.dropWhile isBlank).head? == some '(') line

/-- A text without white space. -/
def squeeze (t : Text) : Text :=
  t.filter (!isBlank ·)

/-- Whether a script creates the instance of an instance statement: some line that is no import
calls the function the statement calls. A statement without a call must stand in the script, white
space and final semicolons aside. -/
def hasInstance (script statement : Text) : Bool :=
  let code := Comment.strip script
  match Text.firstFit calleeAt? statement with
  | none =>
    let bare := Text.trimEnd (fun c => c == ';' || c == ' ' || c == '\n') statement
    Text.occurs (squeeze bare) (squeeze code)
  | some callee =>
    (Text.lines code).any fun l =>
      !"import".toList.isPrefixOf (Text.strip l) && callsOn callee l

/-- Puts new lines behind the first `n` lines of a script. -/
def insertLines (ls : List Text) (n : Nat) (new : List Text) : List Text :=
  ls.take n ++ new ++ ls.drop n

/-- The number of the line at which an import statement is put. -/
def importPlace (ls : List Text) : Nat :=
  let n := importSection ls
  if 0 < n then n else linesBeforeCode ls

/-- Puts an import statement into a script. -/
def insertImport (script statement : Text) : Text :=
  let ls := Text.lines script
  Text.unlines (insertLines ls (importPlace ls) [statement])

/-- Puts an instance statement behind the first `n` lines and the blank lines that follow them, set
off by blank lines. -/
def insertInstance (ls : List Text) (n : Nat) (statement : Text) : List Text :=
  let blanks := ((ls.drop n).takeWhile Text.isBlankText).length
  if ls.length ≤ n + blanks then insertLines ls n [[], statement]
  else if blanks = 0 then insertLines ls n [[], statement, []]
  else insertLines ls (n + blanks) [statement, []]

/-- Adds to the script of a component the import and the instance that it lacks; an empty statement
asks for nothing. -/
def wireComponent (script importStatement instanceStatement : Text) : Text :=
  let needsImport := !importStatement.isEmpty && !hasImport script importStatement
  let needsInstance := !instanceStatement.isEmpty && !hasInstance script instanceStatement
  if !needsImport && !needsInstance then script
  else
    let ls := Text.lines script
    let (ls, n) :=
      if needsImport then
        let place := importPlace ls
        (insertLines ls place [importStatement], place + 1)
      else (ls, importSection ls)
    Text.unlines (if needsInstance then insertInstance ls n instanceStatement else ls)

/-- Whether a line holds `import`, `i18n` and `from` in this order. -/
def importsLookup (line : Text) : Bool :=
  match Text.find? "import".toList line with
  | none => false
  | some i =>
    let behind := line.drop (i + 6)
    match Text.find? "i18n".toList behind with
    | none => false
    | some j => Text.occurs "from".toList (behind.drop (j + 4))

/-- Adds an import statement to a script of its own, unless the module or some lookup facility is
imported already. -/
def wireModule (script statement : Text) : Text :=
  if statement.isEmpty || hasImport script statement ||
      (Text.lines (Comment.strip script)).any importsLookup then script
  else insertImport script statement

end Phrasebook.Script
