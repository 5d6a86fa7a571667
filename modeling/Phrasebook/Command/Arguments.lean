import Phrasebook.Command.Usage
import Phrasebook.Text.Digit

/-!
# Reading arguments

Arguments are first told apart: options, plain arguments, and the two dashes after which every
argument is plain. The name of an option may be cut short as long as it stays clear which one is
meant, and a value may be attached to it with an equals sign; two dashes attached in this way leave
the value blank. Then the plain arguments fill the operands in order, and an option takes the plain
argument behind it as its value.
-/

namespace Phrasebook.Command

/-- An argument as it is told apart. -/
inductive Item where
  /-- An operand or a value. -/
  | plain (t : Text)
  /-- The two dashes. -/
  | dashes
  /-- An option, perhaps with a value attached. -/
  | option (meaning : Meaning) (attached : Option Text)
  /-- An option that the command does not have. -/
  | unknown (t : Text)
  deriving Repr, DecidableEq

/-- The two dashes. -/
def twoDashes : Text :=
  "--".toList

/-- Splits an argument at its first equals sign. -/
def splitValue (t : Text) : Text × Option Text :=
  match t.dropWhile (· != '=') with
  | [] => (t, none)
  | _ :: value => (t.takeWhile (· != '='), some value)

/-- The value attached to the short name of help. Each `h` at its front names help once more, and
help takes no value, so only what stands behind them is left over. -/
def attachedToHelp (t : Text) : Option Text :=
  if t.isEmpty then some []
  else
    match t.dropWhile (· == 'h') with
    | [] => none
    | rest => some rest

/-- The value attached to the full name of an option with an equals sign. -/
def attachedTo (name value : Text) : Option Text :=
  if name = "-h".toList then attachedToHelp value else some value

/-- The options that an argument may mean as the beginning of a name. -/
def Usage.candidates (u : Usage) (t : Text) : List (Text × Item) :=
  match t with
  | '-' :: '-' :: _ =>
    let (start, value) := splitValue t
    (u.names.filter fun n => start.isPrefixOf n.1).map fun n => (n.1, .option n.2 value)
  | '-' :: 'h' :: r => [("-h".toList, .option .help (attachedToHelp r))]
  | _ => []

/-- An argument that starts with a dash but means no option of the command: a negative number or an
argument with a space is plain. -/
def stray (t : Text) : Item :=
  if Text.isNegativeNumber t || t.contains ' ' then .plain t else .unknown t

/-- Tells an argument apart, where options are allowed. -/
def Usage.item (u : Usage) (t : Text) : Except Fault Item :=
  if t.head? ≠ some '-' then .ok (.plain t)
  else
    match u.names.lookup t with
    | some m => .ok (.option m none)
    | none =>
      if t.length = 1 then .ok (.plain t)
      else
        match splitValue t with
        | (name, some value) =>
          match u.names.lookup name with
          | some m => .ok (.option m (attachedTo name value))
          | none => abbreviated
        | _ => abbreviated
where
  /-- An argument that is not the full name of an option. -/
  abbreviated : Except Fault Item :=
    match u.candidates t with
    | [] => .ok (stray t)
    | [(_, item)] => .ok item
    | several => .error (.ambiguous t (several.map Prod.fst))

/-- Tells arguments apart. -/
def Usage.items (u : Usage) : List Text → Except Fault (List Item)
  | [] => .ok []
  | t :: ts =>
    if t = twoDashes then .ok (.dashes :: ts.map .plain)
    else
      match u.item t with
      | .error f => .error f
      | .ok item =>
        match u.items ts with
        | .error f => .error f
        | .ok rest => .ok (item :: rest)

/-- The value of an option that was given. -/
inductive Value where
  /-- The option takes no value. -/
  | none
  /-- Two dashes are attached to the option; they stand for no value, whatever it takes. -/
  | blank
  | text (t : Text)
  | number (n : Int)
  deriving Repr, DecidableEq

/-- The arguments of a command, as far as they are read. -/
structure Arguments where
  /-- The operands that were given. -/
  operands : List (String × Text) := []
  /-- The options that were given, in order. -/
  options : List (String × Value) := []
  /-- The operands that are still to come. -/
  awaited : List Operand := []
  /-- The arguments that have no place. -/
  extra : List Text := []
  deriving Repr, DecidableEq

namespace Arguments

/-- Whether an option was given. -/
def has (a : Arguments) (name : String) : Bool :=
  a.options.any fun o => o.1 == name

/-- The texts given for an option, in order. -/
def texts (a : Arguments) (name : String) : List Text :=
  a.options.filterMap fun o =>
    match o.2 with
    | .text t => if o.1 == name then some t else none
    | _ => none

/-- The last value given for an option. -/
def last? (a : Arguments) (name : String) : Option Value :=
  ((a.options.filter fun o => o.1 == name).map Prod.snd).getLast?

/-- Whether the last value given for an option is left blank. -/
def isBlank (a : Arguments) (name : String) : Bool :=
  a.last? name == some .blank

/-- The text given for an option; the last value counts. -/
def text? (a : Arguments) (name : String) : Option Text :=
  match a.last? name with
  | some (.text t) => some t
  | _ => none

/-- The text given for an option, unless it is empty. -/
def word? (a : Arguments) (name : String) : Option Text :=
  (a.text? name).filter fun t => !t.isEmpty

/-- The number given for an option; the last value counts. -/
def number? (a : Arguments) (name : String) : Option Int :=
  match a.last? name with
  | some (.number n) => some n
  | _ => none

/-- The text of an operand. -/
def operand? (a : Arguments) (name : String) : Option Text :=
  a.operands.lookup name

/-- Puts an argument aside that has no place. -/
def addExtra (a : Arguments) (t : Text) : Arguments :=
  { a with extra := a.extra ++ [t] }

/-- Adds an option. -/
def addOption (a : Arguments) (name : String) (v : Value) : Arguments :=
  { a with options := a.options ++ [(name, v)] }

/-- Gives the next operand a text, or leaves it without one. -/
def fill (a : Arguments) (o : Operand) (rest : List Operand) (t : Option Text) : Arguments :=
  { a with
    awaited := rest
    operands := match t with
      | some t => a.operands ++ [(o.name, t)]
      | none => a.operands }

end Arguments

/-- Why reading ends before its time. -/
inductive Stop where
  /-- The command is to explain itself. -/
  | help
  /-- Something is wrong. -/
  | fault (fault : Fault)
  deriving Repr, DecidableEq

/-- The value of an option from a text. Two dashes leave it blank. -/
def Choice.value (o : Choice) (t : Text) : Except Stop Value :=
  match o.takes with
  | .nothing => .error (.fault (.unusedValue (.choice o) t))
  | .text => .ok (if t = twoDashes then .blank else .text t)
  | .number =>
    if t = twoDashes then .ok .blank
    else
      match Text.int? t with
      | some n => .ok (.number n)
      | none => .error (.fault (.notNumber o t))

/-- Reads arguments that are told apart. The flag tells whether an operand was filled just before;
two dashes then belong to it. Two dashes that are not needed to fill an operand have no place. An
argument of two dashes behind them leaves its operand without a text. -/
def readItems (a : Arguments) (filled : Bool) : List Item → Except Stop Arguments
  | [] => .ok a
  | .unknown t :: rest => readItems (a.addExtra t) false rest
  | .option .help none :: _ => .error .help
  | .option .help (some v) :: _ => .error (.fault (.unusedValue .help v))
  | .option (.choice o) (some v) :: rest =>
    match o.value v with
    | .error s => .error s
    | .ok v => readItems (a.addOption o.name v) false rest
  | .option (.choice o) none :: rest =>
    if o.takes = .nothing then readItems (a.addOption o.name .none) false rest
    else
      match rest with
      | .plain v :: rest =>
        match o.value v with
        | .error s => .error s
        | .ok v => readItems (a.addOption o.name v) false rest
      | _ => .error (.fault (.needsValue o))
  | .plain t :: rest =>
    match a.awaited with
    | [] => readItems (a.addExtra t) false rest
    | o :: os => readItems (a.fill o os (if t = twoDashes then none else some t)) true rest
  | .dashes :: rest =>
    if filled then readItems a false rest
    else
      match a.awaited, rest with
      | o :: os, .plain t :: rest => readItems (a.fill o os (some t)) true rest
      | o :: os, rest =>
        if o.required then readItems (a.addExtra twoDashes) false rest
        else readItems (a.fill o os none) false rest
      | [], rest => readItems (a.addExtra twoDashes) false rest

/-- Whether all operands are there that must be and there is nothing else. -/
def Arguments.complete (a : Arguments) : Except Stop Arguments :=
  match (a.awaited.filter (·.required)).map (·.name) with
  | [] => if a.extra.isEmpty then .ok a else .error (.fault (.unrecognized a.extra))
  | names => .error (.fault (.missing names))

/-- Reads the arguments of a command. -/
def Usage.read (u : Usage) (ts : List Text) : Except Stop Arguments :=
  match u.items ts with
  | .error f => .error (.fault f)
  | .ok items =>
    match readItems { awaited := u.operands } false items with
    | .error s => .error s
    | .ok a => a.complete

end Phrasebook.Command
