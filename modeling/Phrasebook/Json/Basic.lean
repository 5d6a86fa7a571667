import Phrasebook.Entries

/-!
# JSON values

Mappings and configurations are stored as JSON. Objects keep the order of their members. Numbers
with a fraction or an exponent are never computed with, so they are kept as written; so are the
three constants for values that are not numbers.
-/

namespace Phrasebook

/-- A JSON value. -/
inductive Json where
  | null
  | bool (value : Bool)
  | int (value : Int)
  /-- A number that is not written as an integer. -/
  | decimal (literal : Text)
  | str (text : Text)
  | arr (items : List Json)
  | obj (members : List (Text × Json))
  deriving Repr, Inhabited

namespace Json

/-- The value of a run of decimal digits. -/
def natOfDigits (ds : Text) : Nat :=
  ds.foldl (fun n d => n * 10 + (d.toNat - '0'.toNat)) 0

/-- The power of ten that the exponent behind the digits of a number stands for. -/
def powerOf : Text → Int
  | '-' :: ds => -natOfDigits ds
  | '+' :: ds => natOfDigits ds
  | ds => natOfDigits ds

/-- Whether a number that is kept as written comes to zero: it is zero, or so small that the floating
point number next to it is, which has no bits below the 1074th. -/
def isNought (literal : Text) : Bool :=
  let mantissa := literal.takeWhile fun c => c != 'e' && c != 'E'
  let digits := mantissa.filter Char.isDigit
  let places := ((mantissa.dropWhile (· != '.')).drop 1).length
  let power := powerOf (literal.drop (mantissa.length + 1)) - places
  let n := natOfDigits digits
  -- so many places are enough for any number of these digits, and the powers are not computed
  !digits.isEmpty && (n = 0 || digits.length + 324 ≤ -power ||
    (power < 0 && n * Nat.pow 2 1075 ≤ Nat.pow 10 (-power).toNat))

/-- The text of a string value. -/
def str? : Json → Option Text
  | str t => some t
  | _ => none

/-- The value of a member of an object. -/
def get? (key : Text) : Json → Option Json
  | obj ms => Entries.get? key ms
  | _ => none

mutual

/-- Whether two values are the same, members in the same order. -/
def beq : Json → Json → Bool
  | null, null => true
  | bool a, bool b => a == b
  | int a, int b => a == b
  | decimal a, decimal b => a == b
  | str a, str b => a == b
  | arr as, arr bs => beqItems as bs
  | obj as, obj bs => beqMembers as bs
  | _, _ => false

/-- Whether two lists of values are the same. -/
def beqItems : List Json → List Json → Bool
  | [], [] => true
  | a :: as, b :: bs => beq a b && beqItems as bs
  | _, _ => false

/-- Whether two lists of members are the same. -/
def beqMembers : List (Text × Json) → List (Text × Json) → Bool
  | [], [] => true
  | (k, a) :: as, (l, b) :: bs => k == l && beq a b && beqMembers as bs
  | _, _ => false

end

end Json

end Phrasebook
