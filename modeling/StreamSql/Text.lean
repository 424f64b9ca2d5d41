/-!
# Text and names

The character classes and readings that names, formats and property values go by. Case is changed on
ASCII letters only. Blank characters are those with the Unicode property `White_Space`. The names of
catalog entries and queries are ordered as their texts are, by code point.
-/

namespace StreamSql

namespace Text

/-- The characters with the Unicode property `White_Space`. -/
def isBlank (c : Char) : Bool :=
  let n := c.toNat
  (0x9 ≤ n && n ≤ 0xd) || n == 0x20 || n == 0x85 || n == 0xa0 || n == 0x1680 ||
    (0x2000 ≤ n && n ≤ 0x200a) || n == 0x2028 || n == 0x2029 || n == 0x202f || n == 0x205f ||
    n == 0x3000

/-- `s` without the blank characters at both ends. -/
def trim (s : String) : String :=
  .ofList ((s.toList.dropWhile isBlank).reverse.dropWhile isBlank).reverse

def isBlankText (s : String) : Bool := s.toList.all isBlank

/-- ASCII letters in upper case, all else kept. -/
def upper (s : String) : String := .ofList (s.toList.map Char.toUpper)

/-- ASCII letters in lower case, all else kept. -/
def lower (s : String) : String := .ofList (s.toList.map Char.toLower)

def commaSeparated (items : List String) : String := String.intercalate ", " items

/-- `unit` written `count` times. -/
def times (count : Nat) (unit : String) : String := String.join (List.replicate count unit)

/-- The parts of a list between the occurrences of `separator`. -/
def splitChars (separator : Char) : List Char → List (List Char)
  | [] => [[]]
  | c :: rest =>
    if c = separator then [] :: splitChars separator rest
    else
      match splitChars separator rest with
      | [] => [[c]]
      | part :: parts => (c :: part) :: parts

/-- The parts of a text between its commas. -/
def splitCommas (s : String) : List String := (splitChars ',' s.toList).map .ofList

/-- The number that decimal digits denote. -/
def ofDigits (digits : List Char) : Nat :=
  digits.foldl (fun n c => 10 * n + (c.toNat - '0'.toNat)) 0

/-- Reads a number written in decimal digits, with or without a plus sign in front. -/
def readNat? (s : String) : Option Nat :=
  let digits := match s.toList with
    | '+' :: rest => rest
    | all => all
  if !digits.isEmpty && digits.all Char.isDigit then some (ofDigits digits) else none

/-- Reads a number of at most `width` bits, blanks around it aside. -/
def readWord? (width : Nat) (s : String) : Option Nat :=
  (readNat? (trim s)).filter (· < Nat.pow 2 width)

end Text

/-! ## Names -/

/-- The name of a catalog entry. -/
structure SourceName where
  text : String
  deriving DecidableEq

/-- The identity of a continuous, transient or pull query. -/
structure QueryId where
  text : String
  deriving DecidableEq

instance : Ord SourceName := ⟨compareOn SourceName.text⟩

instance : Std.TransOrd SourceName := inferInstanceAs (Std.TransCmp (compareOn SourceName.text))

instance : Std.LawfulEqOrd SourceName where
  eq_of_compare {a b} h := by
    obtain ⟨a⟩ := a
    obtain ⟨b⟩ := b
    exact congrArg SourceName.mk (Std.LawfulEqOrd.eq_of_compare h)

instance : Ord QueryId := ⟨compareOn QueryId.text⟩

instance : Std.TransOrd QueryId := inferInstanceAs (Std.TransCmp (compareOn QueryId.text))

instance : Std.LawfulEqOrd QueryId where
  eq_of_compare {a b} h := by
    obtain ⟨a⟩ := a
    obtain ⟨b⟩ := b
    exact congrArg QueryId.mk (Std.LawfulEqOrd.eq_of_compare h)

end StreamSql
