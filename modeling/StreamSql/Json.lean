/-!
# JSON values

What JSON texts denote, and `JsonForm`, the form that the values of a type take as JSON. A structure
is an object with a member for every field, and is also read from an array of its fields in order. A
value of a sum is the text of its variant's name or, where the variant has a content, an object with
the content as its only member; without a content, the member may be null.

The readers for structures and sums hand each part on with the proof that it is smaller than the
whole, so that readers of trees recurse on the size of the value.
-/

namespace StreamSql

inductive Json where
  | null
  | boolean (b : Bool)
  /-- The number `digits / 10 ^ places`, as written; integers have no places. -/
  | number (digits : Int) (places : Nat)
  | text (s : String)
  | array (items : List Json)
  | object (members : List (String × Json))

/-- Why a value cannot be read. -/
inductive DecodeError where
  /-- The value is not the form of anything that was asked for. -/
  | malformed
  /-- There is no short form of that name. -/
  | unknownForm
  /-- The plan carries nothing. -/
  | emptyPlan
  deriving DecidableEq

/-- What is wrong with a value that has the right form. -/
def DecodeError.explanation? : DecodeError → Option String
  | malformed | unknownForm => none
  | emptyPlan => some "plan must carry a catalog command or a query plan"

/-- Types whose values have a form as JSON. -/
class JsonForm (α : Type) where
  toJson : α → Json
  ofJson : Json → Except DecodeError α
  /-- The value of a field whose member is missing, if it may be. -/
  absent? : Option α := none

export JsonForm (toJson ofJson)

namespace Json

instance : Inhabited Json := ⟨null⟩

variable {α : Type}

def integer (n : Int) : Json := number n 0

/-! ## Numbers and texts -/

def asInt? : Json → Option Int
  | number digits 0 => some digits
  | _ => none

/-- Reads a number of at most `width` bits. -/
def readWord (width : Nat) (j : Json) : Except DecodeError Nat :=
  match j.asInt? with
  | some n => if 0 ≤ n && n < Nat.pow 2 width then .ok n.toNat else .error .malformed
  | none => .error .malformed

/-- Reads a signed number of at most `width` bits. -/
def readSigned (width : Nat) (j : Json) : Except DecodeError Int :=
  match j.asInt? with
  | some n =>
    let bound : Int := Nat.pow 2 (width - 1)
    if -bound ≤ n && n < bound then .ok n else .error .malformed
  | none => .error .malformed

def readText : Json → Except DecodeError String
  | text s => .ok s
  | _ => .error .malformed

/-! ## Members of objects -/

/-- The member of a name. -/
def lookup (name : String) :
    (members : List (String × Json)) → Option { m : Json // sizeOf m < sizeOf members }
  | [] => none
  | (n, m) :: rest =>
    if n = name then some ⟨m, by simp; omega⟩
    else (lookup name rest).map fun m => ⟨m.val, by have := m.property; simp; omega⟩

/-- Reads the member of a name, or else gives what a missing member stands for. -/
def fieldWith (j : Json) (name : String) (absent? : Option α)
    (read : (m : Json) → sizeOf m < sizeOf j → Except DecodeError α) : Except DecodeError α :=
  match j with
  | object members =>
    match lookup name members with
    | some m => read m.val (by have := m.property; simp; omega)
    | none => absent?.elim (.error .malformed) .ok
  | _ => .error .malformed

/-- Reads the field of a name. -/
def field [JsonForm α] (j : Json) (name : String) : Except DecodeError α :=
  j.fieldWith name JsonForm.absent? fun m _ => ofJson m

/-- The member of a name; null if it is missing. -/
def member (j : Json) (name : String) : Json :=
  match j with
  | object members => (members.lookup name).getD null
  | _ => null

/-- Whether an object has no members of other names. -/
def hasOnly (j : Json) (names : List String) : Bool :=
  match j with
  | object members => members.all fun (name, _) => names.contains name
  | _ => true

/-- Reads the member of a name, which stands for `otherwise` where it is missing or null. -/
def fieldOrNull [JsonForm α] (j : Json) (name : String) (otherwise : α) :
    Except DecodeError α :=
  match j.member name with
  | null => .ok otherwise
  | m => ofJson m

/-! ## Arrays -/

theorem sizeOf_item_lt {items : List Json} {m : Json} (h : m ∈ items) :
    sizeOf m < sizeOf (array items) := by
  have := List.sizeOf_lt_of_mem h
  simp
  omega

/-- Reads every item of an array. -/
def itemsWith (j : Json) (read : (m : Json) → sizeOf m < sizeOf j → Except DecodeError α) :
    Except DecodeError (List α) :=
  match j with
  | array items => items.attach.mapM fun m => read m.val (sizeOf_item_lt m.property)
  | _ => .error .malformed

/-! ## Structures -/

/--
Reads a field of a structure: the member of a name, or the item at a position. For a missing member
there is `member?` and for a missing item `item?`. -/
def fieldAtWith (j : Json) (position : Nat) (name : String) (member? item? : Option α)
    (read : (m : Json) → sizeOf m < sizeOf j → Except DecodeError α) : Except DecodeError α :=
  match j with
  | array items =>
    match items.attach[position]? with
    | some m => read m.val (sizeOf_item_lt m.property)
    | none => item?.elim (.error .malformed) .ok
  | j => j.fieldWith name member? read

/-- Reads a field of a structure. Only a member may be missing, not an item. -/
def fieldAt [JsonForm α] (j : Json) (position : Nat) (name : String) : Except DecodeError α :=
  j.fieldAtWith position name JsonForm.absent? none fun m _ => ofJson m

/-- Reads a field of a structure, which is `otherwise` where it is missing. -/
def fieldAtOr [JsonForm α] (j : Json) (position : Nat) (name : String) (otherwise : α) :
    Except DecodeError α :=
  j.fieldAtWith position name (some otherwise) (some otherwise) fun m _ => ofJson m

/-! ## Sums -/

/-- A JSON value as one of a sum: the name of its variant, with the content if there is one. -/
inductive Variant (whole : Json) where
  | bare (name : String)
  | carrying (name : String) (content : Json) (smaller : sizeOf content < sizeOf whole)

def variant? : (j : Json) → Option (Variant j)
  | text name => some (.bare name)
  | object [(name, null)] => some (.bare name)
  | object [(name, content)] => some (.carrying name content (by simp; omega))
  | _ => none

/-- A value of a variant with a content. -/
def tagged (name : String) (content : Json) : Json := object [(name, content)]

/-- Reads one of the values `all`, each a variant without a content. -/
def readName (name : α → String) (all : List α) (j : Json) : Except DecodeError α :=
  match j.variant? with
  | some (.bare s) =>
    match all.find? (name · == s) with
    | some a => .ok a
    | none => .error .malformed
  | _ => .error .malformed

end Json

/-! ## Forms of general types -/

instance : JsonForm Bool where
  toJson := .boolean
  ofJson
    | .boolean b => .ok b
    | _ => .error .malformed

instance : JsonForm String where
  toJson := .text
  ofJson := Json.readText

instance : JsonForm UInt64 where
  toJson n := .integer n.toNat
  ofJson j := return .ofNat (← j.readWord 64)

/-- A count, read from numbers of at most 64 bits. -/
instance : JsonForm Nat where
  toJson n := .integer n
  ofJson := Json.readWord 64

instance {α : Type} [JsonForm α] : JsonForm (Option α) where
  toJson
    | some a => toJson a
    | none => .null
  ofJson
    | .null => .ok none
    | j => some <$> ofJson j
  absent? := some none

instance {α : Type} [JsonForm α] : JsonForm (List α) where
  toJson as := .array (as.map toJson)
  ofJson j := j.itemsWith fun m _ => ofJson m

/-- Two items of an array; later items are not looked at. -/
instance {α β : Type} [JsonForm α] [JsonForm β] : JsonForm (α × β) where
  toJson p := .array [toJson p.1, toJson p.2]
  ofJson
    | .array (a :: b :: _) => return (← ofJson a, ← ofJson b)
    | _ => .error .malformed

end StreamSql
