import Leetrank.Library.NearestEven

namespace Js
set_option autoImplicit true

/-- A number of JavaScript, whose two zeros are one here. -/
inductive Number where
  | nan
  | posInfinity
  | negInfinity
  | finite (value : ℚ)
deriving DecidableEq

namespace Number

def floor : Number → Number
  | .finite q => .finite ⌊q⌋
  | x => x

def neg : Number → Number
  | .nan => .nan
  | .posInfinity => .negInfinity
  | .negInfinity => .posInfinity
  | .finite q => .finite (-q)

/-- The larger of a finite number and another, as `Math.max` has it. -/
def max (least : ℚ) : Number → Number
  | .nan => .nan
  | .posInfinity => .posInfinity
  | .negInfinity => .finite least
  | .finite q => .finite (Max.max least q)

/-- Whether the difference of two numbers is positive. -/
def gt : Number → Number → Bool
  | .finite p, .finite q => q < p
  | .posInfinity, .finite _ | .posInfinity, .negInfinity | .finite _, .negInfinity => true
  | _, _ => false

/-- The nearest number in double precision. -/
def ofRat (q : ℚ) : Number :=
  let value := NearestEven.nearest 52 (-1074) q
  if (2 : ℚ) ^ 1024 ≤ value then .posInfinity
  else if value ≤ -(2 : ℚ) ^ 1024 then .negInfinity
  else .finite value

end Number

/-- The UTF-16 code units of an ASCII text. -/
def units (text : String) : List UInt16 := text.toList.map fun c => c.toNat.toUInt16

/-- White space and line ends. -/
def isSpace (c : UInt16) : Bool :=
  9 ≤ c && c ≤ 13 || 0x2000 ≤ c && c ≤ 0x200A ||
    [0x20, 0xA0, 0x1680, 0x2028, 0x2029, 0x202F, 0x205F, 0x3000, 0xFEFF].contains c

def trim (s : List UInt16) : List UInt16 :=
  ((s.dropWhile isSpace).reverse.dropWhile isSpace).reverse

def digitValue (c : UInt16) : Option Nat :=
  if 48 ≤ c ∧ c ≤ 57 then some (c.toNat - 48)
  else if 65 ≤ c ∧ c ≤ 70 then some (c.toNat - 55)
  else if 97 ≤ c ∧ c ≤ 102 then some (c.toNat - 87)
  else none

/-- The value of a text of at least one digit. -/
def digits (base : Nat) (s : List UInt16) : Option Nat :=
  if s = [] then none
  else s.foldl (fun value c => do
    let n ← value
    let d ← digitValue c
    if d < base then some (n * base + d) else none) (some 0)

def exponent : List UInt16 → Option Int
  | [] => some 0
  | c :: rest =>
    if c ≠ 101 ∧ c ≠ 69 then none
    else
      match rest with
      | 43 :: ds => (digits 10 ds).map fun n => n
      | 45 :: ds => (digits 10 ds).map fun n => -n
      | ds => (digits 10 ds).map fun n => n

def decimal (s : List UInt16) : Option Number := do
  let isDigit := fun c : UInt16 => 48 ≤ c && c ≤ 57
  let (fraction, rest) :=
    match s.dropWhile isDigit with
    | 46 :: rest => (rest.takeWhile isDigit, rest.dropWhile isDigit)
    | rest => ([], rest)
  let n ← digits 10 (s.takeWhile isDigit ++ fraction)
  let e ← exponent rest
  return .ofRat (n * 10 ^ (e - fraction.length))

def unsigned (s : List UInt16) : Option Number :=
  if s = units "Infinity" then some .posInfinity else decimal s

/-- The number that a text stands for. -/
def stringToNumber (s : List UInt16) : Number :=
  let ofInteger := fun n : Nat => Number.ofRat n
  let value : Option Number :=
    match trim s with
    | [] => some (.finite 0)
    | 48 :: 120 :: ds | 48 :: 88 :: ds => (digits 16 ds).map ofInteger
    | 48 :: 111 :: ds | 48 :: 79 :: ds => (digits 8 ds).map ofInteger
    | 48 :: 98 :: ds | 48 :: 66 :: ds => (digits 2 ds).map ofInteger
    | 43 :: s => unsigned s
    | 45 :: s => (unsigned s).map Number.neg
    | s => unsigned s
  value.getD .nan

/-- A value that has no methods and no prototype of its own, such as `JSON.parse` gives. An absent
one is `undefined`. -/
inductive Value where
  | null
  | bool (b : Bool)
  | number (x : Number)
  | string (s : List UInt16)
  | array (xs : List Value)
  | object (fields : List (String × Value))

namespace Value

def truthy : Option Value → Bool
  | none | some .null | some (.number .nan) => false
  | some (.bool b) => b
  | some (.number (.finite q)) => q ≠ 0
  | some (.string s) => s ≠ []
  | some _ => true

def isNullish : Option Value → Bool
  | none | some .null => true
  | some _ => false

/-- A field that no prototype has. -/
def get (key : String) : Option Value → Except String (Option Value)
  | none => .error ("Cannot read properties of undefined (reading '" ++ key ++ "')")
  | some .null => .error ("Cannot read properties of null (reading '" ++ key ++ "')")
  | some (.object fields) => .ok (fields.lookup key)
  | some _ => .ok none

mutual
/-- A value has a text unless it is or has an object with a field that hides `toString`. -/
def hasText : Value → Bool
  | .array xs => allHaveText xs
  | .object fields => (fields.lookup "toString").isNone
  | .null | .bool _ | .number _ | .string _ => true

def allHaveText : List Value → Bool
  | [] => true
  | x :: xs => x.hasText && allHaveText xs
end

mutual
/-- The number that the text of an array's only element stands for. -/
def elementNumber : Value → Number
  | .null => .finite 0
  | .number x => x
  | .string s => stringToNumber s
  | .array xs => elementsNumber xs
  | .bool _ | .object _ => .nan

def elementsNumber : List Value → Number
  | [] => .finite 0
  | [x] => x.elementNumber
  | _ :: _ :: _ => .nan
end

def toNumber : Option Value → Except String Number
  | none => .ok .nan
  | some .null => .ok (.finite 0)
  | some (.bool b) => .ok (.finite (if b then 1 else 0))
  | some v =>
    if v.hasText then .ok v.elementNumber
    else .error "Cannot convert object to primitive value"

mutual
/-- What comes back when a value is written as JSON and read again: only finite numbers can be
written. -/
def throughJson : Value → Value
  | .number (.finite q) => .number (.finite q)
  | .number _ => .null
  | .array xs => .array (allThroughJson xs)
  | .object fields => .object (fieldsThroughJson fields)
  | .null => .null
  | .bool b => .bool b
  | .string s => .string s

def allThroughJson : List Value → List Value
  | [] => []
  | x :: xs => x.throughJson :: allThroughJson xs

def fieldsThroughJson : List (String × Value) → List (String × Value)
  | [] => []
  | (key, x) :: fields => (key, x.throughJson) :: fieldsThroughJson fields
end

@[simp]
theorem throughJson_object (fields : List (String × Value)) :
    (object fields).throughJson = .object (fieldsThroughJson fields) :=
  rfl

@[simp]
theorem throughJson_string (s : List UInt16) : (string s).throughJson = .string s :=
  rfl

@[simp]
theorem fieldsThroughJson_nil : fieldsThroughJson [] = [] :=
  rfl

@[simp]
theorem fieldsThroughJson_cons (key : String) (x : Value) (fields : List (String × Value)) :
    fieldsThroughJson ((key, x) :: fields) = (key, x.throughJson) :: fieldsThroughJson fields :=
  rfl

end Value

/-- A sequence of steps succeeds if each of them does. -/
theorem bind_eq_ok {x : Except ε α} {f : α → Except ε β} {b : β} :
    (x >>= f) = .ok b ↔ ∃ a, x = .ok a ∧ f a = .ok b := by
  cases x with
  | error e =>
    constructor
    · exact nofun
    · rintro ⟨a, ha, -⟩
      cases ha
  | ok a =>
    constructor
    · intro h
      exact ⟨a, rfl, h⟩
    · rintro ⟨_, ⟨⟩, h⟩
      exact h

example : stringToNumber (units " 2.5e1 ") = .finite 25 := by decide +kernel

example : Value.toNumber (some (.array [.string (units "0x10")])) = .ok (.finite 16) := by
  decide +kernel

end Js
