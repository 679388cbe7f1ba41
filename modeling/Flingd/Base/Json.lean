import Flingd.Base.Utf

/-! JSON documents, and the text that a compact writer makes of them, in bytes, in UTF-16 or in
characters. -/
namespace Flingd

/-- A number is its text. -/
inductive Json (S : Type) where
  | null
  | bool (b : Bool)
  | number (text : S)
  | string (s : S)
  | array (items : List (Json S))
  | object (members : List (S × Json S))

/-- Units of a text, of which the first 128 are ASCII. -/
class CodeUnit (α : Type) where
  code : α → Nat
  unit : Nat → α
  unit_code : ∀ a, unit (code a) = a
  code_unit : ∀ n, n < 128 → code (unit n) = n

open CodeUnit

instance : CodeUnit UInt8 where
  code := UInt8.toNat
  unit := UInt8.ofNat
  unit_code _ := UInt8.ofNat_toNat
  code_unit _ h := UInt8.toNat_ofNat_of_lt' (lt_trans h (by decide))

instance : CodeUnit UInt16 where
  code := UInt16.toNat
  unit := UInt16.ofNat
  unit_code _ := UInt16.ofNat_toNat
  code_unit _ h := UInt16.toNat_ofNat_of_lt' (lt_trans h (by decide))

instance : CodeUnit Char where
  code := Char.toNat
  unit := Char.ofNat
  unit_code := Char.ofNat_toNat
  code_unit n h := by
    rw [Char.ofNat, dif_pos (.inl (by omega))]
    rfl

namespace Json
variable {α : Type} [CodeUnit α] {S T : Type}

def member [DecidableEq S] (members : List (S × Json S)) (name : S) : Option (Json S) :=
  (members.find? (·.1 = name)).map (·.2)

mutual

def map (f : S → T) : Json S → Json T
  | .null => .null
  | .bool b => .bool b
  | .number text => .number (f text)
  | .string s => .string (f s)
  | .array items => .array (mapItems f items)
  | .object members => .object (mapMembers f members)

def mapItems (f : S → T) : List (Json S) → List (Json T)
  | [] => []
  | j :: items => j.map f :: mapItems f items

def mapMembers (f : S → T) : List (S × Json S) → List (T × Json T)
  | [] => []
  | (name, j) :: members => (f name, j.map f) :: mapMembers f members

end

theorem mapItems_eq {g : S → T} (items : List (Json S)) :
    mapItems g items = items.map (map g) := by
  induction items with
  | nil => rfl
  | cons j items ih => rw [mapItems, ih, List.map_cons]

theorem mapMembers_eq {g : S → T} (members : List (S × Json S)) :
    mapMembers g members = members.map fun m => (g m.1, m.2.map g) := by
  induction members with
  | nil => rfl
  | cons m members ih =>
    obtain ⟨name, j⟩ := m
    rw [mapMembers, ih, List.map_cons]

/-! ### Writing -/

def ascii (s : String) : List α := s.toList.map fun c => unit c.toNat

def hexDigit (n : Nat) : Nat := if n < 10 then 48 + n else 55 + n

theorem hexDigit_lt : ∀ n, n < 16 → hexDigit n < 128 := by decide

def escapeCode : Nat → List Nat
  | 34 => [92, 34]
  | 92 => [92, 92]
  | 8 => [92, 98]
  | 9 => [92, 116]
  | 10 => [92, 110]
  | 12 => [92, 102]
  | 13 => [92, 114]
  | n => if n < 32 then [92, 117, 48, 48, hexDigit (n / 16), hexDigit (n % 16)] else [n]

def escapeUnit (a : α) : List α := (escapeCode (code a)).map unit

def quote (s : List α) : List α := unit 34 :: s.flatMap escapeUnit ++ [unit 34]

def separated : List (List α) → List α
  | [] => []
  | [x] => x
  | x :: xs => x ++ unit 44 :: separated xs

mutual

def write : Json (List α) → List α
  | .null => ascii "null"
  | .bool b => ascii (if b then "true" else "false")
  | .number text => text
  | .string s => quote s
  | .array items => unit 91 :: separated (writeItems items) ++ [unit 93]
  | .object members => unit 123 :: separated (writeMembers members) ++ [unit 125]

def writeItems : List (Json (List α)) → List (List α)
  | [] => []
  | j :: items => write j :: writeItems items

def writeMembers : List (List α × Json (List α)) → List (List α)
  | [] => []
  | (name, j) :: members => (quote name ++ unit 58 :: write j) :: writeMembers members

end

theorem writeItems_eq (items : List (Json (List α))) : writeItems items = items.map write := by
  induction items with
  | nil => rfl
  | cons j items ih => rw [writeItems, ih, List.map_cons]

def writeMember (m : List α × Json (List α)) : List α := quote m.1 ++ unit 58 :: write m.2

theorem writeMembers_eq (members : List (List α × Json (List α))) :
    writeMembers members = members.map writeMember := by
  induction members with
  | nil => rfl
  | cons m members ih =>
    obtain ⟨name, j⟩ := m
    rw [writeMembers, ih, List.map_cons, writeMember]

/-! ### Plain documents -/

def isDigitCode (n : Nat) : Bool := 48 ≤ n ∧ n ≤ 57

def isNumberCode (n : Nat) : Bool := isDigitCode n || n ∈ [43, 45, 46, 69, 101]

def isExponent : List Nat → Bool
  | [] => true
  | n :: s =>
    let digits := match s with
      | 43 :: s => s
      | 45 :: s => s
      | s => s
    (n = 69 ∨ n = 101) ∧ digits ≠ [] ∧ digits.all isDigitCode

def isFraction : List Nat → Bool
  | 46 :: s => s.takeWhile isDigitCode ≠ [] ∧ isExponent (s.dropWhile isDigitCode)
  | s => isExponent s

def isNumber (s : List Nat) : Bool :=
  let s := match s with
    | 45 :: s => s
    | s => s
  let digits := s.takeWhile isDigitCode
  digits ≠ [] ∧ (digits.head? = some 48 → digits.length = 1) ∧
    isFraction (s.dropWhile isDigitCode)

/-- Documents whose strings have no NUL and whose numbers are numbers. -/
inductive Plain : Json (List α) → Prop where
  | null : Plain .null
  | bool (b : Bool) : Plain (.bool b)
  | number {text : List α} (h : isNumber (text.map code) = true)
    (hall : ∀ a ∈ text, isNumberCode (code a) = true) : Plain (.number text)
  | string {s : List α} (h : ∀ a ∈ s, code a ≠ 0) : Plain (.string s)
  | array {items : List (Json (List α))} (h : ∀ j ∈ items, Plain j) : Plain (.array items)
  | object {members : List (List α × Json (List α))}
    (hname : ∀ m ∈ members, ∀ a ∈ m.1, code a ≠ 0) (h : ∀ m ∈ members, Plain m.2) :
    Plain (.object members)

/-- Documents of which no object has two members of one name. -/
inductive Distinct {S : Type} : Json S → Prop where
  | null : Distinct .null
  | bool (b : Bool) : Distinct (.bool b)
  | number (text : S) : Distinct (.number text)
  | string (s : S) : Distinct (.string s)
  | array {items : List (Json S)} (h : ∀ j ∈ items, Distinct j) : Distinct (.array items)
  | object {members : List (S × Json S)} (hname : (members.map Prod.fst).Nodup)
    (h : ∀ m ∈ members, Distinct m.2) : Distinct (.object members)

end Json
end Flingd
