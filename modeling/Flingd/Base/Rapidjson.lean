import Flingd.Base.Decimal
import Flingd.Base.JsonReader

/-! The library `rapidjson`. An accessor that is used outside its precondition gives `none`. -/
namespace Flingd
namespace Json
open CodeUnit

/-- A member of an object; one that is not there is null. -/
def get (members : List (Bytes × Json Bytes)) (name : Bytes) : Json Bytes :=
  (member members name).getD .null

/-- `operator[]` of a name. -/
def at? (j : Json Bytes) (name : Bytes) : Option (Json Bytes) :=
  match j with
  | .object members => some (get members name)
  | _ => none

@[simp] theorem at?_object (members : List (Bytes × Json Bytes)) (name : Bytes) :
    (object members).at? name = some (get members name) := rfl

/-- `GetString`, which is read up to a NUL. -/
def getString : Json Bytes → Option Bytes
  | .string s => some (cStr s)
  | _ => none

def getBool : Json Bytes → Option Bool
  | .bool b => some b
  | _ => none

/-- `GetInt`: a number without a fraction and an exponent that fits. -/
def getInt : Json Bytes → Option Int
  | .number text => lexicalCastInt text
  | _ => none

/-- `GetDouble`, which takes every number. A `double` is the text of its number. -/
def getDouble : Json Bytes → Option Bytes
  | .number text => some text
  | _ => none

/-- `IsDouble`: a number with a fraction or an exponent, or one that no integer type holds. -/
def isDouble : Json Bytes → Bool
  | .number text =>
    let (negative, digits) := readSign text
    !digits.all isDigit ||
      if negative then 2 ^ 63 < digitsValue digits else 2 ^ 64 ≤ digitsValue digits
  | _ => false

def isNull : Json Bytes → Bool
  | .null => true
  | _ => false

/-- What `String` writes of a `c_str`. -/
def text (s : Bytes) : Json Bytes := .string (cStr s)

@[simp] theorem getString_text (s : Bytes) : (text s).getString = some (cStr s) := by
  rw [text, getString, cStr_cStr]

@[simp] theorem isNull_text (s : Bytes) : (text s).isNull = false := rfl

theorem code_ne_zero {s : Bytes} (h : 0 ∉ s) : ∀ b ∈ s, code b ≠ 0 := by
  intro b hb hzero
  have hb0 : b = 0 := UInt8.toNat_inj.mp hzero
  exact h (hb0 ▸ hb)

theorem plain_text (s : Bytes) : Plain (text s) := .string (code_ne_zero (zero_notMem_cStr s))

theorem plain_nil : Plain (object ([] : List (Bytes × Json Bytes))) :=
  .object (fun _ h => absurd h List.not_mem_nil) fun _ h => absurd h List.not_mem_nil

theorem plain_cons {name : Bytes} {j : Json Bytes} {members : List (Bytes × Json Bytes)}
    (hname : 0 ∉ name) (hj : Plain j) (h : Plain (object members)) :
    Plain (object ((name, j) :: members)) := by
  cases h with
  | object hnames hmembers =>
    exact .object (List.forall_mem_cons.mpr ⟨code_ne_zero hname, hnames⟩)
      (List.forall_mem_cons.mpr ⟨hj, hmembers⟩)

end Json

/-- The writer of `rapidjson`, and its parser of a `c_str`; what does not parse is `none`. -/
structure Rapidjson where
  write : Json Bytes → Bytes
  parse : Bytes → Option (Json Bytes)

namespace Rapidjson

/-- The parser undoes the writer where no string has a NUL. -/
def Undoes (json : Rapidjson) : Prop := ∀ j, Json.Plain j → json.parse (json.write j) = some j

/-- The text of the writer is a `c_str`, and not an empty one. -/
def Writes (json : Rapidjson) : Prop :=
  ∀ j, Json.Plain j → json.write j ≠ [] ∧ 0 ∉ json.write j

def compact : Rapidjson := ⟨Json.write, Json.read⟩

theorem undoes_compact : compact.Undoes := fun _ => Json.read_write

theorem writes_compact : compact.Writes := by
  intro j hj
  obtain ⟨c, s, hw, -⟩ := Json.write_head hj
  exact ⟨fun hnil => List.cons_ne_nil c s (hw.symm.trans hnil),
    fun hzero => Json.noNul_write hj 0 hzero rfl⟩

end Rapidjson
end Flingd
