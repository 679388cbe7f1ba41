import Mathlib.Data.Nat.Digits.Lemmas
import Flingd.Base.Bytes

/-! Numbers in decimal: how they are printed, and how `boost::lexical_cast`
reads them. -/
namespace Flingd

/-- A number in decimal, as `<<` and `%u` print it. -/
def decimal (n : Nat) : Bytes :=
  if n = 0 then [48] else ((Nat.digits 10 n).map fun d => UInt8.ofNat (48 + d)).reverse

def isDigit (c : UInt8) : Bool := 48 ≤ c ∧ c ≤ 57

def digitsValue (s : Bytes) : Nat := s.foldl (fun n c => 10 * n + (c.toNat - 48)) 0

def readSign : Bytes → Bool × Bytes
  | 45 :: s => (true, s)
  | 43 :: s => (false, s)
  | s => (false, s)

/-- `boost::lexical_cast<int>`; `none` is `bad_lexical_cast`. -/
def lexicalCastInt (s : Bytes) : Option Int :=
  let (negative, digits) := readSign s
  let value : Int := if negative then -digitsValue digits else digitsValue digits
  if digits ≠ [] ∧ digits.all isDigit ∧ -2 ^ 31 ≤ value ∧ value < 2 ^ 31 then some value else none

theorem mem_decimal {n : Nat} {c : UInt8} (h : c ∈ decimal n) : 48 ≤ c.toNat ∧ c.toNat ≤ 57 := by
  unfold decimal at h
  split at h
  · obtain rfl := List.mem_singleton.mp h
    decide
  · obtain ⟨d, hd, rfl⟩ := List.mem_map.mp (List.mem_reverse.mp h)
    have hlt := Nat.digits_lt_base (by omega) hd
    rw [UInt8.toNat_ofNat_of_lt' (by norm_num; omega)]
    omega

theorem decimal_ne_nil (n : Nat) : decimal n ≠ [] := by
  unfold decimal
  split
  · simp
  · next h => simpa [Nat.digits_eq_nil_iff_eq_zero] using h

theorem length_decimal {n k : Nat} (hk : 0 < k) (h : n < 10 ^ k) : (decimal n).length ≤ k := by
  unfold decimal
  split
  · exact hk
  · simpa using (Nat.digits_length_le_iff (by omega) n).mpr h

/-- The digits of a number, as they are printed, name it again. -/
theorem digitsValue_digits (l : List Nat) (hl : ∀ d ∈ l, d < 10) :
    digitsValue (l.map fun d => UInt8.ofNat (48 + d)).reverse = Nat.ofDigits 10 l := by
  induction l with
  | nil => rfl
  | cons d l ih =>
    obtain ⟨hd, hl⟩ := List.forall_mem_cons.mp hl
    have hc : (UInt8.ofNat (48 + d)).toNat = 48 + d :=
      UInt8.toNat_ofNat_of_lt' (by norm_num; omega)
    have hv := ih hl
    unfold digitsValue at *
    rw [List.map_cons, List.reverse_cons, List.foldl_append, hv, Nat.ofDigits_cons]
    simp only [List.foldl_cons, List.foldl_nil, hc]
    omega

theorem digitsValue_decimal (n : Nat) : digitsValue (decimal n) = n := by
  unfold decimal
  split
  · next h => rw [h]; rfl
  · rw [digitsValue_digits _ fun d => Nat.digits_lt_base (by omega), Nat.ofDigits_digits]

theorem readSign_decimal (n : Nat) : readSign (decimal n) = (false, decimal n) := by
  have hd : ∀ c ∈ decimal n, c ≠ 45 ∧ c ≠ 43 := by
    intro c hc
    have := mem_decimal hc
    constructor <;> rintro rfl <;> revert this <;> decide
  unfold readSign
  split
  · next h => exact absurd rfl (hd _ (by simp [h])).1
  · next h => exact absurd rfl (hd _ (by simp [h])).2
  · rfl

theorem all_isDigit_decimal (n : Nat) : (decimal n).all isDigit = true := by
  rw [List.all_eq_true]
  intro d hd
  obtain ⟨h1, h2⟩ := mem_decimal hd
  simp only [isDigit, UInt8.le_iff_toNat_le, UInt8.reduceToNat, decide_eq_true_eq]
  omega

theorem lexicalCastInt_decimal {n : Nat} (h : n < 2 ^ 31) :
    lexicalCastInt (decimal n) = some (n : Int) := by
  have hall : (decimal n).all isDigit = true := all_isDigit_decimal n
  unfold lexicalCastInt
  simp only [readSign_decimal, Bool.false_eq_true, if_false, digitsValue_decimal]
  exact if_pos ⟨decimal_ne_nil n, hall, by omega, by omega⟩

/-- `%d`. -/
def intText (n : Int) : Bytes :=
  if n < 0 then 45 :: decimal n.natAbs else decimal n.natAbs

theorem lexicalCastInt_intText {n : Int} (h : -2 ^ 31 ≤ n) (h' : n < 2 ^ 31) :
    lexicalCastInt (intText n) = some n := by
  unfold intText
  split
  · have hall : (decimal n.natAbs).all isDigit = true := all_isDigit_decimal _
    unfold lexicalCastInt
    simp only [readSign, if_true, digitsValue_decimal]
    rw [if_pos ⟨decimal_ne_nil _, hall, by omega, by omega⟩]
    exact congrArg some (by omega)
  · rw [lexicalCastInt_decimal (by omega)]
    exact congrArg some (by omega)

end Flingd
