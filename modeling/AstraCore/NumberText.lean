import AstraCore.AddressText

namespace AstraCore.NumberText
open TextScan AddressText List

-- `from_str_radix` of an unsigned type, `bound` being its greatest value. The first character that is no digit or makes the
-- number too large decides on the error.
def digitsLoop (radix bound : Nat) : Nat → Text → Except String Nat
  | n,[] => .ok n
  | n,c :: rest =>
    if isDigit radix c then
      if bound < radix * n + digitValue c then .error "number too large to fit in target type"
      else digitsLoop radix bound (radix * n + digitValue c) rest
    else .error "invalid digit found in string"

def fromStrRadix (radix bound : Nat) (text : Text) : Except String Nat :=
  match text with
  | [] => .error "cannot parse integer from empty string"
  | '+' :: rest => if rest = [] then .error "invalid digit found in string" else digitsLoop radix bound 0 rest
  | text => digitsLoop radix bound 0 text

def parseUnsigned (bound : Nat) (text : Text) : Except String Nat := fromStrRadix 10 bound text

def maxU8 : Nat := 2 ^ 8 - 1
def maxU64 : Nat := 2 ^ 64 - 1

def upperHex (n : Nat) : Text := (Nat.toDigits 16 n).map Char.toUpper

def numberOf (radix : Nat) (digits : Text) : Nat := digits.foldl (fun n c => radix * n + digitValue c) 0

theorem digitsLoop_digits (digits : ∀ c ∈ text, isDigit radix c = true) (n) (positive : 0 < radix)
    (small : text.foldl (fun n c => radix * n + digitValue c) n ≤ bound) :
    digitsLoop radix bound n text = .ok (text.foldl (fun n c => radix * n + digitValue c) n) := by
  induction text generalizing n with
  | nil => rfl
  | cons c rest ih =>
    have later : ∀ c ∈ rest, isDigit radix c = true := fun c inside => digits c (mem_cons_of_mem _ inside)
    have grows : ∀ m, m ≤ rest.foldl (fun n c => radix * n + digitValue c) m := by
      clear ih small later digits
      induction rest with
      | nil => exact fun m => Nat.le_refl m
      | cons d more ih =>
        intro m
        have wider := Nat.le_mul_of_pos_left m positive
        exact Nat.le_trans (by omega) (ih (radix * m + digitValue d))
    have fits := Nat.not_lt.mpr (Nat.le_trans (grows _) small)
    rw [digitsLoop,if_pos (digits c (mem_cons_self ..)),if_neg fits]
    exact ih later _ small

theorem fromStrRadix_digits (digits : ∀ c ∈ text, isDigit radix c = true) (present : text ≠ []) (positive : 0 < radix)
    (small : numberOf radix text ≤ bound) : fromStrRadix radix bound text = .ok (numberOf radix text) := by
  unfold fromStrRadix
  split
  · exact absurd rfl present
  · have plus := digits '+' (mem_cons_self ..)
    rw [isDigit] at plus
    simp at plus
  · exact digitsLoop_digits digits 0 positive small

theorem numberOf_toDigits (wide : 1 < radix) (shown) (values : ∀ d, d < radix → digitValue (shown (Nat.digitChar d)) = d)
    (n) : numberOf radix ((Nat.toDigits radix n).map shown) = n := by
  induction n using Nat.strongRecOn with
  | ind n ih =>
    rw [Nat.toDigits_eq_if wide]
    split
    · rename_i small
      rw [numberOf,map_singleton,foldl_cons,Nat.mul_zero,Nat.zero_add]
      exact values n small
    · have less : n / radix < n := Nat.div_lt_self (by omega) wide
      have front := ih (n / radix) less
      rw [numberOf] at front
      rw [numberOf,map_append,foldl_append,front,map_singleton,foldl_cons,values _ (Nat.mod_lt n (by omega))]
      exact Nat.div_add_mod n radix

theorem toDigits_shown (wide : 1 < radix) (inside : c ∈ Nat.toDigits radix n) : ∃ d, d < radix ∧ c = Nat.digitChar d := by
  induction n using Nat.strongRecOn with
  | ind n ih =>
    rw [Nat.toDigits_eq_if wide] at inside
    split at inside
    · exact ⟨n,‹_›,mem_singleton.mp inside⟩
    · rcases mem_append.mp inside with front | last
      · exact ih (n / radix) (Nat.div_lt_self (by omega) wide) front
      · exact ⟨n % radix,Nat.mod_lt n (by omega),mem_singleton.mp last⟩

theorem upperHex_digits (n) : ∀ c ∈ upperHex n, isDigit 16 c = true := by
  have all : ∀ d, d < 16 → isDigit 16 (Nat.digitChar d).toUpper = true := by decide
  intro c inside
  obtain ⟨digit,member,rfl⟩ := mem_map.mp inside
  obtain ⟨d,small,rfl⟩ := toDigits_shown (by decide) member
  exact all d small

theorem upperHex_present (n) : upperHex n ≠ [] := by
  rw [upperHex,Ne,map_eq_nil_iff]
  exact Nat.toDigits_ne_nil

theorem fromStrRadix_upperHex (small : n ≤ bound) : fromStrRadix 16 bound (upperHex n) = .ok n := by
  have value : numberOf 16 (upperHex n) = n := numberOf_toDigits (by decide) Char.toUpper (by decide) n
  rw [fromStrRadix_digits (upperHex_digits n) (upperHex_present n) (by decide) (by omega),value]

end AstraCore.NumberText
