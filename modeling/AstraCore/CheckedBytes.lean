import Mathlib.Data.List.Basic
import Mathlib.Tactic.Ring

namespace AstraCore.CheckedBytes
open List

abbrev Bytes := List UInt8

-- What ends a computation instead of a value. Plain machine arithmetic wraps
-- (a release build without overflow checks), so overflow is not listed here.
inductive Panic where
  | sliceIndex
  | conversion
  | divideByZero
  | capacity
deriving DecidableEq, Repr

abbrev Checked := Except Panic

theorem checked_bind {next : α → Except ε β} (finished : (first >>= next) = .ok result) : ∃ value, first = .ok value ∧ next value = .ok result := by
  cases first with
  | error fault => cases finished
  | ok value => exact ⟨value,rfl,finished⟩

@[simp] theorem ok_bind (value) (next : α → Except ε β) : ((.ok value : Except ε α) >>= next) = next value := rfl
@[simp] theorem error_bind (fault : ε) (next : α → Except ε β) : ((.error fault : Except ε α) >>= next) = .error fault := rfl

theorem toOption_ok {result : Except ε α} (returned : result.toOption = some value) : result = .ok value := by
  cases result with
  | error fault => cases returned
  | ok same => exact congrArg Except.ok (Option.some.inj returned)

theorem toOption_bind (first : Except ε α) (next : α → Except ε β) :
    (first >>= next).toOption = first.toOption.bind fun value => (next value).toOption := by
  cases first with
  | error fault | ok value => rfl

def div32 (n d : UInt32) : Checked UInt32 := if d = 0 then .error .divideByZero else .ok (n / d)

-- `data[lo..hi]`, `data[lo..]` and `data[i]` with the index checks of the language.
def slice (data : Bytes) (lo hi : Nat) : Checked Bytes :=
  if lo ≤ hi ∧ hi ≤ data.length then .ok ((data.drop lo).take (hi - lo)) else .error .sliceIndex

def sliceFrom (data : Bytes) (lo : Nat) : Checked Bytes := slice data lo data.length

def byteAt (data : Bytes) (index : Nat) : Checked UInt8 :=
  match data[index]? with
  | some byte => .ok byte
  | none => .error .sliceIndex

theorem slice_ok (ordered : lo ≤ hi) (bounded : hi ≤ data.length) : slice data lo hi = .ok ((data.drop lo).take (hi - lo)) := by
  simp [slice,ordered,bounded]

theorem slice_panics (beyond : data.length < hi) : slice data lo hi = .error .sliceIndex := by
  have outside : ¬ (lo ≤ hi ∧ hi ≤ data.length) := by omega
  simp [slice,outside]

theorem sliceFrom_ok (bounded : lo ≤ data.length) : sliceFrom data lo = .ok (data.drop lo) := by
  rw [sliceFrom,slice_ok bounded (Nat.le_refl _),take_of_length_le]
  simp

theorem byteAt_ok (found : data[index]? = some byte) : byteAt data index = .ok byte := by
  simp [byteAt,found]

theorem byteAt_within (inside : pos < data.length) : byteAt data pos = .ok (data.getD pos 0) := by
  rw [byteAt,getElem?_eq_getElem inside,getD_eq_getElem?_getD,getElem?_eq_getElem inside]
  rfl

theorem take_front (width : front.length = n) (rest : Bytes) : (front ++ rest).take n = front := by
  rw [← width,take_left]
theorem drop_front (width : front.length = n) (rest : Bytes) : (front ++ rest).drop n = rest := by
  rw [← width,drop_left]
theorem drop_prefix (front : data <+: whole) (n) : data.drop n <+: whole.drop n := by
  obtain ⟨rest,rfl⟩ := front
  simp [drop_append]
theorem getD_front (width : front.length = n) (rest : Bytes) (k) : (front ++ rest).getD (n + k) 0 = rest.getD k 0 := by
  rw [getD_eq_getElem?_getD,getElem?_append_right (by omega),← getD_eq_getElem?_getD]
  congr 1
  omega

def toBe : Nat → Nat → Bytes
  | 0,_ => []
  | width+1,n => UInt8.ofNat (n / 256^width) :: toBe width n

def ofBe : Bytes → Nat
  | [] => 0
  | byte :: rest => byte.toNat * 256^rest.length + ofBe rest

@[simp] theorem toBe_length (width n) : (toBe width n).length = width := by
  induction width with
  | zero => rfl
  | succ width ih => simp [toBe,ih]

theorem ofBe_toBe (width n) : ofBe (toBe width n) = n % 256^width := by
  induction width with
  | zero => simp [toBe,ofBe,Nat.mod_one]
  | succ width ih =>
    have digit : (UInt8.ofNat (n / 256^width)).toNat = n / 256^width % 256 := by simp
    rw [toBe,ofBe,ih,toBe_length,digit,Nat.pow_succ,Nat.mod_mul]
    ring

def u16ToBe (n : UInt16) : Bytes := toBe 2 n.toNat
def u32ToBe (n : UInt32) : Bytes := toBe 4 n.toNat

section
variable (bytes : Bytes)

def be16 : UInt16 := UInt16.ofNat (ofBe bytes)
def be32 : UInt32 := UInt32.ofNat (ofBe bytes)

def u16FromBe : Checked UInt16 :=
  if bytes.length = 2 then .ok (be16 bytes) else .error .conversion

def u32FromBe : Checked UInt32 :=
  if bytes.length = 4 then .ok (be32 bytes) else .error .conversion

end

theorem u16FromBe_ok (width : bytes.length = 2) : u16FromBe bytes = .ok (be16 bytes) := by
  simp [u16FromBe,width]

theorem u32FromBe_ok (width : bytes.length = 4) : u32FromBe bytes = .ok (be32 bytes) := by
  simp [u32FromBe,width]

@[simp] theorem u16ToBe_length (n) : (u16ToBe n).length = 2 := toBe_length 2 _
@[simp] theorem u32ToBe_length (n) : (u32ToBe n).length = 4 := toBe_length 4 _

@[simp] theorem be16_roundtrip (n) : be16 (u16ToBe n) = n := by
  have small : n.toNat < 256^2 := UInt16.toNat_lt n
  rw [be16,u16ToBe,ofBe_toBe,Nat.mod_eq_of_lt small,UInt16.ofNat_toNat]

@[simp] theorem be32_roundtrip (n) : be32 (u32ToBe n) = n := by
  have small : n.toNat < 256^4 := UInt32.toNat_lt n
  rw [be32,u32ToBe,ofBe_toBe,Nat.mod_eq_of_lt small,UInt32.ofNat_toNat]

end AstraCore.CheckedBytes
