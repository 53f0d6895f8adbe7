import AstraCore.CheckedBytes

namespace AstraCore.LossyUtf8
open CheckedBytes List

def asBytes (s : String) : Bytes := s.toList.flatMap String.utf8EncodeChar

theorem asBytes_toByteArray : (asBytes s).toByteArray = s.toByteArray := by
  have same := String.toByteArray_ofList (l := s.toList)
  rw [String.ofList_toList] at same
  exact same.symm

def decodeFirst (bytes : Bytes) : Option Char := bytes.toByteArray.utf8DecodeChar? 0

def isContinuation (b : UInt8) : Bool := 0x80 ≤ b && b ≤ 0xBF

-- The second bytes that may follow a first byte of a longer sequence. Overlong forms,
-- surrogates and values above U+10FFFF are already ruled out here.
def secondAllowed (first second : UInt8) : Bool :=
  if first = 0xE0 then 0xA0 ≤ second && second ≤ 0xBF
  else if first = 0xED then 0x80 ≤ second && second ≤ 0x9F
  else if first = 0xF0 then 0x90 ≤ second && second ≤ 0xBF
  else if first = 0xF4 then 0x80 ≤ second && second ≤ 0x8F
  else isContinuation second

-- How many bytes one replacement character stands for when no character starts the input:
-- the longest part that still could have become one. A missing byte counts as 0.
def brokenLength (bytes : Bytes) : Nat :=
  let first := bytes.getD 0 0
  if first < 0xE0 || first > 0xF4 then 1
  else if !secondAllowed first (bytes.getD 1 0) then 1
  else if first < 0xF0 then 2
  else if isContinuation (bytes.getD 2 0) then 3
  else 2

def replacement : Char := Char.ofNat 0xFFFD

def decodeLoop (bytes : Bytes) : List Char :=
  match bytes with
  | [] => []
  | first :: rest =>
    match decodeFirst (first :: rest) with
    | some c => c :: decodeLoop (rest.drop (c.utf8Size - 1))
    | none => replacement :: decodeLoop (rest.drop (brokenLength (first :: rest) - 1))
termination_by bytes.length
decreasing_by all_goals simp only [List.length_cons,List.length_drop]; omega

def fromUtf8Lossy (bytes : Bytes) : String := String.ofList (decodeLoop bytes)

theorem decodeFirst_encoded (c rest) : decodeFirst (String.utf8EncodeChar c ++ rest) = some c := by
  rw [decodeFirst,toByteArray_append]
  exact ByteArray.utf8DecodeChar?_utf8EncodeChar_append

theorem decodeLoop_char (c rest) : decodeLoop (String.utf8EncodeChar c ++ rest) = c :: decodeLoop rest := by
  have first := decodeFirst_encoded c rest
  have width := String.length_utf8EncodeChar c
  have positive := Char.utf8Size_pos c
  cases shape : String.utf8EncodeChar c with
  | nil => rw [shape,length_nil] at width; omega
  | cons b more =>
    rw [shape] at first width
    rw [cons_append] at first ⊢
    rw [decodeLoop,first]
    have tail : (more ++ rest).drop (c.utf8Size - 1) = rest := drop_front (by rw [length_cons] at width; omega) _
    dsimp only
    rw [tail]

theorem decodeLoop_encoded : decodeLoop (chars.flatMap String.utf8EncodeChar) = chars := by
  induction chars with
  | nil => rw [flatMap_nil,decodeLoop]
  | cons c chars ih => rw [flatMap_cons,decodeLoop_char,ih]

theorem fromUtf8Lossy_asBytes (s) : fromUtf8Lossy (asBytes s) = s := by
  rw [fromUtf8Lossy,asBytes,decodeLoop_encoded,String.ofList_toList]

def fromUtf8 (bytes : Bytes) : Option String := String.fromUTF8? bytes.toByteArray

theorem fromUtf8_asBytes (s) : fromUtf8 (asBytes s) = some s := by
  rw [fromUtf8,asBytes_toByteArray,String.fromUTF8?,dif_pos s.isValidUTF8]
  rfl

theorem fromUtf8_eq_some (decoded : fromUtf8 bytes = some s) : asBytes s = bytes := by
  unfold fromUtf8 String.fromUTF8? at decoded
  split at decoded
  · have whole : s.toByteArray = bytes.toByteArray := by
      rw [← Option.some.inj decoded]
      rfl
    have same := congrArg (fun bytes : ByteArray => bytes.data.toList) ((asBytes_toByteArray).trans whole)
    simpa using same
  · cases decoded

section
variable (chars : List Char)

theorem chars_le_bytes : chars.length ≤ (chars.flatMap String.utf8EncodeChar).length := by
  induction chars with
  | nil => exact Nat.le_refl 0
  | cons c chars ih =>
    have positive := Char.utf8Size_pos c
    rw [flatMap_cons,length_append,String.length_utf8EncodeChar,length_cons]
    omega

theorem decodeLoop_length (bytes) : (decodeLoop bytes).length ≤ bytes.length := by
  fun_induction decodeLoop bytes with
  | case1 => exact Nat.le_refl 0
  | case2 first rest c found ih =>
    rw [length_drop] at ih
    simp only [length_cons]
    omega
  | case3 first rest none ih =>
    rw [length_drop] at ih
    simp only [length_cons]
    omega

theorem encoded_length : (chars.flatMap String.utf8EncodeChar).length ≤ 4 * chars.length := by
  induction chars with
  | nil => simp
  | cons c chars ih =>
    have small := Char.utf8Size_le_four c
    rw [flatMap_cons,length_append,String.length_utf8EncodeChar,length_cons]
    omega

theorem decodeLoop_cut (cut : n + 16 ≤ (chars.flatMap String.utf8EncodeChar).length) :
    (decodeLoop ((chars.flatMap String.utf8EncodeChar).take n)).length < chars.length := by
  induction chars generalizing n with
  | nil => simp at cut
  | cons c chars ih =>
    have small := Char.utf8Size_le_four c
    have width := String.length_utf8EncodeChar c
    have all := encoded_length (c :: chars)
    by_cases whole : c.utf8Size ≤ n
    · rw [flatMap_cons,length_append] at cut
      have later := ih (n := n - c.utf8Size) (by omega)
      rw [flatMap_cons,take_append,take_of_length_le (by omega),width,decodeLoop_char]
      simp only [length_cons]
      omega
    · have read := decodeLoop_length (((c :: chars).flatMap String.utf8EncodeChar).take n)
      rw [length_take] at read
      omega

end

theorem fromUtf8Lossy_cut (s) (cut : n + 16 ≤ (asBytes s).length) : fromUtf8Lossy ((asBytes s).take n) ≠ s := by
  intro same
  have chars := congrArg String.toList same
  rw [fromUtf8Lossy,String.toList_ofList] at chars
  have shorter := decodeLoop_cut s.toList cut
  rw [asBytes] at chars
  rw [chars] at shorter
  omega

end AstraCore.LossyUtf8
