import AstraCore.TextScan
import Mathlib.Data.List.GetD

namespace AstraCore.Base64
open CheckedBytes TextScan List

-- The standard alphabet with padding. The decoder takes canonical text only: the padding must be there and the bits it
-- stands for must be zero.
def alphabet : Text := "ABCDEFGHIJKLMNOPQRSTUVWXYZabcdefghijklmnopqrstuvwxyz0123456789+/".toList

def letter (n : Nat) : Char := alphabet.getD n '='

def sextet (c : Char) : Option Nat := if c ∈ alphabet then some (alphabet.idxOf c) else none

def encode : Bytes → Text
  | [] => []
  | [a] => [letter (a.toNat / 4),letter (a.toNat % 4 * 16),'=','=']
  | [a,b] => [letter (a.toNat / 4),letter (a.toNat % 4 * 16 + b.toNat / 16),letter (b.toNat % 16 * 4),'=']
  | a :: b :: c :: rest =>
    letter (a.toNat / 4) :: letter (a.toNat % 4 * 16 + b.toNat / 16) :: letter (b.toNat % 16 * 4 + c.toNat / 64) ::
      letter (c.toNat % 64) :: encode rest

def decode : Text → Option Bytes
  | [] => some []
  | a :: b :: c :: d :: rest => do
    let w ← sextet a
    let x ← sextet b
    if c = '=' ∧ d = '=' ∧ rest = [] then
      if x % 16 = 0 then some [UInt8.ofNat (w * 4 + x / 16)] else none
    else do
      let y ← sextet c
      if d = '=' ∧ rest = [] then
        if y % 4 = 0 then some [UInt8.ofNat (w * 4 + x / 16),UInt8.ofNat (x % 16 * 16 + y / 4)] else none
      else do
        let z ← sextet d
        let more ← decode rest
        some (UInt8.ofNat (w * 4 + x / 16) :: UInt8.ofNat (x % 16 * 16 + y / 4) :: UInt8.ofNat (y % 4 * 64 + z) :: more)
  | _ => none

theorem alphabet_proper : alphabet.length = 64 ∧ alphabet.Nodup ∧ '=' ∉ alphabet ∧ alphabet.all (fun c => !isWhitespace c) = true := by
  decide +kernel

theorem letter_at (small : n < 64) : ∃ inside, letter n = alphabet[n] := by
  have inside : n < alphabet.length := by rw [alphabet_proper.1]; exact small
  exact ⟨inside,getD_eq_getElem _ _ inside⟩

theorem letter_member (small : n < 64) : letter n ∈ alphabet := by
  obtain ⟨inside,same⟩ := letter_at small
  rw [same]
  exact getElem_mem inside

theorem sextet_letter (small : n < 64) : sextet (letter n) = some n := by
  obtain ⟨inside,same⟩ := letter_at small
  rw [sextet,if_pos (letter_member small),same,alphabet_proper.2.1.idxOf_getElem]

theorem letter_sextet (found : sextet c = some n) : n < 64 ∧ letter n = c := by
  unfold sextet at found
  split at found
  · rename_i present
    cases Option.some.inj found
    have inside := idxOf_lt_length_iff.mpr present
    exact ⟨inside,by rw [letter,getD_eq_getElem _ _ inside,getElem_idxOf]⟩
  · cases found

theorem letter_ne_pad (small : n < 64) : letter n ≠ '=' :=
  fun same => alphabet_proper.2.2.1 (same ▸ letter_member small)

theorem letter_solid (small : n < 64) : isWhitespace (letter n) = false := by
  simpa using all_eq_true.mp alphabet_proper.2.2.2 _ (letter_member small)

theorem encode_solid (bytes) : ∀ c ∈ encode bytes, isWhitespace c = false := by
  have pad : isWhitespace '=' = false := rfl
  induction bytes using encode.induct with
  | case1 => simp [encode]
  | case2 a =>
    have := a.toNat_lt
    simp [encode,letter_solid (by omega : a.toNat / 4 < 64),letter_solid (by omega : a.toNat % 4 * 16 < 64),pad]
  | case3 a b =>
    have := a.toNat_lt
    have := b.toNat_lt
    simp [encode,letter_solid (by omega : a.toNat / 4 < 64),letter_solid (by omega : a.toNat % 4 * 16 + b.toNat / 16 < 64),
      letter_solid (by omega : b.toNat % 16 * 4 < 64),pad]
  | case4 a b c rest ih =>
    have := a.toNat_lt
    have := b.toNat_lt
    have := c.toNat_lt
    simpa [encode,letter_solid (by omega : a.toNat / 4 < 64),letter_solid (by omega : a.toNat % 4 * 16 + b.toNat / 16 < 64),
      letter_solid (by omega : b.toNat % 16 * 4 + c.toNat / 64 < 64),letter_solid (by omega : c.toNat % 64 < 64)] using ih

theorem bind_some (value) (next : α → Option β) : (some value >>= next) = next value := rfl

theorem decode_encode (bytes) : decode (encode bytes) = some bytes := by
  induction bytes using encode.induct with
  | case1 => rfl
  | case2 a =>
    have := a.toNat_lt
    rw [encode,decode,sextet_letter (by omega),sextet_letter (by omega),bind_some,bind_some,if_pos ⟨rfl,rfl,rfl⟩,
      if_pos (by omega),show a.toNat / 4 * 4 + a.toNat % 4 * 16 / 16 = a.toNat by omega,UInt8.ofNat_toNat]
  | case3 a b =>
    have := a.toNat_lt
    have := b.toNat_lt
    have third : letter (b.toNat % 16 * 4) ≠ '=' := letter_ne_pad (by omega)
    rw [encode,decode,sextet_letter (by omega),sextet_letter (by omega),bind_some,bind_some,if_neg (fun pads => third pads.1),
      sextet_letter (by omega),bind_some,if_pos ⟨rfl,rfl⟩,if_pos (by omega),show a.toNat / 4 * 4 + (a.toNat % 4 * 16 + b.toNat / 16) / 16 = a.toNat by omega,
      show (a.toNat % 4 * 16 + b.toNat / 16) % 16 * 16 + b.toNat % 16 * 4 / 4 = b.toNat by omega,UInt8.ofNat_toNat,UInt8.ofNat_toNat]
  | case4 a b c rest ih =>
    have := a.toNat_lt
    have := b.toNat_lt
    have := c.toNat_lt
    have third : letter (b.toNat % 16 * 4 + c.toNat / 64) ≠ '=' := letter_ne_pad (by omega)
    have fourth : letter (c.toNat % 64) ≠ '=' := letter_ne_pad (by omega)
    rw [encode,decode,sextet_letter (by omega),sextet_letter (by omega),bind_some,bind_some,if_neg (fun pads => third pads.1),
      sextet_letter (by omega),bind_some,if_neg (fun pads => fourth pads.1),sextet_letter (by omega),bind_some,ih,bind_some,
      show a.toNat / 4 * 4 + (a.toNat % 4 * 16 + b.toNat / 16) / 16 = a.toNat by omega,
      show (a.toNat % 4 * 16 + b.toNat / 16) % 16 * 16 + (b.toNat % 16 * 4 + c.toNat / 64) / 4 = b.toNat by omega,
      show (b.toNat % 16 * 4 + c.toNat / 64) % 4 * 64 + c.toNat % 64 = c.toNat by omega,UInt8.ofNat_toNat,UInt8.ofNat_toNat,UInt8.ofNat_toNat]

theorem ofNat_byte (small : n < 256) : (UInt8.ofNat n).toNat = n := by
  rw [UInt8.toNat_ofNat']
  omega

theorem decode_canonical (text) (decoded : decode text = some bytes) : encode bytes = text := by
  induction text using decode.induct generalizing bytes with
  | case1 =>
    cases Option.some.inj decoded
    rfl
  | case2 a b c d rest ih =>
    rw [decode] at decoded
    obtain ⟨w,first,fromSecond⟩ := Option.bind_eq_some_iff.mp decoded
    obtain ⟨x,second,fromThird⟩ := Option.bind_eq_some_iff.mp fromSecond
    obtain ⟨wSmall,rfl⟩ := letter_sextet first
    obtain ⟨xSmall,rfl⟩ := letter_sextet second
    split at fromThird
    · rename_i pads
      obtain ⟨rfl,rfl,rfl⟩ := pads
      split at fromThird
      · cases Option.some.inj fromThird
        rw [encode,ofNat_byte (by omega),show (w * 4 + x / 16) / 4 = w by omega,show (w * 4 + x / 16) % 4 * 16 = x by omega]
      · cases fromThird
    · obtain ⟨y,third,fromFourth⟩ := Option.bind_eq_some_iff.mp fromThird
      obtain ⟨ySmall,rfl⟩ := letter_sextet third
      split at fromFourth
      · rename_i pad
        obtain ⟨rfl,rfl⟩ := pad
        split at fromFourth
        · cases Option.some.inj fromFourth
          rw [encode,ofNat_byte (by omega),ofNat_byte (by omega),show (w * 4 + x / 16) / 4 = w by omega,
            show (w * 4 + x / 16) % 4 * 16 + (x % 16 * 16 + y / 4) / 16 = x by omega,show (x % 16 * 16 + y / 4) % 16 * 4 = y by omega]
        · cases fromFourth
      · obtain ⟨z,fourth,fromRest⟩ := Option.bind_eq_some_iff.mp fromFourth
        obtain ⟨more,later,whole⟩ := Option.bind_eq_some_iff.mp fromRest
        obtain ⟨zSmall,rfl⟩ := letter_sextet fourth
        cases Option.some.inj whole
        rw [encode,ih later,ofNat_byte (by omega),ofNat_byte (by omega),ofNat_byte (by omega),
          show (w * 4 + x / 16) / 4 = w by omega,show (w * 4 + x / 16) % 4 * 16 + (x % 16 * 16 + y / 4) / 16 = x by omega,
          show (x % 16 * 16 + y / 4) % 16 * 4 + (y % 4 * 64 + z) / 64 = y by omega,show (y % 4 * 64 + z) % 64 = z by omega]
  | case3 text notEmpty notFour =>
    grind [decode]

end AstraCore.Base64
