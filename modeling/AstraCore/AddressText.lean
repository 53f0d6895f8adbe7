import AstraCore.NetAddress
import AstraCore.TextScan
import Mathlib.Data.Nat.Digits.Defs

namespace AstraCore.AddressText
open CheckedBytes NetAddress TextScan List

def decimal (n : Nat) : Text := Nat.toDigits 10 n

def displayIpv4 (ip : Octets 4) : Text :=
  decimal (ip.val.getD 0 0).toNat ++ '.' :: (decimal (ip.val.getD 1 0).toNat ++
    '.' :: (decimal (ip.val.getD 2 0).toNat ++ '.' :: decimal (ip.val.getD 3 0).toNat))

def segments (ip : Octets 16) : List Nat :=
  (List.range 8).map fun i => (ip.val.getD (2 * i) 0).toNat * 256 + (ip.val.getD (2 * i + 1) 0).toNat

def longestZeros (groups : List Nat) : Nat × Nat :=
  (List.range groups.length).foldl (fun best start =>
    let run := ((groups.drop start).takeWhile (· = 0)).length
    if best.2 < run then (start,run) else best) (0,0)

def groupsText (groups : List Nat) : Text := [':'].intercalate (groups.map (Nat.toDigits 16))

theorem mapped_width (ip : Octets 16) : (ip.val.drop 12).length = 4 := by
  rw [length_drop,ip.property]

def displayIpv6 (ip : Octets 16) : Text :=
  let groups := segments ip
  if groups.take 6 = [0,0,0,0,0,0xFFFF] then
    "::ffff:".toList ++ displayIpv4 ⟨ip.val.drop 12,mapped_width ip⟩
  else
    let (start,run) := longestZeros groups
    if 1 < run then groupsText (groups.take start) ++ ':' :: ':' :: groupsText (groups.drop (start + run))
    else groupsText groups

def isDigit (radix : Nat) (c : Char) : Bool :=
  c.isDigit || (radix = 16 && (('a' ≤ c && c ≤ 'f') || ('A' ≤ c && c ≤ 'F')))

def digitValue (c : Char) : Nat :=
  if c.isDigit then c.toNat - 48 else if 'a' ≤ c then c.toNat - 87 else c.toNat - 55

def readNumber (radix maxDigits bound : Nat) (allowZeroPrefix : Bool) (text : Text) : Option (Nat × Text) :=
  let digits := text.takeWhile (isDigit radix)
  let value := digits.foldl (fun n c => radix * n + digitValue c) 0
  if digits = [] ∨ maxDigits < digits.length ∨ bound < value then none
  else if allowZeroPrefix = false ∧ digits.head? = some '0' ∧ 1 < digits.length then none
  else some (value,text.dropWhile (isDigit radix))

def readSeparator (mark : Char) (index : Nat) (inner : Text → Option (α × Text)) (text : Text) : Option (α × Text) :=
  if index = 0 then inner text
  else
    match text with
    | [] => none
    | c :: rest => if c = mark then inner rest else none

def readOctet (index : Nat) (text : Text) : Option (Nat × Text) :=
  readSeparator '.' index (readNumber 10 3 255 false) text

def readIpv4 (text : Text) : Option (Octets 4 × Text) := do
  let (a,text) ← readOctet 0 text
  let (b,text) ← readOctet 1 text
  let (c,text) ← readOctet 2 text
  let (d,text) ← readOctet 3 text
  some (⟨[UInt8.ofNat a,UInt8.ofNat b,UInt8.ofNat c,UInt8.ofNat d],rfl⟩,text)

def parseIpv4 (text : Text) : Option (Octets 4) :=
  if 15 < text.bytes.length then none
  else
    match readIpv4 text with
    | some (ip,[]) => some ip
    | _ => none

-- Up to `left` further groups; an IPv4 address may stand for the last two.
def readGroups : (left : Nat) → (groups : List Nat) → Text → List Nat × Bool × Text
  | 0,groups,text => (groups,false,text)
  | left + 1,groups,text =>
    match if 0 < left then readSeparator ':' groups.length readIpv4 text else none with
    | some (ip,rest) =>
      (groups ++ [(ip.val.getD 0 0).toNat * 256 + (ip.val.getD 1 0).toNat,(ip.val.getD 2 0).toNat * 256 + (ip.val.getD 3 0).toNat],
        true,rest)
    | none =>
      match readSeparator ':' groups.length (readNumber 16 4 0xFFFF true) text with
      | some (group,rest) => readGroups left (groups ++ [group]) rest
      | none => (groups,false,text)

def groupBytes (groups : List Nat) : Bytes := (List.range 8).flatMap fun i => u16ToBe (UInt16.ofNat (groups.getD i 0))

theorem groupBytes_length : (groupBytes groups).length = 16 := by
  simp [groupBytes]

def ofGroups (groups : List Nat) : Octets 16 := ⟨groupBytes groups,groupBytes_length⟩

section
variable (text : Text)

def readIpv6 : Option (Octets 16 × Text) :=
  match readGroups 8 [] text with
  | (front,embedded,text) =>
    if front.length = 8 then some (ofGroups front,text)
    else if embedded then none
    else
      match text with
      | ':' :: ':' :: text =>
        match readGroups (8 - (front.length + 1)) [] text with
        | (back,_,text) => some (ofGroups (front ++ List.replicate (8 - front.length - back.length) 0 ++ back),text)
      | _ => none

def parseIpv6 : Option (Octets 16) :=
  match readIpv6 text with
  | some (ip,[]) => some ip
  | _ => none

def displayAddress : Address → Text
  | .ipv4 ip => displayIpv4 ip
  | .ipv6 ip => '[' :: (displayIpv6 ip ++ [']'])
  | .domain name => name.toList

def bracketed : Text → Option Text
  | '[' :: rest => if rest.getLast? = some ']' then some rest.dropLast else none
  | _ => none

def parseAddress : Address :=
  match (bracketed text).bind parseIpv6 with
  | some ip => .ipv6 ip
  | none =>
    match parseIpv4 text with
    | some ip => .ipv4 ip
    | none =>
      match parseIpv6 text with
      | some ip => .ipv6 ip
      | none => .domain (String.ofList text)

def parseU16 : Option UInt16 :=
  let digits := match text with
    | '+' :: rest => rest
    | _ => text
  if digits = [] ∨ ¬ digits.all Char.isDigit ∨ 65535 < Nat.ofDigitChars 10 digits 0 then none
  else some (UInt16.ofNat (Nat.ofDigitChars 10 digits 0))

end

theorem decimal_digits (n) : ∀ c ∈ decimal n, c.isDigit = true := fun _ inside =>
  Nat.isDigit_of_mem_toDigits (by decide) (by decide) inside

theorem octet_decimal (small : n < 256) : decimal n ≠ [] ∧ (decimal n).length ≤ 3 ∧ (decimal n).foldl (fun n c => 10 * n + digitValue c) 0 = n ∧
      ((decimal n).head? = some '0' → (decimal n).length ≤ 1) := by
  have all : ∀ k : Fin 256, decimal k ≠ [] ∧ (decimal k).length ≤ 3 ∧ (decimal k).foldl (fun n c => 10 * n + digitValue c) 0 = k.val ∧
        ((decimal k).head? = some '0' → (decimal k).length ≤ 1) := by
    decide +kernel
  exact all ⟨n,small⟩

theorem decimal_taken (n) (apart : ∀ c ∈ rest.head?, isDigit 10 c = false) :
    (decimal n ++ rest).takeWhile (isDigit 10) = decimal n ∧ (decimal n ++ rest).dropWhile (isDigit 10) = rest := by
  have digits : ∀ c ∈ decimal n, isDigit 10 c = true := fun c inside => by
    rw [isDigit,decimal_digits n c inside,Bool.true_or]
  rw [takeWhile_append_of_pos digits,dropWhile_append_of_pos digits]
  cases rest with
  | nil => simp
  | cons c tail =>
    have stops := apart c rfl
    simp [stops]

theorem readNumber_decimal (small : n < 256) (rest) (apart : ∀ c ∈ rest.head?, isDigit 10 c = false) :
    readNumber 10 3 255 false (decimal n ++ rest) = some (n,rest) := by
  obtain ⟨present,short,value,zero⟩ := octet_decimal small
  have taken := decimal_taken n apart
  simp only [readNumber,taken.1,taken.2,value]
  rw [if_neg (by simp [present]; omega),if_neg (fun both => by have := zero both.2.1; omega)]

theorem readOctet_first (small : n < 256) : readOctet 0 (decimal n ++ '.' :: rest) = some (n,'.' :: rest) :=
  readNumber_decimal small _ (by simp [isDigit])

theorem readOctet_next (small : n < 256) (apart : ∀ c ∈ rest.head?, isDigit 10 c = false) :
    readOctet (index + 1) ('.' :: (decimal n ++ rest)) = some (n,rest) :=
  readNumber_decimal small rest apart

theorem readIpv4_front (ip rest) (apart : ∀ c ∈ rest.head?, isDigit 10 c = false) : readIpv4 (displayIpv4 ip ++ rest) = some (ip,rest) := by
  obtain ⟨bytes,sized⟩ := ip
  obtain ⟨a,b,c,d,rfl⟩ := length_eq_four.mp sized
  have shape : displayIpv4 ⟨[a,b,c,d],sized⟩ ++ rest =
      decimal a.toNat ++ '.' :: (decimal b.toNat ++ '.' :: (decimal c.toNat ++ '.' :: (decimal d.toNat ++ rest))) := by
    simp [displayIpv4]
  have dot (rest : Text) : ∀ c ∈ ('.' :: rest).head?, isDigit 10 c = false := by simp [isDigit]
  rw [shape]
  unfold readIpv4
  simp only [readOctet_first a.toNat_lt,readOctet_next b.toNat_lt (dot _),readOctet_next c.toNat_lt (dot _),
    readOctet_next d.toNat_lt apart,Option.bind_eq_bind,Option.bind_some,UInt8.ofNat_toNat]

theorem readIpv4_display (ip) : readIpv4 (displayIpv4 ip) = some (ip,[]) := by
  have read := readIpv4_front ip [] (by simp)
  rwa [append_nil] at read

theorem displayIpv4_plain (ip) : ∀ c ∈ displayIpv4 ip, c.isDigit = true ∨ c = '.' := by
  intro c inside
  have digits (n : Nat) (member : c ∈ decimal n) : c.isDigit = true ∨ c = '.' := .inl (decimal_digits n c member)
  simp only [displayIpv4,mem_append,mem_cons] at inside
  rcases inside with first | dot | second | dot | third | dot | fourth
  · exact digits _ first
  · exact .inr dot
  · exact digits _ second
  · exact .inr dot
  · exact digits _ third
  · exact .inr dot
  · exact digits _ fourth

theorem digit_range {c : Char} (digit : c.isDigit = true) : 48 ≤ c.toNat ∧ c.toNat ≤ 57 := by
  simp only [Char.isDigit,Bool.and_eq_true,decide_eq_true_eq] at digit
  exact ⟨UInt32.le_iff_toNat_le.mp digit.1,UInt32.le_iff_toNat_le.mp digit.2⟩

theorem digit_ascii {c : Char} (digit : c.isDigit = true) : c.toNat < 128 := by
  have range := digit_range digit
  omega

theorem digit_solid (digit : c.isDigit = true) : isWhitespace c = false ∧ c ≠ ':' := by
  have range := digit_range digit
  constructor
  · simp only [isWhitespace,Bool.or_eq_false_iff,decide_eq_false_iff_not,beq_eq_false_iff_ne]
    omega
  · rintro rfl
    exact absurd range.2 (by decide)

theorem parseIpv4_display (ip) : parseIpv4 (displayIpv4 ip) = some ip := by
  have ascii : ∀ c ∈ displayIpv4 ip, c.toNat < 128 := by
    intro c inside
    rcases displayIpv4_plain ip c inside with digit | rfl
    · exact digit_ascii digit
    · decide
  have short : (displayIpv4 ip).length ≤ 15 := by
    have one := (octet_decimal (ip.val.getD 0 0).toNat_lt).2.1
    have two := (octet_decimal (ip.val.getD 1 0).toNat_lt).2.1
    have three := (octet_decimal (ip.val.getD 2 0).toNat_lt).2.1
    have four := (octet_decimal (ip.val.getD 3 0).toNat_lt).2.1
    simp only [displayIpv4,length_append,length_cons]
    omega
  rw [parseIpv4,if_neg (by rw [bytes_length ascii]; omega),readIpv4_display]

theorem readNumber_rest (read : readNumber radix maxDigits bound zero text = some (n,rest)) : rest = text.dropWhile (isDigit radix) := by
  simp only [readNumber] at read
  split at read
  · cases read
  · split at read
    · cases read
    · exact (Prod.mk.inj (Option.some.inj read)).2.symm

theorem readSeparator_absent (fresh : mark ∉ text) : readSeparator mark (index + 1) field text = none := by
  cases text with
  | nil => rfl
  | cons c rest =>
    have other : c ≠ mark := fun same => fresh (same ▸ mem_cons_self ..)
    exact if_neg other

theorem readGroups_stops (fresh : ':' ∉ text) : readGroups left [group] text = ([group],false,text) := by
  cases left with
  | zero => rfl
  | succ left => simp only [readGroups,length_singleton,readSeparator_absent fresh,ite_self]

theorem no_colons (fresh : ':' ∉ text) (found : Text → Option α) : (match text with
      | ':' :: ':' :: rest => found rest
      | _ => none) = none := by
  split
  · exact absurd (mem_cons_self ..) fresh
  · rfl

theorem readIpv6_colon (fresh : ':' ∉ text) : readIpv6 text = none := by
  rw [readIpv6,readGroups]
  cases embedded : readSeparator ':' 0 readIpv4 text with
  | some found => simp
  | none =>
    cases first : readSeparator ':' 0 _ text with
    | none =>
      exact no_colons fresh _
    | some found =>
      obtain ⟨group,rest⟩ := found
      have later : ':' ∉ rest := by
        rw [readNumber_rest first]
        exact fun inside => fresh ((dropWhile_sublist _).mem inside)
      simp only [nil_append]
      rw [readGroups_stops later]
      exact no_colons later _

theorem parseIpv6_colon (fresh : ':' ∉ text) : parseIpv6 text = none := by
  rw [parseIpv6,readIpv6_colon fresh]

theorem parseAddress_plain (fresh : ':' ∉ text) : parseAddress text = match parseIpv4 text with
      | some ip => .ipv4 ip
      | none => .domain (String.ofList text) := by
  have inner : (bracketed text).bind parseIpv6 = none := by
    unfold bracketed
    split
    · split
      · exact parseIpv6_colon fun inside => fresh (mem_cons_of_mem _ ((dropLast_sublist _).mem inside))
      · rfl
    · rfl
  rw [parseAddress,inner,parseIpv6_colon fresh]

-- The addresses whose text is read back from between a blank and a colon: no IPv6 address, and of the names those that have
-- neither of these in them and are not read as an IPv4 address.
def Passable : Address → Prop
  | .ipv4 _ => True
  | .ipv6 _ => False
  | .domain name => (∀ c ∈ name.toList, isWhitespace c = false ∧ c ≠ ':') ∧ parseIpv4 name.toList = none

theorem passable_solid (address) (passable : Passable address) : ∀ c ∈ displayAddress address, isWhitespace c = false ∧ c ≠ ':' := by
  cases address with
  | ipv4 ip =>
    intro c inside
    rcases displayIpv4_plain ip c inside with digit | rfl
    · exact digit_solid digit
    · decide
  | ipv6 ip => exact passable.elim
  | domain name => exact passable.1

theorem passable_parse (address) (passable : Passable address) : parseAddress (displayAddress address) = address := by
  rw [parseAddress_plain fun inside => (passable_solid address passable ':' inside).2 rfl]
  cases address with
  | ipv4 ip =>
    rw [displayAddress,parseIpv4_display]
  | ipv6 ip => exact passable.elim
  | domain name =>
    rw [displayAddress,passable.2,String.ofList_toList]

theorem passable_of_parse (solid : ∀ c ∈ text, isWhitespace c = false) (fresh : ':' ∉ text) : Passable (parseAddress text) := by
  rw [parseAddress_plain fresh]
  cases parsed : parseIpv4 text with
  | some ip => exact trivial
  | none =>
    change (∀ c ∈ (String.ofList text).toList,_) ∧ parseIpv4 (String.ofList text).toList = none
    rw [String.toList_ofList]
    exact ⟨fun c inside => ⟨solid c inside,fun same => fresh (same ▸ inside)⟩,parsed⟩

theorem parseU16_decimal (n) : parseU16 (decimal n.toNat) = some n := by
  have digits := decimal_digits n.toNat
  have unsigned : ∀ rest, decimal n.toNat ≠ '+' :: rest := fun rest shape => by
    have plus := digits '+' (by rw [shape]; exact mem_cons_self ..)
    exact absurd plus (by decide)
  have value : Nat.ofDigitChars 10 (decimal n.toNat) 0 = n.toNat := Nat.ofDigitChars_ten_toDigits
  have small := n.toNat_lt
  unfold parseU16
  split
  · exact absurd ‹_› (unsigned _)
  · simp only [value]
    rw [if_neg,UInt16.ofNat_toNat]
    simp only [not_or,not_not,all_eq_true]
    exact ⟨Nat.toDigits_ne_nil,digits,by omega⟩

end AstraCore.AddressText
