import AstraCore.Dispatcher
import AstraCore.TextScan
import Mathlib.Data.Finset.Card
import Mathlib.Data.Finset.Range

namespace AstraCore.Dns
open CheckedBytes NetAddress TextScan LossyUtf8
open Dispatcher (DnsError)

def qtypeA : UInt16 := 1
def qtypeAaaa : UInt16 := 28
def qclassIn : UInt16 := 1
def dnsHeaderSize : Nat := 12
def defaultTtl : UInt32 := 300

-- A label keeps its first 63 bytes, even inside a character.
def encodeLabel (label : Text) : Bytes :=
  let len := min label.bytes.length 63
  UInt8.ofNat len :: label.bytes.take len

def encodeDomainName (domain : Text) : Bytes := (domain.splitOn '.').flatMap encodeLabel ++ [0]

inductive NamePart where
  | root
  | pointer (target : Nat)
  | label (text : String) (next : Nat)

def namePart (data : Bytes) (pos : Nat) : Except String NamePart :=
  match data[pos]? with
  | none => .error "truncated domain name"
  | some byte =>
    let len := byte.toNat
    if len = 0 then .ok .root
    else if len &&& 0xc0 = 0xc0 then
      match data[pos + 1]? with
      | none => .error "truncated pointer"
      | some low => .ok (.pointer (((len &&& 0x3f) <<< 8) ||| low.toNat))
    else if data.length < pos + 1 + len then .error "truncated label"
    else
      match fromUtf8 ((data.drop (pos + 1)).take len) with
      | none => .error "invalid utf8 in domain"
      | some text => .ok (.label text (pos + 1 + len))

-- Pointers are followed without a limit. `jump` is the place behind the first one, where reading goes on afterwards.
def decodeLoop (data : Bytes) : Nat → List String → Nat → Option Nat → Option (Except String (String × Nat))
  | 0,_,_,_ => none
  | fuel + 1,labels,pos,jump =>
    match namePart data pos with
    | .error e => some (.error e)
    | .ok .root => some (.ok (".".intercalate labels,jump.getD (pos + 1)))
    | .ok (.pointer target) => decodeLoop data fuel labels target (some (jump.getD (pos + 2)))
    | .ok (.label text next) => decodeLoop data fuel (labels ++ [text]) next jump

-- A name with more steps than the message has bytes never ends, and then the call never returns: that is `none`.
def decodeDomainName (data : Bytes) (offset : Nat) : Option (Except String (String × Nat)) :=
  decodeLoop data (data.length + 1) [] offset none

def follow (data : Bytes) (pos : Nat) : Option Nat :=
  match namePart data pos with
  | .ok (.pointer target) => some target
  | .ok (.label _ next) => some next
  | _ => none

def walk (data : Bytes) (pos : Nat) : Nat → Option Nat
  | 0 => some pos
  | n + 1 => (walk data pos n).bind (follow data)

theorem walk_first (n) : walk data pos (n + 1) = (follow data pos).bind (walk data · n) := by
  induction n with
  | zero => cases found : follow data pos <;> simp [walk,found]
  | succ n ih =>
    rw [walk,ih,Option.bind_assoc]
    rfl

theorem decodeLoop_unfinished (labels pos jump) : decodeLoop data fuel labels pos jump = none ↔ (walk data pos fuel).isSome := by
  induction fuel generalizing labels pos jump with
  | zero => simp [decodeLoop,walk]
  | succ fuel ih =>
    rw [decodeLoop,walk_first,follow]
    cases namePart data pos with
    | error e => simp
    | ok part =>
      cases part with
      | root => simp
      | pointer target => exact ih labels target _
      | label text next => exact ih (labels ++ [text]) next jump

theorem follow_inside (goes : (follow data pos).isSome) : pos < data.length := by
  by_contra beyond
  have missing := List.getElem?_eq_none (Nat.le_of_not_lt beyond)
  simp [follow,namePart,missing] at goes

theorem walk_before (long : (walk data pos n).isSome) (shorter : m ≤ n) : (walk data pos m).isSome := by
  induction shorter with
  | refl => exact long
  | step _ ih => exact ih (Option.isSome_of_isSome_bind long)

theorem walk_repeats (same : walk data pos i = walk data pos j) : walk data pos (i + r) = walk data pos (j + r) := by
  induction r with
  | zero => exact same
  | succ r ih =>
    rw [← Nat.add_assoc,← Nat.add_assoc,walk,walk,ih]

theorem walk_round (less : i < j) (there : (walk data pos j).isSome) (same : walk data pos i = walk data pos j) (n) : (walk data pos n).isSome := by
  induction n using Nat.strongRecOn with
  | ind n ih =>
    by_cases short : n ≤ j
    · exact walk_before there short
    · have back : walk data pos (i + (n - j)) = walk data pos n := by rw [walk_repeats same,Nat.add_sub_cancel' (by omega)]
      rw [← back]
      exact ih (i + (n - j)) (by omega)

section
variable (long : (walk data pos (data.length + 1)).isSome)
include long

theorem walk_again : ∃ i j, i < j ∧ (walk data pos j).isSome ∧ walk data pos i = walk data pos j := by
  have visits : ∀ i ∈ Finset.range (data.length + 1), walk data pos i ∈ (Finset.range data.length).image some := by
    intro i inside
    have next := walk_before long (Finset.mem_range.mp inside)
    obtain ⟨place,here⟩ := Option.isSome_iff_exists.mp (walk_before next (Nat.le_succ i))
    rw [walk,here] at next
    rw [here]
    exact Finset.mem_image_of_mem _ (Finset.mem_range.mpr (follow_inside next))
  have fewer : ((Finset.range data.length).image some).card < (Finset.range (data.length + 1)).card :=
    Nat.lt_of_le_of_lt Finset.card_image_le (by simp)
  obtain ⟨i,inside,j,other,different,same⟩ := Finset.exists_ne_map_eq_of_card_lt_of_maps_to fewer visits
  rw [Finset.mem_range] at inside other
  rcases Nat.lt_or_gt_of_ne different with less | more
  · exact ⟨i,j,less,walk_before long (by omega),same⟩
  · exact ⟨j,i,more,walk_before long (by omega),same.symm⟩

theorem walk_endless : (walk data pos n).isSome := by
  obtain ⟨i,j,less,there,same⟩ := walk_again long
  exact walk_round less there same n

end

theorem decodeDomainName_endless (endless : decodeDomainName data offset = none) : decodeLoop data fuel [] offset none = none :=
  (decodeLoop_unfinished ..).mpr (walk_endless ((decodeLoop_unfinished ..).mp endless))

def buildEdns0SubnetOption (clientIp : Option IpAddr) : Bytes :=
  match clientIp with
  | none => []
  | some (.v4 octets) => u16ToBe 8 ++ u16ToBe 8 ++ u16ToBe 1 ++ [24,0] ++ octets.val.take 3
  | some (.v6 octets) => u16ToBe 8 ++ u16ToBe 20 ++ u16ToBe 2 ++ [96,0] ++ octets.val.take 12

def buildEdns0PaddingOption (len : Nat) : Bytes := u16ToBe 12 ++ u16ToBe (UInt16.ofNat len) ++ List.replicate len 0

-- No option of zero bytes is built for the padding, so `padding` is the number of them.
def buildDnsQueryWithEdns (domain : Text) (qtype id : UInt16) (clientIp : Option IpAddr) (padding : Nat) : Bytes :=
  let options := buildEdns0SubnetOption clientIp ++ if 0 < padding then buildEdns0PaddingOption padding else []
  u16ToBe id ++ [0x01,0x00,0x00,0x01,0x00,0x00,0x00,0x00,0x00,0x01] ++ encodeDomainName domain ++ u16ToBe qtype ++
    u16ToBe qclassIn ++ [0x00,0x00,0x29,0x05,0x36,0x00,0x00,0x80,0x00] ++ u16ToBe (UInt16.ofNat options.length) ++ options

structure Record where
  ip : IpAddr
  ttl : UInt32
deriving DecidableEq

abbrev Parse := ExceptT DnsError Option

def word16 (data : Bytes) (pos : Nat) : UInt16 := be16 ((data.drop pos).take 2)
def word32 (data : Bytes) (pos : Nat) : UInt32 := be32 ((data.drop pos).take 4)

def octetsAt (n : Nat) (data : Bytes) (pos : Nat) : Option (Octets n) :=
  if width : ((data.drop pos).take n).length = n then some ⟨(data.drop pos).take n,width⟩ else none

def endOfName (data : Bytes) (pos : Nat) : Parse Nat := ExceptT.mk <|
  (decodeDomainName data pos).map fun decoded => (decoded.mapError DnsError.network).map Prod.snd

def skipQuestions (data : Bytes) : Nat → Nat → Parse Nat
  | 0,pos => pure pos
  | count + 1,pos => do
    let newPos ← endOfName data pos
    skipQuestions data count (newPos + 4)

def addressOf (rtype : UInt16) (rdlength : Nat) (data : Bytes) (pos : Nat) : Option IpAddr :=
  if rtype = qtypeA ∧ rdlength = 4 then (octetsAt 4 data pos).map .v4
  else if rtype = qtypeAaaa ∧ rdlength = 16 then (octetsAt 16 data pos).map .v6
  else none

def readAnswers (data : Bytes) : Nat → Nat → List Record → Parse (List Record)
  | 0,_,records => pure records
  | count + 1,pos,records => do
    let pos ← endOfName data pos
    let rdlength := (word16 data (pos + 8)).toNat
    if data.length < pos + 10 then throw (.network "truncated answer")
    else if data.length < pos + 10 + rdlength then throw (.network "truncated rdata")
    else
      match addressOf (word16 data pos) rdlength data (pos + 10) with
      | some ip => readAnswers data count (pos + 10 + rdlength) (records ++ [⟨ip,word32 data (pos + 4)⟩])
      | none => readAnswers data count (pos + 10 + rdlength) records

def reasons : List String :=
  ["NoError","FormErr","ServFail","NXDomain","NotImp","Refused","YXDomain","YXRRSet","NXRRSet","NotAuth","NotZone"]

def shorter (least ttl : UInt32) : UInt32 := if ttl < least then ttl else least

-- The code keeps the addresses and the smallest time to live, beginning with the default one; here the records stay
-- together, and both are read off them.
def parseDnsResponse (data : Bytes) : Parse (List Record × UInt32) :=
  let flags := word16 data 2
  let rcode := (flags &&& 0x000f).toUInt8
  if data.length < dnsHeaderSize then throw (.network "response too short")
  else if flags &&& 0x8000 = 0 then throw (.network "not a DNS response")
  else if rcode ≠ 0 then throw (.rCode rcode (reasons.getD rcode.toNat "Unknown"))
  else do
    let pos ← skipQuestions data (word16 data 4).toNat dnsHeaderSize
    let records ← readAnswers data (word16 data 6).toNat pos []
    if records = [] then throw .emptyResponse else return (records,(records.map Record.ttl).foldl shorter defaultTtl)

theorem shortest_le (ttls : List UInt32) (start) : ttls.foldl shorter start ≤ start ∧ ∀ ttl ∈ ttls, ttls.foldl shorter start ≤ ttl := by
  induction ttls generalizing start with
  | nil => simp
  | cons first rest ih =>
    obtain ⟨below,each⟩ := ih (shorter start first)
    have least : shorter start first ≤ start ∧ shorter start first ≤ first := by
      unfold shorter
      split <;> simp only [UInt32.lt_iff_toNat_lt,UInt32.le_iff_toNat_le] at * <;> omega
    refine ⟨UInt32.le_trans below least.1,?_⟩
    intro ttl inside
    rcases List.mem_cons.mp inside with rfl | later
    · exact UInt32.le_trans below least.2
    · exact each ttl later

theorem parse_bind {next : α → Parse β} (finished : (first >>= next) = some (.ok result)) :
    ∃ value, first = some (.ok value) ∧ next value = some (.ok result) := by
  cases called : first with
  | none =>
    rw [called] at finished
    cases finished
  | some outcome =>
    rw [called] at finished
    cases outcome with
    | error e => cases finished
    | ok value => exact ⟨value,rfl,finished⟩

theorem parse_records (parsed : parseDnsResponse data = some (.ok (records,ttl))) : records ≠ [] ∧ ttl ≤ defaultTtl ∧
    ∀ record ∈ records, ttl ≤ record.ttl := by
  simp only [parseDnsResponse] at parsed
  split at parsed
  · cases parsed
  split at parsed
  · cases parsed
  split at parsed
  · cases parsed
  obtain ⟨pos,-,parsed⟩ := parse_bind parsed
  obtain ⟨found,-,parsed⟩ := parse_bind parsed
  split at parsed
  · cases parsed
  cases parsed
  obtain ⟨clamped,each⟩ := shortest_le (records.map Record.ttl) defaultTtl
  exact ⟨by assumption,clamped,fun record inside => each record.ttl (List.mem_map_of_mem inside)⟩

end AstraCore.Dns
