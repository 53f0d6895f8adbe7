import AstraCore.CheckedBytes

namespace AstraCore.Tun
open CheckedBytes List

def sumWords (sum : Nat) : Bytes → Nat
  | high :: low :: rest => sumWords ((sum + ofBe [high,low]) % 2 ^ 32) rest
  | [last] => (sum + last.toNat * 256) % 2 ^ 32
  | [] => sum

def foldCarries (sum : Nat) : Nat := if sum / 65536 ≠ 0 then foldCarries (sum % 65536 + sum / 65536) else sum
termination_by sum
decreasing_by omega

def computeChecksum (data : Bytes) : UInt16 := UInt16.ofNat (65535 - foldCarries (sumWords 0 data))

-- The header with the two addresses exchanged and `check` for its checksum, which only IPv4 has.
def turnHeader (isIpv6 : Bool) (data check : Bytes) : Bytes :=
  if isIpv6 then data.take 8 ++ (data.drop 24).take 16 ++ (data.drop 8).take 16
  else data.take 10 ++ check ++ (data.drop 16).take 4 ++ (data.drop 12).take 4

def buildEchoReply (data : Bytes) (isIpv6 : Bool) : Option Bytes :=
  let ipHeaderLen := if isIpv6 then 40 else 20
  if data.length < ipHeaderLen + 8 then none
  else
    let icmp (check : Bytes) := (if isIpv6 then 129 else 0) :: 0 :: (check ++ data.drop (ipHeaderLen + 4))
    some (turnHeader isIpv6 data (u16ToBe (computeChecksum (turnHeader isIpv6 data [0,0]))) ++ icmp (u16ToBe (computeChecksum (icmp [0,0]))))

-- The sum of all 16-bit words, a single last byte being the high byte of its word.
def wordSum : Bytes → Nat
  | high :: low :: rest => ofBe [high,low] + wordSum rest
  | [last] => last.toNat * 256
  | [] => 0

def Verifies (data : Bytes) : Prop := foldCarries (wordSum data) = 65535

theorem wordSum_bound (data) : wordSum data ≤ 65535 * ((data.length + 1) / 2) := by
  fun_induction wordSum with
  | case1 high low rest ih =>
    have := high.toNat_lt
    have := low.toNat_lt
    simp [ofBe]
    omega
  | case2 last =>
    have := last.toNat_lt
    simp
    omega
  | case3 => simp

theorem wordSum_small (small : data.length ≤ 65535) : wordSum data < 2 ^ 32 := by
  have bound := wordSum_bound data
  omega

theorem sumWords_eq {sum : Nat} (fits : sum < 2 ^ 32) : sumWords sum data = (sum + wordSum data) % 2 ^ 32 := by
  fun_induction sumWords with
  | case1 sum high low rest ih =>
    rw [ih (Nat.mod_lt _ (by decide)),wordSum,Nat.mod_add_mod,Nat.add_assoc]
  | case2 => rfl
  | case3 => exact (Nat.mod_eq_of_lt fits).symm

theorem wordSum_append (even : front.length % 2 = 0) (rest) : wordSum (front ++ rest) = wordSum front + wordSum rest := by
  fun_induction wordSum front with
  | case1 high low more ih =>
    simp at even
    simp [wordSum,ih (by omega),Nat.add_assoc]
  | case2 => simp at even
  | case3 => simp

theorem foldCarries_facts (sum) : foldCarries sum < 65536 ∧ foldCarries sum % 65535 = sum % 65535 ∧ (foldCarries sum = 0 ↔ sum = 0) := by
  fun_induction foldCarries with
  | case1 sum carries ih => omega
  | case2 sum small => omega

-- With `more` from a pseudo-header the checksum verifies only if the two cancel. The second summand are the carries that the
-- 32-bit sum lost; a packet has them only beyond 131 kB.
theorem checksum_iff (even : front.length % 2 = 0) (rest more) :
    foldCarries (more + wordSum (front ++ (u16ToBe (computeChecksum (front ++ ([0,0] ++ rest))) ++ rest))) = 65535 ↔
      (more + wordSum (front ++ ([0,0] ++ rest)) / 2 ^ 32) % 65535 = 0 := by
  have sums (n : UInt16) : wordSum (front ++ (u16ToBe n ++ rest)) = wordSum front + (n.toNat + wordSum rest) := by
    have word : wordSum (u16ToBe n) = n.toNat := by
      change ofBe (toBe 2 n.toNat) + 0 = n.toNat
      rw [Nat.add_zero,ofBe_toBe]
      exact Nat.mod_eq_of_lt n.toNat_lt
    rw [wordSum_append even,wordSum_append (by simp),word]
  have zero : wordSum (front ++ ([0,0] ++ rest)) = wordSum front + (0 + wordSum rest) := sums 0
  have whole : sumWords 0 (front ++ ([0,0] ++ rest)) = (wordSum front + wordSum rest) % 2 ^ 32 := by
    rw [sumWords_eq (by decide),zero,Nat.zero_add,Nat.zero_add]
  have before := foldCarries_facts ((wordSum front + wordSum rest) % 2 ^ 32)
  have value : (computeChecksum (front ++ ([0,0] ++ rest))).toNat = 65535 - foldCarries ((wordSum front + wordSum rest) % 2 ^ 32) := by
    rw [computeChecksum,whole]
    exact UInt16.toNat_ofNat_of_lt' (show _ < 65536 by omega)
  have later := foldCarries_facts (more + wordSum (front ++ (u16ToBe (computeChecksum (front ++ ([0,0] ++ rest))) ++ rest)))
  rw [sums,value] at later
  rw [sums,value,zero]
  omega

theorem checksum_verifies (even : front.length % 2 = 0) (small : front.length + rest.length + 2 ≤ 65535) :
    Verifies (front ++ (u16ToBe (computeChecksum (front ++ ([0,0] ++ rest))) ++ rest)) := by
  have exact := @checksum_iff front even rest 0
  have fits := @wordSum_small (front ++ ([0,0] ++ rest)) (by simp; omega)
  rw [Nat.zero_add,Nat.zero_add,Nat.div_eq_of_lt fits] at exact
  exact exact.mpr rfl

def field (data : Bytes) (start width : Nat) : Bytes := (data.drop start).take width

-- A reply to an IPv4 packet with a header of 20 bytes.
structure Replies (data reply : Bytes) : Prop where
  length : reply.length = data.length
  source : field reply 12 4 = field data 16 4
  destination : field reply 16 4 = field data 12 4
  kind : field reply 20 2 = [0,0]
  message : reply.drop 24 = data.drop 24
  header : Verifies (reply.take 20)
  checksum : Verifies (reply.drop 20)

-- What is built of any packet that is long enough, whatever its checksum is worth.
structure Turned (data reply : Bytes) : Prop where
  length : reply.length = data.length
  source : field reply 12 4 = field data 16 4
  destination : field reply 16 4 = field data 12 4
  header : Verifies (reply.take 20)
  message : reply.drop 20 = [0,0] ++ (u16ToBe (computeChecksum ([0,0] ++ ([0,0] ++ data.drop 24))) ++ data.drop 24)

theorem buildEchoReply_turned (long : 28 ≤ data.length) : ∃ reply, buildEchoReply data false = some reply ∧ Turned data reply := by
  have source : (field data 12 4).length = 4 := by simp [field]; omega
  have destination : (field data 16 4).length = 4 := by simp [field]; omega
  have header := @checksum_verifies (data.take 10) (field data 16 4 ++ field data 12 4) (by simp; omega) (by simp; omega)
  have turned (check : Bytes) : turnHeader false data check = data.take 10 ++ (check ++ (field data 16 4 ++ field data 12 4)) := by
    simp [turnHeader,field]
  refine ⟨_,if_neg (by simp; omega),?_⟩
  rw [turned,turned]
  have twenty (word : UInt16) : (data.take 10 ++ (u16ToBe word ++ (field data 16 4 ++ field data 12 4))).length = 20 := by
    simp [source,destination]
    omega
  have front (word : UInt16) (rest : Bytes) : data.take 10 ++ (u16ToBe word ++ (field data 16 4 ++ field data 12 4)) ++ rest =
      (data.take 10 ++ u16ToBe word) ++ (field data 16 4 ++ (field data 12 4 ++ rest)) := by simp
  have twelve (word : UInt16) : (data.take 10 ++ u16ToBe word).length = 12 := by simp; omega
  refine ⟨?_,?_,?_,?_,drop_left' (twenty _)⟩
  · rw [length_append,twenty]
    simp
    omega
  · rw [front,field,drop_left' (twelve _),take_left' destination]
  · rw [front,← append_assoc _ _,field,drop_left' (by rw [length_append,twelve,destination]),take_left' source]
  · rw [take_left' (twenty _)]
    exact header

section
variable (turned : Turned data reply)
include turned

theorem Turned.kind : field reply 20 2 = [0,0] := by
  rw [field,turned.message]
  rfl

theorem Turned.rest : reply.drop 24 = data.drop 24 := by
  rw [show 24 = 20 + 4 from rfl,← drop_drop,turned.message]
  rfl

theorem Turned.checksum_iff : Verifies (reply.drop 20) ↔ wordSum ([0,0,0,0] ++ data.drop 24) / 2 ^ 32 % 65535 = 0 := by
  have exact := @Tun.checksum_iff [0,0] rfl (data.drop 24) 0
  rw [Nat.zero_add,Nat.zero_add] at exact
  rw [turned.message]
  exact exact

end

theorem buildEchoReply_replies (long : 28 ≤ data.length) (small : data.length ≤ 65535) :
    ∃ reply, buildEchoReply data false = some reply ∧ Replies data reply := by
  obtain ⟨reply,built,turned⟩ := buildEchoReply_turned long
  have fits := @wordSum_small ([0,0,0,0] ++ data.drop 24) (by simp; omega)
  have checksum := turned.checksum_iff.mpr (by rw [Nat.div_eq_of_lt fits])
  exact ⟨reply,built,turned.length,turned.source,turned.destination,turned.kind,turned.rest,turned.header,checksum⟩

theorem echo_reply_valid (data) (long : 28 ≤ data.length) (small : data.length ≤ 65535) :
    (∃ reply, buildEchoReply data false = some reply ∧ Replies data reply) ∧
      wordSum (turnHeader false data [0,0]) < 2 ^ 32 ∧ wordSum ([0,0,0,0] ++ data.drop 24) < 2 ^ 32 :=
  ⟨buildEchoReply_replies long small,wordSum_small (by simp [turnHeader]; omega),wordSum_small (by simp; omega)⟩

theorem echo_reply_odd : ∃ reply, buildEchoReply (0x45 :: replicate 28 7) false = some reply ∧ Replies (0x45 :: replicate 28 7) reply :=
  (echo_reply_valid _ (by decide) (by decide)).1

section
variable (data : Bytes)

def handleIpv4 : Option Bytes :=
  if data.length < 20 then none
  else if data.getD 9 0 = 1 then buildEchoReply data false
  else none

def handleIpv6 : Option Bytes :=
  if data.length < 40 then none
  else if data.getD 6 0 = 58 then buildEchoReply data true
  else none

def version : UInt8 := data.getD 0 0 >>> 4

-- The packet sent back.
def handlePacket : Option Bytes :=
  if data = [] then none
  else if version data = 4 then handleIpv4 data
  else if version data = 6 then handleIpv6 data
  else none

def headerLength : Nat := (data.getD 0 0 &&& 0x0f).toNat * 4

def EchoRequest4 : Prop :=
  version data = 4 ∧ data.getD 9 0 = 1 ∧ 20 ≤ headerLength data ∧ headerLength data + 8 ≤ data.length ∧ field data (headerLength data) 2 = [8,0]

end

def EchoReply4 (data reply : Bytes) : Prop :=
  field reply 12 4 = field data 16 4 ∧ field reply 16 4 = field data 12 4 ∧ field reply (headerLength data) 2 = [0,0] ∧
    Verifies (reply.drop (headerLength data))

def EchoRequest6 (data : Bytes) : Prop := version data = 6 ∧ data.getD 6 0 = 58 ∧ 48 ≤ data.length ∧ field data 40 2 = [128,0]

def pseudoHeader (packet : Bytes) : Bytes := field packet 8 32 ++ toBe 4 (packet.length - 40) ++ [0,0,0,58]

def EchoReply6 (data reply : Bytes) : Prop :=
  field reply 8 16 = field data 24 16 ∧ field reply 24 16 = field data 8 16 ∧ field reply 40 2 = [129,0] ∧
    Verifies (pseudoHeader reply ++ reply.drop 40)

def Answers (data : Bytes) : Prop :=
  ∀ reply, handlePacket data = some reply → EchoRequest4 data ∧ EchoReply4 data reply ∨ EchoRequest6 data ∧ EchoReply6 data reply

-- Of what is answered at all: over IPv4 echo requests behind a header without options, over IPv6 echo requests whose
-- pseudo-header adds nothing to the checksum. The quotients are 0 for every packet up to 65535 bytes.
structure Answerable (data : Bytes) : Prop where
  ipv4 : version data = 4 → data.getD 9 0 = 1 → 28 ≤ data.length →
    headerLength data = 20 ∧ field data 20 2 = [8,0] ∧ wordSum ([0,0,0,0] ++ data.drop 24) / 2 ^ 32 % 65535 = 0
  ipv6 : version data = 6 → data.getD 6 0 = 58 → 48 ≤ data.length → field data 40 2 = [128,0] ∧
    (wordSum (pseudoHeader data) + wordSum ([129,0,0,0] ++ data.drop 44) / 2 ^ 32) % 65535 = 0

theorem answered_iff (data) : (handlePacket data).isSome ↔
    version data = 4 ∧ data.getD 9 0 = 1 ∧ 28 ≤ data.length ∨ version data = 6 ∧ data.getD 6 0 = 58 ∧ 48 ≤ data.length := by
  simp only [handlePacket,handleIpv4,handleIpv6,buildEchoReply]
  grind

theorem reply4_iff (turned : Turned data reply) (wide : 20 ≤ headerLength data) (kind : field data (headerLength data) 2 = [8,0]) :
    EchoReply4 data reply ↔ headerLength data = 20 ∧ wordSum ([0,0,0,0] ++ data.drop 24) / 2 ^ 32 % 65535 = 0 := by
  by_cases plain : headerLength data = 20
  · rw [EchoReply4,plain,turned.checksum_iff]
    exact ⟨fun parts => ⟨rfl,parts.2.2.2⟩,fun parts => ⟨turned.source,turned.destination,turned.kind,parts.2⟩⟩
  · -- behind options the reply still has the request's type, for the reply is written behind 20 bytes
    refine iff_of_false (fun parts => ?_) fun parts => plain parts.1
    obtain ⟨more,width⟩ : ∃ more, headerLength data = 24 + more := by
      refine ⟨headerLength data - 24,?_⟩
      unfold headerLength at wide plain ⊢
      omega
    have same : field reply (24 + more) 2 = field data (24 + more) 2 := by
      rw [field,field,← drop_drop,← drop_drop,turned.rest]
    have kept := parts.2.2.1
    rw [width] at kept kind
    rw [same,kind] at kept
    exact absurd kept (by decide)

theorem handlePacket4 (four : version data = 4) (icmp : data.getD 9 0 = 1) (long : 28 ≤ data.length) :
    handlePacket data = buildEchoReply data false := by
  have present : data ≠ [] := by rintro rfl; simp at long
  rw [handlePacket,if_neg present,if_pos four,handleIpv4,if_neg (by omega),if_pos icmp]

theorem handlePacket6 (six : version data = 6) (icmp : data.getD 6 0 = 58) (long : 48 ≤ data.length) :
    handlePacket data = buildEchoReply data true := by
  have present : data ≠ [] := by rintro rfl; simp at long
  rw [handlePacket,if_neg present,six,if_neg (by decide),if_pos rfl,handleIpv6,if_neg (by omega),if_pos icmp]

theorem answers4_iff (four : version data = 4) (icmp : data.getD 9 0 = 1) (long : 28 ≤ data.length) :
    Answers data ↔ headerLength data = 20 ∧ field data 20 2 = [8,0] ∧ wordSum ([0,0,0,0] ++ data.drop 24) / 2 ^ 32 % 65535 = 0 := by
  obtain ⟨reply,built,turned⟩ := buildEchoReply_turned long
  rw [← handlePacket4 four icmp long] at built
  have six : ¬ EchoRequest6 data := fun request => absurd (four.symm.trans request.1) (by decide)
  have one : Answers data ↔ EchoRequest4 data ∧ EchoReply4 data reply := by
    rw [Answers,built]
    simp [six]
  rw [one]
  constructor
  · rintro ⟨⟨-,-,wide,-,kind⟩,replied⟩
    obtain ⟨plain,checksum⟩ := (reply4_iff turned wide kind).mp replied
    rw [plain] at kind
    exact ⟨plain,kind,checksum⟩
  · rintro ⟨plain,kind,checksum⟩
    rw [← plain] at kind
    exact ⟨⟨four,icmp,plain.ge,by omega,kind⟩,(reply4_iff turned plain.ge kind).mpr ⟨plain,checksum⟩⟩

theorem buildEchoReply6 (long : 48 ≤ data.length) : ∃ reply, buildEchoReply data true = some reply ∧ reply.length = data.length ∧
    field reply 8 16 = field data 24 16 ∧ field reply 24 16 = field data 8 16 ∧
    reply.drop 40 = [129,0] ++ (u16ToBe (computeChecksum ([129,0] ++ ([0,0] ++ data.drop 44))) ++ data.drop 44) := by
  have source : (field data 8 16).length = 16 := by simp [field]; omega
  have destination : (field data 24 16).length = 16 := by simp [field]; omega
  have eight : (data.take 8).length = 8 := by simp; omega
  refine ⟨_,if_neg (by simp; omega),?_,?_,?_,?_⟩
  · simp [turnHeader]
    omega
  · simp only [turnHeader,if_true,append_assoc]
    rw [field,drop_left' eight]
    exact take_left' destination
  · simp only [turnHeader,if_true]
    rw [append_assoc,field,drop_left' (by rw [length_append,eight]; exact congrArg _ destination)]
    exact take_left' source
  · simp only [turnHeader,if_true]
    exact drop_left' (by rw [length_append,length_append,eight]; exact congrArg₂ (8 + · + ·) destination source)

theorem pseudoHeader_turned (long : 48 ≤ data.length) (length : reply.length = data.length) (source : field reply 8 16 = field data 24 16)
    (destination : field reply 24 16 = field data 8 16) : wordSum (pseudoHeader reply) = wordSum (pseudoHeader data) := by
  have halves (packet : Bytes) : field packet 8 32 = field packet 8 16 ++ field packet 24 16 := by
    rw [field,field,field,show 32 = 16 + 16 from rfl,take_add,drop_drop]
  have width (start : Nat) (low : start ≤ 24) : (field data start 16).length % 2 = 0 := by
    rw [field,length_take,length_drop,Nat.min_eq_left (by omega)]
  simp only [pseudoHeader,halves,source,destination,length,append_assoc]
  rw [wordSum_append (width 24 (by omega)),wordSum_append (width 8 (by omega)),wordSum_append (width 8 (by omega)),
    wordSum_append (width 24 (by omega)),Nat.add_left_comm]

theorem answers6_iff (six : version data = 6) (icmp : data.getD 6 0 = 58) (long : 48 ≤ data.length) :
    Answers data ↔ field data 40 2 = [128,0] ∧
      (wordSum (pseudoHeader data) + wordSum ([129,0,0,0] ++ data.drop 44) / 2 ^ 32) % 65535 = 0 := by
  obtain ⟨reply,built,length,source,destination,message⟩ := buildEchoReply6 long
  rw [← handlePacket6 six icmp long] at built
  have four : ¬ EchoRequest4 data := fun request => absurd (six.symm.trans request.1) (by decide)
  have even : (pseudoHeader reply).length % 2 = 0 := by
    simp only [pseudoHeader,field,length_append,length_take,length_drop,length]
    simp
    omega
  have kind : field reply 40 2 = [129,0] := by
    rw [field,message]
    rfl
  have checksum := @checksum_iff [129,0] rfl (data.drop 44) (wordSum (pseudoHeader data))
  rw [← pseudoHeader_turned long length source destination,← message,← wordSum_append even] at checksum
  rw [← pseudoHeader_turned long length source destination]
  have one : Answers data ↔ EchoRequest6 data ∧ EchoReply6 data reply := by
    rw [Answers,built]
    simp [four]
  rw [one]
  constructor
  · rintro ⟨⟨-,-,-,request⟩,-,-,-,verifies⟩
    exact ⟨request,checksum.mp verifies⟩
  · rintro ⟨request,zero⟩
    exact ⟨⟨six,icmp,long,request⟩,source,destination,kind,checksum.mpr zero⟩

theorem requests_answered_iff (data : Bytes) : Answers data ↔ Answerable data := by
  constructor
  · intro answers
    exact ⟨fun four icmp long => (answers4_iff four icmp long).mp answers,fun six icmp long => (answers6_iff six icmp long).mp answers⟩
  · intro answerable reply sent
    rcases (answered_iff data).mp (sent ▸ rfl) with ⟨four,icmp,long⟩ | ⟨six,icmp,long⟩
    · exact (answers4_iff four icmp long).mpr (answerable.ipv4 four icmp long) reply sent
    · exact (answers6_iff six icmp long).mpr (answerable.ipv6 six icmp long) reply sent

def echoReply : Bytes := [0x45] ++ replicate 8 0 ++ [1] ++ replicate 18 0
def echoRequest6 : Bytes := [0x60] ++ replicate 5 0 ++ [58] ++ replicate 33 0 ++ [128] ++ replicate 7 0

theorem reply_answered : EchoRequest6 echoRequest6 ∧ ¬ Answers echoReply ∧ ¬ Answers echoRequest6 := by
  refine ⟨⟨by decide,by decide,by decide,by decide⟩,fun answers => ?_,fun answers => ?_⟩
  · rcases answers _ rfl with ⟨⟨-,-,-,-,kind⟩,-⟩ | ⟨⟨six,-⟩,-⟩
    · exact absurd kind (by decide)
    · exact absurd six (by decide)
  · rcases answers _ rfl with ⟨⟨four,-⟩,-⟩ | ⟨-,-,-,-,checksum⟩
    · exact absurd four (by decide)
    · rw [Verifies] at checksum
      exact absurd checksum (by decide +kernel)

theorem answered_again (sent : handlePacket data = some reply) : (handlePacket reply).isSome := by
  have answered := (answered_iff data).mp (sent ▸ rfl)
  rw [answered_iff]
  simp only [handlePacket,handleIpv4,handleIpv6,buildEchoReply,turnHeader,append_assoc] at sent
  -- the length and the bytes in front of the addresses are kept
  rcases answered with ⟨four,icmp,long⟩ | ⟨six,icmp,long⟩
  · left
    grind [version,u16ToBe_length]
  · right
    grind [version,u16ToBe_length]

-- Replies are answered too, so two stacks never fall silent.
theorem never_silent (answered : (handlePacket data).isSome) (n) :
    ∃ last, (·.bind handlePacket)^[n] (some data) = some last ∧ (handlePacket last).isSome := by
  induction n with
  | zero => exact ⟨data,rfl,answered⟩
  | succ n ih =>
    obtain ⟨last,reached,still⟩ := ih
    obtain ⟨reply,sent⟩ := Option.isSome_iff_exists.mp still
    refine ⟨reply,?_,answered_again sent⟩
    rw [Function.iterate_succ_apply',reached]
    exact sent

theorem never_silent_reply : ∃ last, (·.bind handlePacket)^[100] (some echoReply) = some last ∧ (handlePacket last).isSome :=
  never_silent (by decide) _

end AstraCore.Tun
