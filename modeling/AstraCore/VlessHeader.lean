import AstraCore.AddressCodec
import AstraCore.ProtoHeader
import AstraCore.Varint

namespace AstraCore.VlessHeader
open CheckedBytes NetAddress LossyUtf8 Crypto ProtoHeader AddressCodec List

inductive Failure where
  | error (text : String)
  | panic (fault : Panic)
deriving DecidableEq

structure Addons where
  flow : String
  seed : Option Bytes
deriving DecidableEq

def Addons.default : Addons := ⟨"",none⟩

def encodeField (tag : UInt8) (value : Bytes) : Bytes :=
  if value.isEmpty then [] else tag :: (Varint.encode (UInt64.ofNat value.length) ++ value)

def Addons.encode (addons : Addons) : Bytes :=
  encodeField 0x0a (asBytes addons.flow) ++ encodeField 0x12 (addons.seed.getD [])

-- A length and as many bytes, of data that ends where the whole message ends. The end is computed in a machine
-- word: past it, the slice starts behind its own end.
def decodeField (total : Nat) (truncated : String) (data : Bytes) : Except Failure (Bytes × Bytes) :=
  match Varint.decode 0 0 data with
  | .error e => .error (.error e)
  | .ok (len,rest) =>
    let offset := total - rest.length
    let last := (offset + len.toNat) % 2^64
    if total < last then .error (.error truncated)
    else if last < offset then .error (.panic .sliceIndex)
    else .ok (rest.take (last - offset),rest.drop (last - offset))

theorem decodeField_shortens (decoded : decodeField total truncated data = .ok (value,rest)) : rest.length < data.length := by
  rw [decodeField] at decoded
  split at decoded
  · cases decoded
  · rename_i read
    have shorter := Varint.decode_shortens read
    dsimp only at decoded
    split at decoded
    · cases decoded
    · split at decoded
      · cases decoded
      · cases decoded
        rw [length_drop]
        omega

-- A later field replaces an earlier one, and an unknown tag ends the message.
def Addons.decodeFrom (total : Nat) (addons : Addons) : Bytes → Except Failure Addons
  | [] => .ok addons
  | tag :: data =>
    if tag = 0x0a then
      match found : decodeField total "truncated addons flow" data with
      | .error e => .error e
      | .ok (value,rest) =>
        have := decodeField_shortens found
        decodeFrom total { addons with flow := fromUtf8Lossy value } rest
    else if tag = 0x12 then
      match found : decodeField total "truncated addons seed" data with
      | .error e => .error e
      | .ok (value,rest) =>
        have := decodeField_shortens found
        decodeFrom total { addons with seed := some value } rest
    else .ok addons
termination_by data => data.length
decreasing_by all_goals exact Nat.lt_succ_of_lt this

def Addons.decode (data : Bytes) : Except Failure Addons := decodeFrom data.length .default data

def version : UInt8 := 0

def encodeAddress : Address → Bytes
  | .ipv4 octets => 1 :: octets.val
  | .domain name =>
    let len := min (asBytes name).length 255
    2 :: UInt8.ofNat len :: (asBytes name).take len
  | .ipv6 octets => 3 :: octets.val

def encodeTarget (request : RequestHeader) : Bytes :=
  match request.command with
  | .tcp | .udp => u16ToBe request.port.value ++ encodeAddress request.address
  | .mux | .rvs => []

-- The UUID is a placeholder; the length of the addons is cut to a byte.
def encodeRequestHeader (request : RequestHeader) (addons : Addons) : Bytes :=
  version :: ((Octets.zero 16).val ++
    (UInt8.ofNat addons.encode.length :: (addons.encode ++ (request.command.asByte :: encodeTarget request))))

def addressTexts : Texts where
  empty := "truncated address type"
  ipv4 := "truncated IPv4 address"
  domainLength := "truncated domain length"
  domain := "truncated domain"
  ipv6 := "truncated IPv6 address"

def decodeAddress (data : Bytes) : Except Failure (Address × Nat) := (readAddress addressTexts data).mapError .error

def decodeAddons (addonsLen : Nat) (data : Bytes) : Except Failure (Addons × Bytes) :=
  if 0 < addonsLen then
    if data.length < addonsLen then .error (.error "truncated addons")
    else do
      let decoded ← Addons.decode (data.take addonsLen)
      .ok (decoded,data.drop addonsLen)
  else .ok (.default,data)

def decodeCommand : Bytes → Except Failure (RequestCommand × Bytes)
  | [] => .error (.error "truncated command")
  | byte :: rest =>
    match RequestCommand.fromByte byte with
    | some command => .ok (command,rest)
    | none => .error (.error ("unknown VLESS command: " ++ toString byte.toNat))

def decodeTarget (command : RequestCommand) (data : Bytes) : Except Failure (Address × Port) :=
  match command with
  | .tcp | .udp =>
    if data.length < 2 then .error (.error "truncated port")
    else do
      let (address,_) ← decodeAddress (data.drop 2)
      .ok (address,⟨be16 (data.take 2)⟩)
  | .mux | .rvs => .ok (.ipv4 (.zero 4),⟨0⟩)

def decodeBody (version : UInt8) (addonsLen : Nat) (data : Bytes) : Except Failure (RequestHeader × Addons) := do
  let (addons,data) ← decodeAddons addonsLen data
  let (command,data) ← decodeCommand data
  let (address,port) ← decodeTarget command data
  .ok (⟨version,command,0,.zero,port,address,none⟩,addons)

abbrev UserGetter := Octets 16 → Option MemoryUser

-- The UUID is cut out and dropped, and the getter is never asked.
def decodeRequestHeader (data : Bytes) (_getter : UserGetter) : Except Failure (RequestHeader × Addons) :=
  if data.isEmpty then .error (.error "empty request header")
  else
    let found := data.getD 0 0
    if found ≠ version then .error (.error ("unsupported VLESS version: " ++ toString found.toNat))
    else if data.length < 17 then .error (.error "truncated UUID")
    else if data.length ≤ 17 then .error (.error "truncated addons length")
    else decodeBody found (data.getD 17 0).toNat (data.drop 18)

def encodeResponseHeader (addons : Addons) : Bytes := version :: addons.encode

def decodeResponseHeader : Bytes → Except Failure Addons
  | [] => .error (.error "empty response header")
  | found :: rest =>
    if found ≠ version then .error (.error ("unsupported VLESS response version: " ++ toString found.toNat))
    else if rest.isEmpty then .error (.error "truncated addons length in response")
    else Addons.decode rest

-- A packet is cut where its length does not fit the two bytes before it.
def encodePacket (payload : Bytes) : Bytes :=
  let len := min payload.length 65535
  u16ToBe (UInt16.ofNat len) ++ payload.take len

theorem decodeFrom_flow (total) (addons : Addons) : addons.decodeFrom total (0x0a :: data) = (decodeField total "truncated addons flow" data >>= fun found =>
        Addons.decodeFrom total { addons with flow := fromUtf8Lossy found.1 } found.2) := by
  rw [Addons.decodeFrom,if_pos rfl]
  split
  · rename_i found
    rw [found]
    rfl
  · rename_i found
    dsimp only
    rw [found]
    rfl

theorem decodeFrom_seed (total) (addons : Addons) (data : Bytes) : addons.decodeFrom total (0x12 :: data) =
      (decodeField total "truncated addons seed" data >>= fun found =>
        Addons.decodeFrom total { addons with seed := some found.1 } found.2) := by
  rw [Addons.decodeFrom,if_neg (by decide),if_pos rfl]
  split
  · rename_i found
    rw [found]
    rfl
  · rename_i found
    dsimp only
    rw [found]
    rfl

theorem decodeField_whole (truncated value rest) (inside : value.length + rest.length ≤ total) (bounded : total < 2^64) :
    decodeField total truncated (Varint.encode (UInt64.ofNat value.length) ++ (value ++ rest)) = .ok (value,rest) := by
  have size := UInt64.toNat_ofNat_of_lt' (by omega : value.length < 2^64)
  have last : (total - (value ++ rest).length + value.length) % 2^64 = total - rest.length := by
    rw [length_append,Nat.mod_eq_of_lt (by omega)]
    omega
  have width : total - rest.length - (total - (value ++ rest).length) = value.length := by
    rw [length_append]
    omega
  rw [decodeField,Varint.decode_encode]
  dsimp only
  rw [size,last,if_neg (by omega),if_neg (by rw [length_append]; omega),width,take_left,drop_left]

theorem decodeField_part (truncated) (value : Bytes) (small : value.length < 2^64) (part : data <+: Varint.encode (UInt64.ofNat value.length) ++ value)
    (proper : data ≠ Varint.encode (UInt64.ofNat value.length) ++ value) (bounded : total < 2^64) : ∃ e, decodeField total truncated data = .error e := by
  have size := UInt64.toNat_ofNat_of_lt' small
  by_cases counted : Varint.encode (UInt64.ofNat value.length) <+: data
  · obtain ⟨held,rfl⟩ := counted
    have held_part := (prefix_append_right_inj _).mp part
    have shorter : held.length < value.length := by
      refine Nat.lt_of_le_of_ne held_part.length_le fun same => proper ?_
      rw [held_part.eq_of_length same]
    rw [decodeField,Varint.decode_encode]
    dsimp only
    split
    · exact ⟨_,rfl⟩
    · -- The sum has left the word, so its rest lies before the offset.
      rw [if_pos (by omega)]
      exact ⟨_,rfl⟩
  · have front := ( prefix_or_prefix_of_prefix part (prefix_append ..)).resolve_right counted
    obtain ⟨e,refused⟩ := @Varint.decode_part data _ 0 0 front (fun same => counted (same ▸ prefix_refl _))
    exact ⟨.error e,by rw [decodeField,refused]⟩

section
variable (addons : Addons)

def Addons.sent : Addons := { addons with seed := addons.seed.filter fun seed => !seed.isEmpty }

def Addons.Sized : Prop :=
  (asBytes addons.flow).length < 2^63 ∧ (addons.seed.getD []).length < 2^63

theorem decodeFrom_flowField (inside : (encodeField 0x0a (asBytes flow)).length + rest.length ≤ total)
    (bounded : total < 2^64) (blank : addons.flow = "") :
    addons.decodeFrom total (encodeField 0x0a (asBytes flow) ++ rest) = Addons.decodeFrom total { addons with flow := flow } rest := by
  rw [encodeField] at inside ⊢
  split
  · rename_i empty
    have none : flow = "" := by
      rw [← fromUtf8Lossy_asBytes flow,List.isEmpty_iff.mp empty]
      exact fromUtf8Lossy_asBytes ""
    rw [none,← blank,nil_append]
  · rename_i sent
    rw [if_neg sent,length_cons,length_append] at inside
    rw [cons_append,append_assoc,decodeFrom_flow,decodeField_whole _ _ _ (by omega) bounded,ok_bind,fromUtf8Lossy_asBytes]

theorem decodeFrom_seedField (inside : (encodeField 0x12 seed).length ≤ total) (bounded : total < 2^64) :
    addons.decodeFrom total (encodeField 0x12 seed) = .ok (if seed.isEmpty then addons else { addons with seed := some seed }) := by
  rw [encodeField] at inside ⊢
  split
  · rw [Addons.decodeFrom]
  · rename_i sent
    rw [if_neg sent,length_cons,length_append] at inside
    have read := decodeField_whole "truncated addons seed" seed [] (by simp; omega) bounded
    rw [append_nil] at read
    rw [decodeFrom_seed,read,ok_bind,Addons.decodeFrom]

theorem addons_roundtrip (bounded : addons.encode.length < 2^64) : Addons.decode addons.encode = .ok addons.sent := by
  have parts : addons.encode.length = (encodeField 0x0a _).length + (encodeField 0x12 _).length := length_append
  rw [Addons.decode,Addons.encode,decodeFrom_flowField .default (by rw [← Addons.encode]; omega)
    (by rw [← Addons.encode]; exact bounded) rfl,decodeFrom_seedField _ (by rw [← Addons.encode]; omega) (by rw [← Addons.encode]; exact bounded)]
  obtain ⟨flow,seed⟩ := addons
  cases seed with
  | none => rfl
  | some seed => cases seed <;> rfl

theorem encodeField_take (tag value) (cut : k < (encodeField tag value).length) (some_taken : 0 < k) :
    ∃ data, (encodeField tag value).take k = tag :: data ∧ data <+: Varint.encode (UInt64.ofNat value.length) ++ value ∧
      data ≠ Varint.encode (UInt64.ofNat value.length) ++ value := by
  rw [encodeField] at cut ⊢
  split
  · rename_i empty
    rw [if_pos empty] at cut
    cases cut
  · rename_i sent
    rw [if_neg sent,length_cons] at cut
    obtain ⟨j,rfl⟩ := Nat.exists_eq_add_of_lt some_taken
    refine ⟨_,take_succ_cons, take_prefix ..,fun same => ?_⟩
    have length := congrArg List.length same
    rw [length_take] at length
    omega

theorem encodeField_head (tag value rest) (sent : 0 < (encodeField tag value).length) : (encodeField tag value ++ rest).getD 0 0 = tag := by
  rw [encodeField] at sent ⊢
  split
  · rename_i empty
    rw [if_pos empty] at sent
    cases sent
  · rfl

theorem encodeField_front (sized : value.length < 2^63) (sent : encodeField tag value ≠ []) :
    ∃ byte rest, encodeField tag value = tag :: byte :: rest ∧ byte ≠ 0 := by
  rw [encodeField] at sent ⊢
  split
  · rename_i empty
    rw [if_pos empty] at sent
    exact absurd rfl sent
  · rename_i present
    have size := UInt64.toNat_ofNat_of_lt' (by omega : value.length < 2^64)
    have positive : UInt64.ofNat value.length ≠ 0 := by
      intro zero
      rw [zero] at size
      exact present (isEmpty_iff_length_eq_zero.mpr size.symm)
    obtain ⟨byte,rest,front,nonzero⟩ := Varint.encode_front positive
    exact ⟨byte,rest ++ value,by rw [front]; rfl,nonzero⟩

theorem addons_front (sized : addons.Sized) (sent : addons.encode ≠ []) :
    ∃ tag byte rest, addons.encode = tag :: byte :: rest ∧ (tag = 0x0a ∨ tag = 0x12) ∧ byte ≠ 0 := by
  rw [Addons.encode] at sent ⊢
  by_cases flow : encodeField 0x0a (asBytes addons.flow) = []
  · rw [flow] at sent ⊢
    obtain ⟨byte,rest,front,nonzero⟩ := encodeField_front sized.2 sent
    exact ⟨_,byte,rest,front,.inr rfl,nonzero⟩
  · obtain ⟨byte,rest,front,nonzero⟩ := encodeField_front sized.1 flow
    exact ⟨_,byte,rest ++ _,by rw [front]; rfl,.inl rfl,nonzero⟩

theorem encode_sent : addons.sent.encode = addons.encode := by
  obtain ⟨flow,seed⟩ := addons
  cases seed with
  | none => rfl
  | some seed => cases seed <;> rfl

theorem addons_cut (sized : addons.Sized) (cut : k < addons.encode.length) (small : k < 256) :
    (∃ e, Addons.decode (addons.encode.take k) = .error e) ∨ addons.encode.getD k 0 = 0x0a ∨ addons.encode.getD k 0 = 0x12 := by
  have bounded : (addons.encode.take k).length < 2^64 := by
    rw [length_take]
    omega
  rw [Addons.decode]
  generalize total : (addons.encode.take k).length = n at bounded ⊢
  rw [length_take,Nat.min_eq_left (Nat.le_of_lt cut)] at total
  rw [Addons.encode] at cut ⊢
  rw [length_append] at cut
  by_cases inside : k < (encodeField 0x0a (asBytes addons.flow)).length
  · rcases Nat.eq_zero_or_pos k with rfl | positive
    · exact .inr (.inl (encodeField_head _ _ _ inside))
    · obtain ⟨data,taken,part,proper⟩ := encodeField_take 0x0a (asBytes addons.flow) inside positive
      obtain ⟨e,refused⟩ := decodeField_part "truncated addons flow" (asBytes addons.flow) (by have := sized.1; omega) part proper bounded
      refine .inl ⟨e,?_⟩
      rw [take_append_of_le_length (Nat.le_of_lt inside),taken,decodeFrom_flow,refused,error_bind]
  · obtain ⟨j,rfl⟩ := Nat.exists_eq_add_of_le (Nat.le_of_not_lt inside)
    rcases Nat.eq_zero_or_pos j with rfl | positive
    · refine .inr (.inr ?_)
      have head := encodeField_head 0x12 (addons.seed.getD []) [] (by omega)
      rw [append_nil] at head
      rw [getD_front rfl,head]
    · obtain ⟨data,taken,part,proper⟩ := encodeField_take 0x12 (addons.seed.getD []) (by omega : j < _) positive
      obtain ⟨e,refused⟩ := decodeField_part "truncated addons seed" (addons.seed.getD []) (by have := sized.2; omega) part proper bounded
      have width := congrArg List.length taken
      rw [length_take] at width
      refine .inl ⟨e,?_⟩
      rw [take_length_add_append,taken,decodeFrom_flowField .default (by omega) bounded rfl,decodeFrom_seed,refused,error_bind]

theorem decodeAddons_whole (fits : addons.encode.length ≤ 255) : decodeAddons addons.encode.length (addons.encode ++ rest) = .ok (addons.sent,rest) := by
  have read := addons_roundtrip addons (by omega)
  rw [decodeAddons]
  by_cases positive : 0 < addons.encode.length
  · rw [if_pos positive,if_neg (by simp),take_left,read,ok_bind,drop_left]
  · have empty : addons.encode = [] := eq_nil_of_length_eq_zero (by omega)
    rw [empty,Addons.decode,Addons.decodeFrom] at read
    rw [if_neg positive,empty,nil_append,Except.ok.inj read]

end

def heard : Address → Address
  | .domain name => .domain (fromUtf8Lossy ((asBytes name).take (min (asBytes name).length 255)))
  | address => address

theorem decodeAddress_encode (address) : ∃ consumed, decodeAddress (encodeAddress address) = .ok (heard address,consumed) := by
  cases address with
  | ipv4 octets =>
    have read := readAddress_ipv4 addressTexts octets []
    rw [append_nil] at read
    exact ⟨5,by rw [encodeAddress,decodeAddress,read]; rfl⟩
  | ipv6 octets =>
    have read := readAddress_ipv6 addressTexts octets []
    rw [append_nil] at read
    exact ⟨17,by rw [encodeAddress,decodeAddress,read]; rfl⟩
  | domain name =>
    have width : ((asBytes name).take _).length = min (asBytes name).length 255 :=
      length_take_of_le (Nat.min_le_left ..)
    have read := readAddress_name addressTexts _ []
      (by rw [width]; exact Nat.min_le_right ..)
    rw [append_nil,width] at read
    exact ⟨_,by rw [encodeAddress,decodeAddress,read]; rfl⟩

def received (request : RequestHeader) : RequestHeader :=
  match request.command with
  | .tcp | .udp => ⟨version,request.command,0,.zero,request.port,heard request.address,none⟩
  | .mux | .rvs => ⟨version,request.command,0,.zero,⟨0⟩,.ipv4 (.zero 4),none⟩

theorem decodeTarget_encode (request) : decodeTarget request.command (encodeTarget request) = .ok ((received request).address,(received request).port) := by
  obtain ⟨consumed,read⟩ := decodeAddress_encode request.address
  have width : (u16ToBe request.port.value).length = 2 := u16ToBe_length _
  have enough : ¬ (u16ToBe request.port.value ++ encodeAddress request.address).length < 2 := by
    rw [length_append]
    omega
  have targeted : decodeTarget .tcp (u16ToBe request.port.value ++ encodeAddress request.address) = .ok (heard request.address,request.port) := by
    unfold decodeTarget
    rw [if_neg enough,drop_front width,take_front width,read,ok_bind,be16_roundtrip]
  unfold encodeTarget received
  cases request.command with
  | tcp | udp => exact targeted
  | mux | rvs => rfl

theorem decodeCommand_encode : decodeCommand (command.asByte :: rest) = .ok (command,rest) := by
  rw [decodeCommand,command_roundtrip]

theorem decode_layout (uuid : Octets 16) (size) (rest : Bytes) (getter) :
    decodeRequestHeader (version :: (uuid.val ++ (size :: rest))) getter = decodeBody version size.toNat rest := by
  have front : (version :: uuid.val).length = 17 := by rw [length_cons,uuid.property]
  have length : ((version :: uuid.val) ++ (size :: rest)).length = 18 + rest.length := by
    rw [length_append,front,length_cons]
    omega
  have first : ((version :: uuid.val) ++ (size :: rest)).getD 0 0 = version := rfl
  have found : ((version :: uuid.val) ++ (size :: rest)).getD 17 0 = size := getD_front front _ 0
  have behind : ((version :: uuid.val) ++ (size :: rest)).drop 18 = rest := by
    rw [show 18 = 17 + 1 from rfl,← drop_drop,drop_front front]
    rfl
  rw [← cons_append,decodeRequestHeader,if_neg (by simp)]
  rw [first,found,behind,if_neg (by simp),if_neg (by omega),if_neg (by omega)]

def carriedUuid (data : Bytes) : Option (Octets 16) :=
  if enough : 17 ≤ data.length then some ⟨(data.drop 1).take 16,by simp; omega⟩ else none

theorem carriedUuid_front (uuid : Octets 16) (rest : Bytes) : carriedUuid (version :: (uuid.val ++ rest)) = some uuid := by
  have enough : 17 ≤ (version :: (uuid.val ++ rest)).length := by
    rw [length_cons,length_append]
    omega
  rw [carriedUuid,dif_pos enough]
  exact congrArg some (Subtype.ext (take_front uuid.property rest))

theorem decoded_carries (decoded : decodeRequestHeader data getter = .ok result) : ∃ uuid, carriedUuid data = some uuid := by
  by_cases enough : 17 ≤ data.length
  · exact ⟨_,dif_pos enough⟩
  · rw [decodeRequestHeader] at decoded
    dsimp only at decoded
    rw [if_pos (by omega : data.length < 17)] at decoded
    split at decoded
    · cases decoded
    · split at decoded <;> cases decoded

theorem request_decoded (request) (fits : addons.encode.length ≤ 255) :
    decodeRequestHeader (encodeRequestHeader request addons) getter = .ok (received request,addons.sent) := by
  have size := UInt8.toNat_ofNat_of_lt' (Nat.lt_succ_of_le fits)
  rw [encodeRequestHeader,decode_layout,size,decodeBody,decodeAddons_whole addons fits,ok_bind]
  dsimp only
  rw [decodeCommand_encode,ok_bind]
  rw [decodeTarget_encode]
  unfold received
  cases request.command <;> rfl

theorem decodeCommand_tag (tag : byte = 0x0a ∨ byte = 0x12) (rest : Bytes) : ∃ e, decodeCommand (byte :: rest) = .error e := by
  rcases tag with rfl | rfl <;> exact ⟨_,rfl⟩

theorem decodeAddons_splits (decoded : decodeAddons k data = .ok found) : Addons.decode (data.take k) = .ok found.1 ∧ found.2 = data.drop k := by
  rw [decodeAddons] at decoded
  split at decoded
  · split at decoded
    · cases decoded
    · obtain ⟨addons,read,same⟩ := checked_bind decoded
      cases same
      exact ⟨read,rfl⟩
  · obtain rfl : k = 0 := by omega
    cases decoded
    rw [take_zero,Addons.decode,Addons.decodeFrom]
    exact ⟨rfl,rfl⟩

theorem decodeBody_cut (addons : Addons) (sized : addons.Sized) (cut : k < addons.encode.length) (small : k < 256) :
    ∃ e, decodeBody version k (addons.encode ++ rest) = .error e := by
  rw [decodeBody]
  cases decoded : decodeAddons k _ with
  | error e => exact ⟨e,rfl⟩
  | ok found =>
    obtain ⟨read,behind⟩ := decodeAddons_splits decoded
    rw [take_append_of_le_length (Nat.le_of_lt cut)] at read
    have tag := (addons_cut addons sized cut small).resolve_left (by rintro ⟨e,refused⟩; cases read.symm.trans refused)
    rw [getD_eq_getElem?_getD,getElem?_eq_getElem cut,Option.getD_some] at tag
    obtain ⟨e,refused⟩ := decodeCommand_tag tag _
    refine ⟨e,?_⟩
    rw [ok_bind]
    dsimp only
    rw [behind,drop_append_of_le_length (Nat.le_of_lt cut),drop_eq_getElem_cons cut,cons_append,refused,error_bind]

theorem request_accepted_iff (request addons getter) (sized : addons.Sized) :
    (∃ result, decodeRequestHeader (encodeRequestHeader request addons) getter = .ok result) ↔ addons.encode.length ≤ 255 := by
  constructor
  · rintro ⟨result,accepted⟩
    by_contra long
    have size : (UInt8.ofNat addons.encode.length).toNat = addons.encode.length % 256 := UInt8.toNat_ofNat'
    obtain ⟨e,refused⟩ := decodeBody_cut addons sized (by omega : addons.encode.length % 256 < _) (by omega)
    rw [encodeRequestHeader,decode_layout,size,refused] at accepted
    cases accepted
  · intro fits
    exact ⟨_,request_decoded request fits⟩

def carriedTarget (request : RequestHeader) : Address × Port :=
  match request.command with
  | .tcp | .udp => (request.address,request.port)
  | .mux | .rvs => (.ipv4 (.zero 4),⟨0⟩)

theorem heard_short (named : ∀ name, address = .domain name → (asBytes name).length ≤ 255) : heard address = address := by
  cases address with
  | ipv4 _ | ipv6 _ => rfl
  | domain name => rw [heard,Nat.min_eq_left (named name rfl),take_length,fromUtf8Lossy_asBytes]

theorem sent_same {addons : Addons} (seeded : addons.seed ≠ some []) : addons.sent = addons := by
  obtain ⟨flow,seed⟩ := addons
  cases seed with
  | none => rfl
  | some seed =>
    cases seed with
    | nil => exact absurd rfl seeded
    | cons _ _ => rfl

theorem request_returns (request : RequestHeader) (addons : Addons) (getter : UserGetter)
    (named : request.command = .tcp ∨ request.command = .udp → ∀ name, request.address = .domain name → (asBytes name).length ≤ 255)
    (seeded : addons.seed ≠ some []) (fits : addons.encode.length ≤ 255) :
    ∃ header, decodeRequestHeader (encodeRequestHeader request addons) getter = .ok (header,addons) ∧
      header.command = request.command ∧ (header.address,header.port) = carriedTarget request := by
  refine ⟨received request,?_,?_⟩
  · rw [request_decoded request fits,sent_same seeded]
  · unfold received carriedTarget
    cases command : request.command with
    | tcp => exact ⟨rfl,congrArg (·,request.port) (heard_short (named (.inl command)))⟩
    | udp => exact ⟨rfl,congrArg (·,request.port) (heard_short (named (.inr command)))⟩
    | mux | rvs => exact ⟨rfl,rfl⟩

theorem request_returns_named : ∃ header,
    decodeRequestHeader (encodeRequestHeader ⟨0,.udp,0,.zero,⟨53⟩,.domain "a",none⟩ ⟨"xtls",some [7]⟩) (fun _ => none) =
        .ok (header,⟨"xtls",some [7]⟩) ∧
      header.command = .udp ∧ (header.address,header.port) = (.domain "a",⟨53⟩) :=
  request_returns ⟨0,.udp,0,.zero,⟨53⟩,.domain "a",none⟩ ⟨"xtls",some [7]⟩ _
    (by rintro - name same; cases same; decide +kernel) (by decide) (by decide +kernel)

-- The lengths that are read, each with the offset behind it: a field is left only where it ends within the message.
inductive Announces (total : Nat) : Bytes → Nat → Nat → Prop
  | here (field : tag = 0x0a ∨ tag = 0x12) (read : Varint.decode 0 0 data = .ok (len,rest)) :
      Announces total (tag :: data) (total - rest.length) len.toNat
  | later (field : tag = 0x0a ∨ tag = 0x12) (read : Varint.decode 0 0 data = .ok (len,rest))
      (inside : total - rest.length + len.toNat ≤ total) (next : Announces total (rest.drop len.toNat) offset size) :
      Announces total (tag :: data) offset size

def Safe (result : Except Failure α) : Prop := ∀ fault, result ≠ .error (.panic fault)

theorem safe_error (text) : Safe (.error (.error text) : Except Failure α) := by
  intro _ same
  cases same

theorem safe_ok (value) : Safe (.ok value : Except Failure α) := by
  intro _ same
  cases same

theorem safe_bind {step : α → Except Failure β} (rest : ∀ value, result = .ok value → Safe (step value)) : Safe (result >>= step) ↔ Safe result := by
  cases result with
  | error e => exact ⟨fun safe fault same => safe fault (by rw [Except.error.inj same]; rfl),fun safe fault same => safe fault (by rw [Except.error.inj same])⟩
  | ok value => exact ⟨fun _ => safe_ok value,fun _ => rest value rfl⟩

theorem decodeFrom_field (field : tag = 0x0a ∨ tag = 0x12) (total) (addons : Addons) :
    ∃ truncated, ∃ next : Bytes → Addons, addons.decodeFrom total (tag :: data) =
      (decodeField total truncated data >>= fun found => Addons.decodeFrom total (next found.1) found.2) := by
  rcases field with rfl | rfl
  · exact ⟨_,fun value => { addons with flow := fromUtf8Lossy value },decodeFrom_flow total addons⟩
  · exact ⟨_,fun value => { addons with seed := some value },decodeFrom_seed total addons data⟩

theorem decodeField_read (truncated) (bounded : total < 2^64) (read : Varint.decode 0 0 data = .ok (len,rest)) :
    decodeField total truncated data = if 2^64 ≤ total - rest.length + len.toNat then .error (.panic .sliceIndex)
      else if total < total - rest.length + len.toNat then .error (.error truncated)
      else .ok (rest.take len.toNat,rest.drop len.toNat) := by
  have := len.toNat_lt
  rw [decodeField,read]
  dsimp only
  by_cases wraps : 2^64 ≤ total - rest.length + len.toNat
  · rw [if_pos wraps,if_neg (by omega),if_pos (by omega)]
  · rw [if_neg wraps,Nat.mod_eq_of_lt (by omega),if_neg (by omega : ¬ _ + _ < _),Nat.add_sub_cancel_left]

theorem decodeFrom_safe_iff (bounded : total < 2^64) (addons : Addons) (data) :
    Safe (addons.decodeFrom total data) ↔ ∀ offset len, Announces total data offset len → offset + len < 2^64 := by
  induction size : data.length using Nat.strong_induction_on generalizing addons data with
  | _ n ih =>
    subst size
    cases data with
    | nil =>
      rw [Addons.decodeFrom]
      refine ⟨?_,fun _ => safe_ok _⟩
      rintro - _ _ ⟨⟩
    | cons tag data =>
      by_cases field : tag = 0x0a ∨ tag = 0x12
      · obtain ⟨truncated,next,split⟩ := decodeFrom_field field total addons
        rw [split]
        cases read : Varint.decode 0 0 data with
        | error e =>
          rw [decodeField,read]
          refine ⟨?_,fun _ => safe_error e⟩
          rintro - _ _ (⟨-,other⟩ | ⟨-,other,-,-⟩) <;> cases read.symm.trans other
        | ok found =>
          obtain ⟨len,rest⟩ := found
          have shorter := Varint.decode_shortens read
          rw [decodeField_read truncated bounded read]
          by_cases wraps : 2^64 ≤ total - rest.length + len.toNat
          · rw [if_pos wraps]
            exact ⟨fun safe => absurd rfl (safe .sliceIndex),fun fits => absurd (fits _ _ (.here field read)) (by omega)⟩
          · rw [if_neg wraps]
            split
            · rename_i short
              refine ⟨?_,fun _ => safe_error truncated⟩
              rintro - _ _ (⟨-,other⟩ | ⟨-,other,inside,-⟩) <;> cases read.symm.trans other <;> omega
            · rename_i inside
              rw [ok_bind,ih _ (by simp only [length_drop,length_cons]; omega) _ _ rfl]
              refine ⟨?_,fun fits offset size announced => fits _ _ (.later field read (by omega) announced)⟩
              rintro fits _ _ (⟨-,other⟩ | ⟨-,other,-,announced⟩) <;> cases read.symm.trans other
              · omega
              · exact fits _ _ announced
      · rw [Addons.decodeFrom,if_neg (fun flow => field (.inl flow)),if_neg (fun seed => field (.inr seed))]
        refine ⟨?_,fun _ => safe_ok _⟩
        rintro - _ _ (⟨known,-⟩ | ⟨known,-,-,-⟩) <;> exact absurd known field

-- The decoder itself and both headers with such addons, of any user and before any rest.
def AddonsSafe (data : Bytes) : Prop :=
  Safe (Addons.decode data) ∧ Safe (decodeResponseHeader (version :: data)) ∧
    ∀ (uuid : Octets 16) rest getter, data.length ≤ 255 →
      Safe (decodeRequestHeader (version :: (uuid.val ++ (UInt8.ofNat data.length :: (data ++ rest)))) getter)

theorem decodeCommand_safe (data) : Safe (decodeCommand data) := by
  cases data with
  | nil => exact safe_error _
  | cons byte rest =>
    rw [decodeCommand]
    split
    · exact safe_ok _
    · exact safe_error _

theorem decodeTarget_safe : Safe (decodeTarget command data) := by
  have addressed : Safe (decodeTarget .tcp data) := by
    unfold decodeTarget
    dsimp only
    split
    · exact safe_error _
    · refine (safe_bind fun value _ => safe_ok _).mpr ?_
      rw [decodeAddress]
      cases readAddress addressTexts (data.drop 2) with
      | error e => exact safe_error e
      | ok found => exact safe_ok found
  cases command with
  | tcp | udp => exact addressed
  | mux | rvs => exact safe_ok _

theorem addonsSafe_iff (data) : AddonsSafe data ↔ Safe (Addons.decode data) := by
  refine ⟨And.left,fun safe => ⟨safe,?_,fun uuid rest getter fits => ?_⟩⟩
  · rw [decodeResponseHeader,if_neg (by simp)]
    split
    · exact safe_error _
    · exact safe
  · have size := UInt8.toNat_ofNat_of_lt' (Nat.lt_succ_of_le fits)
    rw [decode_layout,size,decodeBody]
    refine (safe_bind fun found _ => (safe_bind fun read _ => ?_).mpr (decodeCommand_safe _)).mpr ?_
    · exact (safe_bind fun _ _ => safe_ok _).mpr (decodeTarget_safe)
    · rw [decodeAddons]
      split
      · rw [if_neg (by simp),take_left]
        exact (safe_bind fun _ _ => safe_ok _).mpr safe
      · exact safe_ok _

theorem addons_safe_iff (data : Bytes) (word : data.length < 2^64) :
    AddonsSafe data ↔ ∀ offset len, Announces data.length data offset len → offset + len < 2^64 :=
  (addonsSafe_iff data).trans (decodeFrom_safe_iff word .default data)

theorem addons_safe_flow : AddonsSafe [0x0a,1,0x78] := by
  refine (addons_safe_iff [0x0a,1,0x78] (by decide)).mpr fun offset len announced => ?_
  cases announced with
  | here _ read =>
    cases read
    decide
  | later _ read _ further =>
    cases read
    cases further

theorem addons_crash : ¬ AddonsSafe [0x0a,0xff,0xff,0xff,0xff,0xff,0xff,0xff,0xff,0xff,0x01] := by
  intro safe
  have fits := (decodeFrom_safe_iff (by decide) .default _).mp safe.1 _ _ (.here (.inl rfl) rfl)
  exact absurd fits (by decide)

end AstraCore.VlessHeader
