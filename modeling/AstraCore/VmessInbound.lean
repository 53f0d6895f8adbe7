import AstraCore.InboundLink
import AstraCore.VmessResponse

namespace AstraCore.VmessInbound
open CheckedBytes NetAddress Crypto ProtoHeader VmessHeader ByteStream Dispatcher InboundLink List

structure Handler where
  users : List MemoryUser

variable (crypto : Primitives)

def accountId (user : MemoryUser) : Option ID :=
  match user.account with
  | some (.vmess id) => some id
  | _ => none

def userKey (user : MemoryUser) : Option (Octets 16) := (accountId user).map (ID.cmdKey crypto)

-- The first user whose key makes sense of the auth id; its time is not looked at.
def Handler.findUser (handler : Handler) (authId : Octets 16) : Option (Octets 16) :=
  handler.users.findSome? fun user => (userKey crypto user).filter fun cmdKey => (decodeAuthID crypto cmdKey authId).isOk

theorem findUser_first {id : ID} (first : handler.users.findSome? accountId = some id)
    (accepts : (decodeAuthID crypto (id.cmdKey crypto) authId).isOk = true) : Handler.findUser crypto handler authId = some (id.cmdKey crypto) := by
  rw [Handler.findUser]
  obtain ⟨users⟩ := handler
  induction users with
  | nil => cases first
  | cons user users ih =>
    rw [findSome?_cons] at first ⊢
    rw [userKey]
    cases account : accountId user with
    | none =>
      rw [account] at first
      exact ih first
    | some other =>
      rw [account] at first
      cases first
      rw [Option.map_some,Option.filter_some,if_pos accepts]

structure Accepted where
  authId : Octets 16
  cmdKey : Octets 16
  buffer : Bytes
  request : RequestHeader
  server : ServerSession
  rest : List (Segment UInt8 4096)

-- Every connection decodes with a session history of its own.
def decodeBuffer (now : Nat) (authId cmdKey : Octets 16) (buffer : Bytes) (rest : List (Segment UInt8 4096)) :
    Except String Accepted :=
  match (ServerSession.new .new).decodeRequestHeader crypto now authId buffer cmdKey with
  | (.ok request,server) => .ok ⟨authId,cmdKey,buffer,request,server,rest⟩
  | (.error e,_) => .error ("decode request: " ++ e)

def opens (authId cmdKey : Octets 16) (buffer : Bytes) : Bool := (openVMessAEADHeader crypto cmdKey authId buffer).isOk

def readHeader (now : Nat) (failure : Option String) (authId cmdKey : Octets 16) (segments : List (Segment UInt8 4096)) :
    Except String Accepted :=
  match gather (opens crypto authId cmdKey) 65536 [] segments with
  | .tooLarge => .error "header too large"
  | .accepted buffer rest => decodeBuffer crypto now authId cmdKey buffer rest
  | .ended buffer =>
    match failure with
    | some e => .error ("read header data: " ++ e)
    | none => decodeBuffer crypto now authId cmdKey buffer []

section
variable (handler : Handler)

def Handler.accept (now : Nat) (incoming : Incoming 4096) : Except String Accepted :=
  match readExact 16 incoming.segments with
  | none => .error ("read auth id: " ++ incoming.failure.getD "early eof")
  | some (authId,rest) =>
    match handler.findUser crypto authId with
    | none => .error "no matching user for auth id"
    | some cmdKey => readHeader crypto now incoming.failure authId cmdKey rest

def Accepted.answer (accepted : Accepted) : Answer 4096 :=
  ⟨accepted.server.encodeResponseHeader crypto 0 none,accepted.request.destination,accepted.rest⟩

def labels : Labels := ⟨"write response: ","vmess inbound copy: "⟩

def Handler.process (now : Nat) (session : Session) (around : Circumstances) (incoming : Incoming 4096) :
    Outcome :=
  match handler.accept crypto now incoming with
  | .error e => .refusal e
  | .ok accepted => serve labels session around incoming.failure (accepted.answer crypto)

structure Valid (authId cmdKey : Octets 16) (header plaintext lenPlain : Bytes) (request : RequestHeader) :
    Prop where
  user : handler.findUser crypto authId = some cmdKey
  sealed : Record crypto cmdKey authId header plaintext lenPlain
  enough : 38 ≤ plaintext.length
  decoded : decodeText plaintext = .ok request

end

variable {crypto}

section
variable (valid : Valid crypto handler authId cmdKey header plaintext lenPlain request)
include valid

theorem opens_iff (body n) : opens crypto authId cmdKey ((header ++ body).take n) = true ↔ header.length ≤ n := by
  by_cases whole : header.length ≤ n
  · have longer : (header ++ body).take n = header ++ body.take (n - header.length) := by
      rw [take_append,take_of_length_le whole]
    rw [opens,longer,open_record valid.sealed]
    exact iff_of_true rfl whole
  · obtain ⟨e,refused⟩ := open_part valid.sealed (Nat.lt_of_not_le whole)
    rw [opens,take_append_of_le_length (Nat.le_of_not_le whole),refused]
    exact iff_of_false nofun whole

theorem decodeBuffer_valid : ∃ history, decodeBuffer crypto now authId cmdKey (header ++ extra) rest =
      .ok ⟨authId,cmdKey,header ++ extra,request,.informed crypto plaintext valid.enough history,rest⟩ := by
  obtain ⟨history,decoded⟩ := decode_unseen (open_record valid.sealed extra) valid.enough valid.decoded now
  rw [decodeBuffer,decoded]
  exact ⟨_,rfl⟩

theorem accept_reads (incoming : Incoming 4096) (stream : text incoming.segments = authId.val ++ (header ++ body)) :
    ∃ rest, handler.accept crypto now incoming = readHeader crypto now incoming.failure authId cmdKey rest ∧
      text rest = header ++ body ∧ ∀ k, 0 < k → (Boundary rest k ↔ Boundary incoming.segments (16 + k)) := by
  have width := authId.property
  obtain ⟨front,rest,read,taken,remains⟩ := readExact_enough incoming.segments 16 (by rw [stream,length_append]; omega)
  have same : front = authId := Subtype.ext (by rw [taken,stream,take_front width])
  refine ⟨rest,?_,?_,remains.boundary⟩
  · rw [Handler.accept,read,same]
    simp only [valid.user]
  · rw [remains.text,stream,drop_front width]

theorem readHeader_valid (failure) (stream : text segments = header ++ body) : (∃ extra history rest, readHeader crypto now failure authId cmdKey segments =
        .ok ⟨authId,cmdKey,header ++ extra,request,.informed crypto plaintext valid.enough history,rest⟩ ∧ extra ++ text rest = body ∧
        gather (opens crypto authId cmdKey) 65536 [] segments = .accepted (header ++ extra) rest) ∨
      readHeader crypto now failure authId cmdKey segments = .error "header too large" ∧ gather (opens crypto authId cmdKey) 65536 [] segments = .tooLarge := by
  rw [readHeader]
  cases gathered : gather (opens crypto authId cmdKey) 65536 [] segments with
  | tooLarge => exact .inr ⟨rfl,rfl⟩
  | accepted buffer rest =>
    obtain ⟨opened,parts⟩ := gather_accepted gathered
    rw [nil_append,stream] at parts
    have front : buffer = (header ++ body).take buffer.length := by rw [← parts,take_left]
    rw [front,opens_iff valid] at opened
    obtain ⟨extra,rfl⟩ := prefix_of_prefix_length_le (prefix_append header body) ⟨text rest,parts⟩ opened
    obtain ⟨history,decoded⟩ := decodeBuffer_valid valid
    rw [append_assoc] at parts
    exact .inl ⟨extra,history,rest,decoded,append_cancel_left parts,rfl⟩
  | ended buffer =>
    exfalso
    obtain ⟨whole,refused⟩ := gather_ended gathered
    rw [nil_append,stream] at whole
    have width := valid.sealed.width
    rcases refused with rfl | refused
    · have empty := congrArg List.length stream
      rw [length_append] at empty
      simp only [text_nil,length_nil] at empty
      omega
    · have opened := (opens_iff valid body buffer.length).mpr (by rw [whole,length_append]; omega)
      rw [whole,take_length,← whole,refused] at opened
      cases opened

def Unbroken (segments : List (Segment UInt8 4096)) (size : Nat) : Prop :=
  ∀ k, 0 < k → k < size → Boundary segments (16 + k) → k ≤ 65536

def EndsWith (segments : List (Segment UInt8 4096)) (size : Nat) : Prop :=
  Boundary segments (16 + size) ∧ Unbroken segments size

omit valid in
theorem passes_behind (boundary : ∀ k, 0 < k → (Boundary rest k ↔ Boundary segments (16 + k))) (size : Nat) :
    Passes 65536 0 size rest ↔ Unbroken segments size := by
  refine forall₂_congr fun k positive => ?_
  rw [Nat.zero_add,boundary k positive]

theorem opens_threshold (stream : text segments = header ++ body) : ∀ n ≤ ([] ++ text (segments : List (Segment UInt8 4096))).length,
      (opens crypto authId cmdKey (([] ++ text segments).take n) = true ↔ header.length ≤ n) := by
  intro n _
  rw [stream]
  exact opens_iff valid body n

theorem readHeader_passes (failure) (stream : text segments = header ++ body) :
    (∃ accepted, readHeader crypto now failure authId cmdKey segments = .ok accepted) ↔ Passes 65536 0 header.length segments := by
  have width := valid.sealed.width
  have passes := gather_passes 65536 (opens_threshold valid stream) (by rw [length_nil]; omega)
    (by rw [nil_append,stream,length_append]; omega)
  rw [length_nil] at passes
  rw [← passes]
  rcases readHeader_valid valid failure stream with ⟨extra,history,rest,read,-,gathered⟩ | ⟨read,gathered⟩
  · exact iff_of_true ⟨_,read⟩ ⟨_,_,gathered⟩
  · rw [read,gathered]
    refine iff_of_false ?_ ?_
    · rintro ⟨accepted,same⟩
      cases same
    · rintro ⟨out,rest,same⟩
      cases same

theorem readHeader_exact_iff (failure) (stream : text segments = header ++ body) :
    (∃ server rest, readHeader crypto now failure authId cmdKey segments = .ok ⟨authId,cmdKey,header,request,server,rest⟩) ↔
      Boundary segments header.length ∧ Passes 65536 0 header.length segments := by
  have width := valid.sealed.width
  rw [← readHeader_passes valid failure stream]
  rcases readHeader_valid valid failure stream with ⟨extra,history,rest,read,-,gathered⟩ | ⟨read,-⟩
  · have first := gather_first (opens_threshold valid stream) (by rw [length_nil]; omega) gathered
    rw [length_nil,Nat.sub_zero,length_append] at first
    rw [read,← first]
    constructor
    · rintro ⟨server,rest,same⟩
      have buffer : header ++ extra = header := congrArg Accepted.buffer (Except.ok.inj same)
      exact ⟨by rw [← length_append,buffer],_,rfl⟩
    · rintro ⟨alone,-⟩
      obtain rfl : extra = [] := eq_nil_of_length_eq_zero (by omega)
      rw [append_nil]
      exact ⟨_,_,rfl⟩
  · rw [read]
    refine iff_of_false ?_ ?_
    · rintro ⟨server,rest,same⟩
      cases same
    · rintro ⟨-,accepted,same⟩
      cases same

theorem accept_exact_iff (stream : text incoming.segments = authId.val ++ (header ++ body)) :
    (∃ server rest, handler.accept crypto now incoming = .ok ⟨authId,cmdKey,header,request,server,rest⟩) ↔ EndsWith incoming.segments header.length := by
  have width := valid.sealed.width
  obtain ⟨rest,read,behind,boundary⟩ := accept_reads valid incoming stream
  rw [read,readHeader_exact_iff valid incoming.failure behind,boundary _ (by omega),passes_behind boundary]
  rfl

theorem accept_passes (now) (incoming : Incoming 4096) (stream : text incoming.segments = authId.val ++ (header ++ body)) :
    (∃ accepted, handler.accept crypto now incoming = .ok accepted) ↔ Unbroken incoming.segments header.length := by
  obtain ⟨rest,read,behind,boundary⟩ := accept_reads valid incoming stream
  rw [read,readHeader_passes valid incoming.failure behind,passes_behind boundary]

theorem accept_valid (now) (incoming : Incoming 4096) (stream : text incoming.segments = authId.val ++ (header ++ body)) :
    (∃ extra history rest, handler.accept crypto now incoming =
        .ok ⟨authId,cmdKey,header ++ extra,request,.informed crypto plaintext valid.enough history,rest⟩ ∧
      extra ++ text rest = body) ∨ handler.accept crypto now incoming = .error "header too large" := by
  obtain ⟨rest,read,behind,-⟩ := accept_reads valid incoming stream
  rw [read]
  rcases readHeader_valid valid incoming.failure behind with ⟨extra,history,rest,read,parts,-⟩ | ⟨read,-⟩
  · exact .inl ⟨extra,history,rest,read,parts⟩
  · exact .inr read

end

theorem decodeBuffer_sound (decoded : decodeBuffer crypto now authId cmdKey buffer rest = .ok accepted) :
    ∃ server, accepted = ⟨authId,cmdKey,buffer,accepted.request,server,rest⟩ ∧
      (ServerSession.new .new).decodeRequestHeader crypto now authId buffer cmdKey = (.ok accepted.request,server) := by
  rw [decodeBuffer] at decoded
  split at decoded
  · rename_i request server found
    cases decoded
    exact ⟨server,rfl,found⟩
  · cases decoded

theorem accept_sound (accepts : handler.accept crypto now incoming = .ok accepted) : ∃ header extra plaintext lenPlain, accepted.buffer = header ++ extra ∧
      Valid crypto handler accepted.authId accepted.cmdKey header plaintext lenPlain accepted.request ∧
      text incoming.segments = accepted.authId.val ++ (header ++ (extra ++ text accepted.rest)) := by
  rw [Handler.accept] at accepts
  split at accepts
  · cases accepts
  rename_i authId behind read
  split at accepts
  · cases accepts
  rename_i cmdKey user
  -- In both remaining ways out of the loop the buffer and the rest are the stream behind the auth id.
  have left : ∃ buffer rest, buffer ++ text rest = text behind ∧ decodeBuffer crypto now authId cmdKey buffer rest = .ok accepted := by
    rw [readHeader] at accepts
    split at accepts
    · cases accepts
    · rename_i buffer rest gathered
      exact ⟨buffer,rest,(gather_accepted gathered).2,accepts⟩
    · rename_i buffer gathered
      split at accepts
      · cases accepts
      · exact ⟨buffer,[],by simpa using (gather_ended gathered).1,accepts⟩
  obtain ⟨buffer,rest,parts,decoded⟩ := left
  obtain ⟨server,same,decoded⟩ := decodeBuffer_sound decoded
  obtain ⟨plaintext,drain,count,opened,enough,request⟩ := decode_sound decoded
  obtain ⟨-,-,-,lenPlain,whole⟩ := record_open opened
  obtain ⟨front,remains⟩ := readExact_some read
  rw [same]
  refine ⟨buffer.take count,buffer.drop count,plaintext,lenPlain,(take_append_drop ..).symm,⟨user,whole,enough,request⟩,?_⟩
  rw [← append_assoc (buffer.take count),take_append_drop]
  rw [parts,remains.text,front,take_append_drop]

theorem valid_encoded (client : ClientSession crypto) (header draws) (found : handler.findUser crypto (draws.sealing.authId crypto cmdKey) = some cmdKey)
    (carried : Targeted header.command → MuxFrame.Fits header.address) : ∃ lenPlain, Valid crypto handler (draws.sealing.authId crypto cmdKey) cmdKey
      (sealedHeader crypto cmdKey (draws.sealing.authId crypto cmdKey) draws.sealing.connNonce (client.plaintext header draws))
      (client.plaintext header draws) lenPlain (received header) := by
  obtain ⟨lenPlain,whole⟩ := record_encoded client cmdKey (draws.sealing.authId crypto cmdKey) draws.sealing.connNonce header draws
    carried
  exact ⟨lenPlain,found,whole,plaintext_enough client header draws,decodeText_encode client header draws carried⟩

theorem inbound_copies_iff (valid : Valid crypto handler authId cmdKey header plaintext lenPlain request) (now : Nat)
    (session : Session) (around : Circumstances) (incoming : Incoming 4096) (body : Bytes)
    (stream : text incoming.segments = authId.val ++ (header ++ body)) :
    ((handler.process crypto now session around incoming).dispatch =
        some (aimedAt session request.destination,request.destination) ∧
      (handler.process crypto now session around incoming).copied = body) ↔
    around.Carries body.length ∧ EndsWith incoming.segments header.length := by
  rw [← accept_exact_iff valid stream,Handler.process]
  rcases accept_valid valid now incoming stream with ⟨extra,history,rest,accepts,parts⟩ | refused
  · rw [accepts]
    refine (serve_copies_iff labels session around incoming.failure _ parts).trans (and_congr_right fun _ => ?_)
    constructor
    · rintro rfl
      rw [append_nil]
      exact ⟨_,rest,rfl⟩
    · rintro ⟨server,rest,same⟩
      have buffer := congrArg Accepted.buffer (Except.ok.inj same)
      simpa using buffer
  · rw [refused]
    refine iff_of_false ?_ ?_
    · rintro ⟨called,-⟩
      cases called
    · rintro ⟨-,server,rest,same⟩
      cases same

def sampleKey : Octets 16 := padded 16 [66]
def sampleHandler : Handler := ⟨[⟨none,"none@example",0⟩,⟨some (.vmess ⟨sampleKey⟩),"user@example",0⟩]⟩
def sampleClient : ClientSession plain := .new plain sampleSession
def sampleAuthId : Octets 16 := sampleDraws.sealing.authId plain sampleKey
def sampleSealed : Bytes :=
  sealedHeader plain sampleKey sampleAuthId sampleDraws.sealing.connNonce (sampleClient.plaintext sampleHeader sampleDraws)

def apart : Incoming 4096 := ⟨[⟨sampleAuthId.val ++ sampleSealed,by decide +kernel⟩,⟨[7,8,9],by decide⟩],none⟩
def together : Incoming 4096 := ⟨[⟨sampleAuthId.val ++ (sampleSealed ++ [7,8,9]),by decide +kernel⟩],none⟩

def undisturbed : Circumstances := ⟨.ok (),.ok (),none⟩

theorem sample_valid : ∃ lenPlain, Valid plain sampleHandler sampleAuthId sampleKey sampleSealed
    (sampleClient.plaintext sampleHeader sampleDraws) lenPlain (received sampleHeader) :=
  valid_encoded sampleClient sampleHeader sampleDraws (by decide +kernel)
    (fun _ => (by decide : (LossyUtf8.asBytes "dns.example").length ≤ 255))

theorem sample_ends : EndsWith apart.segments sampleSealed.length := by
  refine ⟨by decide +kernel,?_⟩
  have size : sampleSealed.length = 106 := by decide +kernel
  intro k _ short _
  omega

theorem apart_copies : (sampleHandler.process plain 1700000001 aimed undisturbed apart).dispatch =
      some (aimedAt aimed (received sampleHeader).destination,(received sampleHeader).destination) ∧
    (sampleHandler.process plain 1700000001 aimed undisturbed apart).copied = [7,8,9] := by
  obtain ⟨lenPlain,valid⟩ := sample_valid
  exact (inbound_copies_iff valid 1700000001 aimed undisturbed apart [7,8,9] (by simp [apart])).mpr
    ⟨⟨rfl,.inr ⟨rfl,nofun⟩⟩,sample_ends⟩

-- The same stream in one read: the target is dispatched, and the body never arrives.
theorem together_loses_body : text together.segments = text apart.segments ∧
    (sampleHandler.process plain 1700000001 aimed undisturbed together).dispatch.map Prod.snd = some (received sampleHeader).destination ∧
    (sampleHandler.process plain 1700000001 aimed undisturbed together).copied = [] := by
  refine ⟨by simp [together,apart],?_⟩
  decide +kernel

end AstraCore.VmessInbound
