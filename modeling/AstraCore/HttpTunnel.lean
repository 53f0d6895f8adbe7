import AstraCore.HttpInbound

namespace AstraCore.Http
open CheckedBytes NetAddress LossyUtf8 TextScan AddressText Dispatcher InboundLink Dialogue Dialogue.Talk LineReader ByteStream List
open PolledStream (Stream Reading oneRead)

structure HttpOutboundConfig where
  username : String
  password : String

section
variable (target : Destination)

def targetStr : Text := displayAddress target.address ++ ':' :: decimal target.port.value.toNat

def crlf : Text := ['\r','\n']

def connectWord : Text := "CONNECT".toList
def versionWord : Text := "HTTP/1.1".toList
def hostName : Text := "Host: ".toList
def authorizationName : Text := "Proxy-Authorization".toList
def keepAlive : Text := "Proxy-Connection: Keep-Alive".toList

def requestLine : Text := connectWord ++ ' ' :: (targetStr target ++ ' ' :: (versionWord ++ crlf))
def hostLine : Text := hostName ++ targetStr target ++ crlf

end
def keepAliveLine : Text := keepAlive ++ crlf

section
variable (config : HttpOutboundConfig)

def HttpOutboundConfig.credentials : Text :=
  Base64.encode (asBytes (config.username ++ ":" ++ config.password))

def HttpOutboundConfig.authorizationLine : Text :=
  authorizationName ++ ':' :: ' ' :: (basicScheme ++ config.credentials) ++ crlf

def HttpOutboundConfig.authorizationLines : List Text :=
  if config.username ≠ "" then [config.authorizationLine] else []

section
variable (target : Destination)

def requestFields : List Text :=
  hostLine target :: (config.authorizationLines ++ [keepAliveLine])

def connectRequest : Bytes :=
  Text.bytes (requestLine target ++ ((requestFields config target).flatten ++ crlf))

-- What is made of the bytes read so far: nothing yet, or the verdict with what stands behind the blank line.
def checkResponse (data : Bytes) : Option (Except String Bytes) :=
  (position headerEnd data).map fun hdrEnd =>
    match fromUtf8 ((data.take hdrEnd).takeWhile (· ≠ 13)) with
    | none => .error "invalid status line"
    | some statusLine =>
      if "200".toList <:+: statusLine.toList then .ok (data.drop (hdrEnd + 4)) else .error "proxy rejected CONNECT request"

def responseSize : Nat := 4096

def responseLoop : Nat → Bytes → Stream bufferSize → Reading (Bytes × Stream bufferSize)
  | 0,_,_ => .error .waits
  | turns + 1,buf,stream =>
    match stream.poll (responseSize - buf.length) with
    | (.pending,later) => if stream.arrivals = [] then .error .waits else responseLoop turns buf later
    | (.failed e,_) => .error (.error ("http read response: " ++ e))
    | (.filled bytes _,later) =>
      if bytes = [] then .error (.error "connection closed during handshake")
      else
        match checkResponse (buf ++ bytes) with
        | none => responseLoop turns (buf ++ bytes) later
        | some (.error e) => .error (.error e)
        | some (.ok remaining) => .ok (remaining,later)

def readResponse : Talk bufferSize Bytes := fun stream =>
  ([],responseLoop (stream.text.length + stream.arrivals.length + 1) [] stream)

def connectHandshake : Talk bufferSize Bytes := do
  say (connectRequest config target)
  readResponse

end

-- `select!` over the two copies: the first of them to end ends the other, however far both have got.
structure Cut where
  sent : Nat
  copied : Nat

def relayOutbound (ended : Option Cut) (upload remaining : Bytes) : Talk bufferSize Bytes := fun stream =>
  match ended with
  | none => (upload,.ok (remaining ++ stream.text,⟨[],stream.ending⟩))
  | some cut => (upload.take cut.sent,.ok (remaining ++ stream.text.take cut.copied,⟨[],stream.ending⟩))

def processOutbound (session : Session) (dialed : Except String Unit) (ended : Option Cut)
    (upload : Bytes) : Talk bufferSize Bytes :=
  match session.target with
  | none => fail "no target"
  | some target =>
    if target.network = .udp then fail "UDP not supported by HTTP outbound"
    else
      match dialed with
      | .error e => fail e
      | .ok () => do
        let remaining ← connectHandshake config target
        relayOutbound ended upload remaining

theorem solid_newline {text : Text} (solid : ∀ c ∈ text, isWhitespace c = false) : '\n' ∉ text := fun inside =>
  absurd (solid _ inside) (by decide)

theorem isLine_crlf (fresh : '\n' ∉ body) : IsLine (body ++ crlf) := isLine_ended fresh

theorem targetStr_solid (passable : Passable target.address) : ∀ c ∈ targetStr target, isWhitespace c = false := by
  intro c inside
  rcases mem_append.mp inside with name | port
  · exact (passable_solid _ passable c name).1
  · rcases mem_cons.mp port with rfl | digit
    · rfl
    · exact (digit_solid (decimal_digits _ c digit)).1

theorem credentials_solid : ∀ c ∈ config.credentials, isWhitespace c = false :=
  Base64.encode_solid _

theorem authorizationLine_fresh : '\n' ∉ authorizationName ++ ':' :: ' ' :: (basicScheme ++ config.credentials) := by
  simp only [mem_append,mem_cons,not_or]
  exact ⟨by decide,by decide,by decide,by decide,solid_newline (credentials_solid config)⟩

end

section Lines
variable {config : HttpOutboundConfig} {target : Destination} (passable : Passable target.address)
include passable

theorem requestLine_shape : IsLine (requestLine target) := by
  have fresh := solid_newline (targetStr_solid passable)
  have body : requestLine target = (connectWord ++ ' ' :: (targetStr target ++ ' ' :: versionWord)) ++ crlf := by
    simp only [requestLine,append_assoc,cons_append]
  rw [body]
  apply isLine_crlf
  simp only [mem_append,mem_cons,not_or]
  exact ⟨by decide,by decide,fresh,by decide,by decide⟩

theorem requestLine_words : words (requestLine target) = [connectWord,targetStr target,versionWord] := by
  have present : targetStr target ≠ [] := by simp [targetStr]
  rw [requestLine,words_first (by decide) (solid_of_all (by decide)) rfl,words_first present (targetStr_solid passable) rfl]
  rfl

theorem requestFields_shape : ∀ field ∈ requestFields config target, IsLine field := by
  have fresh := solid_newline (targetStr_solid passable)
  intro field member
  simp only [requestFields,HttpOutboundConfig.authorizationLines,mem_cons,mem_append] at member
  rcases member with rfl | optional | rfl | none_
  · apply isLine_crlf
    rw [mem_append]
    exact fun inside => inside.elim (by decide) fresh
  · split at optional
    · rw [mem_singleton.mp optional]
      exact isLine_crlf (authorizationLine_fresh config)
    · cases optional
  · exact isLine_crlf (by decide)
  · cases none_

omit passable in
theorem requestFields_solid : ∀ field ∈ requestFields config target, blankLine field = false := by
  have letter (c : Char) (rest : Text) (other : c ≠ '\r' ∧ c ≠ '\n') : blankLine (c :: rest) = false := by
    simp [blankLine,other.1,other.2]
  intro field member
  simp only [requestFields,HttpOutboundConfig.authorizationLines,mem_cons,mem_append] at member
  rcases member with rfl | optional | rfl | none_
  · exact letter 'H' _ (by decide)
  · split at optional
    · rw [mem_singleton.mp optional]
      exact letter 'P' _ (by decide)
    · cases optional
  · exact letter 'P' _ (by decide)
  · cases none_

theorem readRequest_written (parts : reader.text = connectRequest config target ++ rest) :
    ∃ later, readRequest reader = .ok (⟨connectWord,targetStr target,(requestFields config target).map trimLineEnd⟩,later) ∧
      later.text = rest ∧ Takes reader (connectRequest config target) later := by
  obtain ⟨middle,later,first,head,behind,takes⟩ := header_written _ (requestLine_shape passable)
    (requestFields_shape passable) requestFields_solid (isLine_crlf not_mem_nil) rfl parts
  refine ⟨later,?_,behind,takes⟩
  rw [readRequest,first,PolledStream.labelled_ok,ok_bind]
  simp only [requestLine_words passable]
  rw [(readHead_iff rfl).mpr head]
  rfl

theorem readRequest_waits (parts : reader.text ++ more = connectRequest config target) (missing : more ≠ [])
    (opened : reader.stream.ending = .stillOpen) : readRequest reader = .error .waits := by
  rw [connectRequest,bytes_append] at parts
  rcases part_or_whole parts with ⟨middle,present,whole⟩ | ⟨middle,whole,later⟩
  · rw [readRequest,readLine_waits (requestLine_shape passable) whole present opened]
    rfl
  · obtain ⟨rest,read,text,ending⟩ := readLine_written (requestLine_shape passable) whole
    rw [readRequest,read,PolledStream.labelled_ok,ok_bind]
    simp only [requestLine_words passable]
    rw [readHead,headLoop_waits _ (requestFields_shape passable) requestFields_solid
      (isLine_crlf not_mem_nil) (by rw [text]; exact later) missing (ending.trans opened)]
    rfl

end Lines

theorem trimLineEnd_crlf (fresh : '\n' ∉ body) : trimLineEnd (body ++ crlf) = body := by
  have turned : (body ++ crlf).reverse = '\n' :: '\r' :: body.reverse := by
    rw [reverse_append]
    rfl
  rw [trimLineEnd,turned,dropPairs]
  cases shape : body.reverse with
  | nil => rw [← reverse_reverse body,shape]; rfl
  | cons c rest =>
    have other : c ≠ '\n' := fun same => fresh (mem_reverse.mp (by rw [shape,same]; exact mem_cons_self ..))
    have same : dropPairs (c :: rest) = c :: rest := by
      rw [dropPairs]
      exact fun tail pair => other (List.cons.inj pair).1
    rw [same,dropWhile_cons_of_neg (by simpa using other),← shape,reverse_reverse]

def Registered (server : HttpConfig) (config : HttpOutboundConfig) : Prop :=
  config.username ≠ "" ∧ ∃ username password, username ++ ":" ++ password = config.username ++ ":" ++ config.password ∧
    ':' ∉ username.toList ∧ server.accounts.lookup username = some password

theorem pair_split : ∃ username password, username ++ ":" ++ password = first ++ ":" ++ second ∧ ':' ∉ username.toList := by
  have present : ':' ∈ (first ++ ":" ++ second).toList := by
    simp
  obtain ⟨front,back,shape,fresh⟩ := eq_append_cons_of_mem present
  refine ⟨String.ofList front,String.ofList back,String.toList_inj.mp ?_,by rwa [String.toList_ofList]⟩
  rw [pair_toList,String.toList_ofList,String.toList_ofList,shape]

section
variable (config : HttpOutboundConfig)

theorem credentials_parse : parseBasicAuth (basicScheme ++ config.credentials) = some (username,password) ↔
      username ++ ":" ++ password = config.username ++ ":" ++ config.password ∧ ':' ∉ username.toList := by
  rw [parseBasicAuth_iff,append_cancel_left_eq]
  refine and_congr_left fun _ => ⟨fun same => ?_,fun same => by rw [same,HttpOutboundConfig.credentials]⟩
  have bytes := congrArg Base64.decode same
  rw [HttpOutboundConfig.credentials,Base64.decode_encode,Base64.decode_encode,Option.some.injEq] at bytes
  have texts := congrArg fromUtf8 bytes
  rw [fromUtf8_asBytes,fromUtf8_asBytes,Option.some.injEq] at texts
  exact texts.symm

theorem credentials_present : config.credentials ≠ [] := by
  obtain ⟨username,password,same,fresh⟩ := pair_split
  have parsed := (credentials_parse config).mpr ⟨same,fresh⟩
  intro empty
  rw [empty] at parsed
  cases parsed

theorem credentials_trim : trim (' ' :: (basicScheme ++ config.credentials)) = basicScheme ++ config.credentials := by
  have front : (' ' :: (basicScheme ++ config.credentials)).dropWhile isWhitespace = basicScheme ++ config.credentials := rfl
  rw [trim,front,rdropWhile_eq_self_iff]
  intro present
  rw [getLast_append_of_ne_nil present (credentials_present config),credentials_solid config _ (getLast_mem _)]
  decide

theorem not_authorization (parts : field = name ++ ':' :: value) (fresh : ':' ∉ name)
    (other : toLowercase name ≠ "proxy-authorization".toList) : ¬ IsAuthorization field := by
  rintro ⟨first,second,shape,clear,lowered⟩
  have same := splitOnce_front clear second
  rw [← shape,parts,splitOnce_front fresh] at same
  rw [(Prod.mk.inj (Option.some.inj same)).1] at other
  exact other lowered

theorem hostLine_other (target) : ¬ IsAuthorization (hostLine target) := by
  have parts : hostLine target = ['H','o','s','t'] ++ ':' :: ' ' :: (targetStr target ++ crlf) := rfl
  exact not_authorization parts (by decide) (by decide)

theorem keepAliveLine_other : ¬ IsAuthorization keepAliveLine := by
  have parts : keepAliveLine = "Proxy-Connection".toList ++ ':' :: " Keep-Alive\r\n".toList := by decide
  exact not_authorization parts (by decide) (by decide)

theorem authorizationLine_named : IsAuthorization config.authorizationLine :=
  ⟨authorizationName,' ' :: (basicScheme ++ config.credentials) ++ crlf,append_assoc ..,by decide,by decide⟩

end

theorem authorized_request (target) : authorized server ((requestFields config target).map trimLineEnd) = true ↔ Registered server config := by
  have passes (field : Text) : authorizationField <+: toLowercase (trimLineEnd field) ↔ IsAuthorization field := by
    rw [isAuthorization_iff,trimLineEnd_authorization]
  have host := mt (passes _).mp (hostLine_other target)
  have keeps := mt (passes _).mp keepAliveLine_other
  have named := (passes _).mpr (authorizationLine_named config)
  unfold authorized Registered
  rw [requestFields,map_cons,map_append,find?_cons_of_neg (by simpa using host)]
  by_cases user : config.username = ""
  · rw [HttpOutboundConfig.authorizationLines,if_neg (not_not_intro user),map_nil,nil_append,map_singleton,find?_cons_of_neg (by simpa using keeps)]
    exact iff_of_false (by simp) (fun both => both.1 user)
  · rw [HttpOutboundConfig.authorizationLines,if_pos user,map_singleton,singleton_append,find?_cons_of_pos (by simpa using named)]
    have value : splitOnce ':' (trimLineEnd config.authorizationLine) = some (authorizationName,' ' :: (basicScheme ++ config.credentials)) := by
      rw [HttpOutboundConfig.authorizationLine,trimLineEnd_crlf (authorizationLine_fresh config)]
      exact splitOnce_front (by decide) _
    obtain ⟨username,password,same,fresh⟩ := pair_split
    have parsed := (credentials_parse config).mpr ⟨same,fresh⟩
    simp only [value,credentials_trim,parsed]
    constructor
    · intro found
      exact ⟨user,username,password,same,fresh,by simpa [HttpConfig.hasAccount] using found⟩
    · rintro ⟨-,other,secret,whole,clear,found⟩
      have again := (credentials_parse config).mpr ⟨whole,clear⟩
      rw [parsed,Option.some.injEq] at again
      obtain ⟨rfl,rfl⟩ := Prod.mk.inj again
      simpa [HttpConfig.hasAccount] using found

theorem answer_granted (passable : Passable target.address) (granted : server.accounts.entries = [] ∨ Registered server config) :
    answer server ⟨connectWord,targetStr target,(requestFields config target).map trimLineEnd⟩ stream =
      (asBytes established,.ok (tcpDestination target.address target.port,stream)) := by
  have solid := passable_solid target.address passable
  have ports := decimal_digits target.port.value.toNat
  have parts : splitOn ':' (targetStr target) = [displayAddress target.address,decimal target.port.value.toNat] :=
    (splitOn_two ':' _ _ _).mpr ⟨rfl,fun inside => (solid _ inside).2 rfl,fun inside => (digit_solid (ports _ inside)).2 rfl⟩
  have method : ¬ toUppercase connectWord ≠ "CONNECT".toList := by decide
  rw [answer,if_neg,if_neg method,answerConnect]
  · simp only [parts,parseU16_decimal,passable_parse _ passable]
    rfl
  · rintro ⟨guarded,refused⟩
    rcases granted with free | registered
    · exact guarded free
    · rw [(authorized_request target).mpr registered] at refused
      cases refused

theorem answer_refused (target) (refused : ¬ (server.accounts.entries = [] ∨ Registered server config)) :
    ∃ e, (answer server ⟨connectWord,targetStr target,(requestFields config target).map trimLineEnd⟩ stream).2 = .error (.error e) := by
  rw [not_or] at refused
  have unknown := mt (authorized_request target).mp refused.2
  rw [answer,if_pos ⟨refused.1,by simpa using unknown⟩]
  exact ⟨_,rfl⟩

theorem admission_written (passable : Passable target.address) (parts : stream.text = connectRequest config target ++ rest)
    (boundary : Boundary stream.arrivals.reduceOption (connectRequest config target).length) : ∃ later, later.text = rest ∧ admission server stream =
      answer server ⟨connectWord,targetStr target,(requestFields config target).map trimLineEnd⟩ later := by
  obtain ⟨later,read,behind,takes⟩ := readRequest_written passable (show Buffered.text ⟨[],stream⟩ = _ from parts)
  have position := takes.position _ 0 (Position.start stream)
  rw [Nat.zero_add] at position
  rw [Buffered.text,position.clean_iff.mpr boundary] at behind
  exact ⟨later.stream,behind,admission_of_read server read⟩

def statusText : String := "HTTP/1.1 200 Connection Established"

theorem established_read : position headerEnd (asBytes established) = some 35 ∧ (asBytes established).length = 39 ∧
    ((asBytes established).take 35).takeWhile (· ≠ 13) = asBytes statusText ∧
    (∀ n < 39, position headerEnd ((asBytes established).take n) = none) ∧ "200".toList <:+: statusText.toList := by
  decide +kernel

theorem established_width : (asBytes established).length = 39 := established_read.2.1

theorem established_found (rest) : checkResponse (asBytes established ++ rest) = some (.ok rest) := by
  obtain ⟨head,width,status,-,accepted⟩ := established_read
  rw [checkResponse,position_append _ rest head,Option.map_some,take_append_of_le_length (by omega),status,fromUtf8_asBytes]
  dsimp only
  rw [if_pos accepted,drop_front width]

theorem established_part (n) (short : n < 39) : checkResponse ((asBytes established).take n) = none := by
  obtain ⟨-,-,-,parts,-⟩ := established_read
  rw [checkResponse,parts n short,Option.map_none]

theorem responseLoop_found (turns buf stream) (parts : buf ++ stream.text = asBytes established ++ download) (short : buf.length < 39)
    (enough : stream.text.length + stream.arrivals.length < turns) :
    ∃ remaining later, responseLoop turns buf stream = .ok (remaining,later) ∧ remaining ++ later.text = download := by
  have width := established_width
  induction turns generalizing buf stream with
  | zero => omega
  | succ turns ih =>
    have total := congrArg List.length parts
    rw [length_append,length_append] at total
    rw [responseLoop]
    cases stream.poll_cases (show 0 < responseSize - buf.length by rw [responseSize]; omega) with
    | waits _ empty _ | closed _ empty _ | broken _ _ empty _ =>
      have none_ : stream.text = [] := by rw [Stream.text,empty]; rfl
      rw [none_,length_nil] at total
      omega
    | delayed later poll text _ fewer =>
      have some_ : stream.arrivals ≠ [] := fun empty => by rw [empty] at fewer; exact absurd fewer (Nat.not_lt_zero _)
      simp only [poll,if_neg some_]
      exact ih buf later (by rw [text]; exact parts) short (by rw [text]; omega)
    | arrived later bytes fits poll present text _ fewer =>
      have more := length_pos_iff.mp present
      rw [text,← append_assoc] at parts
      rw [text,length_append] at enough
      simp only [poll,if_neg more]
      rcases part_or_whole parts with ⟨missing,lacking,whole⟩ | ⟨extra,whole,behind⟩
      · have lacks := length_pos_iff.mpr lacking
        have size := congrArg List.length whole
        rw [length_append] at size
        have further : (buf ++ bytes).length < 39 := by omega
        have part := established_part _ further
        rw [← whole,take_left] at part
        simp only [part]
        exact ih _ later parts further (by omega)
      · rw [whole,established_found]
        exact ⟨extra,later,rfl,behind⟩

theorem responseLoop_waits (stream : Stream bufferSize) (empty : stream.text = []) (opened : stream.ending = .stillOpen) :
    responseLoop turns [] stream = .error .waits := by
  induction turns generalizing stream with
  | zero => rfl
  | succ turns ih =>
    rw [responseLoop]
    cases stream.poll_cases (show 0 < responseSize - ([] : Bytes).length by decide) with
    | waits poll none_ _ => simp only [poll,none_,if_true]
    | closed _ _ ending | broken _ _ _ ending => cases opened.symm.trans ending
    | delayed later poll text ending _ =>
      simp only [poll]
      split
      · rfl
      · exact ih later (text.trans empty) (ending.trans opened)
    | arrived later bytes fits poll present text _ _ =>
      rw [empty] at text
      rw [(append_eq_nil_iff.mp text.symm).1] at present
      exact absurd present (Nat.lt_irrefl 0)

theorem connectHandshake_answered (parts : stream.text = asBytes established ++ download) :
    ∃ remaining later, connectHandshake config target stream = (connectRequest config target,.ok (remaining,later)) ∧ remaining ++ later.text = download := by
  obtain ⟨remaining,later,read,whole⟩ := responseLoop_found (stream.text.length + stream.arrivals.length + 1) [] stream parts
    (by decide) (by omega)
  refine ⟨remaining,later,?_,whole⟩
  rw [connectHandshake,say_bind,readResponse,read,append_nil]

theorem connectHandshake_waits (empty : stream.text = [])
    (opened : stream.ending = .stillOpen) : connectHandshake config target stream = (connectRequest config target,.error .waits) := by
  rw [connectHandshake,say_bind,readResponse,responseLoop_waits stream empty opened,append_nil]

theorem connectHandshake_said (config target stream) : (connectHandshake config target stream).1 = connectRequest config target := by
  rw [connectHandshake,say_bind,readResponse,append_nil]

section Tunnel
variable {server : HttpConfig} {dispatch : Session → Destination → Except String Bytes} {session caller : Session}
  {config : HttpOutboundConfig} {target : Destination} {ended : Option Cut} {upload : Bytes} {l r : Stream bufferSize}

theorem outbound_eq (aimed : caller.target = some target) (network : target.network ≠ .udp) :
    processOutbound config caller (.ok ()) ended upload = connectHandshake config target >>= relayOutbound ended upload := by
  rw [processOutbound,aimed]
  exact if_neg network

theorem outbound_said (config target ended) :
    ∃ more, ((connectHandshake config target >>= relayOutbound ended upload) l).1 = connectRequest config target ++ more := by
  rw [bind_eq,andThen]
  have said := connectHandshake_said config target l
  split
  · rename_i first stop same
    rw [same] at said
    exact ⟨[],by rw [append_nil]; exact said⟩
  · rename_i first remaining rest same
    rw [same] at said
    exact ⟨_,congrArg (· ++ _) said⟩

theorem outbound_waits (empty : l.text = []) (opened : l.ending = .stillOpen) :
    (connectHandshake config target >>= relayOutbound ended upload) l = (connectRequest config target,.error .waits) := by
  rw [bind_eq,andThen,connectHandshake_waits empty opened]

section
variable (passable : Passable target.address)
include passable

theorem inbound_waits (part : r.text <+: connectRequest config target) (short : r.text ≠ connectRequest config target) (opened : r.ending = .stillOpen) :
    processInbound server dispatch session r = ([],.error .waits) := by
  obtain ⟨more,parts⟩ := part
  have missing : more ≠ [] := fun empty => short (by rw [← parts,empty,append_nil])
  have waits := readRequest_waits passable (show Buffered.text ⟨[],r⟩ ++ more = _ from parts) missing opened
  rw [processInbound,bind_eq,andThen,admission_of_stop server waits]

section
variable (exchange : Exchange (connectHandshake config target >>= relayOutbound ended upload) (processInbound server dispatch session) l r)
include exchange

theorem exchange_phase : (l.text = [] ∧ l.ending = .stillOpen ∧ r.text <+: connectRequest config target ∧ r.ending = .stillOpen) ∨
      Boundary r.arrivals.reduceOption (connectRequest config target).length := by
  have complete (r : Stream bufferSize) (whole : r.text = connectRequest config target) :
      Boundary r.arrivals.reduceOption (connectRequest config target).length := whole ▸ boundary_text _
  induction exchange with
  | start => exact .inl ⟨rfl,rfl, nil_prefix,rfl⟩
  | @toLeft l r arrival before said ih =>
    rcases ih with ⟨empty,opened,part,rOpened⟩ | boundary
    · by_cases whole : r.text = connectRequest config target
      · exact .inr (complete r whole)
      · rw [inbound_waits passable part whole rOpened] at said
        exact .inl ⟨prefix_nil.mp said,opened,part,rOpened⟩
    · exact .inr boundary
  | @toRight l r arrival before said ih =>
    rcases ih with ⟨empty,opened,-,rOpened⟩ | boundary
    · rw [outbound_waits empty opened] at said
      exact .inl ⟨empty,opened,said,rOpened⟩
    · right
      rw [push,reduceOption_append]
      exact boundary_append boundary _
  | @leftDone l r before returned all ih =>
    rcases ih with ⟨empty,opened,-,-⟩ | boundary
    · rw [outbound_waits empty opened] at returned
      exact absurd rfl returned
    · exact .inr boundary
  | @rightDone l r before returned all ih =>
    rcases ih with ⟨empty,opened,part,rOpened⟩ | boundary
    · by_cases whole : r.text = connectRequest config target
      · exact .inr (complete r whole)
      · rw [inbound_waits passable part whole rOpened] at returned
        exact absurd rfl returned
    · exact .inr boundary

theorem settled_boundary (settled : Settled (connectHandshake config target >>= relayOutbound ended upload) (processInbound server dispatch session) l r) :
    Boundary r.arrivals.reduceOption (connectRequest config target).length := by
  rcases exchange_phase passable exchange with ⟨empty,opened,-,-⟩ | boundary
  · have whole := settled.toRight
    rw [outbound_waits empty opened] at whole
    rw [show connectRequest config target = r.text from whole.symm]
    exact boundary_text _
  · exact boundary

end

end

theorem inbound_passable (relays : (processInbound server dispatch session r).2 = .ok ((given,dest),rest)) : Passable dest.address := by
  obtain ⟨found,later,admitted,reached⟩ := bind_ok relays
  have same : found = dest := by
    cases answered : dispatch _ found with
    | error e =>
      rw [answered] at reached
      cases reached
    | ok download =>
      rw [answered] at reached
      exact (Prod.mk.inj (Prod.mk.inj (Except.ok.inj reached)).1).2
  obtain ⟨request,reader,read,answered⟩ := admission_ok admitted
  obtain ⟨firstLine,middle,fields,more,-,parts,-,-⟩ := readRequest_parts read
  obtain ⟨host,port,uri,front,-,-,result,-⟩ := answerConnect_ok (answer_ok answered).2
  have member : request.uri ∈ words firstLine := by
    rw [parts]
    simp
  have solid := words_solid member
  rw [← same,result]
  exact passable_of_parse (fun c inside => solid c (by rw [uri]; exact mem_append_left _ inside)) front

theorem settled_granted (passable : Passable target.address) (granted : server.accounts.entries = [] ∨ Registered server config)
    (link : dispatch (aimedAt session (tcpDestination target.address target.port)) (tcpDestination target.address target.port) = .ok download)
    (boundary : Boundary r.arrivals.reduceOption (connectRequest config target).length)
    (settled : Settled (connectHandshake config target >>= relayOutbound ended upload) (processInbound server dispatch session) l r) :
    ∃ remaining later rest, connectHandshake config target l = (connectRequest config target,.ok (remaining,later)) ∧
      remaining ++ later.text = download ∧ processInbound server dispatch session r = (asBytes established ++ download,
        .ok ((aimedAt session (tcpDestination target.address target.port),tcpDestination target.address target.port),rest)) ∧
      r.text = connectRequest config target ++ rest.text := by
  obtain ⟨more,said⟩ := outbound_said config target ended
  have parts := settled.toRight.trans said
  obtain ⟨rest,behind,admitted⟩ := admission_written passable parts boundary
  have inbound : processInbound server dispatch session r = (asBytes established ++ download,
      .ok ((aimedAt session (tcpDestination target.address target.port),tcpDestination target.address target.port),rest)) := by
    rw [processInbound,bind_eq,andThen,admitted,answer_granted passable granted]
    dsimp only
    rw [link]
    change (asBytes established ++ (download ++ []),_) = _
    rw [append_nil]
    rfl
  have arrived := settled.toLeft
  rw [inbound] at arrived
  obtain ⟨remaining,later,handshake,whole⟩ := connectHandshake_answered arrived
  exact ⟨remaining,later,rest,handshake,whole,inbound,by rw [parts,behind]⟩

theorem settled_refused (passable : Passable target.address) (refused : ¬ (server.accounts.entries = [] ∨ Registered server config))
    (boundary : Boundary r.arrivals.reduceOption (connectRequest config target).length)
    (settled : Settled (connectHandshake config target >>= relayOutbound ended upload) (processInbound server dispatch session) l r) :
    ∃ e, (processInbound server dispatch session r).2 = .error (.error e) := by
  obtain ⟨more,said⟩ := outbound_said config target ended
  obtain ⟨rest,-,admitted⟩ := admission_written passable (settled.toRight.trans said) boundary
  obtain ⟨e,failed⟩ := answer_refused target refused
  rw [← admitted] at failed
  exact ⟨e,bind_stop _ failed⟩

end Tunnel

-- Everything the outbound writes to its link is what the inbound sent behind its blank line, and the other way round, and
-- the inbound dispatches the outbound's target.
def Transparent (session : Session) (target : Destination) (request : Bytes) (outbound : Bytes × Reading (Bytes × Stream bufferSize))
    (inbound : Bytes × Reading ((Session × Destination) × Stream bufferSize)) : Prop :=
  ∃ sentUp sentDown lrest rrest,
    outbound = (request ++ sentUp,.ok (sentDown,lrest)) ∧
    inbound = (asBytes established ++ sentDown,
      .ok ((aimedAt session (tcpDestination target.address target.port),tcpDestination target.address target.port),rrest)) ∧
    rrest.text = sentUp

def Uncut (config : HttpOutboundConfig) (target : Destination) (ended : Option Cut) (l : Stream bufferSize) : Prop :=
  ∀ cut ∈ ended, ∀ remaining later, (connectHandshake config target l).2 = .ok (remaining,later) → later.text.length ≤ cut.copied

theorem relayOutbound_all (handshake : connectHandshake config target l = (request,.ok (remaining,later))) :
    (∃ sent rest, (connectHandshake config target >>= relayOutbound ended upload) l =
      (request ++ sent,.ok (remaining ++ later.text,rest))) ↔ Uncut config target ended l := by
  have result : (connectHandshake config target >>= relayOutbound ended upload) l =
      (request ++ (relayOutbound ended upload remaining later).1,(relayOutbound ended upload remaining later).2) := by
    rw [bind_eq,andThen,handshake]
  rw [result]
  unfold Uncut
  rw [handshake]
  cases ended with
  | none => exact iff_of_true ⟨upload,_,rfl⟩ (by simp)
  | some cut =>
    have copied : remaining ++ later.text.take cut.copied = remaining ++ later.text ↔ later.text.length ≤ cut.copied := by
      rw [append_cancel_left_eq]
      refine ⟨fun same => ?_,take_of_length_le⟩
      have size := congrArg List.length same
      rw [length_take] at size
      omega
    constructor
    · rintro ⟨sent,rest,same⟩ _ found other stream again
      cases Option.some.inj found
      obtain ⟨rfl,rfl⟩ := Prod.mk.inj (Except.ok.inj again)
      exact copied.mp (Prod.mk.inj (Except.ok.inj (Prod.mk.inj same).2)).1
    · intro uncut
      refine ⟨upload.take cut.sent,⟨[],later.ending⟩,?_⟩
      rw [← copied.mpr (uncut cut rfl remaining later rfl)]
      rfl

theorem connect_transparent_iff (server : HttpConfig) (dispatch : Session → Destination → Except String Bytes)
    (session caller : Session) (config : HttpOutboundConfig) (target : Destination) (ended : Option Cut) (upload download : Bytes)
    (aimed : caller.target = some target) (network : target.network ≠ .udp)
    (link : dispatch (aimedAt session (tcpDestination target.address target.port)) (tcpDestination target.address target.port) =
      .ok download) (l r : Stream bufferSize)
    (exchange : Exchange (processOutbound config caller (.ok ()) ended upload) (processInbound server dispatch session) l r)
    (settled : Settled (processOutbound config caller (.ok ()) ended upload) (processInbound server dispatch session) l r) :
    Transparent session target (connectRequest config target) (processOutbound config caller (.ok ()) ended upload l)
        (processInbound server dispatch session r) ↔
      Passable target.address ∧ (server.accounts.entries = [] ∨ Registered server config) ∧ Uncut config target ended l := by
  rw [outbound_eq aimed network] at exchange settled ⊢
  constructor
  · rintro ⟨sentUp,sentDown,lrest,rrest,outbound,inbound,-⟩
    have passable := inbound_passable (congrArg Prod.snd inbound)
    have boundary := settled_boundary passable exchange settled
    have granted : server.accounts.entries = [] ∨ Registered server config := by
      by_contra refused
      obtain ⟨e,failed⟩ := settled_refused passable refused boundary settled
      rw [inbound] at failed
      cases failed
    obtain ⟨remaining,later,rest,handshake,whole,answered,-⟩ := settled_granted passable granted link boundary settled
    have same := (Prod.mk.inj (inbound.symm.trans answered)).1
    rw [append_cancel_left same,← whole] at outbound
    exact ⟨passable,granted,(relayOutbound_all handshake).mp ⟨sentUp,lrest,outbound⟩⟩
  · rintro ⟨passable,granted,uncut⟩
    have boundary := settled_boundary passable exchange settled
    obtain ⟨remaining,later,rest,handshake,whole,answered,arrived⟩ := settled_granted passable granted link boundary settled
    obtain ⟨sent,lrest,outbound⟩ := (relayOutbound_all handshake).mpr uncut
    rw [whole] at outbound
    have said := settled.toRight
    rw [outbound,arrived] at said
    exact ⟨sent,download,lrest,rest,outbound,answered,append_cancel_left said⟩

def openServer : HttpConfig := ⟨∅⟩
def plainClient : HttpOutboundConfig := ⟨"",""⟩
def greeting : Session → Destination → Except String Bytes := fun _ _ => .ok [7,8,9]

def namedTarget : Destination := tcpDestination (.domain "a.b") ⟨443⟩

def namedOutbound : Talk bufferSize Bytes := processOutbound plainClient (aimedAt idleSession namedTarget) (.ok ()) none [1,2,3]
def openInbound : Talk bufferSize (Session × Destination) := processInbound openServer greeting idleSession

def unopened : Stream bufferSize := ⟨[],.stillOpen⟩

-- The request, the answer in one read with the first bytes of the download, and then the upload.
def namedRequest : Stream bufferSize := push unopened (oneRead (connectRequest plainClient namedTarget))
def namedAnswer : Stream bufferSize := push unopened (oneRead (asBytes established ++ [7,8,9]))
def namedUpload : Stream bufferSize := push namedRequest (oneRead [1,2,3])

theorem named_said : namedRequest.text <+: (namedOutbound unopened).1 ∧ namedAnswer.text = (openInbound namedRequest).1 ∧
    namedAnswer.text = (openInbound namedUpload).1 ∧ namedUpload.text = (namedOutbound namedAnswer).1 := by
  decide +kernel

theorem named_exchange : Exchange namedOutbound openInbound namedAnswer namedUpload := by
  obtain ⟨request,answer,-,upload⟩ := named_said
  have asked : Exchange namedOutbound openInbound unopened namedRequest := .toRight _ .start request
  have answered : Exchange namedOutbound openInbound namedAnswer namedRequest := .toLeft _ asked ⟨[],by rw [append_nil]; exact answer⟩
  exact .toRight _ answered ⟨[],by rw [append_nil]; exact upload⟩

theorem connect_transparent_named :
    Transparent idleSession namedTarget (connectRequest plainClient namedTarget) (namedOutbound namedAnswer) (openInbound namedUpload) :=
  have passable := show (∀ c ∈ ['a','.','b'], isWhitespace c = false ∧ c ≠ ':') ∧ parseIpv4 ['a','.','b'] = none from ⟨by simp [isWhitespace],rfl⟩
  (connect_transparent_iff openServer greeting idleSession _ plainClient namedTarget none [1,2,3]
    [7,8,9] rfl (by decide) rfl namedAnswer namedUpload named_exchange ⟨named_said.2.2.1,named_said.2.2.2⟩).mpr
      ⟨passable,.inl rfl,fun cut found => by cases found⟩

def loopbackTarget : Destination := tcpDestination (.ipv6 ⟨[0,0,0,0,0,0,0,0,0,0,0,0,0,0,0,1],rfl⟩) ⟨443⟩

def badRequest : Bytes := asBytes "HTTP/1.1 400 Bad Request\r\n\r\n"

def loopbackOutbound : Talk bufferSize Bytes := processOutbound plainClient (aimedAt idleSession loopbackTarget) (.ok ()) none [1,2,3]

def loopbackRequest : Stream bufferSize := push unopened (oneRead (connectRequest plainClient loopbackTarget))
def loopbackAnswer : Stream bufferSize := push unopened (oneRead badRequest)

theorem loopback_said : loopbackRequest.text <+: (loopbackOutbound unopened).1 ∧ loopbackRequest.text = (loopbackOutbound loopbackAnswer).1 ∧
    loopbackAnswer.text = (openInbound loopbackRequest).1 ∧ (openInbound loopbackRequest).1 = badRequest ∧
    (dispatchCall openServer idleSession loopbackRequest).isNone := by
  decide +kernel

theorem loopback_exchange : Exchange loopbackOutbound openInbound loopbackAnswer loopbackRequest := by
  obtain ⟨request,-,answer,-⟩ := loopback_said
  have asked : Exchange loopbackOutbound openInbound unopened loopbackRequest := .toRight _ .start request
  exact .toLeft _ asked ⟨[],by rw [append_nil]; exact answer⟩

-- `CONNECT [::1]:443` has more than two parts between its colons: the inbound answers 400 and dispatches nothing.
theorem ipv6_target_refused : Exchange loopbackOutbound openInbound loopbackAnswer loopbackRequest ∧
      Settled loopbackOutbound openInbound loopbackAnswer loopbackRequest ∧ (openInbound loopbackRequest).1 = badRequest ∧
        dispatchCall openServer idleSession loopbackRequest = none ∧
          ¬ Transparent idleSession loopbackTarget (connectRequest plainClient loopbackTarget) (loopbackOutbound loopbackAnswer)
            (openInbound loopbackRequest) := by
  obtain ⟨-,request,answer,refused,undispatched⟩ := loopback_said
  refine ⟨loopback_exchange,⟨answer,request⟩,refused,Option.isNone_iff_eq_none.mp undispatched,?_⟩
  rintro ⟨_,_,_,_,-,inbound,-⟩
  have passable := inbound_passable (congrArg Prod.snd inbound)
  exact passable

end AstraCore.Http
