import AstraCore.AddressText
import AstraCore.Base64
import AstraCore.Dialogue
import AstraCore.InboundLink
import AstraCore.LineReader

namespace AstraCore.Http
open CheckedBytes NetAddress LossyUtf8 TextScan AddressText Dispatcher InboundLink Dialogue Dialogue.Talk LineReader List
open PolledStream (Stream Reading labelled labelled_eq_ok oneRead)

structure HttpConfig where
  accounts : AList (fun _ : String => String)

section
variable (config : HttpConfig)

def HttpConfig.hasAccount (username password : String) : Bool :=
  config.accounts.lookup username = some password

def basicScheme : Text := "Basic ".toList

def parseBasicAuth (header : Text) : Option (String × String) :=
  if basicScheme <+: header then do
    let decoded ← Base64.decode (header.drop basicScheme.length)
    let decodedStr ← fromUtf8 decoded
    let (username,password) ← splitOnce ':' decodedStr.toList
    some (String.ofList username,String.ofList password)
  else none

def blankLine (line : Text) : Bool := line = ['\r','\n'] ∨ line = ['\n'] ∨ line = []

def dropPairs : Text → Text
  | '\n' :: '\r' :: rest => dropPairs rest
  | text => text

def trimLineEnd (line : Text) : Text := ((dropPairs line.reverse).dropWhile (· = '\n')).reverse

structure Request where
  method : Text
  uri : Text
  headers : List Text

def readRequest (reader : Buffered) : Reading (Request × Buffered) := do
  let (firstLine,reader) ← labelled "http read request line: " (readLine reader)
  match words firstLine with
  | method :: uri :: _ => do
    let (lines,reader) ← readHead blankLine "http read header: " reader
    .ok (⟨method,uri,lines.map trimLineEnd⟩,reader)
  | _ => .error (.error "invalid HTTP request line")

-- Whatever follows, the buffer is dropped with the reader: `into_inner` gives back the stream behind it.
def takeRequest : Talk bufferSize Request := fun stream =>
  ([],(readRequest ⟨[],stream⟩).map fun (request,reader) => (request,reader.stream))

def authorizationField : Text := "proxy-authorization:".toList

def authorized (headers : List Text) : Bool :=
  match headers.find? fun h => authorizationField <+: toLowercase h with
  | some h =>
    match parseBasicAuth (trim (match splitOnce ':' h with
      | some (_,value) => value
      | none => [])) with
    | some (username,password) => config.hasAccount username password
    | none => false
  | none => false

def refuse (response e : String) : Talk bufferSize α := do
  say (asBytes response)
  fail e

def established : String := "HTTP/1.1 200 Connection Established\r\n\r\n"

def answerConnect (uri : Text) : Talk bufferSize Destination :=
  match List.splitOn ':' uri with
  | [host,port] =>
    match parseU16 port with
    | none => fail ("invalid port: " ++ String.ofList port)
    | some port => do
      say (asBytes established)
      pure (tcpDestination (parseAddress host) ⟨port⟩)
  | _ => refuse "HTTP/1.1 400 Bad Request\r\n\r\n" ("invalid CONNECT URI: " ++ String.ofList uri)

def answer (request : Request) : Talk bufferSize Destination :=
  if config.accounts.entries ≠ [] ∧ authorized config request.headers = false then
    refuse "HTTP/1.1 407 Proxy Authentication Required\r\nProxy-Authenticate: Basic realm=\"proxy\"\r\n\r\n" "auth required"
  else if toUppercase request.method ≠ "CONNECT".toList then
    refuse "HTTP/1.1 405 Method Not Allowed\r\n\r\n" ("unsupported method: " ++ String.ofList request.method)
  else answerConnect request.uri

def admission : Talk bufferSize Destination := do
  let request ← takeRequest
  answer config request

def dispatchCall (session : Session) (stream : Stream bufferSize) : Option (Session × Destination) :=
  match (admission config stream).2 with
  | .ok (dest,_) => some (aimedAt session dest,dest)
  | .error _ => none

-- The dispatcher's answer carries all that its link then produces; what is left unread goes to the link.
def processInbound (dispatch : Session → Destination → Except String Bytes) (session : Session) :
    Talk bufferSize (Session × Destination) := do
  let dest ← admission config
  match dispatch (aimedAt session dest) dest with
  | .error e => fail e
  | .ok download => do
    say download
    pure (aimedAt session dest,dest)

theorem pair_toList (username password) : (username ++ ":" ++ password).toList = username.toList ++ ':' :: password.toList := by
  simp

theorem parseBasicAuth_iff (header username password) : parseBasicAuth header = some (username,password) ↔
      header = basicScheme ++ Base64.encode (asBytes (username ++ ":" ++ password)) ∧ ':' ∉ username.toList := by
  constructor
  · intro parsed
    unfold parseBasicAuth at parsed
    split at parsed
    · rename_i scheme
      obtain ⟨encoded,rfl⟩ := scheme
      obtain ⟨decoded,canonical,fromDecoded⟩ := Option.bind_eq_some_iff.mp parsed
      obtain ⟨s,valid,fromText⟩ := Option.bind_eq_some_iff.mp fromDecoded
      obtain ⟨⟨first,second⟩,cut,same⟩ := Option.bind_eq_some_iff.mp fromText
      obtain ⟨rfl,rfl⟩ := Prod.mk.inj (Option.some.inj same)
      obtain ⟨shape,fresh⟩ := splitOnce_parts cut
      have whole : String.ofList first ++ ":" ++ String.ofList second = s := by
        apply String.toList_inj.mp
        rw [pair_toList,String.toList_ofList,String.toList_ofList,shape]
      rw [whole,fromUtf8_eq_some valid,Base64.decode_canonical _ canonical,String.toList_ofList]
      exact ⟨rfl,fresh⟩
    · cases parsed
  · rintro ⟨rfl,fresh⟩
    rw [parseBasicAuth,if_pos (prefix_append ..),drop_left,Base64.decode_encode]
    simp only [Option.bind_eq_bind,Option.bind_some,fromUtf8_asBytes,pair_toList,splitOnce_front fresh,String.ofList_toList]

theorem dropPairs_rest : ∃ pairs, text = pairs ++ dropPairs text ∧ ∀ c ∈ pairs, isWhitespace c = true := by
  induction text using dropPairs.induct with
  | case1 rest ih =>
    obtain ⟨pairs,shape,blank⟩ := ih
    refine ⟨'\n' :: '\r' :: pairs,by rw [dropPairs]; exact congrArg (fun text => '\n' :: '\r' :: text) shape,?_⟩
    intro c inside
    rcases mem_cons.mp inside with rfl | inside
    · rfl
    · rcases mem_cons.mp inside with rfl | inside
      · rfl
      · exact blank c inside
  | case2 text other =>
    simp [dropPairs]

theorem trimLineEnd_rest (line) : ∃ ending, line = trimLineEnd line ++ ending ∧ ∀ c ∈ ending, isWhitespace c = true := by
  obtain ⟨pairs,shape,blank⟩ := dropPairs_rest
  refine ⟨((dropPairs line.reverse).takeWhile (· = '\n')).reverse ++ pairs.reverse,?_,?_⟩
  · rw [trimLineEnd,← append_assoc,← reverse_append,takeWhile_append_dropWhile,← reverse_append,← shape,reverse_reverse]
  · intro c inside
    rcases mem_append.mp inside with feed | pair
    · have same := mem_takeWhile_imp (mem_reverse.mp feed)
      rw [show c = '\n' by simpa using same]
      rfl
    · exact blank c (mem_reverse.mp pair)

def IsAuthorization (field : Text) : Prop :=
  ∃ name value, field = name ++ ':' :: value ∧ ':' ∉ name ∧ toLowercase name = "proxy-authorization".toList

theorem lowerChar_colon (c) : ':' ∈ lowerChar c ↔ c = ':' := by
  unfold lowerChar
  split
  · rename_i upper
    rw [mem_singleton]
    constructor
    · intro same
      have letters : ∀ k : Fin 26, ':' ≠ Char.ofNat (65 + k.val + 32) := by decide
      refine absurd same ?_
      have letter := letters ⟨c.toNat - 65,by omega⟩
      rwa [Nat.add_sub_cancel' upper.1] at letter
    · rintro rfl
      exact absurd upper.1 (by decide)
  · split
    · rename_i kelvin
      exact iff_of_false (by decide) (by rintro rfl; exact absurd kelvin (by decide))
    · split
      · rename_i dotted
        exact iff_of_false (by decide) (by rintro rfl; exact absurd dotted (by decide))
      · rw [mem_singleton,eq_comm]

theorem toLowercase_colon : ':' ∈ toLowercase text ↔ ':' ∈ text := by
  rw [toLowercase,mem_flatMap]
  constructor
  · rintro ⟨c,inside,lowered⟩
    rwa [(lowerChar_colon c).mp lowered] at inside
  · exact fun inside => ⟨':',inside,(lowerChar_colon ':').mpr rfl⟩

theorem authorizationField_parts : authorizationField = "proxy-authorization".toList ++ [':'] := by decide +kernel

theorem isAuthorization_iff (field) : authorizationField <+: toLowercase field ↔ IsAuthorization field := by
  rw [authorizationField_parts]
  constructor
  · rintro ⟨rest,lowered⟩
    have shape : toLowercase field = "proxy-authorization".toList ++ ':' :: rest := lowered.symm
    have present : ':' ∈ field := by
      rw [← toLowercase_colon,shape]
      simp
    obtain ⟨name,value,rfl,fresh⟩ := eq_append_cons_of_mem present
    have parts : toLowercase (name ++ ':' :: value) = toLowercase name ++ ':' :: toLowercase value := flatMap_append
    have first := splitOnce_front (mt (toLowercase_colon).mp fresh) (toLowercase value)
    rw [← parts,shape,splitOnce_front (by decide)] at first
    exact ⟨name,value,rfl,fresh,(Prod.mk.inj (Option.some.inj first)).1.symm⟩
  · rintro ⟨name,value,rfl,-,lowered⟩
    have parts : toLowercase (name ++ ':' :: value) = toLowercase name ++ ':' :: toLowercase value := flatMap_append
    rw [parts,lowered]
    exact ⟨toLowercase value,append_assoc ..⟩

theorem trimLineEnd_value (cut : splitOnce ':' (trimLineEnd line) = some (name,short)) :
    ∃ value, line = name ++ ':' :: value ∧ ':' ∉ name ∧ trim value = trim short := by
  obtain ⟨ending,shape,blank⟩ := trimLineEnd_rest line
  obtain ⟨parts,fresh⟩ := splitOnce_parts cut
  refine ⟨short ++ ending,?_,fresh,trim_append short blank⟩
  rw [shape,parts,append_assoc]
  rfl

theorem trimLineEnd_authorization (line) : IsAuthorization (trimLineEnd line) ↔ IsAuthorization line := by
  obtain ⟨ending,shape,blank⟩ := trimLineEnd_rest line
  constructor
  · rintro ⟨name,value,parts,fresh,lowered⟩
    refine ⟨name,value ++ ending,?_,fresh,lowered⟩
    rw [shape,parts,append_assoc]
    rfl
  · rintro ⟨name,value,parts,fresh,lowered⟩
    have colon : ':' ∉ ending := fun inside => absurd (blank ':' inside) (by decide)
    have present : ':' ∈ trimLineEnd line := by
      have inside : ':' ∈ trimLineEnd line ++ ending := by
        rw [← shape,parts]
        simp
      exact (mem_append.mp inside).resolve_right colon
    obtain ⟨other,short,split,clear⟩ := eq_append_cons_of_mem present
    have first := splitOnce_front clear (short ++ ending)
    rw [← cons_append,← append_assoc,← split,← shape,parts,splitOnce_front fresh] at first
    obtain ⟨rfl,-⟩ := Prod.mk.inj (Option.some.inj first)
    exact ⟨name,short,split,fresh,lowered⟩

def Grants (field : Text) : Prop :=
  ∃ name value username password, field = name ++ ':' :: value ∧ ':' ∉ name ∧
    trim value = basicScheme ++ Base64.encode (asBytes (username ++ ":" ++ password)) ∧ ':' ∉ username.toList ∧
      config.accounts.lookup username = some password

def FirstGrants (fields : List Text) : Prop :=
  ∃ before field after, fields = before ++ field :: after ∧ (∀ other ∈ before, ¬ IsAuthorization other) ∧
    IsAuthorization field ∧ Grants config field

end

theorem authorized_first (granted : authorized config (fields.map trimLineEnd) = true) : FirstGrants config fields := by
  unfold authorized at granted
  split at granted
  · rename_i h found
    obtain ⟨named,before,after,shape,others⟩ := find?_eq_some_iff_append.mp found
    obtain ⟨raw,rest,rfl,first,later⟩ := map_eq_append_iff.mp shape
    obtain ⟨field,behind,rfl,rfl,-⟩ := map_eq_cons_iff.mp later
    rw [decide_eq_true_eq,isAuthorization_iff,trimLineEnd_authorization] at named
    refine ⟨raw,field,behind,rfl,fun other member => ?_,named,?_⟩
    · have refused := others (trimLineEnd other) (first ▸ mem_map_of_mem member)
      rw [← trimLineEnd_authorization,← isAuthorization_iff]
      simpa using refused
    · obtain ⟨name,value,parts,fresh,-⟩ := (trimLineEnd_authorization field).mpr named
      have cut : splitOnce ':' (trimLineEnd field) = some (name,value) := by
        rw [parts]
        exact splitOnce_front fresh value
      obtain ⟨whole,split,clear,same⟩ := trimLineEnd_value cut
      simp only [cut] at granted
      split at granted
      · rename_i username password parsed
        obtain ⟨encoded,user⟩ := (parseBasicAuth_iff _ _ _).mp parsed
        exact ⟨name,whole,username,password,split,clear,same.trans encoded,user,by simpa [HttpConfig.hasAccount] using granted⟩
      · cases granted
  · cases granted

theorem readRequest_parts (read : readRequest reader = .ok (request,later)) :
    ∃ firstLine middle fields more, readLine reader = .ok (firstLine,middle) ∧ words firstLine = request.method :: request.uri :: more ∧
      Head blankLine middle fields later ∧ request.headers = fields.map trimLineEnd := by
  obtain ⟨⟨firstLine,middle⟩,first,fromWords⟩ := checked_bind read
  dsimp only at fromWords
  split at fromWords
  · rename_i method uri more parts
    obtain ⟨⟨fields,rest⟩,head,same⟩ := checked_bind fromWords
    obtain ⟨rfl,rfl⟩ := Prod.mk.inj (Except.ok.inj same)
    exact ⟨firstLine,middle,fields,more,labelled_eq_ok.mp first,parts,(readHead_iff rfl).mp head,rfl⟩
  · cases fromWords

theorem answerConnect_ok (answered : (answerConnect uri stream).2 = .ok (dest,rest)) :
    ∃ host port, uri = host ++ ':' :: port ∧ ':' ∉ host ∧ ':' ∉ port ∧ parseU16 port = some dest.port.value ∧
      dest = tcpDestination (parseAddress host) dest.port ∧ rest = stream := by
  unfold answerConnect at answered
  rcases parts : splitOn ':' uri with _ | ⟨host,_ | ⟨port,_ | ⟨third,more⟩⟩⟩
  · rw [parts] at answered
    cases answered
  · rw [parts] at answered
    cases answered
  · rw [parts] at answered
    obtain ⟨shape,front,back⟩ := (splitOn_two ':' _ _ _).mp parts
    cases parsed : parseU16 port with
    | none =>
      simp only [parsed] at answered
      cases answered
    | some value =>
      simp only [parsed] at answered
      obtain ⟨rfl,rfl⟩ := Prod.mk.inj (Except.ok.inj answered)
      exact ⟨host,port,shape,front,back,parsed,rfl,rfl⟩
  · rw [parts] at answered
    cases answered

theorem answer_ok (answered : (answer config request stream).2 = .ok (dest,rest)) :
    (config.accounts.entries ≠ [] → authorized config request.headers = true) ∧ (answerConnect request.uri stream).2 = .ok (dest,rest) := by
  unfold answer at answered
  split at answered
  · cases answered
  · rename_i passed
    split at answered
    · cases answered
    · grind

theorem admission_of_read (config) (read : readRequest ⟨[],stream⟩ = .ok (request,later)) : admission config stream = answer config request later.stream := by
  rw [admission,bind_eq,andThen,takeRequest,read]
  rfl

theorem admission_of_stop (config) (read : readRequest ⟨[],stream⟩ = .error stop) : admission config stream = ([],.error stop) := by
  rw [admission,bind_eq,andThen,takeRequest,read]
  rfl

theorem admission_ok (admitted : (admission config stream).2 = .ok (dest,rest)) :
    ∃ request later, readRequest ⟨[],stream⟩ = .ok (request,later) ∧ (answer config request later.stream).2 = .ok (dest,rest) := by
  cases read : readRequest ⟨[],stream⟩ with
  | error stop =>
    rw [admission_of_stop config read] at admitted
    cases admitted
  | ok found =>
    rw [admission_of_read config read] at admitted
    exact ⟨found.1,found.2,rfl,admitted⟩

-- The dispatcher is called only if the first such field of the request grants an account.
theorem dispatch_authorized (config : HttpConfig) (session : Session) (stream : Stream bufferSize)
    (guarded : config.accounts.entries ≠ []) (called : dispatchCall config session stream = some call) :
    ∃ firstLine others fields, splitLines stream.text = Text.bytes firstLine :: others ∧ FieldsOf blankLine others fields ∧
      FirstGrants config fields := by
  unfold dispatchCall at called
  split at called
  · rename_i dest rest admitted
    obtain ⟨request,later,read,answered⟩ := admission_ok admitted
    obtain ⟨firstLine,middle,fields,more,first,parts,head,headers⟩ := readRequest_parts read
    have granted := (answer_ok answered).1 guarded
    rw [headers] at granted
    rcases (readUntil_line (readLine_iff.mp first)).next with next | ⟨-,empty⟩
    · exact ⟨firstLine,_,fields,next,head.fieldsOf rfl,authorized_first granted⟩
    · rw [bytes_eq_nil empty] at parts
      cases parts
  · cases called

def guardedConfig : HttpConfig := ⟨AList.singleton "user" "secret"⟩
def idleSession : Session := ⟨none,none,none⟩

def userRequest : Bytes := asBytes "CONNECT example.org:443 HTTP/1.1\r\nPROXY-Authorization: Basic dXNlcjpzZWNyZXQ=\r\n\r\n"

def userStream : Stream bufferSize := ⟨[none,oneRead userRequest],.stillOpen⟩

theorem dispatch_authorized_user : dispatchCall guardedConfig idleSession userStream =
        some (aimedAt idleSession (tcpDestination (.domain "example.org") ⟨443⟩),tcpDestination (.domain "example.org") ⟨443⟩) ∧
      ∃ firstLine others fields, splitLines userStream.text = Text.bytes firstLine :: others ∧ FieldsOf blankLine others fields ∧
        FirstGrants guardedConfig fields :=
  have called : dispatchCall guardedConfig idleSession userStream =
      some (aimedAt idleSession (tcpDestination (.domain "example.org") ⟨443⟩),tcpDestination (.domain "example.org") ⟨443⟩) := by
    rfl
  ⟨called,dispatch_authorized guardedConfig idleSession userStream (by simp [guardedConfig]) called⟩

end AstraCore.Http
