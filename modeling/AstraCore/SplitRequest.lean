import AstraCore.LineReader
import AstraCore.NumberText
import AstraCore.KeyedList

namespace AstraCore.SplitHttp
open CheckedBytes TextScan AddressText LineReader NumberText List
open PolledStream (Stream Reading labelled)

def escaped (hex : Text) : Text :=
  match fromStrRadix 16 maxU8 hex with
  | .ok byte => [Char.ofNat byte]
  | .error _ => []

def urlDecode : Text → Text
  | [] => []
  | c :: rest =>
    if c = '%' then
      match rest with
      | first :: second :: rest => escaped [first,second] ++ urlDecode rest
      | hex => escaped hex
    else (if c = '+' then ' ' else c) :: urlDecode rest

abbrev Table := AList (fun _ : Text => Text)

def addParam (params : Table) (pair : Text) : Table :=
  match splitOnce '=' pair with
  | some (key,value) => params.insert (urlDecode key) (urlDecode value)
  | none => params.insert (urlDecode pair) (urlDecode [])

def parseQuery (path : Text) : Table :=
  match splitOnce '?' path with
  | some (_,query) => (List.splitOn '&' query).foldl addParam ∅
  | none => ∅

def readRequestLine (reader : Buffered) : Reading (Text × Buffered) := do
  let (line,reader) ← labelled "read request line: " (readLine reader)
  .ok (trim line,reader)

def blankLine (line : Text) : Bool := trim line = []

def addHeader (headers : Table) (line : Text) : Table :=
  match splitOnce ':' (trim line) with
  | some (key,value) => headers.insert (toLowercase (trim key)) (trim value)
  | none => headers

def readHeaders (reader : Buffered) : Reading (Table × Buffered) := do
  let (lines,reader) ← readHead blankLine "read header: " reader
  .ok (lines.foldl addHeader ∅,reader)

def maxCapacity : Nat := 2 ^ 63 - 1

def zeroed (len : Nat) : Reading Unit := if maxCapacity < len then .error (.panic .capacity) else .ok ()

def readBody (headers : Table) (reader : Buffered) : Reading Bytes :=
  match headers.lookup "content-length".toList with
  | some lenStr =>
    match parseUnsigned maxU64 lenStr with
    | .error e => .error (.error ("parse content-length '" ++ String.ofList lenStr ++ "': " ++ e))
    | .ok len => do
      zeroed len
      let (body,_) ← labelled ("read body (" ++ String.ofList (decimal len) ++ " bytes): ") (reader.readExact len)
      .ok body
  | none =>
    if (headers.lookup "transfer-encoding".toList).isSome then labelled "read body: " reader.readToEnd else .ok []

-- What `handle_conn` goes on with when it has read the request. The body of an upload by GET is read only when the session
-- is there.
inductive Action where
  | badRequest
  | download (sid : Text)
  | upload (sid : Text) (seq : Nat) (body : Reading Bytes)
  | options
  | notAllowed

def seqOf (params : Table) : Nat :=
  match parseUnsigned maxU64 ((params.lookup "seq".toList).getD []) with
  | .ok seq => seq
  | .error _ => 0

def actionOf (method rawPath : Text) (headers : Table) (reader : Buffered) : Reading Action :=
  let params := parseQuery rawPath
  match params.lookup "session_id".toList with
  | none => .ok .badRequest
  | some sid =>
    if method = "GET".toList then
      if (params.lookup "seq".toList).isSome then .ok (.upload sid (seqOf params) (labelled "read body: " reader.readToEnd))
      else .ok (.download sid)
    else if method = "POST".toList ∨ method = "PUT".toList then do
      let body ← readBody headers reader
      .ok (.upload sid (seqOf params) (.ok body))
    else if method = "OPTIONS".toList then .ok .options
    else .ok .notAllowed

def handleConn (stream : Stream bufferSize) : Reading Action := do
  let (requestLine,reader) ← readRequestLine ⟨[],stream⟩
  match words requestLine with
  | method :: rawPath :: _ => do
    let (headers,reader) ← readHeaders reader
    actionOf method rawPath headers reader
  | _ => .error (.error ("invalid request line: " ++ String.ofList requestLine))

def crlf : Text := ['\r','\n']

def requestLine (method url : Text) : Text := method ++ ' ' :: (url ++ ' ' :: ("HTTP/1.1".toList ++ crlf))
def field (name value : Text) : Text := name ++ ':' :: (' ' :: value ++ crlf)

def downloadUrl (path sid : Text) : Text := path ++ '?' :: ("session_id".toList ++ '=' :: sid)
def uploadUrl (path sid : Text) (seq : Nat) : Text :=
  path ++ '?' :: ("session_id".toList ++ '=' :: (sid ++ '&' :: ("seq".toList ++ '=' :: decimal seq)))

def downloadFields (host : Text) : List Text :=
  [field "Host".toList host,field "Accept".toList "*/*".toList,field "Connection".toList "keep-alive".toList]

def uploadFields (host : Text) (len : Nat) : List Text :=
  [field "Host".toList host,field "Content-Type".toList "application/octet-stream".toList,
    field "Content-Length".toList (decimal len),field "Connection".toList "close".toList]

def headText (first : Text) (fields : List Text) : Text := first ++ (fields.flatten ++ crlf)

def downloadRequest (path sid host : Text) : Bytes :=
  (headText (requestLine "GET".toList (downloadUrl path sid)) (downloadFields host)).bytes

def uploadRequest (path sid host : Text) (seq : Nat) (data : Bytes) : Bytes :=
  (headText (requestLine "POST".toList (uploadUrl path sid seq)) (uploadFields host data.length)).bytes ++ data

end AstraCore.SplitHttp
