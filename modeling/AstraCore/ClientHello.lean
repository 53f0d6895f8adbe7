import AstraCore.TrojanInbound

namespace AstraCore.ClientHello
open CheckedBytes NetAddress LossyUtf8 PolledStream TextScan Trojan List

def wordAt (data : Bytes) (pos : Nat) : Checked Nat := do
  let high ← byteAt data pos
  let low ← byteAt data (pos + 1)
  .ok (be16 [high,low]).toNat

-- Both walkers skip the session id, the cipher suites and the compression methods in the same way. The extensions
-- stand from the first position to the second.
def walk (data : Bytes) : Checked (Option (Nat × Nat)) :=
  if 43 ≥ data.length then .ok none
  else do
    let sessionLen ← byteAt data 43
    let pos := 43 + 1 + sessionLen.toNat
    if pos + 1 ≥ data.length then .ok none
    else do
      let csLen ← wordAt data pos
      let pos := pos + 2 + csLen
      if pos ≥ data.length then .ok none
      else do
        let compLen ← byteAt data pos
        let pos := pos + 1 + compLen.toNat
        if pos + 1 ≥ data.length then .ok none
        else do
          let extLen ← wordAt data pos
          .ok (some (pos + 2,pos + 2 + extLen))

def sniffLoop (data : Bytes) (extEnd pos : Nat) : Checked (Option String) :=
  if pos + 4 ≤ min extEnd data.length then do
    let extType ← wordAt data pos
    let extDataLen ← wordAt data (pos + 2)
    let pos := pos + 4
    if extType = 0 then
      if pos + 2 > data.length then .ok none
      else do
        let _ ← wordAt data pos
        let pos := pos + 2
        if pos + 3 > data.length then .ok none
        else do
          let nameType ← byteAt data pos
          let nameLen ← wordAt data (pos + 1)
          let pos := pos + 3
          if nameType = 0 ∧ pos + nameLen ≤ data.length then do
            let name ← slice data pos (pos + nameLen)
            .ok (fromUtf8 name)
          else .ok none
    else sniffLoop data extEnd (pos + extDataLen)
  else .ok none
termination_by extEnd - pos

def sniffTlsSni (data : Bytes) : Checked (Option String) :=
  if data.length < 44 then .ok none
  else do
    let kind ← byteAt data 0
    if kind ≠ 0x16 then .ok none
    else do
      let message ← byteAt data 5
      if message ≠ 1 then .ok none
      else do
        match ← walk data with
        | none => .ok none
        | some (pos,extEnd) => sniffLoop data extEnd pos

def extractLoop (data : Bytes) (extEnd pos : Nat) : Checked Text :=
  if pos + 4 ≤ extEnd then do
    let extType ← wordAt data pos
    let extDataLen ← wordAt data (pos + 2)
    let pos := pos + 4
    if extType = 0 ∧ pos + 2 ≤ extEnd then do
      let _ ← wordAt data pos
      let pos := pos + 2
      if pos + 3 ≤ extEnd then do
        let _ ← byteAt data pos
        let nameLen ← wordAt data (pos + 1)
        let pos := pos + 3
        if pos + nameLen ≤ data.length then do
          let name ← slice data pos (pos + nameLen)
          match fromUtf8 name with
          | some name => .ok name.toList
          | none => extractLoop data extEnd (pos + extDataLen)
        else extractLoop data extEnd (pos + extDataLen)
      else extractLoop data extEnd (pos + extDataLen)
    else extractLoop data extEnd (pos + extDataLen)
  else .ok []
termination_by extEnd - pos

-- `extract_sni_from_client_hello` with its indices checked.
def extract (data : Bytes) : Checked Text :=
  if data.length < 50 then .ok []
  else do
    let kind ← byteAt data 0
    if kind ≠ 0x16 then .ok []
    else do
      match ← walk data with
      | none => .ok []
      | some (pos,extEnd) => if extEnd > data.length then .ok [] else extractLoop data extEnd pos

theorem wordAt_within (inside : pos + 1 < data.length) : wordAt data pos = .ok (word16 data pos) := by
  have pair : (data.drop pos).take 2 = [data.getD pos 0,data.getD (pos + 1) 0] := by
    have first : pos < data.length := by omega
    rw [drop_eq_getElem_cons first,drop_eq_getElem_cons inside,getD_eq_getElem?_getD,getD_eq_getElem?_getD,
      getElem?_eq_getElem first,getElem?_eq_getElem inside]
    rfl
  rw [wordAt,byteAt_within (by omega),byteAt_within inside,word16,pair]
  rfl

theorem sniffLoop_returns (pos) : ∃ found, sniffLoop data extEnd pos = .ok found := by
  induction left : extEnd - pos using Nat.strong_induction_on generalizing pos with
  | _ n ih =>
    rw [sniffLoop]
    split
    · rw [wordAt_within (by omega),ok_bind,wordAt_within (by omega),ok_bind]
      dsimp only
      split
      · split
        · exact ⟨_,rfl⟩
        · rw [wordAt_within (by omega),ok_bind]
          split
          · exact ⟨_,rfl⟩
          · rw [byteAt_within (by omega),ok_bind,wordAt_within (by omega),ok_bind]
            split
            · rename_i named
              rw [slice_ok (Nat.le_add_right ..) named.2]
              exact ⟨_,rfl⟩
            · exact ⟨_,rfl⟩
      · exact ih _ (by omega) _ rfl
    · exact ⟨_,rfl⟩

theorem extractLoop_checked (inside : extEnd ≤ data.length) (pos) : extractLoop data extEnd pos = .ok (sniLoop data extEnd pos) := by
  induction left : extEnd - pos using Nat.strong_induction_on generalizing pos with
  | _ n ih =>
    rw [extractLoop,sniLoop]
    split
    · rw [wordAt_within (by omega),ok_bind,wordAt_within (by omega),ok_bind]
      dsimp only
      split
      · rw [wordAt_within (by omega),ok_bind]
        split
        · rw [byteAt_within (by omega),ok_bind,wordAt_within (by omega),ok_bind]
          split
          · rename_i named
            rw [slice_ok (Nat.le_add_right ..) named,ok_bind,Nat.add_sub_cancel_left]
            cases fromUtf8 _ with
            | some name => rfl
            | none => exact ih _ (by omega) _ rfl
          · exact ih _ (by omega) _ rfl
        · exact ih _ (by omega) _ rfl
      · exact ih _ (by omega) _ rfl
    · rfl

theorem walk_returns : ∃ found, walk data = .ok found := by
  rw [walk]
  split
  · exact ⟨_,rfl⟩
  · rw [byteAt_within (by omega),ok_bind]
    dsimp only
    split
    · exact ⟨_,rfl⟩
    · rw [wordAt_within (by omega),ok_bind]
      split
      · exact ⟨_,rfl⟩
      · rw [byteAt_within (by omega),ok_bind]
        split
        · exact ⟨_,rfl⟩
        · rw [wordAt_within (by omega)]
          exact ⟨_,rfl⟩

theorem sniff_returns (data) : ∃ found, sniffTlsSni data = .ok found := by
  rw [sniffTlsSni]
  split
  · exact ⟨_,rfl⟩
  · rw [byteAt_within (by omega),ok_bind,byteAt_within (by omega),ok_bind]
    split
    · exact ⟨_,rfl⟩
    · split
      · exact ⟨_,rfl⟩
      · obtain ⟨found,walked⟩ := walk_returns
        rw [walked]
        cases found with
        | none => exact ⟨_,rfl⟩
        | some range => exact sniffLoop_returns ..

theorem extract_checked (data) : extract data = .ok (extractSniFromClientHello data) := by
  rw [extract,extractSniFromClientHello]
  by_cases short : data.length < 50
  · rw [if_pos short,if_pos (.inl short)]
  · rw [if_neg short,byteAt_within (by omega),ok_bind]
    by_cases kind : data.getD 0 0 ≠ 0x16
    · rw [if_pos kind,if_pos (.inr kind)]
    · rw [if_neg kind,if_neg (not_or.mpr ⟨short,kind⟩),walk,if_neg (by omega),byteAt_within (by omega),ok_bind]
      dsimp only
      split
      · rfl
      · rw [wordAt_within (by omega),ok_bind]
        split
        · rfl
        · rw [byteAt_within (by omega),ok_bind]
          split
          · rfl
          · rw [wordAt_within (by omega),ok_bind,ok_bind]
            dsimp only
            split
            · rfl
            · exact extractLoop_checked (by omega) _

structure Extension where
  kind : UInt16
  content : Bytes

def Extension.bytes (e : Extension) : Bytes := u16ToBe e.kind ++ (u16ToBe (UInt16.ofNat e.content.length) ++ e.content)

-- A ClientHello in one record. Neither walker reads the lengths of the record and of the message, so these are any bytes.
-- The server name's extension is the first of its kind; behind the name its list may go on.
structure Parts where
  record : Octets 4
  size : Octets 3
  version : Octets 2
  random : Octets 32
  session : Bytes
  suites : Bytes
  methods : Bytes
  before : List Extension
  name : String
  entries : Bytes
  after : List Extension

def Parts.list (h : Parts) : Bytes := 0 :: (u16ToBe (UInt16.ofNat (asBytes h.name).length) ++ (asBytes h.name ++ h.entries))
def Parts.serverName (h : Parts) : Extension := ⟨0,u16ToBe (UInt16.ofNat h.list.length) ++ h.list⟩
def Parts.extensions (h : Parts) : Bytes := (h.before ++ h.serverName :: h.after).flatMap Extension.bytes

def Parts.bytes (h : Parts) : Bytes :=
  0x16 :: (h.record.val ++ (1 :: (h.size.val ++ (h.version.val ++ (h.random.val ++
    (UInt8.ofNat h.session.length :: (h.session ++ (u16ToBe (UInt16.ofNat h.suites.length) ++ (h.suites ++
      (UInt8.ofNat h.methods.length :: (h.methods ++ (u16ToBe (UInt16.ofNat h.extensions.length) ++ h.extensions))))))))))))

structure Hello extends Parts where
  first : ∀ e ∈ before, e.kind ≠ 0
  sessionFits : session.length < 256
  suitesFit : suites.length < 65536
  methodsFit : methods.length < 256
  extensionsFit : toParts.extensions.length < 65536

theorem Behind.byte (behind : Behind data offset (b :: rest)) : byteAt data offset = .ok b ∧ Behind data (offset + 1) rest := by
  obtain ⟨front,rfl,rfl⟩ := behind
  exact ⟨byteAt_ok (by simp),front ++ [b],by simp,by simp⟩

theorem Behind.skip (behind : Behind data offset (middle ++ rest)) : Behind data (offset + middle.length) rest := by
  obtain ⟨front,rfl,rfl⟩ := behind
  exact ⟨front ++ middle,by simp,by simp⟩

theorem Behind.word (behind : Behind data offset (u16ToBe n ++ rest)) : wordAt data offset = .ok n.toNat ∧ Behind data (offset + 2) rest := by
  obtain ⟨high,low,pair⟩ := length_eq_two.mp (u16ToBe_length n)
  have value := be16_roundtrip n
  rw [pair] at behind value
  obtain ⟨first,behind⟩ := Behind.byte behind
  obtain ⟨second,behind⟩ := Behind.byte behind
  exact ⟨by rw [wordAt,first,ok_bind,second,ok_bind,value],behind⟩

theorem Behind.inside (behind : Behind data offset rest) : data.length = offset + rest.length := by
  obtain ⟨front,rfl,rfl⟩ := behind
  exact length_append

theorem word_size (fits : n < 65536) : (UInt16.ofNat n).toNat = n := UInt16.toNat_ofNat_of_lt' fits
theorem byte_size (fits : n < 256) : (UInt8.ofNat n).toNat = n := UInt8.toNat_ofNat_of_lt' fits

theorem walk_hello (h : Hello) : ∃ pos, walk h.bytes = .ok (some (pos,h.bytes.length)) ∧ Behind h.bytes pos h.extensions := by
  have start : Behind h.bytes 43 (UInt8.ofNat h.session.length :: (h.session ++ (u16ToBe (UInt16.ofNat h.suites.length) ++ (h.suites ++
      (UInt8.ofNat h.methods.length :: (h.methods ++ (u16ToBe (UInt16.ofNat h.extensions.length) ++ h.extensions))))))) :=
    ⟨0x16 :: (h.record.val ++ (1 :: (h.size.val ++ (h.version.val ++ h.random.val)))),
      by simp [h.record.property,h.size.property,h.version.property,h.random.property],by simp [Parts.bytes]⟩
  obtain ⟨session,behind⟩ := Behind.byte start
  obtain ⟨suites,behind⟩ := Behind.word (Behind.skip behind)
  obtain ⟨methods,behind⟩ := Behind.byte (Behind.skip behind)
  obtain ⟨extensions,behind⟩ := Behind.word (Behind.skip behind)
  have whole := Behind.inside behind
  refine ⟨_,?_,behind⟩
  rw [walk,if_neg (by omega),session,ok_bind,byte_size h.sessionFits]
  rw [if_neg (by omega),suites,ok_bind,word_size h.suitesFit,if_neg (by omega),methods,ok_bind,byte_size h.methodsFit,if_neg (by omega),
    extensions,ok_bind,word_size h.extensionsFit,whole]

theorem passes_before {before : List Extension} (loop : Nat → α)
    (step : ∀ pos kind size, kind ≠ 0 → pos + 4 ≤ data.length → wordAt data pos = .ok kind → wordAt data (pos + 2) = .ok size →
      loop pos = loop (pos + 4 + size))
    (other : ∀ e ∈ before, e.kind ≠ 0) (small : (before.flatMap Extension.bytes).length < 65536)
    (behind : Behind data pos (before.flatMap Extension.bytes ++ rest)) : ∃ later, loop pos = loop later ∧ Behind data later rest := by
  induction before generalizing pos with
  | nil => exact ⟨pos,rfl,behind⟩
  | cons e before ih =>
    rw [flatMap_cons,append_assoc,Extension.bytes] at behind
    simp only [flatMap_cons,Extension.bytes,length_append] at small
    have inside := Behind.inside behind
    simp only [length_append,u16ToBe_length] at inside
    obtain ⟨kind,behind⟩ := Behind.word behind
    obtain ⟨size,behind⟩ := Behind.word behind
    rw [word_size (by omega)] at size
    have different : e.kind.toNat ≠ 0 := fun zero => other e (mem_cons_self ..) (UInt16.toNat_inj.mp zero)
    obtain ⟨later,same,behind⟩ := ih (fun e among => other e (mem_cons_of_mem _ among)) (by omega) (Behind.skip behind)
    exact ⟨later,(step pos _ _ different (by omega) kind size).trans same,behind⟩

structure Named (data : Bytes) (pos : Nat) (name : String) : Prop where
  kind : wordAt data pos = .ok 0
  size : ∃ n, wordAt data (pos + 2) = .ok n
  list : ∃ n, wordAt data (pos + 4) = .ok n
  type_ : byteAt data (pos + 4 + 2) = .ok 0
  length : wordAt data (pos + 4 + 2 + 1) = .ok (asBytes name).length
  inside : pos + 4 + 2 + 3 + (asBytes name).length ≤ data.length
  name : slice data (pos + 4 + 2 + 3) (pos + 4 + 2 + 3 + (asBytes name).length) = .ok (asBytes name)

theorem serverName_read {h : Parts} (small : h.serverName.bytes.length < 65536) (behind : Behind data pos (h.serverName.bytes ++ rest)) :
    Named data pos h.name := by
  simp only [Extension.bytes,Parts.serverName,Parts.list,length_append,length_cons,u16ToBe_length] at small
  simp only [Extension.bytes,Parts.serverName,Parts.list,append_assoc,cons_append] at behind
  obtain ⟨kind,behind⟩ := Behind.word behind
  obtain ⟨size,behind⟩ := Behind.word behind
  obtain ⟨list,behind⟩ := Behind.word behind
  obtain ⟨type_,behind⟩ := Behind.byte behind
  obtain ⟨length,behind⟩ := Behind.word behind
  have inside := Behind.inside behind
  rw [length_append] at inside
  obtain ⟨front,before,rfl⟩ := behind
  rw [word_size (by omega)] at length
  refine ⟨kind,⟨_,size⟩,⟨_,list⟩,type_,length,by omega,?_⟩
  rw [slice_ok (Nat.le_add_right ..) (by omega),drop_front before,Nat.add_sub_cancel_left,take_left]

theorem sniffLoop_named (named : Named data pos name) : sniffLoop data data.length pos = .ok (some name) := by
  obtain ⟨kind,⟨_,size⟩,⟨_,list⟩,type_,length,inside,read⟩ := named
  rw [sniffLoop,if_pos (by omega),kind,ok_bind,size,ok_bind]
  rw [if_pos rfl,if_neg (by omega),list,ok_bind,if_neg (by omega),type_,ok_bind,length,ok_bind,if_pos ⟨rfl,inside⟩,read,ok_bind,fromUtf8_asBytes]

theorem extractLoop_named (named : Named data pos name) : extractLoop data data.length pos = .ok name.toList := by
  obtain ⟨kind,⟨_,size⟩,⟨_,list⟩,type_,length,inside,read⟩ := named
  rw [extractLoop,if_pos (by omega),kind,ok_bind,size,ok_bind]
  rw [if_pos ⟨rfl,by omega⟩,list,ok_bind,if_pos (by omega),type_,ok_bind,length,ok_bind,if_pos inside,read,ok_bind,fromUtf8_asBytes]

theorem loop_arrives (h : Hello) (loop : Nat → α)
    (step : ∀ pos kind size, kind ≠ 0 → pos + 4 ≤ h.bytes.length → wordAt h.bytes pos = .ok kind → wordAt h.bytes (pos + 2) = .ok size →
      loop pos = loop (pos + 4 + size)) (behind : Behind h.bytes pos h.extensions) :
    ∃ later, loop pos = loop later ∧ Named h.bytes later h.name := by
  have small := h.extensionsFit
  rw [Parts.extensions,flatMap_append,flatMap_cons] at small behind
  simp only [length_append] at small
  obtain ⟨later,same,behind⟩ := passes_before loop step h.first (by omega) behind
  exact ⟨later,same,serverName_read (by omega) behind⟩

theorem hello_named (h : Hello) : sniffTlsSni h.bytes = .ok (some h.name) ∧ extract h.bytes = .ok h.name.toList := by
  obtain ⟨pos,walked,behind⟩ := walk_hello h
  obtain ⟨kind,start⟩ := Behind.byte (Behind.start h.bytes)
  obtain ⟨message,-⟩ := Behind.byte (Behind.skip start)
  rw [h.record.property] at message
  have long : 50 ≤ h.bytes.length := by
    simp [Parts.bytes,Parts.extensions,Parts.serverName,Extension.bytes,h.record.property,h.random.property]
    omega
  constructor
  · obtain ⟨later,same,named⟩ := loop_arrives h (sniffLoop h.bytes h.bytes.length) (fun pos kind size other more first second => by
      rw [sniffLoop,if_pos (by omega),first,ok_bind,second,ok_bind,if_neg other]) behind
    rw [sniffTlsSni,if_neg (by omega),message,walked]
    exact same.trans (sniffLoop_named named)
  · obtain ⟨later,same,named⟩ := loop_arrives h (extractLoop h.bytes h.bytes.length) (fun pos kind size other more first second => by
      rw [extractLoop,if_pos more,first,ok_bind,second,ok_bind,if_neg (fun both => other both.1)]) behind
    rw [extract,if_neg (by omega),kind,ok_bind,if_neg (by decide),walked,ok_bind]
    dsimp only
    rw [if_neg (by omega)]
    exact same.trans (extractLoop_named named)

theorem sni_extracted :
    (∀ h : Hello, sniffTlsSni h.bytes = .ok (some h.name) ∧ extractSniFromClientHello h.bytes = h.name.toList) ∧
      ∀ data, (∃ found, sniffTlsSni data = .ok found) ∧ extract data = .ok (extractSniFromClientHello data) := by
  refine ⟨fun h => ?_,fun data => ⟨sniff_returns data,extract_checked data⟩⟩
  obtain ⟨sniffed,extracted⟩ := hello_named h
  rw [extract_checked] at extracted
  exact ⟨sniffed,Except.ok.inj extracted⟩

def plainHello : Hello where
  record := .zero 4
  size := .zero 3
  version := .zero 2
  random := .zero 32
  session := [7]
  suites := [0x13,1]
  methods := [0]
  before := [⟨10,[0,2,0,29]⟩]
  name := "a.b"
  entries := []
  after := []
  first := by decide
  sessionFits := by decide
  suitesFit := by decide
  methodsFit := by decide
  extensionsFit := by decide

theorem sni_extracted_plain :
    sniffTlsSni plainHello.bytes = .ok (some "a.b") ∧ extractSniFromClientHello plainHello.bytes = "a.b".toList :=
  sni_extracted.1 plainHello

inductive SniffProtocol where
  | unknown
  | http
  | tls
  | bitTorrent
  | dns

structure SniffResult where
  protocol : SniffProtocol
  domain : Option String

-- The bits of the flags are the response bit and the opcode; the two bytes behind are the number of questions.
def looksLikeDns : Bytes → Prop
  | _ :: _ :: flags :: _ :: high :: low :: rest =>
    6 ≤ rest.length ∧ flags >>> 7 &&& 1 = 0 ∧ flags >>> 3 &&& 0x0f = 0 ∧ 1 ≤ be16 [high,low] ∧ be16 [high,low] ≤ 10
  | _ => False

instance : DecidablePred looksLikeDns := fun data => by
  unfold looksLikeDns
  split <;> infer_instance

def looksLikeTls : Bytes → Prop
  | kind :: high :: low :: _ :: _ :: _ :: _ => kind = 0x16 ∧ be16 [high,low] ∈ [0x0301,0x0302,0x0303,0x0304]
  | _ => False

instance : DecidablePred looksLikeTls := fun data => by
  unfold looksLikeTls
  split <;> infer_instance

def sniff (sniffHttpHost : Bytes → Option String) (data : Bytes) : Checked SniffResult :=
  if data.take 20 = 19 :: asBytes "BitTorrent protocol" then .ok ⟨.bitTorrent,none⟩
  else if looksLikeDns data then .ok ⟨.dns,none⟩
  else if data.take 4 ∈ ["GET ","POST","PUT ","HEAD","PATC","DELE","OPTI","TRAC","CONN"].map asBytes then .ok ⟨.http,sniffHttpHost data⟩
  else if looksLikeTls data then (sniffTlsSni data).map (SniffResult.mk .tls)
  else .ok ⟨.unknown,none⟩

abbrev MinorVersion := {minor : UInt8 // minor ∈ [1,2,3,4]}

-- A handshake record header with a record length of these two bytes, and the type of the handshake message.
def helloBytes (minor : MinorVersion) (high low : UInt8) (rest : Bytes) : Bytes := 0x16 :: 3 :: minor :: high :: low :: 1 :: rest

theorem sniff_hello (sniffHttpHost minor high low rest) :
    sniff sniffHttpHost (helloBytes minor high low rest) =
      if low = 0 ∧ 6 ≤ rest.length then .ok ⟨.dns,none⟩
      else (sniffTlsSni (helloBytes minor high low rest)).map (SniffResult.mk .tls) := by
  have versions : ∀ minor ∈ ([1,2,3,4] : List UInt8), be16 [3,minor] ∈ ([0x0301,0x0302,0x0303,0x0304] : List UInt16) ∧
      minor >>> 7 &&& 1 = 0 ∧ minor >>> 3 &&& 0x0f = 0 := by decide +kernel
  have version := versions minor.val minor.property
  have questions : (1 ≤ be16 [low,1] ∧ be16 [low,1] ≤ 10) ↔ low = 0 := by
    have count : (be16 [low,1]).toNat = low.toNat * 256 + 1 := by
      have := low.toNat_lt
      simp [be16,ofBe]
      omega
    rw [UInt16.le_iff_toNat_le,UInt16.le_iff_toNat_le,count,← UInt8.toNat_inj]
    simp
    omega
  have dns : looksLikeDns (helloBytes minor high low rest) ↔ low = 0 ∧ 6 ≤ rest.length := by
    simp [looksLikeDns,helloBytes,version.2,questions,and_comm]
  have methods : ∀ method ∈ ["GET ","POST","PUT ","HEAD","PATC","DELE","OPTI","TRAC","CONN"].map asBytes, method.head? ≠ some 0x16 := by
    decide +kernel
  have http : (helloBytes minor high low rest).take 4 ∉ ["GET ","POST","PUT ","HEAD","PATC","DELE","OPTI","TRAC","CONN"].map asBytes :=
    fun member => methods _ member rfl
  have torrent : (helloBytes minor high low rest).take 20 ≠ 19 :: asBytes "BitTorrent protocol" := by simp [helloBytes]
  rw [sniff,if_neg torrent]
  split
  · rename_i found
    rw [if_pos (dns.mp found)]
  · rename_i lost
    rw [if_neg (mt dns.mpr lost),if_pos ⟨rfl,version.1⟩]

theorem hello_taken_for_dns : sniff (fun _ => none) (helloBytes ⟨1,by decide⟩ 2 0 [0,1,252,3,3,0]) = .ok ⟨.dns,none⟩ := by rfl

end AstraCore.ClientHello
