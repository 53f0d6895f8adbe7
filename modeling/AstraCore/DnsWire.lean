import AstraCore.DnsMessage

namespace AstraCore.DnsWire
open CheckedBytes Dns NetAddress TextScan
open LossyUtf8 (fromUtf8 asBytes fromUtf8_asBytes)
open List (append_assoc drop_drop flatMap_cons length_append length_cons length_drop)

def Returns (data : Bytes) (offset : Nat) : Prop := ∃ fuel, (decodeLoop data fuel [] offset none).isSome

-- The labels and pointers of a name lead from place to place and never back to one of them.
def Acyclic (data : Bytes) (offset : Nat) : Prop :=
  ∀ i j, i < j → (walk data offset j).isSome → walk data offset i ≠ walk data offset j

theorem returns_iff_walk : Returns data offset ↔ ∃ n, walk data offset n = none := by
  simp only [Returns,← Option.ne_none_iff_isSome,ne_eq,decodeLoop_unfinished]
  exact exists_congr fun n => not_not

theorem returns_iff_acyclic : Returns data offset ↔ Acyclic data offset := by
  rw [returns_iff_walk]
  constructor
  · rintro ⟨n,ended⟩ i j less there same
    have endless := walk_round less there same n
    simp [ended] at endless
  · intro acyclic
    refine ⟨data.length + 1,?_⟩
    by_contra long
    obtain ⟨i,j,less,there,same⟩ := walk_again (Option.ne_none_iff_isSome.mp long)
    exact acyclic i j less there same

theorem decoded_of_returns (returns : Returns data offset) : ∃ result, decodeDomainName data offset = some result := by
  obtain ⟨fuel,returned⟩ := returns
  cases decoded : decodeDomainName data offset with
  | some result => exact ⟨result,rfl⟩
  | none => simp [decodeDomainName_endless decoded] at returned

-- Where reading goes on behind a name: behind its root label, or behind its first pointer if that leads to a name that ends.
inductive NameStop (data : Bytes) : Nat → Nat → Prop where
  | root (here : namePart data pos = .ok .root) : NameStop data pos (pos + 1)
  | label (here : namePart data pos = .ok (.label text next)) (rest : NameStop data next stop) : NameStop data pos stop
  | pointer (here : namePart data pos = .ok (.pointer target)) (rest : NameStop data target stop) :
      NameStop data pos (pos + 2)

theorem decodeLoop_stop (decoded : decodeLoop data fuel labels pos jump = some (.ok (name,stop))) :
    ∃ own, NameStop data pos own ∧ stop = jump.getD own := by
  induction fuel generalizing labels pos jump with
  | zero => cases decoded
  | succ fuel ih =>
    rw [decodeLoop] at decoded
    split at decoded
    · cases decoded
    · rename_i here
      cases decoded
      exact ⟨_,.root here,rfl⟩
    · rename_i here
      obtain ⟨own,rest,same⟩ := ih decoded
      exact ⟨_,.pointer here rest,same⟩
    · rename_i here
      obtain ⟨own,rest,same⟩ := ih decoded
      exact ⟨own,.label here rest,same⟩

theorem NameStop.decoded (stops : NameStop data pos own) (labels jump) :
    ∃ fuel name, decodeLoop data fuel labels pos jump = some (.ok (name,jump.getD own)) := by
  induction stops generalizing labels jump with
  | root here => exact ⟨1,_,by rw [decodeLoop,here]⟩
  | label here rest ih =>
    obtain ⟨fuel,name,decoded⟩ := ih (labels ++ [_]) jump
    exact ⟨fuel + 1,name,by rw [decodeLoop,here]; exact decoded⟩
  | pointer here rest ih =>
    obtain ⟨fuel,name,decoded⟩ := ih labels (some (jump.getD _))
    exact ⟨fuel + 1,name,by rw [decodeLoop,here]; exact decoded⟩

theorem decodeLoop_more (decoded : decodeLoop data fuel labels pos jump = some result) (spare) :
    decodeLoop data (fuel + spare) labels pos jump = some result := by
  induction fuel generalizing labels pos jump with
  | zero => cases decoded
  | succ fuel ih =>
    rw [Nat.add_right_comm,decodeLoop]
    rw [decodeLoop] at decoded
    split at decoded
    · exact decoded
    · exact decoded
    · exact ih decoded
    · exact ih decoded

theorem endOfName_iff : endOfName data pos = some (.ok stop) ↔ NameStop data pos stop := by
  constructor
  · intro ended
    obtain ⟨result,decoded,same⟩ := Option.map_eq_some_iff.mp ended
    cases result with
    | error e => cases same
    | ok found =>
      obtain ⟨own,stops,equal⟩ := decodeLoop_stop decoded
      cases same
      rwa [equal]
  · intro stops
    obtain ⟨fuel,name,decoded⟩ := stops.decoded [] none
    obtain ⟨result,found⟩ := decoded_of_returns ⟨fuel,by rw [decoded]; rfl⟩
    have both := (decodeLoop_more decoded (data.length + 1)).symm
    rw [Nat.add_comm] at both
    cases both.trans (decodeLoop_more found fuel)
    exact congrArg _ found

theorem endOfName_none : endOfName data pos = none ↔ ¬ Returns data pos := by
  constructor
  · intro endless returns
    obtain ⟨result,decoded⟩ := decoded_of_returns returns
    cases (Option.map_eq_none_iff.mp endless).symm.trans decoded
  · intro endless
    refine Option.map_eq_none_iff.mpr ?_
    by_contra decoded
    exact endless ⟨_,Option.ne_none_iff_isSome.mp decoded⟩

-- The names that are read: the questions' and then the answers', with how many of both are still to be read. An answer is
-- gone past only with its ten bytes and its data.
inductive NameAt (data : Bytes) : Nat → Nat → Nat → Prop where
  | first (long : dnsHeaderSize ≤ data.length) (response : word16 data 2 &&& 0x8000 ≠ 0) (fine : (word16 data 2 &&& 0x000f).toUInt8 = 0) :
      NameAt data (word16 data 4).toNat (word16 data 6).toNat dnsHeaderSize
  | question (here : NameAt data (questions + 1) answers pos) (stops : NameStop data pos stop) :
      NameAt data questions answers (stop + 4)
  | answer (here : NameAt data 0 (answers + 1) pos) (stops : NameStop data pos stop)
      (inside : stop + 10 + (word16 data (stop + 8)).toNat ≤ data.length) :
      NameAt data 0 answers (stop + 10 + (word16 data (stop + 8)).toNat)

def Bad (data : Bytes) : Prop := ∃ questions answers pos, NameAt data questions answers pos ∧ 0 < questions + answers ∧ ¬ Returns data pos

theorem readAnswers_none (here : NameAt data 0 count pos) (endless : readAnswers data count pos records = none) : Bad data := by
  induction count generalizing pos records with
  | zero => cases endless
  | succ count ih =>
    rw [readAnswers] at endless
    cases ended : endOfName data pos with
    | none => exact ⟨0,count + 1,pos,here,by omega,endOfName_none.mp ended⟩
    | some result =>
      rw [ended] at endless
      cases result with
      | error e => cases endless
      | ok stop =>
        change (if data.length < stop + 10 then _ else _) = none at endless
        split at endless
        · cases endless
        split at endless
        · cases endless
        rename_i _ inside
        have next := here.answer (endOfName_iff.mp ended) (Nat.le_of_not_lt inside)
        split at endless <;> exact ih next endless

theorem skipQuestions_none (here : NameAt data count answers pos)
    (endless : (skipQuestions data count pos >>= (readAnswers data answers · [])) = none) : Bad data := by
  induction count generalizing pos with
  | zero => exact readAnswers_none here endless
  | succ count ih =>
    rw [skipQuestions] at endless
    cases ended : endOfName data pos with
    | none => exact ⟨count + 1,answers,pos,here,by omega,endOfName_none.mp ended⟩
    | some result =>
      rw [ended] at endless
      cases result with
      | error e => cases endless
      | ok stop => exact ih (here.question (endOfName_iff.mp ended)) endless

theorem parse_none : parseDnsResponse data = none ↔ dnsHeaderSize ≤ data.length ∧ word16 data 2 &&& 0x8000 ≠ 0 ∧
    (word16 data 2 &&& 0x000f).toUInt8 = 0 ∧
    (skipQuestions data (word16 data 4).toNat dnsHeaderSize >>= (readAnswers data (word16 data 6).toNat · [])) = none := by
  simp only [parseDnsResponse]
  split
  · exact iff_of_false (Option.some_ne_none _) fun parts => absurd parts.1 (by omega)
  split
  · rename_i reply
    exact iff_of_false (Option.some_ne_none _) fun parts => parts.2.1 reply
  split
  · rename_i failed
    exact iff_of_false (Option.some_ne_none _) fun parts => failed parts.2.2.1
  rename_i long reply fine
  refine Iff.trans ?_ (show _ ↔ _ from
    ⟨fun none => ⟨Nat.le_of_not_lt long,reply,not_not.mp fine,none⟩,fun parts => parts.2.2.2⟩)
  cases skipQuestions data (word16 data 4).toNat dnsHeaderSize with
  | none => exact iff_of_true rfl rfl
  | some skipped =>
    cases skipped with
    | error e => exact iff_of_false (Option.some_ne_none _) (Option.some_ne_none _)
    | ok pos =>
      change (readAnswers data (word16 data 6).toNat pos [] >>= _) = _ ↔ readAnswers data (word16 data 6).toNat pos [] = _
      cases readAnswers data (word16 data 6).toNat pos [] with
      | none => exact iff_of_true rfl rfl
      | some read =>
        cases read with
        | error e => exact iff_of_false (Option.some_ne_none _) (Option.some_ne_none _)
        | ok records =>
          refine iff_of_false ?_ (Option.some_ne_none _)
          change (if records = [] then _ else _) ≠ none
          split <;> exact Option.some_ne_none _

-- What is still to be read behind a name that is reached returns as well, with whatever records were found before it.
theorem NameAt.returns (parsed : parseDnsResponse data ≠ none) (here : NameAt data questions answers pos) :
    ∃ records, (skipQuestions data questions pos >>= (readAnswers data answers · records)) ≠ none := by
  induction here with
  | first long response fine => exact ⟨[],fun none => parsed (parse_none.mpr ⟨long,response,fine,none⟩)⟩
  | question here stops ih =>
    obtain ⟨records,rest⟩ := ih
    rw [skipQuestions,endOfName_iff.mpr stops] at rest
    exact ⟨records,rest⟩
  | @answer count pos stop here stops inside ih =>
    obtain ⟨records,rest⟩ := ih
    change readAnswers data (count + 1) pos records ≠ none at rest
    rw [readAnswers,endOfName_iff.mpr stops] at rest
    change (if data.length < stop + 10 then _ else _) ≠ none at rest
    rw [if_neg (by omega),if_neg (by omega)] at rest
    split at rest
    · exact ⟨_,rest⟩
    · exact ⟨_,rest⟩

theorem NameAt.decodes (parsed : parseDnsResponse data ≠ none) (here : NameAt data questions answers pos)
    (more : 0 < questions + answers) : Returns data pos := by
  by_contra endless
  obtain ⟨records,rest⟩ := here.returns parsed
  have none := endOfName_none.mpr endless
  cases questions with
  | succ count =>
    rw [skipQuestions,none] at rest
    exact rest rfl
  | zero =>
    obtain ⟨count,rfl⟩ := Nat.exists_eq_add_one_of_ne_zero (show answers ≠ 0 by omega)
    change readAnswers data (count + 1) pos records ≠ _ at rest
    rw [readAnswers,none] at rest
    exact rest rfl

theorem decoding_returns_iff (data : Bytes) (offset : Nat) : (Returns data offset ↔ Acyclic data offset) ∧
    ((∃ result, parseDnsResponse data = some result) ↔
      ∀ questions answers pos, NameAt data questions answers pos → 0 < questions + answers → Acyclic data pos) := by
  refine ⟨returns_iff_acyclic,?_⟩
  rw [← Option.ne_none_iff_exists']
  constructor
  · intro parsed questions answers pos here more
    exact returns_iff_acyclic.mp (here.decodes parsed more)
  · intro acyclic none
    obtain ⟨long,response,fine,endless⟩ := parse_none.mp none
    obtain ⟨questions,answers,pos,here,more,bad⟩ := skipQuestions_none (.first long response fine) endless
    exact bad (returns_iff_acyclic.mpr (acyclic questions answers pos here more))

-- An answer whose only question is named by a pointer to itself.
def selfPointing : Bytes := [0,0,0x80,0,0,1,0,0,0,0,0,0,0xc0,0x0c]

theorem pointer_to_itself : ¬ Returns selfPointing 12 ∧ parseDnsResponse selfPointing = none := by
  have back : walk selfPointing 12 0 = walk selfPointing 12 1 := by decide
  refine ⟨fun returns => ?_,rfl⟩
  exact returns_iff_acyclic.mp returns 0 1 Nat.zero_lt_one (by decide) back

def Encodable (domain : Text) : Prop := ∀ label ∈ domain.splitOn '.', label ≠ [] ∧ (Text.bytes label).length ≤ 63

theorem drop_behind {data : Bytes} (here : data.drop pos = front ++ back) : data.drop (pos + front.length) = back := by
  rw [← drop_drop,here,List.drop_left]

theorem drop_first {data : Bytes} (here : data.drop pos = byte :: back) : data[pos]? = some byte := by
  rw [← List.head?_drop,here,List.head?_cons]

theorem bytes_present {label : Text} (present : label ≠ []) : label.bytes ≠ [] := by
  obtain ⟨c,rest,rfl⟩ := List.exists_cons_of_ne_nil present
  have size := Char.utf8Size_pos c
  intro empty
  have width := congrArg List.length empty
  simp [Text.bytes] at width
  omega

theorem encodeLabel_short (short : label.bytes.length ≤ 63) : encodeLabel label = UInt8.ofNat label.bytes.length :: label.bytes := by
  simp [encodeLabel,short]

theorem no_pointer : ∀ n ≤ 63, n &&& 0xc0 ≠ 0xc0 := by decide

theorem namePart_label {data : Bytes} {label : Text} (present : label ≠ []) (short : label.bytes.length ≤ 63)
    (here : data.drop pos = encodeLabel label ++ back) : namePart data pos = .ok (.label (String.ofList label) (pos + (encodeLabel label).length)) := by
  have size := UInt8.toNat_ofNat_of_lt' (Nat.lt_of_le_of_lt short (by decide))
  have positive := List.length_pos_iff.mpr (bytes_present present)
  have text : fromUtf8 label.bytes = some (String.ofList label) := by
    have same : asBytes (String.ofList label) = label.bytes := by simp [asBytes,Text.bytes]
    rw [← same,fromUtf8_asBytes]
  rw [encodeLabel_short short] at here
  have behind : data.drop (pos + 1) = label.bytes ++ back := @drop_behind _ [_] _ _ here
  have long := congrArg List.length behind
  simp only [length_drop,length_append] at long
  simp [namePart,drop_first here,size,positive.ne',no_pointer _ short,behind,text,encodeLabel_short short,Nat.add_assoc,Nat.add_comm]
  omega

theorem decodeLoop_labels {data : Bytes} (labels : List Text) (proper : ∀ label ∈ labels, label ≠ [] ∧ label.bytes.length ≤ 63)
    (here : data.drop pos = labels.flatMap encodeLabel ++ 0 :: back) (before) : decodeLoop data (labels.length + 1 + spare) before pos jump =
      some (.ok (".".intercalate (before ++ labels.map String.ofList),jump.getD (pos + (labels.flatMap encodeLabel).length + 1))) := by
  induction labels generalizing pos before with
  | nil =>
    rw [Nat.add_right_comm,decodeLoop]
    simp [namePart,drop_first here]
  | cons label rest ih =>
    obtain ⟨present,short⟩ := proper label List.mem_cons_self
    rw [flatMap_cons,append_assoc] at here
    have later := ih (fun other inside => proper other (List.mem_cons_of_mem _ inside)) (drop_behind here) (before ++ [String.ofList label])
    rw [Nat.add_right_comm] at later ⊢
    rw [decodeLoop,namePart_label present short here]
    simpa [Nat.add_right_comm,Nat.add_assoc] using later

theorem labels_length (labels : List Text) : labels.length ≤ (labels.flatMap encodeLabel).length := by
  induction labels with
  | nil => simp
  | cons label rest ih =>
    simp only [flatMap_cons,length_append,length_cons,encodeLabel]
    omega

theorem labels_joined (domain : Text) : ".".intercalate ((domain.splitOn '.').map String.ofList) = String.ofList domain := by
  have same : (domain.splitOn '.').map (String.toList ∘ String.ofList) = domain.splitOn '.' := by simp
  apply String.toList_inj.mp
  simp

theorem decode_encoded {domain : Text} (encodable : Encodable domain) (here : data.drop offset = encodeDomainName domain ++ back) :
    decodeDomainName data offset = some (.ok (String.ofList domain,offset + (encodeDomainName domain).length)) := by
  rw [encodeDomainName,append_assoc] at here
  have long := congrArg List.length here
  have fewer := labels_length (domain.splitOn '.')
  simp only [length_drop,length_append] at long
  obtain ⟨spare,enough⟩ : ∃ spare, data.length + 1 = (domain.splitOn '.').length + 1 + spare := Nat.exists_eq_add_of_le (by omega)
  rw [decodeDomainName,enough,decodeLoop_labels _ encodable here,List.nil_append,labels_joined]
  simp [encodeDomainName,Nat.add_assoc]

theorem name_round_trip (front back : Bytes) (encodable : Encodable domain) :
    decodeDomainName (front ++ encodeDomainName domain ++ back) front.length =
      some (.ok (String.ofList domain,(front ++ encodeDomainName domain).length)) := by
  rw [length_append]
  have here : (front ++ encodeDomainName domain ++ back).drop front.length = encodeDomainName domain ++ back := by simp
  exact decode_encoded encodable here

theorem round_trip_example : decodeDomainName ([7] ++ encodeDomainName "a.é".toList ++ [9]) 1 = some (.ok ("a.é",7)) :=
  @name_round_trip "a.é".toList [7] [9] (by unfold Encodable; decide)

inductive Options : Bytes → List (UInt16 × Bytes) → Prop
  | none : Options [] []
  | some (code len : UInt16) (size : len.toNat = data.length) (rest : Options back more) :
      Options (u16ToBe code ++ (u16ToBe len ++ (data ++ back))) ((code,data) :: more)

def queryHead (id flags : UInt16) (name : Bytes) (qtype payload : UInt16) (extended : UInt32) (len : UInt16) : Bytes :=
  u16ToBe id ++ u16ToBe flags ++ u16ToBe 1 ++ u16ToBe 0 ++ u16ToBe 0 ++ u16ToBe 1 ++ name ++ u16ToBe qtype ++ u16ToBe 1 ++
    [0] ++ u16ToBe 41 ++ u16ToBe payload ++ u32ToBe extended ++ u16ToBe len

def Query (domain : Text) (qtype id : UInt16) (options : List (UInt16 × Bytes)) (data : Bytes) : Prop :=
  ∃ flags name payload extended len rdata, data = queryHead id flags name qtype payload extended len ++ rdata ∧
    flags &&& 0x8000 = 0 ∧ decodeDomainName data 12 = some (.ok (String.ofList domain,12 + name.length)) ∧
    len.toNat = rdata.length ∧ Options rdata options

def subnetOption : IpAddr → UInt16 × Bytes
  | .v4 octets => (8,u16ToBe 1 ++ [24,0] ++ octets.val.take 3)
  | .v6 octets => (8,u16ToBe 2 ++ [96,0] ++ octets.val.take 12)

def wanted (clientIp : Option IpAddr) (padding : Nat) : List (UInt16 × Bytes) :=
  (clientIp.map subnetOption).toList ++ if 0 < padding then [(12,List.replicate padding 0)] else []

theorem padding_option (small : padding ≤ 60000) :
    Options (if 0 < padding then buildEdns0PaddingOption padding else []) (if 0 < padding then [(12,List.replicate padding 0)] else []) := by
  split
  · have size : (UInt16.ofNat padding).toNat = (List.replicate padding (0 : UInt8)).length := by simp; omega
    simpa [buildEdns0PaddingOption] using Options.some 12 _ size .none
  · exact .none

theorem second_word (same : u16ToBe a ++ (u16ToBe b ++ x) = u16ToBe c ++ (u16ToBe d ++ y)) : b = d := by
  have behind := (List.append_inj same (by simp)).2
  have second := (List.append_inj behind (by simp)).1
  simpa using congrArg be16 second

-- The length field counts the octets that are cut off, too.
theorem subnet_option (ip rest more) : ¬ Options (buildEdns0SubnetOption (some ip) ++ rest) (subnetOption ip :: more) := by
  intro options
  cases ip with
  | v4 octets | v6 octets =>
    have width := octets.property
    simp only [buildEdns0SubnetOption,subnetOption,append_assoc] at options
    generalize whole : u16ToBe 8 ++ _ = data at options
    cases options with
    | some code len size rest =>
      simp [← second_word whole,width] at size

theorem query_text (domain qtype id clientIp padding) : ∃ options,
    options = buildEdns0SubnetOption clientIp ++ (if 0 < padding then buildEdns0PaddingOption padding else []) ∧
    buildDnsQueryWithEdns domain qtype id clientIp padding =
      queryHead id 0x0100 (encodeDomainName domain) qtype 0x0536 0x8000 (UInt16.ofNat options.length) ++ options := by
  refine ⟨_,rfl,?_⟩
  simp only [buildDnsQueryWithEdns,queryHead,append_assoc]
  rfl

theorem query_name (encodable : Encodable domain) (id flags qtype payload extended len rdata) :
    decodeDomainName (queryHead id flags (encodeDomainName domain) qtype payload extended len ++ rdata) 12 =
      some (.ok (String.ofList domain,12 + (encodeDomainName domain).length)) := by
  apply decode_encoded encodable
  simp only [queryHead,append_assoc]
  rfl

theorem query_options (encodable : Encodable domain)
    (query : Query domain qtype number options (queryHead number flags (encodeDomainName domain) qtype payload extended len ++ rdata)) :
    Options rdata options := by
  obtain ⟨_,other,_,_,_,_,same,-,decoded,-,parsed⟩ := query
  rw [query_name encodable] at decoded
  have width : (encodeDomainName domain).length = other.length := by simpa using decoded
  obtain ⟨-,rfl⟩ := List.append_inj same (by simp [queryHead,width])
  exact parsed

theorem edns_query_iff (encodable : Encodable domain) (small : padding ≤ 60000) (qtype id : UInt16) (clientIp : Option IpAddr) :
    Query domain qtype id (wanted clientIp padding) (buildDnsQueryWithEdns domain qtype id clientIp padding) ↔ clientIp = none := by
  obtain ⟨options,built,text⟩ := query_text domain qtype id clientIp padding
  rw [text]
  constructor
  · intro query
    have parsed := query_options encodable query
    cases clientIp with
    | none => rfl
    | some ip => exact absurd (built ▸ parsed) (subnet_option ip _ _)
  · rintro rfl
    have length : options.length ≤ 60004 := by
      rw [built]
      simp only [buildEdns0SubnetOption,List.nil_append]
      split <;> simp [buildEdns0PaddingOption]
      omega
    refine ⟨_,_,_,_,_,_,rfl,by decide,query_name encodable .. ,by simp; omega,?_⟩
    rw [built]
    exact padding_option small

theorem edns_query_padded : Query "a".toList 1 7 (wanted none 4) (buildDnsQueryWithEdns "a".toList 1 7 none 4) :=
  (edns_query_iff (by unfold Encodable; decide) (by decide) 1 7 none).mpr rfl

theorem subnet_unparsed (options) : ¬ Options (u16ToBe 8 ++ (u16ToBe 8 ++ [0,1,24,0,192,0,2])) options := by
  generalize whole : u16ToBe 8 ++ _ = data
  intro parsed
  cases parsed with
  | none => simp at whole
  | some code len size rest =>
    have length := congrArg List.length whole
    rw [← second_word whole] at size
    simp at length size
    omega

theorem edns_subnet_unparsed : ¬ ∃ options,
    Query "a".toList 1 7 options (buildDnsQueryWithEdns "a".toList 1 7 (some (.v4 ⟨[192,0,2,1],rfl⟩)) 0) := by
  obtain ⟨rdata,built,text⟩ := query_text "a".toList 1 7 (some (.v4 ⟨[192,0,2,1],rfl⟩)) 0
  rintro ⟨options,query⟩
  rw [text] at query
  exact subnet_unparsed options (built ▸ query_options (by unfold Encodable; decide) query)

end AstraCore.DnsWire
