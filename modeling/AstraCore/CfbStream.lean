import AstraCore.NetAddress

namespace AstraCore.CfbStream
open CheckedBytes NetAddress List

inductive CfbMode where
  | encrypt
  | decrypt
deriving DecidableEq

def CfbMode.fed : CfbMode → (src dst : α) → α
  | .encrypt,_,dst => dst
  | .decrypt,src,_ => src

-- `cipher` is the block encryption under the stream's key.
structure AesCfbStream where
  cipher : Octets 16 → Octets 16
  shift : Octets 16
  mode : CfbMode
  offset : Nat
  bounded : offset ≤ 16

variable (aes : Octets 16 → Octets 16 → Octets 16)

def AesCfbStream.make (mode : CfbMode) (key iv : Octets 16) : AesCfbStream := ⟨aes key,iv,mode,0,Nat.zero_le 16⟩

-- `new_encrypt` and `new_decrypt`: of a longer key the first 16 bytes are used.
def AesCfbStream.new (mode : CfbMode) (key : Bytes) (iv : Octets 16) : Checked AesCfbStream :=
  if long : 16 ≤ key.length then .ok (.make aes mode ⟨key.take 16,List.length_take_of_le long⟩ iv) else .error .sliceIndex

def xorBytes (src key : Bytes) : Bytes := List.zipWith (· ^^^ ·) src key

theorem xorBytes_length (enough : src.length ≤ key.length) : (xorBytes src key).length = src.length := by
  rw [xorBytes,length_zipWith,Nat.min_eq_left enough]

theorem overwritten_length {shift : Bytes} (width : shift.length = 16) (inside : offset + kept.length ≤ 16) :
    (shift.take offset ++ (kept ++ shift.drop (offset + kept.length))).length = 16 := by
  simp only [length_append,length_take,length_drop]
  omega

theorem fed_length (mode : CfbMode) (enough : src.length ≤ key.length) : (mode.fed src (xorBytes src key)).length = src.length := by
  cases mode with
  | encrypt => exact xorBytes_length enough
  | decrypt => rfl

theorem turn_room {src shift : Bytes} (width : shift.length = 16) : (src.take (16 - offset)).length ≤ (shift.drop offset).length := by
  rw [length_take,length_drop]
  omega

section
variable (s : AesCfbStream)

def AesCfbStream.start : Nat := if s.offset = 16 then 0 else s.offset
def AesCfbStream.keyed : Octets 16 := if s.start = 0 then s.cipher s.shift else s.shift

theorem AesCfbStream.start_lt : s.start < 16 := by
  have := s.bounded
  rw [start]
  split <;> omega

def AesCfbStream.part (src : Bytes) : Bytes := src.take (16 - s.start)
def AesCfbStream.output (src : Bytes) : Bytes := xorBytes (s.part src) (s.keyed.val.drop s.start)
def AesCfbStream.kept (src : Bytes) : Bytes := s.mode.fed (s.part src) (s.output src)

theorem AesCfbStream.kept_fits (src) : s.start + (s.kept src).length ≤ 16 := by
  have width : (s.kept src).length = (s.part src).length := fed_length s.mode (turn_room s.keyed.property)
  have := s.start_lt
  rw [width,part,length_take]
  omega

def AesCfbStream.turned (src : Bytes) : AesCfbStream :=
  {s with
    shift := ⟨s.keyed.val.take s.start ++ (s.kept src ++ s.keyed.val.drop (s.start + (s.kept src).length)),
      overwritten_length s.keyed.property (s.kept_fits src)⟩
    offset := s.start + (s.kept src).length
    bounded := s.kept_fits src}

end

-- `dst` has the length of `src` and is written over completely, so it is the result.
def AesCfbStream.xorKeyStream (s : AesCfbStream) (src : Bytes) : Bytes × AesCfbStream :=
  if src = [] then ([],s)
  else
    let rest := (s.turned src).xorKeyStream (src.drop (16 - s.start))
    (s.output src ++ rest.1,rest.2)
termination_by src.length
decreasing_by
  have := s.start_lt
  have := List.length_pos_iff.mpr ‹src ≠ []›
  rw [List.length_drop]
  omega

def AesCfbStream.calls (s : AesCfbStream) : List Bytes → Bytes
  | [] => []
  | src :: more => (s.xorKeyStream src).1 ++ (s.xorKeyStream src).2.calls more

-- CFB with 128 bits: each block is added to the encryption of the ciphertext block before it.
def cfb128 (cipher : Octets 16 → Octets 16) (mode : CfbMode) (prev : Octets 16) (data : Bytes) : Bytes :=
  let out := xorBytes (data.take 16) (cipher prev).val
  if more : 16 < data.length then
    out ++ cfb128 cipher mode ⟨mode.fed (data.take 16) out,by
      rw [fed_length mode (by rw [(cipher prev).property]; exact List.length_take_le ..)]
      exact List.length_take_of_le (Nat.le_of_lt more)⟩ (data.drop 16)
  else out
termination_by data.length
decreasing_by
  rw [List.length_drop]
  omega

-- The same byte by byte: the ciphertext block before, and what there is of the present one.
structure Register where
  prev : Octets 16
  done : Bytes

def Register.opened (r : Register) : Register := if full : r.done.length = 16 then ⟨⟨r.done,full⟩,[]⟩ else r

section
variable (cipher : Octets 16 → Octets 16) (mode : CfbMode)

def Register.step (r : Register) (b : UInt8) : UInt8 × Register :=
  let out := b ^^^ (cipher r.opened.prev).val.getD r.opened.done.length 0
  (out,⟨r.opened.prev,r.opened.done ++ [mode.fed b out]⟩)

def Register.run (r : Register) : Bytes → Bytes × Register
  | [] => ([],r)
  | b :: rest => ((r.step cipher mode b).1 :: ((r.step cipher mode b).2.run rest).1,((r.step cipher mode b).2.run rest).2)

variable {r : Register}

theorem opened_of_room (room : r.done.length < 16) : r.opened = r := dif_neg (by omega)

theorem opened_lt (bounded : r.done.length ≤ 16) : r.opened.done.length < 16 := by
  rw [Register.opened]
  split
  · exact Nat.succ_pos 15
  · omega

theorem run_opened (bounded : r.done.length ≤ 16) (present : data ≠ []) : r.run cipher mode data = r.opened.run cipher mode data := by
  cases data with
  | nil => exact absurd rfl present
  | cons b rest => rw [Register.run,Register.run,Register.step,Register.step,opened_of_room (opened_lt bounded)]

theorem run_append (r : Register) (front back) : r.run cipher mode (front ++ back) =
      ((r.run cipher mode front).1 ++ ((r.run cipher mode front).2.run cipher mode back).1,((r.run cipher mode front).2.run cipher mode back).2) := by
  induction front generalizing r with
  | nil => rfl
  | cons b rest ih =>
    rw [cons_append,Register.run,ih]
    rfl

theorem run_within (r : Register) (data) (room : r.done.length + data.length ≤ 16) :
    r.run cipher mode data = (xorBytes data ((cipher r.prev).val.drop r.done.length),
      ⟨r.prev,r.done ++ mode.fed data (xorBytes data ((cipher r.prev).val.drop r.done.length))⟩) := by
  induction data generalizing r with
  | nil => cases mode <;> simp [Register.run,xorBytes,CfbMode.fed]
  | cons b rest ih =>
    rw [length_cons] at room
    have inside : r.done.length < (cipher r.prev).val.length := by
      rw [(cipher r.prev).property]
      omega
    have later := ih ⟨r.prev,r.done ++ [mode.fed b (b ^^^ (cipher r.prev).val.getD r.done.length 0)]⟩ (by simp; omega)
    have split : (cipher r.prev).val.drop r.done.length = (cipher r.prev).val.getD r.done.length 0 :: (cipher r.prev).val.drop (r.done.length + 1) := by
      rw [drop_eq_getElem_cons inside,getD_eq_getElem?_getD,getElem?_eq_getElem inside,Option.getD_some]
    rw [Register.run,Register.step,opened_of_room (by omega),later,split]
    cases mode <;> simp [xorBytes,CfbMode.fed]

structure Stands (s : AesCfbStream) (r : Register) : Prop where
  keyed : s.cipher = cipher
  moded : s.mode = mode
  offset : s.offset = r.done.length
  shift : s.shift.val = if r.done = [] then r.prev.val else r.done ++ (cipher r.prev).val.drop r.done.length

variable {cipher mode}

section
variable (stands : Stands cipher mode s r)
include stands

theorem Stands.opened : s.start = r.opened.done.length ∧ s.keyed.val = r.opened.done ++ (cipher r.opened.prev).val.drop r.opened.done.length := by
  have ⟨same,_,offset,shift⟩ := stands
  rw [AesCfbStream.keyed,AesCfbStream.start,Register.opened,offset]
  by_cases full : r.done.length = 16
  · have present : r.done ≠ [] := ne_nil_of_length_pos (by omega)
    have whole : s.shift = ⟨r.done,full⟩ := by
      apply Subtype.ext
      rw [shift,if_neg present,full,drop_of_length_le (by rw [(cipher r.prev).property]),append_nil]
    simp [full,whole,same]
  · rw [if_neg full,dif_neg full]
    refine ⟨rfl,?_⟩
    by_cases empty : r.done = []
    · have whole : s.shift = r.prev := Subtype.ext (by rw [shift,if_pos empty])
      simp [empty,whole,same]
    · rw [if_neg (fun none => empty (eq_nil_of_length_eq_zero none)),shift,if_neg empty]

theorem turn_stands (present : src ≠ []) : s.output src = (r.opened.run cipher mode (src.take (16 - s.start))).1 ∧
      Stands cipher mode (s.turned src) (r.opened.run cipher mode (src.take (16 - s.start))).2 := by
  obtain ⟨start,keyed⟩ := stands.opened
  have := s.start_lt
  have out : s.output src = xorBytes (src.take (16 - s.start)) ((cipher r.opened.prev).val.drop r.opened.done.length) := by
    rw [AesCfbStream.output,AesCfbStream.part,keyed,start,drop_left]
  have within := run_within cipher mode r.opened (src.take (16 - s.start)) (by rw [length_take]; omega)
  have kept : s.kept src = mode.fed (src.take (16 - s.start)) (s.output src) := by
    rw [AesCfbStream.kept,stands.moded]
    rfl
  have width : (s.kept src).length = (src.take (16 - s.start)).length := fed_length s.mode (turn_room s.keyed.property)
  have grown : r.opened.done ++ s.kept src ≠ [] := by
    have := length_pos_iff.mpr present
    apply ne_nil_of_length_pos
    rw [length_append,width,length_take]
    omega
  rw [within,← out,← kept]
  refine ⟨rfl,stands.keyed,stands.moded,?_,?_⟩
  · rw [length_append,← start]
    rfl
  · rw [if_neg grown]
    change s.keyed.val.take s.start ++ (s.kept src ++ s.keyed.val.drop (s.start + (s.kept src).length)) = _
    rw [start,keyed,take_left,drop_length_add_append,length_append,drop_drop,append_assoc]

theorem stream_runs (src) : (s.xorKeyStream src).1 = (r.run cipher mode src).1 ∧ Stands cipher mode (s.xorKeyStream src).2 (r.run cipher mode src).2 := by
  fun_induction AesCfbStream.xorKeyStream s src generalizing r with
  | case1 s => exact ⟨rfl,stands⟩
  | case2 s src present rest =>
    rename_i ih
    obtain ⟨out,turned⟩ := turn_stands stands present
    obtain ⟨later,last⟩ := ih turned
    have whole := run_append cipher mode r.opened (src.take (16 - s.start)) (src.drop (16 - s.start))
    rw [take_append_drop,← run_opened cipher mode (stands.offset ▸ s.bounded) present] at whole
    rw [whole,out]
    exact ⟨congrArg _ later,last⟩

theorem calls_run : s.calls parts = (r.run cipher mode parts.flatten).1 := by
  induction parts generalizing s r with
  | nil => rfl
  | cons src more ih =>
    obtain ⟨out,later⟩ := stream_runs stands src
    rw [AesCfbStream.calls,ih later,out,flatten_cons,run_append]

end

theorem cfb128_run (prev) : cfb128 cipher mode prev data = (Register.run cipher mode ⟨prev,[]⟩ data).1 := by
  fun_induction cfb128 cipher mode prev data with
  | case1 prev data out more ih =>
    have within := run_within cipher mode ⟨prev,[]⟩ (data.take 16) (by simp)
    have later := run_append cipher mode ⟨prev,[]⟩ (data.take 16) (data.drop 16)
    rw [take_append_drop,within] at later
    rw [later,ih]
    have present : data.drop 16 ≠ [] := ne_nil_of_length_pos (by rw [length_drop]; omega)
    have width : (mode.fed (data.take 16) out).length = 16 := by
      rw [fed_length mode (by rw [(cipher prev).property]; exact length_take_le ..)]
      exact length_take_of_le (Nat.le_of_lt more)
    have next := run_opened cipher mode (r := ⟨prev,mode.fed _ out⟩) (Nat.le_of_eq width) present
    rw [Register.opened,dif_pos width] at next
    exact congrArg (fun found => out ++ found.1) next.symm
  | case2 prev data out short =>
    have within := run_within cipher mode ⟨prev,[]⟩ (data.take 16) (by simp)
    rw [take_of_length_le (by omega)] at within
    rw [within]
    exact congrArg (fun front => xorBytes front (cipher prev).val) (take_of_length_le (by omega))

theorem run_inverts (r : Register) : (r.run cipher .decrypt (r.run cipher .encrypt data).1).1 = data := by
  induction data generalizing r with
  | nil => rfl
  | cons b rest ih =>
    have back := ih (r.step cipher .encrypt b).2
    simp only [Register.run,Register.step,CfbMode.fed] at back ⊢
    rw [back,UInt8.xor_assoc,UInt8.xor_self,UInt8.xor_zero]

end

theorem made_stands : Stands (aes key) mode (.make aes mode key iv) ⟨iv,[]⟩ := ⟨rfl,rfl,rfl,rfl⟩

def pieces (mode : CfbMode) (key : Bytes) (iv : Octets 16) (parts : List Bytes) : Checked Bytes := do
  let s ← AesCfbStream.new aes mode key iv
  .ok (s.calls parts)

theorem pieces_run : pieces aes mode key iv parts = (AesCfbStream.new aes mode key iv).map fun s => (Register.run s.cipher mode ⟨iv,[]⟩ parts.flatten).1 := by
  rw [pieces,AesCfbStream.new]
  split
  · exact congrArg Except.ok (calls_run (made_stands aes))
  · rfl

theorem cfb_stream (key : Bytes) (iv : Octets 16) (parts : List Bytes) :
    (∀ mode, pieces aes mode key iv parts = pieces aes mode key iv [parts.flatten] ∧
      pieces aes mode key iv parts =
        (AesCfbStream.new aes mode key iv).map fun s => cfb128 s.cipher mode iv parts.flatten) ∧
    ∀ out others, pieces aes .encrypt key iv parts = .ok out → others.flatten = out →
      pieces aes .decrypt key iv others = .ok parts.flatten := by
  refine ⟨fun mode => ⟨?_,?_⟩,fun out others encrypted same => ?_⟩
  · rw [pieces_run,pieces_run,flatten_singleton]
  · rw [pieces_run]
    congr 1
    funext s
    rw [cfb128_run]
  · rw [pieces_run,AesCfbStream.new] at encrypted ⊢
    split at encrypted
    · rename_i long
      cases encrypted
      rw [dif_pos long,same]
      exact congrArg Except.ok (run_inverts ..)
    · cases encrypted

-- What is read of the response body: `inside` is the source's `buffer.len() - offset` without underflow.
structure EncryptionReader where
  key : Octets 16
  iv : Octets 16
  buffer : Bytes
  offset : Nat
  inside : offset ≤ buffer.length

theorem none_read : 0 ≤ ([] : Bytes).length := Nat.le_refl 0

def EncryptionReader.newAesCfb (key iv : Octets 16) : EncryptionReader := ⟨key,iv,[],0,none_read⟩

def EncryptionReader.feed (r : EncryptionReader) (data : Bytes) : EncryptionReader :=
  {r with buffer := r.buffer ++ data, inside := Nat.le_trans r.inside (List.length_append ▸ Nat.le_add_right ..)}

-- Every read that finds something starts a stream of its own.
def EncryptionReader.readDecrypted (r : EncryptionReader) (room : Nat) : Bytes × EncryptionReader :=
  let toRead := min room (r.buffer.length - r.offset)
  if toRead = 0 then ([],r)
  else
    (((AesCfbStream.make aes .decrypt r.key r.iv).xorKeyStream ((r.buffer.drop r.offset).take toRead)).1,
      {r with offset := r.offset + toRead, inside := Nat.add_le_of_le_sub' r.inside (Nat.min_le_right ..)})

inductive Call where
  | feed (data : Bytes)
  | read (room : Nat)

def EncryptionReader.serve (r : EncryptionReader) : List Call → Bytes × EncryptionReader
  | [] => ([],r)
  | .feed data :: more => (r.feed data).serve more
  | .read room :: more => ((r.readDecrypted aes room).1 ++ ((r.readDecrypted aes room).2.serve more).1,((r.readDecrypted aes room).2.serve more).2)

def fed : List Call → Bytes
  | [] => []
  | .feed data :: more => data ++ fed more
  | .read _ :: more => fed more

-- The reads give the front of the decrypted text, and all of it where nothing is left to read.
def Decrypts (key iv : Octets 16) (calls : List Call) : Prop :=
  ((EncryptionReader.newAesCfb key iv).serve aes calls).1 <+: cfb128 (aes key) .decrypt iv (fed calls) ∧
    (((EncryptionReader.newAesCfb key iv).serve aes calls).2.offset = (fed calls).length →
      ((EncryptionReader.newAesCfb key iv).serve aes calls).1 = cfb128 (aes key) .decrypt iv (fed calls))

-- An interleaving: how much each call feeds or asks for.
inductive Step where
  | feed (size : Nat)
  | read (room : Nat)
deriving DecidableEq

def Call.shape : Call → Step
  | .feed data => .feed data.length
  | .read room => .read room

def Refines (steps : List Step) : Prop :=
  ∀ (aes : Octets 16 → Octets 16 → Octets 16) (key iv : Octets 16) (calls : List Call), calls.map Call.shape = steps → Decrypts aes key iv calls

def taken : Nat → List Step → List Nat
  | _,[] => []
  | there,.feed size :: more => taken (there + size) more
  | there,.read room :: more => min room there :: taken (there - min room there) more

def finding (there : Nat) (steps : List Step) : Nat := (taken there steps).countP (0 < ·)

section
variable (r : EncryptionReader)

theorem readDecrypted_run : (r.readDecrypted aes room).1 =
        cfb128 (aes r.key) .decrypt r.iv ((r.buffer.drop r.offset).take (min room (r.buffer.length - r.offset))) ∧
      (r.readDecrypted aes room).2.offset = r.offset + min room (r.buffer.length - r.offset) ∧
      (r.readDecrypted aes room).2.buffer = r.buffer ∧ (r.readDecrypted aes room).2.key = r.key ∧ (r.readDecrypted aes room).2.iv = r.iv := by
  rw [EncryptionReader.readDecrypted,cfb128_run]
  split
  · rename_i none
    rw [none]
    exact ⟨rfl,rfl,rfl,rfl,rfl⟩
  · exact ⟨(stream_runs (made_stands aes) _).1,rfl,rfl,rfl,rfl⟩

theorem cfb128_front (cipher) : cfb128 cipher mode iv (data.take n) <+: cfb128 cipher mode iv data := by
  have parts := congrArg Prod.fst (run_append cipher mode ⟨iv,[]⟩ (data.take n) (data.drop n))
  rw [take_append_drop] at parts
  rw [cfb128_run,cfb128_run,parts]
  exact prefix_append ..

theorem serve_buffer (calls) : (r.serve aes calls).2.buffer = r.buffer ++ fed calls := by
  induction calls generalizing r with
  | nil => exact (append_nil _).symm
  | cons call more ih =>
    cases call with
    | feed data =>
      rw [EncryptionReader.serve,ih,fed,← append_assoc]
      rfl
    | read room =>
      obtain ⟨-,-,buffer,-⟩ := readDecrypted_run aes r
      rw [EncryptionReader.serve,ih,buffer]
      rfl

theorem finding_feed (there size) : finding there (.feed size :: more) = finding (there + size) more := rfl

theorem finding_read (there) : finding there (.read room :: more) = finding (there - min room there) more + if 0 < min room there then 1 else 0 := by
  rw [finding,taken,countP_cons]
  simp [finding]

theorem feed_there (data) : (r.feed data).buffer.length - (r.feed data).offset = r.buffer.length - r.offset + data.length := by
  have := r.inside
  simp only [EncryptionReader.feed,length_append]
  omega

theorem serve_nothing (calls) (idle : finding (r.buffer.length - r.offset) (calls.map Call.shape) = 0) :
    (r.serve aes calls).1 = [] ∧ (r.serve aes calls).2.offset = r.offset := by
  induction calls generalizing r with
  | nil => exact ⟨rfl,rfl⟩
  | cons call more ih =>
    cases call with
    | feed data =>
      rw [map_cons,Call.shape,finding_feed,← feed_there] at idle
      exact ih _ idle
    | read room =>
      rw [map_cons,Call.shape,finding_read] at idle
      have none : min room (r.buffer.length - r.offset) = 0 := by
        by_contra some
        rw [if_pos (by omega)] at idle
        cases idle
      have still : r.readDecrypted aes room = ([],r) := if_pos none
      rw [none] at idle
      rw [EncryptionReader.serve,still]
      exact ih _ idle

end

theorem serve_once {r : EncryptionReader} (fresh : r.offset = 0) (once : finding r.buffer.length (calls.map Call.shape) ≤ 1) :
    (r.serve aes calls).1 = cfb128 (aes r.key) .decrypt r.iv ((r.serve aes calls).2.buffer.take (r.serve aes calls).2.offset) := by
  induction calls generalizing r with
  | nil =>
    rw [EncryptionReader.serve,fresh,cfb128_run]
    rfl
  | cons call more ih =>
    cases call with
    | feed data =>
      have there := feed_there r data
      rw [show (r.feed data).offset = 0 from fresh,fresh,Nat.sub_zero,Nat.sub_zero] at there
      rw [map_cons,Call.shape,finding_feed,← there] at once
      exact ih fresh once
    | read room =>
      rw [map_cons,Call.shape,finding_read] at once
      obtain ⟨out,offset,buffer,-,-⟩ := readDecrypted_run aes r
      rw [fresh,Nat.sub_zero] at out offset
      rw [Nat.zero_add] at offset
      by_cases none : min room r.buffer.length = 0
      · have still : r.readDecrypted aes room = ([],r) := if_pos (by rw [fresh]; exact none)
        rw [none] at once
        rw [EncryptionReader.serve,still]
        exact ih fresh once
      · rw [if_pos (by omega)] at once
        obtain ⟨nothing,last⟩ := serve_nothing aes (r.readDecrypted aes room).2 more (by rw [buffer,offset]; omega)
        rw [EncryptionReader.serve,nothing,last,serve_buffer,buffer,offset,out,append_nil,take_append_of_le_length (Nat.min_le_right ..)]
        rfl

-- A cipher whose key stream differs from zero at the head of the first block alone, on a text of ones.
def marking (_ block : Octets 16) : Octets 16 := if block = .zero 16 then ⟨1 :: List.replicate 15 0,rfl⟩ else .zero 16

def Step.call : Step → Call
  | .feed size => .feed (List.replicate size 1)
  | .read room => .read room

theorem call_shape (steps : List Step) : (steps.map Step.call).map Call.shape = steps := by
  induction steps with
  | nil => rfl
  | cons step more ih =>
    cases step with
    | feed size | read room => simpa [Step.call,Call.shape] using ih

theorem fed_ones (steps : List Step) : ∃ n, fed (steps.map Step.call) = replicate n 1 := by
  induction steps with
  | nil => exact ⟨0,rfl⟩
  | cons step more ih =>
    obtain ⟨n,ih⟩ := ih
    cases step with
    | feed size => exact ⟨size + n,by rw [map_cons,Step.call,fed,ih,replicate_append_replicate]⟩
    | read room => exact ⟨n,ih⟩

def Worn (r : Register) : Prop := (∃ n, r.done = List.replicate n 1) ∧ (r.prev = .zero 16 → r.done ≠ [])

theorem zeros_getD : (replicate k (0 : UInt8)).getD n 0 = 0 := by
  rw [getD_eq_getElem?_getD,getElem?_replicate]
  split <;> rfl

theorem worn_step (worn : Worn r) : (r.step (marking key) .decrypt 1).1 = 1 ∧ Worn (r.step (marking key) .decrypt 1).2 := by
  obtain ⟨⟨n,ones⟩,later⟩ := worn
  have clear : (marking key r.opened.prev).val.getD r.opened.done.length 0 = 0 ∧ Worn ⟨r.opened.prev,r.opened.done ++ [1]⟩ := by
    rw [Register.opened]
    split
    · rename_i full
      have other : (⟨r.done,full⟩ : Octets 16) ≠ Octets.zero 16 := by
        intro zero
        have zero : r.done = replicate 16 0 := congrArg Subtype.val zero
        rw [ones,replicate_inj] at zero
        obtain ⟨rfl,none | same⟩ := zero
        · cases none
        · exact absurd same (by decide)
      rw [marking,if_neg other]
      exact ⟨rfl,⟨1,rfl⟩,fun _ => cons_ne_nil _ _⟩
    · refine ⟨?_,⟨n + 1,by rw [ones,replicate_succ']⟩,fun _ => append_ne_nil_of_right_ne_nil _ (cons_ne_nil _ _)⟩
      rw [marking]
      split
      · rename_i zero
        obtain ⟨m,size⟩ := Nat.exists_eq_succ_of_ne_zero (fun none => later zero (eq_nil_of_length_eq_zero none))
        rw [size]
        exact zeros_getD
      · exact zeros_getD
  rw [Register.step,clear.1]
  exact ⟨rfl,clear.2⟩

theorem worn_run (worn : Worn r) : (r.run (marking key) .decrypt (replicate n 1)).1 = replicate n 1 := by
  induction n generalizing r with
  | zero => rfl
  | succ n ih =>
    obtain ⟨one,next⟩ := worn_step worn
    rw [replicate_succ,Register.run,one,ih next]

theorem marking_zeros (key) : (cfb128 (marking key) .decrypt (.zero 16) (replicate n 1)).count 0 = if 0 < n then 1 else 0 := by
  rw [cfb128_run]
  cases n with
  | zero => rfl
  | succ n =>
    have first : Register.step (marking key) .decrypt ⟨.zero 16,[]⟩ 1 = (0,⟨.zero 16,[1]⟩) := by
      simp [Register.step,Register.opened,marking,CfbMode.fed]
    rw [replicate_succ,Register.run,first,worn_run ⟨⟨1,rfl⟩,fun _ => cons_ne_nil _ _⟩]
    simp [count_replicate]

theorem serve_zeros {r : EncryptionReader} (ones : ∃ n, r.buffer = replicate n 1) (iv : r.iv = .zero 16) :
    ((r.serve marking (steps.map Step.call)).1).count 0 = finding (r.buffer.length - r.offset) steps := by
  induction steps generalizing r with
  | nil => rfl
  | cons step more ih =>
    obtain ⟨n,ones⟩ := ones
    cases step with
    | feed size =>
      have later := ih (r := r.feed _)
        ⟨n + size,by rw [← replicate_append_replicate,← ones]; rfl⟩ iv
      rw [feed_there,length_replicate] at later
      exact later
    | read room =>
      obtain ⟨out,offset,buffer,-,same⟩ := readDecrypted_run marking r
      have later := ih (r := (r.readDecrypted marking room).2) ⟨n,buffer.trans ones⟩ (same.trans iv)
      rw [buffer,offset,Nat.sub_add_eq] at later
      rw [map_cons,Step.call,EncryptionReader.serve,count_append,later,out,iv,finding_read,Nat.add_comm]
      rw [ones,drop_replicate,take_replicate,marking_zeros,length_replicate,Nat.min_assoc,Nat.min_self]

theorem reader_decrypts_iff (steps : List Step) : Refines steps ↔ finding 0 steps ≤ 1 := by
  constructor
  · intro refines
    obtain ⟨front,-⟩ := refines marking (.zero 16) (.zero 16) _ (call_shape steps)
    obtain ⟨n,all⟩ := fed_ones steps
    have zeros := front.sublist.count_le 0
    rw [serve_zeros ⟨0,rfl⟩ rfl,all,marking_zeros] at zeros
    refine Nat.le_trans zeros ?_
    split <;> omega
  · rintro once aes key iv calls rfl
    have out := serve_once aes (r := .newAesCfb key iv) rfl once
    rw [serve_buffer] at out
    refine ⟨out ▸ cfb128_front ..,fun all => ?_⟩
    rw [out,all]
    exact congrArg _ (take_length ..)

theorem reader_restarts : ¬ Refines [.feed 2,.read 1,.read 1] := by
  intro refines
  obtain ⟨front,-⟩ := refines marking (.zero 16) (.zero 16) _ (call_shape [.feed 2,.read 1,.read 1])
  have zeros := front.sublist.count_le 0
  rw [serve_zeros ⟨0,rfl⟩ rfl,show fed _ = replicate 2 1 from rfl,marking_zeros] at zeros
  exact absurd zeros (by decide)

end AstraCore.CfbStream
