import AstraCore.ShadowsocksProtocol

namespace AstraCore.Shadowsocks
open CheckedBytes NetAddress PolledStream
variable {cap : Nat} (suite : Suite) {c : CipherType}

-- `to_link`: chunks are opened with the outbound's own counter and written to the link, which may refuse any of them. The
-- result is what the link got and what ended the loop, which a chunk of no bytes does without an error. Each turn takes
-- bytes from the stream, so no stream needs more turns than it has bytes.
def toLinkLoop : Nat → SessionCipher c → (Nat → Except String Unit) → Stream cap → Bytes × Option Stop
  | 0,_,_,_ => ([],some .waits)
  | turns + 1,session,link,stream =>
    match readExact 2 stream with
    | .error stop => ([],some (stop.labelled "ss outbound: read chunk size: "))
    | .ok (size,stream) =>
      if announced size = 0 then ([],none)
      else
        match readExact (announced size) stream with
        | .error stop => ([],some (stop.labelled "ss outbound: read chunk: "))
        | .ok (chunk,stream) =>
          if c.nonceSize ≤ chunk.val.length then
            match session.decryptChunk suite (chunk.val.drop c.nonceSize) size.val with
            | .error e => ([],some (.error ("ss outbound: decrypt: " ++ e)))
            | .ok (pt,session) =>
              match link 0 with
              | .error e => ([],some (.error ("ss outbound: link write: " ++ e)))
              | .ok () =>
                let (more,stop) := toLinkLoop turns session (fun k => link (k + 1)) stream
                (pt ++ more,stop)
          else ([],some (.panic .sliceIndex))

def toLink (session : SessionCipher c) (link : Nat → Except String Unit) (stream : Stream cap) : Bytes × Option Stop :=
  toLinkLoop suite (stream.text.length + 1) session link stream

def readResponse (c : CipherType) (key : Bytes) (link : Nat → Except String Unit) (stream : Stream cap) :
    Reading (Bytes × Option Stop) := do
  let (respIv,stream) ← labelled "ss outbound: read resp iv: " (readExact c.ivSize stream)
  let session ← faulty (SessionCipher.new suite c key respIv.val)
  .ok (toLink suite session link stream)

theorem toLinkLoop_frame (turns) (session : SessionCipher c) (stream : Stream cap) (frame : Frame)
    (parts : stream.text = frame.bytes ++ later) : ∃ rest : Stream cap, rest.text = later ∧ ∀ link,
      toLinkLoop suite (turns + 1) session link stream = if frame.body = [] then ([],none)
        else if c.nonceSize ≤ frame.body.length then
          match session.decryptChunk suite (frame.body.drop c.nonceSize) frame.size.val with
          | .error e => ([],some (.error ("ss outbound: decrypt: " ++ e)))
          | .ok (pt,session) =>
            match link 0 with
            | .error e => ([],some (.error ("ss outbound: link write: " ++ e)))
            | .ok () =>
              let (more,stop) := toLinkLoop suite turns session (fun k => link (k + 1)) rest
              (pt ++ more,stop)
        else ([],some (.panic .sliceIndex)) := by
  rw [Frame.bytes,List.append_assoc] at parts
  obtain ⟨middle,sizeRead,middleText,-⟩ := readExact_enough stream parts frame.size.property
  obtain ⟨rest,bodyRead,restText,-⟩ := readExact_enough middle middleText frame.whole
  have empty_iff : frame.body = [] ↔ announced frame.size = 0 := by rw [← frame.whole,List.length_eq_zero_iff]
  refine ⟨rest,restText,fun link => ?_⟩
  rw [toLinkLoop,sizeRead]
  dsimp only
  by_cases zero : announced frame.size = 0
  · rw [if_pos zero,if_pos (empty_iff.mpr zero)]
  · rw [if_neg zero,if_neg (fun empty => zero (empty_iff.mp empty)),bodyRead]

end AstraCore.Shadowsocks
