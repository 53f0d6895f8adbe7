import AstraCore.MuxFrame

namespace AstraCore.AddressCodec
open CheckedBytes NetAddress LossyUtf8 List

-- The address readers of the proxy protocols share one layout and differ in their texts only.
structure Texts where
  empty : String
  ipv4 : String
  domainLength : String
  domain : String
  ipv6 : String

-- Every index stands behind a length check, so the default of `getD` is never read.
def readAddress (texts : Texts) (data : Bytes) : Except String (Address × Nat) :=
  if data.isEmpty then .error texts.empty
  else
    let addrType := data.getD 0 0
    if addrType = 1 then
      if short : data.length < 5 then .error texts.ipv4
      else .ok (.ipv4 ⟨(data.drop 1).take 4,by simp; omega⟩,5)
    else if addrType = 2 then
      if data.length < 2 then .error texts.domainLength
      else
        let dlen := (data.getD 1 0).toNat
        if data.length < 2 + dlen then .error texts.domain
        else .ok (.domain (fromUtf8Lossy ((data.drop 2).take dlen)),2 + dlen)
    else if addrType = 3 then
      if short : data.length < 17 then .error texts.ipv6
      else .ok (.ipv6 ⟨(data.drop 1).take 16,by simp; omega⟩,17)
    else .error ("unknown address type: " ++ toString addrType.toNat)

theorem readAddress_ipv4 (texts) (octets : Octets 4) (rest : Bytes) : readAddress texts (1 :: (octets.val ++ rest)) = .ok (.ipv4 octets,5) := by
  have width := octets.property
  simp [readAddress,width]

theorem readAddress_ipv6 (texts) (octets : Octets 16) (rest : Bytes) : readAddress texts (3 :: (octets.val ++ rest)) = .ok (.ipv6 octets,17) := by
  have front := take_front octets.property rest
  have width := octets.property
  simp [readAddress,front,width]

theorem readAddress_name (texts) (name rest : Bytes) (fits : name.length ≤ 255) :
    readAddress texts (2 :: UInt8.ofNat name.length :: (name ++ rest)) = .ok (.domain (fromUtf8Lossy name),2 + name.length) := by
  have size := UInt8.toNat_ofNat_of_lt' (Nat.lt_succ_of_le fits)
  have enough : ¬ name.length + rest.length + 1 + 1 < 2 + name.length := by omega
  simp [readAddress,size,enough]

theorem readAddress_domain (texts) (rest : Bytes) (fits : (asBytes name).length ≤ 255) :
    readAddress texts (2 :: UInt8.ofNat (asBytes name).length :: (asBytes name ++ rest)) = .ok (.domain name,2 + (asBytes name).length) := by
  rw [readAddress_name texts _ rest fits,fromUtf8Lossy_asBytes]

theorem readAddress_cut (texts) (long : 255 < (asBytes name).length) (front : data <+: 2 :: UInt8.ofNat (asBytes name).length :: (asBytes name ++ rest))
    (read : readAddress texts data = .ok (address,consumed)) : address ≠ .domain name := by
  cases data with
  | nil => cases read
  | cons kind data =>
    obtain ⟨rfl,sized⟩ := cons_prefix_cons.mp front
    cases data with
    | nil => cases read
    | cons size data =>
      obtain ⟨rfl,named⟩ := cons_prefix_cons.mp sized
      have announced : (UInt8.ofNat (asBytes name).length).toNat = (asBytes name).length % 256 := UInt8.toNat_ofNat'
      rw [readAddress,if_neg (by simp)] at read
      have kind : (2 :: UInt8.ofNat (asBytes name).length :: data).getD 0 0 = 2 := rfl
      dsimp only at read
      rw [kind,if_neg (by decide),if_pos rfl,if_neg (by simp)] at read
      split at read
      · cases read
      · rename_i enough
        cases read
        simp only [getD_cons_succ,getD_cons_zero,length_cons] at enough
        have taken : data.take ((asBytes name).length % 256) = (asBytes name).take ((asBytes name).length % 256) := by
          rw [prefix_iff_eq_take.mp named,take_take,Nat.min_eq_left (by omega),take_append_of_le_length (by omega)]
        intro same
        have lossy := Address.domain.inj same
        simp only [getD_cons_succ,getD_cons_zero,drop_succ_cons,drop_zero,announced,taken] at lossy
        exact fromUtf8Lossy_cut name (by omega) lossy

end AstraCore.AddressCodec
