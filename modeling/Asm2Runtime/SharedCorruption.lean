import Asm2Runtime.CrcRegister
import Asm2Runtime.SharedCodec

/-!
# Corruption of the store file is detected

What the loader accepts is the file of a table, and that file is determined by
its first 24 bytes up to a burst in the payload, and by its payload alone. So a
file that a burst, a damaged header, a cut or an addition has made different from
the file of a table is not the file of any other table either.
-/

namespace Asm2Runtime.SharedFile

open CanonicalFormat CrcRegister

section Checksum

def crcPoly : BitVec 32 := 0xedb88320#32

def crcSymbols (data : List UInt8) : List (BitVec 32) := data.map fun b => b.toUInt32.toBitVec

theorem crcBit_toBitVec (crc : UInt32) : (crcBit crc).toBitVec = bit crcPoly crc.toBitVec := by
  have hlow : (crc &&& 1).toBitVec = BitVec.setWidth 32 (BitVec.ofBool (crc.toBitVec.getLsbD 0)) := by
    rw [UInt32.toBitVec_and]
    exact BitVec.and_one_eq_setWidth_ofBool_getLsbD
  simp only [crcBit, bit, UInt32.toBitVec_xor, UInt32.toBitVec_and, UInt32.toBitVec_neg,
    UInt32.toBitVec_shiftRight] at hlow ⊢
  rw [hlow]
  cases crc.toBitVec.getLsbD 0 with
  | false => simp
  | true =>
    congr 1

theorem crcByte_toBitVec (crc : UInt32) (byte : UInt8) :
    (crcBit^[8] (crc ^^^ byte.toUInt32)).toBitVec =
      feed crcPoly 8 crc.toBitVec byte.toUInt32.toBitVec := by
  have hbits : ∀ (n : Nat) (x : UInt32), (crcBit^[n] x).toBitVec = (bit crcPoly)^[n] x.toBitVec := by
    intro n
    induction n with
    | zero => exact fun x => rfl
    | succ n ih =>
      intro x
      rw [Function.iterate_succ_apply, Function.iterate_succ_apply, ih, crcBit_toBitVec]
  rw [hbits, UInt32.toBitVec_xor]
  rfl

theorem sharedCrc32_toBitVec (data : List UInt8) :
    (sharedCrc32 data).toBitVec = ~~~ feeds crcPoly 8 0xffffffff#32 (crcSymbols data) := by
  have hfold : ∀ crc : UInt32,
      (data.foldl (fun crc byte => crcBit^[8] (crc ^^^ byte.toUInt32)) crc).toBitVec =
        feeds crcPoly 8 crc.toBitVec (crcSymbols data) := by
    induction data with
    | nil => exact fun crc => rfl
    | cons byte data ih =>
      intro crc
      rw [List.foldl_cons, ih, crcByte_toBitVec]
      rfl
  rw [sharedCrc32, UInt32.toBitVec_not, hfold]
  rfl

/-- The checksum notices every change within four consecutive bytes. -/
theorem sharedCrc32_burst {front old new back : List UInt8} (hlen : old.length = new.length)
    (hroom : old.length ≤ 4)
    (h : sharedCrc32 (front ++ old ++ back) = sharedCrc32 (front ++ new ++ back)) : old = new := by
  have hbits := congrArg UInt32.toBitVec h
  rw [sharedCrc32_toBitVec, sharedCrc32_toBitVec, BitVec.not_inj] at hbits
  simp only [crcSymbols, List.map_append] at hbits
  have hsmall : ∀ (bytes : List UInt8), ∀ b ∈ bytes.map (fun b => b.toUInt32.toBitVec),
      b.toNat < 2 ^ 8 := by
    intro bytes b hb
    obtain ⟨byte, _, rfl⟩ := List.mem_map.mp hb
    simpa using byte.toNat_lt
  have hsame := burst_detected (by decide) (by decide) _ (by simpa using hlen) (hsmall old)
    (hsmall new) (by rw [List.length_map]; omega) hbits
  apply List.map_injective_iff.mpr ?_ hsame
  intro a b hab
  exact UInt8.toNat_inj.mp (by simpa using congrArg BitVec.toNat hab)

end Checksum

section Determined

theorem putU32Le_inj {a b : UInt32} : putU32Le a = putU32Le b ↔ a = b := by
  constructor
  · intro h
    have hparse := word_parse a []
    rw [h, word_parse b []] at hparse
    simpa using hparse.symm
  · intro h
    rw [h]

/-- The header fixes the size and the checksum of the payload. -/
theorem sharedHeader_inj {c n c' n' : Nat} {payload payload' : List UInt8}
    (h : sharedHeader c n payload = sharedHeader c' n' payload') :
    UInt32.ofNat n = UInt32.ofNat n' ∧ sharedCrc32 payload = sharedCrc32 payload' := by
  simp only [sharedHeader] at h
  obtain ⟨hfront, hcrc⟩ := List.append_inj h rfl
  obtain ⟨_, hsize⟩ := List.append_inj hfront rfl
  exact ⟨putU32Le_inj.mp hsize, putU32Le_inj.mp hcrc⟩

/-- Two tables with the same payload are the same. -/
theorem payloadOf_injective {es fs : List Entry} (he : ∀ e ∈ es, ValidEntry e)
    (hf : ∀ f ∈ fs, ValidEntry f) (h : payloadOf es = payloadOf fs) : es = fs := by
  induction es generalizing fs with
  | nil =>
    cases fs with
    | nil => rfl
    | cons f fs =>
      have hlen := congrArg List.length h
      rw [payloadOf_cons, List.length_append, entryFormat_print_length] at hlen
      simp [payloadOf] at hlen
      omega
  | cons e es ih =>
    cases fs with
    | nil =>
      have hlen := congrArg List.length h
      rw [payloadOf_cons, List.length_append, entryFormat_print_length] at hlen
      simp [payloadOf] at hlen
    | cons f fs =>
      have hleft := entryFormat.parse_print e (payloadOf es)
        ((entryFormat_valid e).2 (he e List.mem_cons_self))
      have hright := entryFormat.parse_print f (payloadOf fs)
        ((entryFormat_valid f).2 (hf f List.mem_cons_self))
      rw [← payloadOf_cons, h, payloadOf_cons, hright] at hleft
      simp only [Option.some.injEq, Prod.mk.injEq] at hleft
      rw [hleft.1, ih (fun e' hm => he e' (List.mem_cons_of_mem _ hm))
        (fun f' hm => hf f' (List.mem_cons_of_mem _ hm)) hleft.2.symm]

/-- The first 24 bytes of a file say how long it is. -/
theorem print_length_of_take {es fs : List Entry} (he : ValidTable es) (hf : ValidTable fs)
    (h : (storeFormat.print es).take sharedHeaderSize =
      (storeFormat.print fs).take sharedHeaderSize) :
    (storeFormat.print es).length = (storeFormat.print fs).length := by
  have htake : ∀ gs, (storeFormat.print gs).take sharedHeaderSize =
      sharedHeader gs.length (payloadOf gs).length (payloadOf gs) := by
    intro gs
    rw [storeFormat_print, ← sharedHeader_length gs.length (payloadOf gs).length (payloadOf gs)]
    exact List.take_left
  rw [htake, htake] at h
  have hsize := congrArg UInt32.toNat (sharedHeader_inj h).1
  have hes : (payloadOf es).length ≤ 33686528 := he.payload_le
  have hfs : (payloadOf fs).length ≤ 33686528 := hf.payload_le
  rw [ofNat_toNat (by omega), ofNat_toNat (by omega)] at hsize
  rw [storeFormat_print, storeFormat_print, List.length_append, List.length_append,
    sharedHeader_length, sharedHeader_length, hsize]

end Determined

section Corruption

/-- The damage that the file format is meant to notice. -/
inductive Corrupted (file : List UInt8) : List UInt8 → Prop
  /-- At most four consecutive bytes of the payload have changed. -/
  | burst (header front old new back : List UInt8) : header.length = sharedHeaderSize →
      old.length = new.length → old.length ≤ 4 → old ≠ new →
      file = header ++ (front ++ old ++ back) → Corrupted file (header ++ (front ++ new ++ back))
  /-- The header has changed. -/
  | header (old new payload : List UInt8) : old.length = sharedHeaderSize →
      new.length = sharedHeaderSize → old ≠ new → file = old ++ payload →
      Corrupted file (new ++ payload)
  | cut (contents rest : List UInt8) : rest ≠ [] → file = contents ++ rest → Corrupted file contents
  | extended (rest : List UInt8) : rest ≠ [] → Corrupted file (file ++ rest)

theorem Corrupted.not_print {es fs : List Entry} (he : ValidTable es) (hf : ValidTable fs) :
    ¬ Corrupted (storeFormat.print es) (storeFormat.print fs) := by
  have hparts := storeFormat_print es
  generalize hes : storeFormat.print es = file at hparts
  generalize hfs : storeFormat.print fs = contents
  have hparts' := hfs ▸ storeFormat_print fs
  intro h
  cases h with
  | burst header front old new back hlen hold hroom hne hfile =>
    rw [hparts] at hfile
    obtain ⟨hheader, hpayload⟩ := List.append_inj hfile (by rw [sharedHeader_length, hlen])
    obtain ⟨hheader', hpayload'⟩ := List.append_inj hparts' (by rw [sharedHeader_length, hlen])
    have hcrc := (sharedHeader_inj (hheader.trans hheader')).2
    rw [hpayload, ← hpayload'] at hcrc
    exact hne (sharedCrc32_burst hold hroom hcrc)
  | header old new payload hold hnew hne hfile =>
    rw [hparts] at hfile
    obtain ⟨hheader, hpayload⟩ := List.append_inj hfile (by rw [sharedHeader_length, hold])
    obtain ⟨hheader', hpayload'⟩ := List.append_inj hparts' (by rw [sharedHeader_length, hnew])
    obtain rfl := payloadOf_injective he.entry hf.entry (hpayload.trans hpayload')
    exact hne (hheader.symm.trans hheader'.symm)
  | cut _ rest hne hfile =>
    have hmin := (storeFormat_print_length hf).1
    have hsame := print_length_of_take he hf (by
      rw [hes, hfs] at *
      rw [hfile, List.take_append_of_le_length hmin])
    rw [hes, hfs, hfile, List.length_append] at hsame
    exact hne (List.length_eq_zero_iff.mp (by omega))
  | extended rest hne =>
    have hmin := (storeFormat_print_length he).1
    have hsame := print_length_of_take he hf (by
      rw [hes, hfs] at *
      rw [List.take_append_of_le_length hmin])
    rw [hes, hfs, List.length_append] at hsame
    exact hne (List.length_eq_zero_iff.mp (by omega))

/-- A damaged store file is rejected as corrupt, and nothing of it is kept. -/
theorem corruption_detected (table : Table) (heap : Nat → UInt8) (file contents : List UInt8)
    (hfile : encodeStore (Store.ofEntries table.entries) heap = .ok (some file))
    (hcorrupted : Corrupted file contents) :
    decodeFile contents = .ok ⟨.corrupt, Slots.empty, 0⟩ := by
  rw [encodeStore_eq table.valid heap] at hfile
  obtain rfl : storeFormat.print table.entries = file := by simpa using hfile
  rw [decodeFile, sharedValuesLoadFile_eq]
  cases hdecode : storeFormat.decode contents with
  | none => rfl
  | some fs =>
    obtain ⟨hvalid, rfl⟩ := (storeFormat.decode_eq_some_iff contents fs).1 hdecode
    exact absurd hcorrupted (Corrupted.not_print table.valid ((storeFormat_valid fs).1 hvalid))

/-- One preference, stored as `a` and `bc`. -/
def smallTable : Table where
  entries := [(⟨[0x61], by decide⟩, ⟨[0x62, 0x63], by decide⟩)]
  valid := by
    constructor
    · decide
    · decide
    · intro e he
      obtain rfl := List.mem_singleton.mp he
      exact ⟨by decide, by decide, by decide⟩

theorem corruption_detected_small :
    decodeFile (storeFormat.print smallTable.entries).dropLast = .ok ⟨.corrupt, Slots.empty, 0⟩ ∧
      decodeFile (sharedHeader 1 11 (payloadOf smallTable.entries) ++
        ([1, 0, 0, 0, 2, 0, 0] ++ [1, 0x61, 0x62, 0x64] ++ [])) =
          .ok ⟨.corrupt, Slots.empty, 0⟩ := by
  have hfile := encodeStore_eq smallTable.valid fun _ => 0
  constructor
  · apply corruption_detected smallTable (fun _ => 0) _ _ hfile
    exact .cut _ [0x63] (by decide) (by decide +kernel)
  · apply corruption_detected smallTable (fun _ => 0) _ _ hfile
    exact .burst _ _ [0, 0x61, 0x62, 0x63] _ _ rfl rfl (by decide) (by decide) (by decide +kernel)

end Corruption

end Asm2Runtime.SharedFile
