import ZnsBase.Proofs.SstDisk
import ZnsBase.Super
import ZnsBase.Library.Crc

/-! The superblock survives the trip through its block, and a damaged one is
told from it. -/

namespace ZnsBase
open Library

theorem crc32Le_eq (crc : BitVec 32) (memory : Nat → UInt8) (start count : Nat) :
    crc32Le crc memory start count = crcBytes 0xEDB88320#32 crc memory start count := by
  induction count with
  | zero => rfl
  | succ count ih =>
    rw [crc32Le, crcBytes, ih]
    rfl

theorem crc32Le_congr {first second : Nat → UInt8} (crc : BitVec 32) (start : Nat) (count : Nat)
    (same : ∀ index < count, first (start + index) = second (start + index)) :
    crc32Le crc first start count = crc32Le crc second start count := by
  rw [crc32Le_eq, crc32Le_eq, crcBytes_congr same]

/-- A superblock whose fields fit their places on disk. -/
structure Super.Narrow (super : Super) : Prop where
  uuid : super.uuid < 2 ^ 64
  logicalSectors : super.logicalSectors < 2 ^ 64
  zoneSizeSectors : super.zoneSizeSectors < 2 ^ 64
  nrZones : super.nrZones < 2 ^ 32
  metaZoneId : super.metaZoneId < 2 ^ 32
  sectorsPerBlock : super.sectorsPerBlock < 2 ^ 32

private theorem superCrc_congr {first second : Nat → UInt8}
    (same : ∀ byte < blockBytes, 16 ≤ byte → first byte = second byte) : superCrc first = superCrc second := by
  unfold superCrc
  rw [crc32Le_congr 0 16 (blockBytes - 16) fun index less => same _ (by omega) (by omega)]

private theorem superEncode_fields (super : Super) :
    leValue (superEncode super) 0 8 = superMagic % 256 ^ 8 ∧
    leValue (superEncode super) 8 4 = superVersion % 256 ^ 4 ∧
    leValue (superEncode super) 12 4 = superCrc (superFields super) % 256 ^ 4 ∧
    leValue (superEncode super) 16 8 = super.uuid % 256 ^ 8 ∧
    leValue (superEncode super) 24 8 = super.logicalSectors % 256 ^ 8 ∧
    leValue (superEncode super) 32 8 = super.zoneSizeSectors % 256 ^ 8 ∧
    leValue (superEncode super) 40 4 = super.nrZones % 256 ^ 4 ∧
    leValue (superEncode super) 44 4 = super.metaZoneId % 256 ^ 4 ∧
    leValue (superEncode super) 48 4 = super.sectorsPerBlock % 256 ^ 4 := by
  unfold superEncode
  generalize superCrc (superFields super) = crc
  unfold superFields
  simp (disch := omega) only [leValue_leStore_other, leValue_leStore, and_self]

theorem superDecode_encode {super : Super} {block : Nat → UInt8} (narrow : super.Narrow)
    (written : ∀ byte < blockBytes, block byte = superEncode super byte) : superDecode block = .ok super := by
  have fields (offset width : Nat) (inside : offset + width ≤ blockBytes) :
      leValue block offset width = leValue (superEncode super) offset width :=
    leValue_congr width (fun index less => written _ (by omega))
  have crc : superCrc block = superCrc (superFields super) := by
    apply superCrc_congr
    intro byte inside late
    rw [written byte inside, superEncode, leStore, overlay_outside (by omega)]
  have small : superCrc (superFields super) < 256 ^ 4 := (crc32Le 0 (superFields super) 16 (blockBytes - 16)).isLt
  obtain ⟨magic, version, sum, uuid, logical, size, zones, metaId, spb⟩ := superEncode_fields super
  obtain ⟨_, _, _, _, _, _⟩ := narrow
  rw [Nat.mod_eq_of_lt small] at sum
  rw [Nat.mod_eq_of_lt (by omega)] at uuid logical size zones metaId spb
  unfold superDecode
  rw [fields 0 8 (by decide), fields 8 4 (by decide), fields 12 4 (by decide), fields 16 8 (by decide),
    fields 24 8 (by decide), fields 32 8 (by decide), fields 40 4 (by decide), fields 44 4 (by decide),
    fields 48 4 (by decide), magic, version, sum, uuid, logical, size, zones, metaId, spb, crc]
  rw [if_neg (by decide), if_neg (by decide), if_neg (by simp)]

/-- A uuid that is too long is cut off, nothing else. -/
theorem superEncode_uuid (super : Super) : superEncode { super with uuid := super.uuid % 2 ^ 64 } = superEncode super := by
  have cut (memory : Nat → UInt8) : leStore memory 16 8 (super.uuid % 2 ^ 64) = leStore memory 16 8 super.uuid := by
    refine overlay_congr fun index inside => ?_
    have split_ : 2 ^ 64 = 256 ^ index * 256 ^ (8 - index) := by
      rw [← Nat.pow_add, Nat.add_sub_cancel' inside.le]
      rfl
    have more : 256 ∣ 256 ^ (8 - index) := dvd_pow_self _ (by omega)
    rw [leByte, leByte, split_, Nat.mod_mul_right_div_self, Nat.mod_mod_of_dvd _ more]
  unfold superEncode superFields
  simp only [cut]

/-- Only the bytes of its block count. -/
theorem superDecode_congr {first second : Nat → UInt8} (same : ∀ byte < blockBytes, first byte = second byte) :
    superDecode first = superDecode second := by
  have fields (offset width : Nat) (inside : offset + width ≤ blockBytes) :
      leValue first offset width = leValue second offset width :=
    leValue_congr width (fun index less => same _ (by omega))
  have crc : superCrc first = superCrc second := superCrc_congr fun byte inside _ => same byte inside
  unfold superDecode
  rw [fields 0 8 (by decide), fields 8 4 (by decide), fields 12 4 (by decide), fields 16 8 (by decide),
    fields 24 8 (by decide), fields 32 8 (by decide), fields 40 4 (by decide), fields 44 4 (by decide),
    fields 48 4 (by decide), crc]

theorem superMatches_iff {onDisk device : Super} :
    superMatches onDisk device = .ok () ↔ onDisk = { device with uuid := onDisk.uuid } := by
  obtain ⟨_, logical, size, zones, metaId, block⟩ := onDisk
  obtain ⟨_, logical', size', zones', metaId', block'⟩ := device
  simp only [superMatches, superCompare, Super.mk.injEq, true_and, bind, Except.bind]
  by_cases sameBlock : block = block'
  · by_cases sameZones : zones = zones'
    · by_cases sameSize : size = size'
      · by_cases sameMeta : metaId = metaId'
        · by_cases sameLogical : logical = logical' <;> simp [sameBlock, sameZones, sameSize, sameMeta, sameLogical]
        · simp [sameBlock, sameZones, sameSize, sameMeta]
      · simp [sameBlock, sameZones, sameSize]
    · simp [sameBlock, sameZones]
  · simp [sameBlock]

/-- A block that is taken for a superblock carries the two constants and its own
checksum. -/
theorem superDecode_iff {block : Nat → UInt8} : superDecode block ≠ .error .einval ↔
    leValue block 0 8 = superMagic ∧ leValue block 8 4 = superVersion ∧ leValue block 12 4 = superCrc block := by
  unfold superDecode
  by_cases magic : leValue block 0 8 = superMagic <;> by_cases version : leValue block 8 4 = superVersion <;>
    by_cases crc : leValue block 12 4 = superCrc block <;> simp [magic, version, crc]

/-- Damage to the first 16 bytes alone. -/
theorem superDecode_head {first second : Nat → UInt8} (good : superDecode first ≠ .error .einval)
    (good' : superDecode second ≠ .error .einval) (same : ∀ byte < blockBytes, 16 ≤ byte → first byte = second byte) :
    ∀ byte < blockBytes, first byte = second byte := by
  obtain ⟨magic, version, sum⟩ := superDecode_iff.mp good
  obtain ⟨magic', version', sum'⟩ := superDecode_iff.mp good'
  rw [superCrc_congr same] at sum
  intro byte inside
  by_cases low : byte < 8
  · have := leValue_inj (magic.trans magic'.symm) byte low
    rwa [Nat.zero_add] at this
  by_cases middle : byte < 12
  · have := leValue_inj (version.trans version'.symm) (byte - 8) (by omega)
    rwa [show 8 + (byte - 8) = byte by omega] at this
  by_cases high : byte < 16
  · have := leValue_inj (sum.trans sum'.symm) (byte - 12) (by omega)
    rwa [show 12 + (byte - 12) = byte by omega] at this
  · exact same byte inside (by omega)

/-- Damage to four consecutive bytes under the checksum. -/
theorem superDecode_burst {first second : Nat → UInt8} (good : superDecode first ≠ .error .einval)
    (good' : superDecode second ≠ .error .einval) {start : Nat} (low : 16 ≤ start) (high : start + 4 ≤ blockBytes)
    (same : ∀ byte < blockBytes, byte < start ∨ start + 4 ≤ byte → first byte = second byte) :
    ∀ byte < blockBytes, first byte = second byte := by
  obtain ⟨_, _, sum⟩ := superDecode_iff.mp good
  obtain ⟨_, _, sum'⟩ := superDecode_iff.mp good'
  have stored : leValue first 12 4 = leValue second 12 4 :=
    leValue_congr 4 fun index inside => same _ (by simp only [blockBytes] at high ⊢; omega) (by omega)
  have met : crcBytes 0xEDB88320#32 0 first 16 (start - 16 + 4 + (blockBytes - start - 4)) =
      crcBytes 0xEDB88320#32 0 second 16 (start - 16 + 4 + (blockBytes - start - 4)) := by
    rw [show start - 16 + 4 + (blockBytes - start - 4) = blockBytes - 16 by omega, ← crc32Le_eq, ← crc32Le_eq]
    exact BitVec.eq_of_toNat_eq (sum.symm.trans (stored.trans sum'))
  have burst := crcBytes_detects (by decide) (by decide) (by decide)
    (fun index inside => same _ (by omega) (by omega)) (fun index inside => same _ (by omega) (by omega)) met
  intro byte inside
  by_cases hit : start ≤ byte ∧ byte < start + 4
  · have := burst (byte - start) (by omega)
    rwa [show 16 + (start - 16) + (byte - start) = byte by omega] at this
  · exact same byte inside (by omega)

/-- What is written is read back, matches whatever differs in the uuid alone, and
is refused once any of its head, or any four bytes behind it, are damaged. -/
theorem superblock_codec_detects_damage (super : Super) (narrow : super.Narrow) :
    superDecode (superEncode super) = .ok super ∧ (∀ uuid, superMatches super { super with uuid } = .ok ()) ∧
    ∀ damaged : Nat → UInt8, (∃ byte < blockBytes, damaged byte ≠ superEncode super byte) →
      ((∀ byte < blockBytes, 16 ≤ byte → damaged byte = superEncode super byte) ∨
        ∃ start, 16 ≤ start ∧ start + 4 ≤ blockBytes ∧
          ∀ byte < blockBytes, byte < start ∨ start + 4 ≤ byte → damaged byte = superEncode super byte) →
      superDecode damaged = .error .einval := by
  have decodes : superDecode (superEncode super) = .ok super := superDecode_encode narrow fun _ _ => rfl
  have good : superDecode (superEncode super) ≠ .error .einval := by
    rw [decodes]
    rintro ⟨⟩
  refine ⟨decodes, fun uuid => superMatches_iff.mpr rfl, fun damaged hit confined => ?_⟩
  obtain ⟨byte, inside, changed⟩ := hit
  by_contra accepted
  rcases confined with head | ⟨start, low, high, rest⟩
  · exact changed (superDecode_head accepted good head byte inside)
  · exact changed (superDecode_burst accepted good low high rest byte inside)

/-- One flipped bit in the last byte of the padding. -/
theorem superblock_codec_detects_last_byte :
    superDecode (superEncode ⟨1, 16, 64, 3, 2, 8⟩) = .ok ⟨1, 16, 64, 3, 2, 8⟩ ∧
    superDecode (overlay (superEncode ⟨1, 16, 64, 3, 2, 8⟩) 4095 1 fun _ => 0x80) = .error .einval := by
  obtain ⟨decodes, _, detects⟩ := superblock_codec_detects_damage ⟨1, 16, 64, 3, 2, 8⟩ (by constructor <;> decide)
  have zero : superEncode ⟨1, 16, 64, 3, 2, 8⟩ 4095 = 0 := by
    unfold superEncode superFields leStore
    simp (disch := decide) only [overlay_outside]
  refine ⟨decodes, detects _ ⟨4095, by decide, ?_⟩ (Or.inr ⟨4092, by decide, by decide, fun byte inside away => ?_⟩)⟩
  · rw [zero, overlay_inside (by decide) (by decide)]
    decide
  · simp only [blockBytes] at inside
    exact overlay_outside (by omega)

end ZnsBase
