import ZnsBase.Proofs.FlatDisk

/-! The copy between a bio and a block buffer with the memory of every segment on
its own, and the fragments that a request falls into. -/

namespace ZnsBase
open Library

/-- A `struct bio_vec` with its memory. -/
structure Segment where
  length : Nat
  bytes : Nat → UInt8

/-- The segments of a bio, one behind the other. -/
def joined : List Segment → Nat → UInt8
  | [], _ => 0
  | segment :: rest, index =>
    if index < segment.length then segment.bytes index else joined rest (index - segment.length)

def totalBytes (segments : List Segment) : Nat := (segments.map Segment.length).sum

structure SegmentCopy where
  segments : List Segment
  buffer : Nat → UInt8

/-- A segment in front of those that were copied. -/
def SegmentCopy.behind (segment : Segment) (copy : Except Errno Unit × SegmentCopy) : Except Errno Unit × SegmentCopy :=
  (copy.1, { copy.2 with segments := segment :: copy.2.segments })

/-- The loop of `zns_lsm_copy_fragment` on the memories of the segments. -/
def copyEach (place bytes : Nat) (toBio : Bool) : List Segment → Nat → Nat → (Nat → UInt8) → Except Errno Unit × SegmentCopy
  | [], _, _, buffer => (.error .eio, ⟨[], buffer⟩)
  | segment :: rest, offset, copied, buffer =>
    if offset ≥ segment.length then
      SegmentCopy.behind segment (copyEach place bytes toBio rest (offset - segment.length) copied buffer)
    else
      let chunk := min (bytes - copied) (segment.length - offset)
      let mapped := if toBio then
          { segment with bytes := overlay segment.bytes offset chunk fun index => buffer (place + copied + index) }
        else segment
      let buffer := if toBio then buffer
        else overlay buffer (place + copied) chunk fun index => segment.bytes (offset + index)
      if copied + chunk = bytes then (.ok (), ⟨mapped :: rest, buffer⟩)
      else SegmentCopy.behind mapped (copyEach place bytes toBio rest 0 (copied + chunk) buffer)

/-- A memory that has the segments from an address on. -/
def Lays (segments : List Segment) (base : Nat) (data : Nat → UInt8) : Prop :=
  ∀ index < totalBytes segments, data (base + index) = joined segments index

theorem totalBytes_cons (segment : Segment) (rest : List Segment) :
    totalBytes (segment :: rest) = segment.length + totalBytes rest := by
  unfold totalBytes
  rw [List.map_cons, List.sum_cons]

theorem lays_cons {segment : Segment} {rest : List Segment} {base : Nat} {data : Nat → UInt8} :
    Lays (segment :: rest) base data ↔
      (∀ index < segment.length, data (base + index) = segment.bytes index) ∧ Lays rest (base + segment.length) data := by
  unfold Lays
  rw [totalBytes_cons]
  constructor
  · intro lays
    refine ⟨fun index inside => ?_, fun index inside => ?_⟩
    · rw [lays index (by omega), joined, if_pos inside]
    · rw [Nat.add_assoc, lays (segment.length + index) (by omega), joined, if_neg (by omega), Nat.add_sub_cancel_left]
  · rintro ⟨first, later⟩ index inside
    rw [joined]
    split
    next here => exact first index here
    next beyond =>
      rw [← later (index - segment.length) (by omega)]
      congr 1
      omega

/-- How a copy on one memory and a copy on the segments end alike. -/
structure CopiesAlike (base : Nat) (data : Nat → UInt8) (segments : List Segment) (each : Except Errno Unit × SegmentCopy)
    (flat : Except Errno Unit × FragmentCopy) : Prop where
  status : each.1 = flat.1
  buffer : each.2.buffer = flat.2.buffer
  lengths : each.2.segments.map Segment.length = segments.map Segment.length
  lays : Lays each.2.segments base flat.2.data
  below : ∀ address < base, flat.2.data address = data address

theorem CopiesAlike.cons {base : Nat} {data before : Nat → UInt8} {segment mapped : Segment} {rest : List Segment}
    {each : Except Errno Unit × SegmentCopy} {flat : Except Errno Unit × FragmentCopy}
    (alike : CopiesAlike (base + segment.length) data rest each flat) (length : mapped.length = segment.length)
    (here : ∀ index < segment.length, data (base + index) = mapped.bytes index)
    (below : ∀ address < base, data address = before address) :
    CopiesAlike base before (segment :: rest) (SegmentCopy.behind mapped each) flat where
  status := alike.status
  buffer := alike.buffer
  lengths := by
    change mapped.length :: each.2.segments.map Segment.length = _
    rw [alike.lengths, length, List.map_cons]
  lays := by
    refine lays_cons.mpr ⟨fun index inside => ?_, ?_⟩
    · rw [alike.below _ (by omega)]
      exact here index (by omega)
    · rw [length]
      exact alike.lays
  below address less := (alike.below address (by omega)).trans (below address less)

/-- A segment whose memory a bigger memory has takes the same bytes there. -/
private theorem overlay_within {data bytes source : Nat → UInt8} {base offset chunk index : Nat}
    (same : data (base + index) = bytes index) :
    overlay data (base + offset) chunk source (base + index) = overlay bytes offset chunk source index := by
  by_cases before : index < offset
  · rw [overlay_outside (by omega), overlay_outside (by omega), same]
  by_cases behind : offset + chunk ≤ index
  · rw [overlay_outside (by omega), overlay_outside (by omega), same]
  rw [overlay_inside (by omega) (by omega), overlay_inside (by omega) (by omega), Nat.add_sub_add_left]

theorem copyEach_alike (place bytes : Nat) (toBio : Bool) (segments : List Segment) (base offset copied : Nat)
    (data buffer : Nat → UInt8) (lays : Lays segments base data) :
    CopiesAlike base data segments (copyEach place bytes toBio segments offset copied buffer)
      (copySegments place bytes toBio (segments.map Segment.length) ⟨base, offset, copied, data, buffer⟩) := by
  induction segments generalizing base offset copied data buffer with
  | nil => exact ⟨rfl, rfl, rfl, lays, fun _ _ => rfl⟩
  | cons segment rest ih =>
    obtain ⟨here, later⟩ := lays_cons.mp lays
    rw [copyEach, List.map_cons, copySegments]
    split
    next skip =>
      exact (ih _ (offset - segment.length) copied data buffer later).cons rfl here fun _ _ => rfl
    next inside =>
      have within : min (bytes - copied) (segment.length - offset) ≤ segment.length - offset := Nat.min_le_right _ _
      dsimp only at inside ⊢
      generalize min (bytes - copied) (segment.length - offset) = chunk at within
      cases toBio with
      | true =>
        simp only [if_true]
        have changed (index : Nat) (small : index < segment.length) :=
          @overlay_within data segment.bytes (fun index => buffer (place + copied + index)) base offset chunk index
            (here index small)
        have below (address : Nat) (less : address < base) :
            overlay data (base + offset) chunk (fun index => buffer (place + copied + index)) address = data address :=
          overlay_outside (by omega)
        have later' : Lays rest (base + segment.length)
            (overlay data (base + offset) chunk fun index => buffer (place + copied + index)) := by
          intro index less
          rw [overlay_outside (by omega)]
          exact later index less
        split
        · exact ⟨rfl, rfl, rfl, lays_cons.mpr ⟨changed, later'⟩, below⟩
        · exact (ih _ 0 (copied + chunk) _ buffer later').cons rfl changed below
      | false =>
        simp only [Bool.false_eq_true, if_false]
        have read : overlay buffer (place + copied) chunk (fun index => data (base + offset + index)) =
            overlay buffer (place + copied) chunk fun index => segment.bytes (offset + index) := by
          apply overlay_congr
          intro index less
          rw [Nat.add_assoc, here _ (by omega)]
        rw [read]
        split
        · exact ⟨rfl, rfl, rfl, lays, fun _ _ => rfl⟩
        · exact (ih _ 0 (copied + chunk) data _ later).cons rfl here fun _ _ => rfl

/-- The loop runs out of segments when the bio is too short. -/
theorem copySegments_short (place bytes : Nat) (toBio : Bool) (segments : List Nat) (copy : FragmentCopy)
    (more : copy.copied < bytes) (short : segments.sum < copy.offset + (bytes - copy.copied)) :
    (copySegments place bytes toBio segments copy).1 = .error .eio := by
  induction segments generalizing copy with
  | nil => rfl
  | cons length rest ih =>
    rw [List.sum_cons] at short
    rw [copySegments]
    split
    next skip => exact ih _ more (by dsimp only; omega)
    next inside =>
      have chunked : min (bytes - copy.copied) (length - copy.offset) = length - copy.offset := Nat.min_eq_right (by omega)
      rw [chunked]
      cases toBio <;> (
        simp only [Bool.false_eq_true, if_false, if_true]
        rw [if_neg (by omega)]
        exact ih _ (by dsimp only; omega) (by dsimp only; omega))

theorem copyFragment_short {bio : Bio} {offset place bytes : Nat} (buffer : Nat → UInt8) (toBio : Bool)
    (some_ : 0 < bytes) (short : bio.size < offset + bytes) :
    (copyFragment bio offset buffer place bytes toBio).1 = .error .eio :=
  copySegments_short place bytes toBio bio.segments ⟨0, offset, 0, bio.data, buffer⟩ some_ short

theorem copyFragment_ok {bio : Bio} {offset place bytes : Nat} (buffer : Nat → UInt8) (toBio : Bool) (some_ : 0 < bytes)
    (room : offset + bytes ≤ bio.size) : (copyFragment bio offset buffer place bytes toBio).1 = .ok () := by
  obtain ⟨final, ran, _⟩ := copySegments_spec place bytes toBio bio.segments ⟨0, offset, 0, bio.data, buffer⟩ some_ room
  rw [copyFragment, ran]

theorem joined_beyond {segments : List Segment} {index : Nat} (beyond : totalBytes segments ≤ index) :
    joined segments index = 0 := by
  induction segments generalizing index with
  | nil => rfl
  | cons segment rest ih =>
    rw [totalBytes_cons] at beyond
    rw [joined, if_neg (by omega), ih (by omega)]

theorem Lays.joined_eq {segments : List Segment} {data : Nat → UInt8} (lays : Lays segments 0 data)
    (beyond : ∀ index, totalBytes segments ≤ index → data index = 0) : joined segments = data := by
  funext index
  by_cases inside : index < totalBytes segments
  · rw [← lays index inside, Nat.zero_add]
  · rw [joined_beyond (by omega), beyond index (by omega)]

/-- What `zns_lsm_copy_fragment` does to a bio of these segments and to the part of
the buffer that starts at `place`. -/
structure Copied (segments : List Segment) (offset place bytes : Nat) (toBio : Bool) (buffer : Nat → UInt8)
    (copy : Except Errno Unit × SegmentCopy) : Prop where
  status : copy.1 = if offset + bytes ≤ totalBytes segments then .ok () else .error .eio
  lengths : copy.2.segments.map Segment.length = segments.map Segment.length
  written : toBio = true → copy.1 = .ok () → copy.2.buffer = buffer ∧
    joined copy.2.segments = overlay (joined segments) offset bytes fun index => buffer (place + index)
  read : toBio = false → copy.1 = .ok () → joined copy.2.segments = joined segments ∧
    copy.2.buffer = overlay buffer place bytes fun index => joined segments (offset + index)

/-- A bio of these segments. -/
def Segment.bio (op : BioOp) (sector : Nat) (segments : List Segment) : Bio :=
  ⟨op, sector, segments.map Segment.length, joined segments⟩

theorem copyEach_flat (op : BioOp) (sector : Nat) (segments : List Segment) (offset place bytes : Nat) (toBio : Bool)
    (buffer : Nat → UInt8) : CopiesAlike 0 (joined segments) segments (copyEach place bytes toBio segments offset 0 buffer)
      (copyFragment (Segment.bio op sector segments) offset buffer place bytes toBio) :=
  copyEach_alike place bytes toBio segments 0 offset 0 (joined segments) buffer fun index _ => by rw [Nat.zero_add]

theorem copyEach_spec (segments : List Segment) (offset place bytes : Nat) (toBio : Bool) (buffer : Nat → UInt8)
    (some_ : 0 < bytes) : Copied segments offset place bytes toBio buffer
      (copyEach place bytes toBio segments offset 0 buffer) := by
  have alike := copyEach_flat .read 0 segments offset place bytes toBio buffer
  have same : totalBytes (copyEach place bytes toBio segments offset 0 buffer).2.segments = totalBytes segments := by
    rw [totalBytes, alike.lengths, totalBytes]
  by_cases room : offset + bytes ≤ totalBytes segments
  · obtain ⟨final, ran, copies⟩ := copySegments_spec place bytes toBio (segments.map Segment.length)
      ⟨0, offset, 0, joined segments, buffer⟩ some_ room
    have ran : copyFragment (Segment.bio .read 0 segments) offset buffer place bytes toBio = (.ok (), final) := ran
    rw [ran] at alike
    have data := copies.data
    have moved := copies.buffer
    simp only [Nat.zero_add, Nat.sub_zero, Nat.add_zero] at data moved
    refine ⟨by rw [if_pos room, alike.status], alike.lengths, ?_, ?_⟩
    · rintro rfl _
      refine ⟨alike.buffer.trans moved, ?_⟩
      rw [alike.lays.joined_eq, data, if_pos rfl]
      intro index beyond
      rw [data, if_pos rfl, overlay_outside (by omega), joined_beyond (by omega)]
    · rintro rfl _
      refine ⟨?_, alike.buffer.trans moved⟩
      rw [alike.lays.joined_eq, data]
      · rfl
      intro index beyond
      rw [data]
      exact joined_beyond (by omega)
  · have failed : (copyEach place bytes toBio segments offset 0 buffer).1 = .error .eio := by
      rw [alike.status]
      exact copyFragment_short buffer toBio some_ (Nat.lt_of_not_le room)
    refine ⟨by rw [if_neg room, failed], alike.lengths, ?_, ?_⟩ <;>
    · intro _ done
      cases failed.symm.trans done

namespace Lsm

/-- The loop variables of a fragment loop when an iteration starts. -/
structure Fragment where
  sector : Nat
  remaining : Nat
  bioOffset : Nat

namespace Fragment

def offset (fragment : Fragment) : Nat := fragmentOffset fragment.sector

def sectors (fragment : Fragment) : Nat := fragmentSectors fragment.sector fragment.remaining

def bytes (fragment : Fragment) : Nat := fragment.sectors * sectorBytes

/-- Where the fragment starts in the buffer of its block. -/
def place (fragment : Fragment) : Nat := fragment.offset * sectorBytes

def block (fragment : Fragment) : Nat := fragment.sector - fragment.offset

def next (fragment : Fragment) : Fragment :=
  ⟨fragment.sector + fragment.sectors, fragment.remaining - fragment.sectors, fragment.bioOffset + fragment.bytes⟩

/-- A fragment of a bio stays in one block, at the bytes that the bio has there. -/
structure Fits (fragment : Fragment) (bio : Bio) : Prop where
  aligned : fragment.block % blockSectors = 0
  inside : fragment.place + fragment.bytes ≤ blockBytes
  address : fragment.block * sectorBytes + fragment.place = bio.sector * sectorBytes + fragment.bioOffset
  covered : fragment.bioOffset + fragment.bytes ≤ bio.size

end Fragment

/-- The fragments of the iterations that are left. -/
def fragments : Nat → Fragment → List Fragment
  | 0, _ => []
  | rounds + 1, fragment => if fragment.remaining = 0 then [] else fragment :: fragments rounds fragment.next

def bioFragments (bio : Bio) : List Fragment := fragments bio.sectors ⟨bio.sector, bio.sectors, 0⟩

/-- Fragments with bytes in them, one right behind the other, from a byte of the bio to another. -/
inductive Partition (stop : Nat) : Nat → List Fragment → Prop
  | done : Partition stop stop []
  | next {start : Nat} {fragment : Fragment} {rest : List Fragment} (first : fragment.bioOffset = start)
      (some_ : 0 < fragment.bytes) (later : Partition stop (start + fragment.bytes) rest) :
      Partition stop start (fragment :: rest)

/-- `zns_lsm_read_partial` without the errors of the copy. -/
def readEach : List Fragment → Bio → Effect Machine Errno Bio
  | [], bio => pure bio
  | fragment :: rest, bio => do
    let buffer ← fetchBlock fragment.block
    readEach rest
      { bio with data := (copyFragment bio fragment.bioOffset buffer fragment.place fragment.bytes true).2.data }

section Write
variable [Kernel] (params : Params) (bio : Bio)

/-- An iteration of `zns_lsm_write_partial` without the error of the copy. -/
def writeOne (fragment : Fragment) (buffer : Nat → UInt8) : Effect Machine Errno (Nat → UInt8) := do
  let buffer ← if fragment.offset ≠ 0 ∨ fragment.sectors ≠ blockSectors then fetchBlock fragment.block else pure buffer
  let merged := (copyFragment bio fragment.bioOffset buffer fragment.place fragment.bytes false).2.buffer
  appendWrite params fragment.block merged
  pure merged

/-- `zns_lsm_write_partial` without the errors of the copy. -/
def writeEach : List Fragment → (Nat → UInt8) → Machine → WriteOutcome × Machine
  | [], _, machine => (⟨.ok (), 0⟩, machine)
  | fragment :: rest, buffer, machine =>
    match writeOne params bio fragment buffer machine with
    | (.error error, machine) => (⟨.error error, fragment.remaining⟩, machine)
    | (.ok buffer, machine) => writeEach rest buffer machine

end Write

section Loops
variable {bio : Bio}

theorem Fragment.bounds {fragment : Fragment} (more : fragment.remaining ≠ 0) :
    0 < fragment.sectors ∧ fragment.sectors ≤ fragment.remaining ∧ fragment.offset + fragment.sectors ≤ blockSectors ∧
      fragment.offset ≤ fragment.sector ∧ fragment.block % blockSectors = 0 :=
  fragment_bounds fragment.sector more

theorem Fragment.next_remaining {fragment : Fragment} {rounds : Nat} (more : fragment.remaining ≠ 0)
    (enough : fragment.remaining ≤ rounds + 1) : fragment.next.remaining ≤ rounds := by
  obtain ⟨some_, _⟩ := bounds more
  change fragment.remaining - fragment.sectors ≤ rounds
  omega

theorem fragments_enough {rounds more : Nat} {fragment : Fragment} (enough : fragment.remaining ≤ rounds)
    (beyond : rounds ≤ more) : fragments more fragment = fragments rounds fragment := by
  induction rounds generalizing more fragment with
  | zero =>
    cases more with
    | zero => rfl
    | succ more =>
      rw [fragments, fragments]
      exact if_pos (Nat.le_zero.mp enough)
  | succ rounds ih =>
    cases more with
    | zero => omega
    | succ more =>
      rw [fragments, fragments]
      split
      · rfl
      next left => rw [ih (Fragment.next_remaining left enough) (Nat.le_of_succ_le_succ beyond)]

/-- What an iteration keeps: where the fragment is on the target, and where the bio ends. -/
structure Fragment.Lies (fragment : Fragment) (bio : Bio) : Prop where
  address : fragment.sector * sectorBytes = bio.sector * sectorBytes + fragment.bioOffset
  left : fragment.bioOffset + fragment.remaining * sectorBytes = bio.sectors * sectorBytes

theorem Fragment.Lies.next {fragment : Fragment} (lies : fragment.Lies bio) (more : fragment.remaining ≠ 0) :
    fragment.next.Lies bio := by
  obtain ⟨some_, short, _⟩ := bounds more
  have split_ : fragment.remaining * sectorBytes =
      fragment.sectors * sectorBytes + (fragment.remaining - fragment.sectors) * sectorBytes := by
    rw [← Nat.add_mul, Nat.add_sub_cancel' short]
  have address := lies.address
  have left := lies.left
  refine ⟨?_, ?_⟩
  · change (fragment.sector + fragment.sectors) * sectorBytes = _ + (fragment.bioOffset + fragment.sectors * sectorBytes)
    rw [Nat.add_mul]
    omega
  · change fragment.bioOffset + fragment.sectors * sectorBytes + (fragment.remaining - fragment.sectors) * sectorBytes = _
    omega

theorem Fragment.Lies.fits {fragment : Fragment} (lies : fragment.Lies bio) (more : fragment.remaining ≠ 0) :
    fragment.Fits bio := by
  obtain ⟨some_, short, within, low, aligned⟩ := bounds more
  refine ⟨aligned, ?_, ?_, ?_⟩
  · rw [place, bytes, ← Nat.add_mul]
    exact Nat.mul_le_mul_right sectorBytes within
  · rw [← lies.address, place, block, ← Nat.add_mul, Nat.sub_add_cancel low]
  · have fits : fragment.bytes ≤ fragment.remaining * sectorBytes := Nat.mul_le_mul_right _ short
    have whole : bio.sectors * sectorBytes ≤ bio.size := Nat.div_mul_le_self _ _
    have left := lies.left
    omega

theorem fragments_partition (rounds : Nat) {fragment : Fragment} (lies : fragment.Lies bio)
    (enough : fragment.remaining ≤ rounds) : Partition (bio.sectors * sectorBytes) fragment.bioOffset (fragments rounds fragment) ∧
      ∀ member ∈ fragments rounds fragment, 0 < member.bytes ∧ member.Fits bio := by
  induction rounds generalizing fragment with
  | zero =>
    have left := lies.left
    rw [show fragment.remaining = 0 by omega, Nat.zero_mul, Nat.add_zero] at left
    rw [fragments, left]
    exact ⟨.done, by rintro _ ⟨⟩⟩
  | succ rounds ih =>
    rw [fragments]
    split
    next none_ =>
      have left := lies.left
      rw [none_, Nat.zero_mul, Nat.add_zero] at left
      rw [left]
      exact ⟨.done, by rintro _ ⟨⟩⟩
    next more =>
      have bytes : 0 < fragment.bytes := Nat.mul_pos (Fragment.bounds more).1 (by decide)
      obtain ⟨later, others⟩ := ih (lies.next more) (Fragment.next_remaining more enough)
      refine ⟨.next rfl bytes later, ?_⟩
      rintro member (_ | ⟨_, member⟩)
      · exact ⟨bytes, lies.fits more⟩
      · exact others _ member

/-- The copy of a fragment has the bytes it needs. -/
theorem Fragment.Fits.copies {fragment : Fragment} (fits : fragment.Fits bio) (some_ : 0 < fragment.bytes)
    (data buffer : Nat → UInt8) (toBio : Bool) :
    (copyFragment { bio with data := data } fragment.bioOffset buffer fragment.place fragment.bytes toBio).1 = .ok () :=
  copyFragment_ok buffer toBio some_ fits.covered

theorem readFragments_each (rounds : Nat) {fragment : Fragment} (lies : fragment.Lies bio) :
    readFragments rounds fragment.sector fragment.remaining fragment.bioOffset bio = readEach (fragments rounds fragment) bio := by
  induction rounds generalizing fragment bio with
  | zero => rfl
  | succ rounds ih =>
    rw [readFragments, fragments]
    split
    · rfl
    next more =>
      refine congrArg (bind (fetchBlock fragment.block)) (funext fun buffer => ?_)
      have ran : copyFragment bio fragment.bioOffset buffer (fragmentOffset fragment.sector * sectorBytes)
          (fragmentSectors fragment.sector fragment.remaining * sectorBytes) true =
            (.ok (), (copyFragment bio fragment.bioOffset buffer fragment.place fragment.bytes true).2) :=
        Prod.ext ((lies.fits more).copies (Nat.mul_pos (Fragment.bounds more).1 (by decide)) bio.data buffer true) rfl
      rw [ran]
      have next := lies.next more
      exact @ih { bio with data := _ } fragment.next ⟨next.address, next.left⟩

theorem writeFragment_one [Kernel] (params : Params) {fragment : Fragment} (fits : fragment.Fits bio) (some_ : 0 < fragment.bytes)
    (buffer : Nat → UInt8) : writeFragment params fragment.sector fragment.remaining fragment.bioOffset bio buffer =
      writeOne params bio fragment buffer := by
  have merges (buffer : Nat → UInt8) :
      appendMerged params fragment.offset fragment.sectors fragment.block fragment.bioOffset bio buffer = (do
        let merged := (copyFragment bio fragment.bioOffset buffer fragment.place fragment.bytes false).2.buffer
        appendWrite params fragment.block merged
        pure merged) := by
    have ran : copyFragment bio fragment.bioOffset buffer (fragment.offset * sectorBytes) (fragment.sectors * sectorBytes) false =
          (.ok (), (copyFragment bio fragment.bioOffset buffer fragment.place fragment.bytes false).2) :=
      Prod.ext (fits.copies some_ bio.data buffer false) rfl
    unfold appendMerged
    rw [ran]
  unfold writeFragment writeOne
  change (if fragment.offset ≠ 0 ∨ fragment.sectors ≠ blockSectors then _ else _) = _
  split
  · exact congrArg (bind (fetchBlock fragment.block)) (funext merges)
  · exact merges buffer

theorem writeFragments_each [Kernel] (params : Params) (rounds : Nat) {fragment : Fragment} (lies : fragment.Lies bio)
    (enough : fragment.remaining ≤ rounds) (buffer : Nat → UInt8) (machine : Machine) :
    writeFragments params rounds fragment.sector fragment.remaining fragment.bioOffset bio buffer machine =
      writeEach params bio (fragments rounds fragment) buffer machine := by
  induction rounds generalizing fragment buffer machine with
  | zero =>
    rw [writeFragments, Nat.le_zero.mp enough]
    rfl
  | succ rounds ih =>
    rw [writeFragments, fragments]
    split
    next none_ =>
      rw [none_]
      rfl
    next more =>
      rw [writeFragment_one params (lies.fits more) (Nat.mul_pos (Fragment.bounds more).1 (by decide)), writeEach]
      cases writeOne params bio fragment buffer machine with
      | mk result after =>
        cases result with
        | error error => rfl
        | ok merged => exact ih (lies.next more) (Fragment.next_remaining more enough) merged after

end Loops

/-- What `zns_lsm_copy_fragment` does is independent of how a bio is cut into segments,
and the fragment loops hand it a partition of the bio. -/
theorem fragment_copy_is_segmentation_independent [Kernel] (op : BioOp) (sector : Nat) (segments : List Segment) :
    (∀ offset place bytes toBio buffer, 0 < bytes →
      Copied segments offset place bytes toBio buffer (copyEach place bytes toBio segments offset 0 buffer) ∧
      CopiesAlike 0 (joined segments) segments (copyEach place bytes toBio segments offset 0 buffer)
        (copyFragment (Segment.bio op sector segments) offset buffer place bytes toBio)) ∧
    ∀ bio : Bio,
      Partition (bio.sectors * sectorBytes) 0 (bioFragments bio) ∧
      (∀ fragment ∈ bioFragments bio, 0 < fragment.bytes ∧ fragment.Fits bio ∧ ∀ data buffer toBio,
        (copyFragment { bio with data := data } fragment.bioOffset buffer fragment.place fragment.bytes toBio).1 = .ok ()) ∧
      ∀ rounds, bio.sectors ≤ rounds →
        readFragments rounds bio.sector bio.sectors 0 bio = readEach (bioFragments bio) bio ∧
        ∀ params buffer machine, writeFragments params rounds bio.sector bio.sectors 0 bio buffer machine =
          writeEach params bio (bioFragments bio) buffer machine := by
  constructor
  · intro offset place bytes toBio buffer some_
    exact ⟨copyEach_spec segments offset place bytes toBio buffer some_,
      copyEach_flat op sector segments offset place bytes toBio buffer⟩
  intro bio
  have lies : (⟨bio.sector, bio.sectors, 0⟩ : Fragment).Lies bio := ⟨(Nat.add_zero _).symm, Nat.zero_add _⟩
  obtain ⟨partition, fits⟩ := fragments_partition bio.sectors lies (Nat.le_refl _)
  refine ⟨partition, ?_, ?_⟩
  · intro fragment member
    obtain ⟨some_, fits⟩ := fits fragment member
    exact ⟨some_, fits, fits.copies some_⟩
  · intro rounds enough
    have same : fragments rounds ⟨bio.sector, bio.sectors, 0⟩ = bioFragments bio :=
      fragments_enough (Nat.le_refl bio.sectors) enough
    refine ⟨?_, ?_⟩
    · rw [← same]
      exact readFragments_each rounds lies
    · intro params buffer machine
      rw [← same]
      exact writeFragments_each params rounds lies enough buffer machine

end Lsm
end ZnsBase
