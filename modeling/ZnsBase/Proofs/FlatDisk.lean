import ZnsBase.Proofs.ReadPath

/-! The target as a flat array of bytes: requests of any shape read from it and
write to it, fragment by fragment, and nothing else changes it. -/

namespace ZnsBase
open Library

/-- Where the copy loop is heading: `bytes - copied` bytes between one piece of
the bio and one piece of the buffer. -/
structure FragmentCopy.Copies (place bytes : Nat) (toBio : Bool) (before after : FragmentCopy) : Prop where
  data : after.data = if toBio then overlay before.data (before.base + before.offset) (bytes - before.copied)
    (fun index => before.buffer (place + before.copied + index)) else before.data
  buffer : after.buffer = if toBio then before.buffer else overlay before.buffer (place + before.copied) (bytes - before.copied)
    (fun index => before.data (before.base + before.offset + index))

/-- The loop of `zns_lsm_copy_fragment`, as long as the bio has the bytes. -/
theorem copySegments_spec (place bytes : Nat) (toBio : Bool) (segments : List Nat) (copy : FragmentCopy)
    (more : copy.copied < bytes) (room : copy.offset + (bytes - copy.copied) ≤ segments.sum) :
    ∃ final, copySegments place bytes toBio segments copy = (.ok (), final) ∧ copy.Copies place bytes toBio final := by
  induction segments generalizing copy with
  | nil =>
    rw [List.sum_nil] at room
    omega
  | cons length rest ih =>
    rw [List.sum_cons] at room
    rw [copySegments]
    split
    next skip =>
      obtain ⟨final, ran, copies⟩ := ih { copy with base := copy.base + length, offset := copy.offset - length } more
        (by dsimp only; omega)
      have place_ : copy.base + length + (copy.offset - length) = copy.base + copy.offset := by omega
      refine ⟨final, ran, ?_⟩
      have data := copies.data
      have buffer := copies.buffer
      dsimp only at data buffer
      rw [place_] at data buffer
      exact ⟨data, buffer⟩
    next here =>
      have chunked : min (bytes - copy.copied) (length - copy.offset) ≤ bytes - copy.copied := Nat.min_le_left _ _
      have within : min (bytes - copy.copied) (length - copy.offset) ≤ length - copy.offset := Nat.min_le_right _ _
      have either : min (bytes - copy.copied) (length - copy.offset) = bytes - copy.copied ∨
          min (bytes - copy.copied) (length - copy.offset) = length - copy.offset := by omega
      generalize min (bytes - copy.copied) (length - copy.offset) = chunk at chunked within either
      dsimp only
      cases toBio with
      | true =>
        simp only [if_true]
        split
        next ends =>
          refine ⟨_, rfl, ?_, rfl⟩
          simp only [if_true]
          rw [show bytes - copy.copied = chunk by omega]
        next unfinished =>
          obtain ⟨final, ran, copies⟩ := ih ⟨copy.base + length, 0, copy.copied + chunk,
            overlay copy.data (copy.base + copy.offset) chunk fun index => copy.buffer (place + copy.copied + index), copy.buffer⟩
            (by dsimp only; omega) (by dsimp only; omega)
          refine ⟨final, ran, ?_, copies.buffer⟩
          have data := copies.data
          simp only [if_true] at data ⊢
          have joined := overlay_append copy.data (fun index => copy.buffer (place + copy.copied + index))
            (copy.base + copy.offset) chunk (bytes - (copy.copied + chunk))
          rw [data, show copy.base + length + 0 = copy.base + copy.offset + chunk by omega,
            show bytes - copy.copied = chunk + (bytes - (copy.copied + chunk)) by omega, ← joined]
          simp only [Nat.add_assoc]
      | false =>
        simp only [Bool.false_eq_true, if_false]
        split
        next ends =>
          refine ⟨_, rfl, rfl, ?_⟩
          simp only [Bool.false_eq_true, if_false]
          rw [show bytes - copy.copied = chunk by omega]
        next unfinished =>
          obtain ⟨final, ran, copies⟩ := ih ⟨copy.base + length, 0, copy.copied + chunk, copy.data,
            overlay copy.buffer (place + copy.copied) chunk fun index => copy.data (copy.base + copy.offset + index)⟩
            (by dsimp only; omega) (by dsimp only; omega)
          refine ⟨final, ran, copies.data, ?_⟩
          have buffer := copies.buffer
          simp only [Bool.false_eq_true, if_false] at buffer ⊢
          have joined := overlay_append copy.buffer (fun index => copy.data (copy.base + copy.offset + index))
            (place + copy.copied) chunk (bytes - (copy.copied + chunk))
          rw [buffer, ← Nat.add_assoc place, show copy.base + length + 0 = copy.base + copy.offset + chunk by omega,
            show bytes - copy.copied = chunk + (bytes - (copy.copied + chunk)) by omega, ← joined]
          simp only [Nat.add_assoc]

theorem copyFragment_toBio {bio : Bio} {offset place bytes : Nat} (buffer : Nat → UInt8) (some_ : 0 < bytes)
    (room : offset + bytes ≤ bio.size) : ∃ final, copyFragment bio offset buffer place bytes true = (.ok (), final) ∧
      final.data = overlay bio.data offset bytes fun index => buffer (place + index) := by
  obtain ⟨final, ran, copies⟩ := copySegments_spec place bytes true bio.segments ⟨0, offset, 0, bio.data, buffer⟩ some_ room
  refine ⟨final, ran, ?_⟩
  have data := copies.data
  simp only [if_true, Nat.zero_add, Nat.sub_zero, Nat.add_zero] at data
  exact data

theorem copyFragment_fromBio {bio : Bio} {offset place bytes : Nat} (buffer : Nat → UInt8) (some_ : 0 < bytes)
    (room : offset + bytes ≤ bio.size) : ∃ final, copyFragment bio offset buffer place bytes false = (.ok (), final) ∧
      final.buffer = overlay buffer place bytes fun index => bio.data (offset + index) := by
  obtain ⟨final, ran, copies⟩ := copySegments_spec place bytes false bio.segments ⟨0, offset, 0, bio.data, buffer⟩ some_ room
  refine ⟨final, ran, ?_⟩
  have moved := copies.buffer
  simp only [Bool.false_eq_true, if_false, Nat.zero_add, Nat.sub_zero, Nat.add_zero] at moved
  exact moved

namespace Lsm
variable [Kernel] {log : Extent} {limit : Nat} {contents : Nat → UInt8}

/-- An engine whose target has the given contents. -/
structure Reflects (machine : Machine) (log : Extent) (limit : Nat) (contents : Nat → UInt8) : Prop where
  serving : Serving machine log limit True
  distinct : machine.world.oracle.Distinct
  disk : disk machine = contents

theorem Reflects.same {before after : Machine} (reflects : Reflects before log limit contents) (same : Same before after) :
    Reflects after log limit contents := by
  have alike : Alike before after := ⟨by rw [same.1], same.2⟩
  exact ⟨reflects.serving.same same, reflects.distinct.later same.2.later,
    (disk_alike reflects.serving.coherent alike trivial).trans reflects.disk⟩

omit [Kernel] in
private theorem address_in_block {sector byte : Nat} (aligned : sector % blockSectors = 0) (inside : byte < blockBytes) :
    (sector * sectorBytes + byte) / blockBytes = sector / blockSectors ∧ (sector * sectorBytes + byte) % blockBytes = byte := by
  simp only [blockSectors, sectorBytes, blockBytes] at aligned inside ⊢
  omega

section Read
variable {machine : Machine} (reflects : Reflects machine log limit contents)
include reflects

/-- A block that is fetched has the contents of the target. -/
theorem fetchBlock_spec {blockSector : Nat} (aligned : blockSector % blockSectors = 0) :
    Effect.Ensures (fetchBlock blockSector) machine (fun result after => Same machine after ∧
      ∀ buffer, result = .ok buffer → ∀ byte < blockBytes, buffer byte = contents (blockSector * sectorBytes + byte)) := by
  refine Effect.Ensures.and (fetchBlock_same blockSector machine) ?_
  have block (byte : Nat) (inside : byte < blockBytes) := address_in_block aligned inside
  refine Effect.Ensures.attempt_bind
    (read_spec reflects.serving.coherent trivial reflects.distinct aligned) ?_
  rintro result after ⟨same, answered⟩
  rcases answered with rfl | ⟨error, rfl, other, _⟩
  · cases held : mapping machine (blockSector / blockSectors) with
    | none =>
      intro buffer done byte inside
      cases done
      rw [← reflects.disk, disk, (block byte inside).1, held]
    | some sector =>
      refine onWorld_ensures ((blockRead_spec .data sector after.world).mono ?_)
      rintro result world ⟨_, rfl | ⟨error, rfl, _⟩⟩
      · intro buffer done byte inside
        cases done
        rw [← reflects.disk, disk, (block byte inside).1, held, same.2.block]
        dsimp only
        rw [(block byte inside).2]
      · nofun
  · cases error with
    | enodata => exact absurd rfl other
    | _ => nofun

end Read

omit [Kernel] in
/-- A fragment stays in its block and its request. -/
theorem fragment_bounds (sector : Nat) {remaining : Nat} (more : remaining ≠ 0) :
    0 < fragmentSectors sector remaining ∧ fragmentSectors sector remaining ≤ remaining ∧
      fragmentOffset sector + fragmentSectors sector remaining ≤ blockSectors ∧ fragmentOffset sector ≤ sector ∧
      (sector - fragmentOffset sector) % blockSectors = 0 := by
  simp only [fragmentSectors, fragmentOffset, blockSectors]
  omega

/-- The loop of `zns_lsm_read_partial`. -/
theorem readFragments_spec (rounds : Nat) {sector remaining bioOffset : Nat} {bio : Bio} {machine : Machine}
    (reflects : Reflects machine log limit contents) (enough : remaining ≤ rounds)
    (room : bioOffset + remaining * sectorBytes ≤ bio.size) :
    Effect.Ensures (readFragments rounds sector remaining bioOffset bio) machine (fun result _ =>
      ∀ answered, result = .ok answered → answered.data = overlay bio.data bioOffset (remaining * sectorBytes)
        fun index => contents (sector * sectorBytes + index)) := by
  induction rounds generalizing sector remaining bioOffset bio machine with
  | zero =>
    obtain rfl : remaining = 0 := by omega
    intro answered done
    cases done
    rw [Nat.zero_mul, overlay_zero]
  | succ rounds ih =>
    rw [readFragments]
    split
    next none_ =>
      intro answered done
      cases done
      rw [none_, Nat.zero_mul, overlay_zero]
    next more =>
      obtain ⟨some_, short, inside, low, aligned⟩ := fragment_bounds sector more
      dsimp only
      refine Effect.Ensures.bind (fetchBlock_spec reflects aligned) ?_ (fun error after _ => (by rintro _ ⟨⟩))
      rintro buffer after ⟨same, fetched⟩
      generalize fragmentSectors sector remaining = sectors at some_ short inside
      generalize fragmentOffset sector = offset at inside low fetched
      have split_ : remaining * sectorBytes = sectors * sectorBytes + (remaining - sectors) * sectorBytes := by
        rw [← Nat.add_mul, Nat.add_sub_cancel' short]
      obtain ⟨copy, ran, data⟩ := @copyFragment_toBio bio bioOffset (offset * sectorBytes) (sectors * sectorBytes) buffer
        (Nat.mul_pos some_ (by decide)) (by omega)
      rw [ran]
      refine (@ih (sector + sectors) (remaining - sectors) (bioOffset + sectors * sectorBytes) { bio with data := copy.data } after
        (reflects.same same) (by omega) ?_).mono ?_
      · change bioOffset + sectors * sectorBytes + (remaining - sectors) * sectorBytes ≤ bio.size
        omega
      · intro result final rest answered done
        rw [rest answered done]
        have piece : copy.data = overlay bio.data bioOffset (sectors * sectorBytes)
            fun index => contents (sector * sectorBytes + index) := by
          rw [data]
          apply overlay_congr
          intro index less
          have inBlock : offset * sectorBytes + index < blockBytes := by
            simp only [sectorBytes, blockBytes, blockSectors] at less inside ⊢
            omega
          have placed : (sector - offset) * sectorBytes + (offset * sectorBytes + index) = sector * sectorBytes + index := by
            rw [← Nat.add_assoc, ← Nat.add_mul, Nat.sub_add_cancel low]
          rw [fetched buffer rfl _ inBlock, placed]
        have joined := overlay_append bio.data (fun index => contents (sector * sectorBytes + index)) bioOffset
          (sectors * sectorBytes) ((remaining - sectors) * sectorBytes)
        rw [split_, ← joined]
        dsimp only
        rw [piece]
        simp only [Nat.add_mul, Nat.add_assoc]

/-- The read half of the I/O worker. -/
theorem ioRead_spec {bio : Bio} {machine : Machine} (reflects : Reflects machine log limit contents)
    (whole : bio.size % sectorBytes = 0) :
    Effect.Ensures (ioRead bio) machine (fun result _ => ∀ answered, result = .ok answered →
      ∀ index < bio.size, answered.data index = contents (bio.sector * sectorBytes + index)) := by
  have exact_ : bio.sectors * sectorBytes = bio.size := by
    simp only [Bio.sectors, sectorBytes] at whole ⊢
    omega
  have covers {data : Nat → UInt8} {index : Nat} (inside : index < bio.size) (source : Nat → UInt8) :
      overlay data 0 bio.size source index = source index := by
    rw [overlay_inside (Nat.zero_le _) (by omega), Nat.sub_zero]
  unfold ioRead
  split
  · refine Effect.Ensures.bind (allocate_same machine) ?_ (fun error after _ => (by rintro _ ⟨⟩))
    intro _ after same
    refine (readFragments_spec bio.sectors (reflects.same same) (Nat.le_refl _) (by omega)).mono ?_
    intro result final rest answered done index inside
    rw [rest answered done, exact_]
    exact covers inside _
  next aligned =>
    simp only [isAlignedIo, Bool.not_eq_false, decide_eq_true_eq] at aligned
    refine Effect.Ensures.bind (allocate_same machine) ?_ (fun error after _ => (by rintro _ ⟨⟩))
    intro _ cloned same
    have block : bio.size = blockBytes := by
      rw [← exact_, aligned.1]
      rfl
    have reflects := reflects.same same
    rw [aligned.1, block]
    refine Effect.Ensures.attempt_bind (read_spec reflects.serving.coherent trivial reflects.distinct aligned.2) ?_
    rintro result after ⟨looked, answered⟩
    have place (index : Nat) (inside : index < blockBytes) := address_in_block aligned.2 inside
    rcases answered with rfl | ⟨error, rfl, other, _⟩
    · cases held : mapping cloned (bio.sector / blockSectors) with
      | none =>
        intro answered done index inside
        cases done
        rw [← reflects.disk, disk, (place index inside).1, held]
        dsimp only
        rw [overlay_inside (Nat.zero_le _) (by omega)]
      | some sector =>
        have fetched : Effect.Ensures (onWorld (blockRead .data sector)) after
            (fun result _ => result = .ok (after.world.block sector) ∨ ∃ error, result = .error error) :=
          onWorld_ensures ((blockRead_spec .data sector after.world).mono fun result world ends =>
            ends.2.imp id (Exists.imp fun error cause => cause.1))
        refine Effect.Ensures.bind fetched ?_ (fun error final _ => (by rintro _ ⟨⟩))
        rintro bytes final (same | ⟨_, same⟩)
        · cases same
          intro answered done index inside
          cases done
          rw [← reflects.disk, disk, (place index inside).1, held, looked.2.block]
          dsimp only
          rw [(place index inside).2, overlay_inside (Nat.zero_le _) (by omega), Nat.sub_zero]
        · cases same
    · cases error with
      | enodata => exact absurd rfl other
      | _ =>
        intro _ same
        cases same

section Write
variable (params : Params)

omit [Kernel] in
/-- A block written in place: the merged buffer differs from the old contents in
the fragment only. -/
private theorem overlay_block_fragment {contents buffer source : Nat → UInt8} {block place bytes : Nat}
    (inside : place + bytes ≤ blockBytes)
    (kept : ∀ index < blockBytes, index < place ∨ place + bytes ≤ index → buffer index = contents (block + index)) :
    overlay contents block blockBytes (overlay buffer place bytes source) = overlay contents (block + place) bytes source := by
  funext address
  by_cases low : address < block
  · rw [overlay_outside (Or.inl low), overlay_outside (by omega)]
  by_cases high : block + blockBytes ≤ address
  · rw [overlay_outside (Or.inr high), overlay_outside (by omega)]
  rw [overlay_inside (by omega) (by omega)]
  by_cases within : place ≤ address - block ∧ address - block < place + bytes
  · rw [overlay_inside within.1 within.2, overlay_inside (by omega) (by omega)]
    congr 1
    omega
  · rw [overlay_outside (by omega), overlay_outside (by omega), kept _ (by omega) (by omega)]
    congr 1
    omega

/-- What an append makes of the target. -/
theorem append_reflects {machine : Machine} {sector : Nat} (bytes : Nat → UInt8)
    (reflects : Reflects machine log limit contents) (aligned : sector % blockSectors = 0) (inside : sector < limit) :
    Effect.Ensures (appendWrite params sector bytes) machine (fun result after =>
      (result = .ok () → Reflects after log limit (overlay contents (sector * sectorBytes) blockBytes bytes)) ∧
      ∀ error, result = .error error → Reflects after log limit contents) := by
  refine (reflects.serving.append params bytes aligned inside).mono ?_
  rintro result after ⟨serving, appends⟩
  have distinct := reflects.distinct.later appends.beside.later
  exact ⟨fun done => ⟨serving, distinct, by rw [(appends.written done).1 trivial, reflects.disk]⟩,
    fun error failed => ⟨serving, distinct, by rw [(appends.refused error failed).1 trivial, reflects.disk]⟩⟩

/-- One iteration of `zns_lsm_write_partial`: the fragment is on the target, or
nothing changed. -/
theorem writeFragment_spec {machine : Machine} {sector remaining bioOffset : Nat} {bio : Bio} (buffer : Nat → UInt8)
    (reflects : Reflects machine log limit contents) (inside : sector < limit) (more : remaining ≠ 0)
    (room : bioOffset + remaining * sectorBytes ≤ bio.size) :
    Effect.Ensures (writeFragment params sector remaining bioOffset bio buffer) machine (fun result after =>
      (∀ buffer, result = .ok buffer → Reflects after log limit (overlay contents (sector * sectorBytes)
        (fragmentSectors sector remaining * sectorBytes) fun index => bio.data (bioOffset + index))) ∧
      ∀ error, result = .error error → Reflects after log limit contents) := by
  obtain ⟨some_, short, within, low, aligned⟩ := fragment_bounds sector more
  unfold writeFragment
  dsimp only
  generalize fragmentSectors sector remaining = sectors at some_ short within
  generalize fragmentOffset sector = offset at within low aligned
  have fits : sectors * sectorBytes ≤ remaining * sectorBytes := Nat.mul_le_mul_right _ short
  have placed : (sector - offset) * sectorBytes + offset * sectorBytes = sector * sectorBytes := by
    rw [← Nat.add_mul, Nat.sub_add_cancel low]
  have inBlock : offset * sectorBytes + sectors * sectorBytes ≤ blockBytes := by
    simp only [sectorBytes, blockBytes, blockSectors] at within ⊢
    omega
  -- Shared by both ways to get a buffer: outside the fragment it holds the block.
  have rest {machine : Machine} (reflects : Reflects machine log limit contents) (buffer : Nat → UInt8)
      (kept : ∀ index < blockBytes, index < offset * sectorBytes ∨ offset * sectorBytes + sectors * sectorBytes ≤ index →
        buffer index = contents ((sector - offset) * sectorBytes + index)) :
      Effect.Ensures (appendMerged params offset sectors (sector - offset) bioOffset bio buffer) machine (fun result after =>
        (∀ buffer, result = .ok buffer → Reflects after log limit (overlay contents (sector * sectorBytes)
          (sectors * sectorBytes) fun index => bio.data (bioOffset + index))) ∧
        ∀ error, result = .error error → Reflects after log limit contents) := by
    obtain ⟨copy, ran, merged⟩ := @copyFragment_fromBio bio bioOffset (offset * sectorBytes) (sectors * sectorBytes) buffer
      (Nat.mul_pos some_ (by decide)) (by omega)
    unfold appendMerged
    rw [ran]
    refine Effect.Ensures.bind (append_reflects params copy.buffer reflects aligned (by omega)) ?_ ?_
    · rintro _ after ⟨written, _⟩
      refine ⟨fun _ _ => ?_, (by rintro _ ⟨⟩)⟩
      have written := written rfl
      rw [merged, overlay_block_fragment inBlock kept, placed] at written
      exact written
    · rintro error after ⟨_, unchanged⟩
      exact ⟨(by rintro _ ⟨⟩), fun _ _ => unchanged error rfl⟩
  split
  · refine Effect.Ensures.bind (fetchBlock_spec reflects aligned) ?_ ?_
    · rintro fetched after ⟨same, held⟩
      exact rest (reflects.same same) fetched (fun index bound _ => held fetched rfl index bound)
    · rintro error after ⟨same, _⟩
      exact ⟨(by rintro _ ⟨⟩), fun _ _ => reflects.same same⟩
  next full =>
    refine rest reflects buffer (fun index bound outside => ?_)
    obtain ⟨rfl, rfl⟩ : offset = 0 ∧ sectors = blockSectors := by omega
    simp only [sectorBytes, blockBytes, blockSectors] at bound outside
    omega

/-- How a write request of `sectors` sectors may end: the sectors before those
left are on the target, and none are left after a success. -/
structure Writes (outcome : WriteOutcome) (after : Machine) (log : Extent) (limit : Nat) (contents : Nat → UInt8)
    (sector sectors : Nat) (data : Nat → UInt8) : Prop where
  bounded : outcome.remaining ≤ sectors
  finished : outcome.status = .ok () → outcome.remaining = 0
  reflects : Reflects after log limit
    (overlay contents (sector * sectorBytes) ((sectors - outcome.remaining) * sectorBytes) data)

theorem Writes.none {machine : Machine} {sector sectors : Nat} {data : Nat → UInt8} {error : Errno}
    (reflects : Reflects machine log limit contents) :
    Writes ⟨.error error, sectors⟩ machine log limit contents sector sectors data := by
  refine ⟨Nat.le_refl _, nofun, ?_⟩
  rw [Nat.sub_self, Nat.zero_mul, overlay_zero]
  exact reflects

/-- The loop of `zns_lsm_write_partial`: fragments land one after the other. -/
theorem writeFragments_spec (rounds : Nat) {sector remaining bioOffset : Nat} {bio : Bio} {buffer : Nat → UInt8}
    {machine : Machine} (reflects : Reflects machine log limit contents) (enough : remaining ≤ rounds)
    (inside : sector + remaining ≤ limit) (room : bioOffset + remaining * sectorBytes ≤ bio.size) :
    Writes (writeFragments params rounds sector remaining bioOffset bio buffer machine).1
      (writeFragments params rounds sector remaining bioOffset bio buffer machine).2 log limit contents sector remaining
      fun index => bio.data (bioOffset + index) := by
  induction rounds generalizing sector remaining bioOffset buffer machine contents with
  | zero =>
    refine ⟨Nat.le_refl _, fun _ => Nat.le_zero.mp enough, ?_⟩
    rw [writeFragments, Nat.sub_self, Nat.zero_mul, overlay_zero]
    exact reflects
  | succ rounds ih =>
    rw [writeFragments]
    split
    next none_ =>
      refine ⟨Nat.le_refl _, fun _ => none_, ?_⟩
      rw [Nat.sub_self, Nat.zero_mul, overlay_zero]
      exact reflects
    next more =>
      have step := writeFragment_spec params buffer reflects (show sector < limit by omega) more room
      unfold Effect.Ensures at step
      split
      next error after ran =>
        rw [ran] at step
        exact .none (step.2 error rfl)
      next merged after ran =>
        rw [ran] at step
        have reflects := step.1 merged rfl
        obtain ⟨some_, short, _⟩ := fragment_bounds sector more
        dsimp only
        generalize fragmentSectors sector remaining = sectors at some_ short reflects
        have split_ : remaining * sectorBytes = sectors * sectorBytes + (remaining - sectors) * sectorBytes := by
          rw [← Nat.add_mul, Nat.add_sub_cancel' short]
        obtain ⟨bounded, finished, reflects⟩ := @ih _ (sector + sectors) (remaining - sectors) (bioOffset + sectors * sectorBytes)
          merged after reflects (by omega) (by omega) (by omega)
        refine ⟨bounded.trans (Nat.sub_le _ _), finished, ?_⟩
        generalize writeFragments params rounds (sector + sectors) (remaining - sectors) (bioOffset + sectors * sectorBytes)
          bio merged after = ends at bounded reflects ⊢
        have joined := overlay_append contents (fun index => bio.data (bioOffset + index)) (sector * sectorBytes)
          (sectors * sectorBytes) ((remaining - sectors - ends.1.remaining) * sectorBytes)
        have count : sectors * sectorBytes + (remaining - sectors - ends.1.remaining) * sectorBytes =
            (remaining - ends.1.remaining) * sectorBytes := by
          rw [← Nat.add_mul, show sectors + (remaining - sectors - ends.1.remaining) = remaining - ends.1.remaining by omega]
        rw [count] at joined
        rw [← joined]
        simp only [Nat.add_mul, Nat.add_assoc] at reflects ⊢
        exact reflects

/-- The write half of the I/O worker. -/
theorem ioWrite_spec {bio : Bio} {machine : Machine} (reflects : Reflects machine log limit contents)
    (positive : 0 < bio.sectors) (inside : bio.sector + bio.sectors ≤ limit) :
    Writes (ioWrite params bio machine).1 (ioWrite params bio machine).2 log limit contents bio.sector bio.sectors bio.data := by
  have allocated := allocate_same machine
  unfold Effect.Ensures at allocated
  unfold ioWrite
  split
  · unfold writePartial
    split
    · exact .none reflects
    · split
      next ran =>
        rw [ran] at allocated
        exact .none (reflects.same allocated)
      next after ran =>
        rw [ran] at allocated
        have room : 0 + bio.sectors * sectorBytes ≤ bio.size := by
          rw [Nat.zero_add]
          exact Nat.div_mul_le_self _ _
        have spec := @writeFragments_spec _ _ _ _ params bio.sectors bio.sector bio.sectors 0 bio (fun _ => 0) after
          (reflects.same allocated) (Nat.le_refl _) inside room
        simp only [Nat.zero_add] at spec
        exact spec
  next aligned =>
    simp only [isAlignedIo, Bool.not_eq_false, decide_eq_true_eq] at aligned
    split
    next ran =>
      rw [ran] at allocated
      exact .none (reflects.same allocated)
    next after ran =>
      rw [ran] at allocated
      have appended := append_reflects params bio.data (reflects.same allocated) aligned.2 (by omega)
      unfold Effect.Ensures at appended
      split
      next error final ran =>
        rw [ran] at appended
        exact .none (appended.2 error rfl)
      next final ran =>
        rw [ran] at appended
        refine ⟨Nat.zero_le _, fun _ => rfl, ?_⟩
        rw [Nat.sub_zero, aligned.1]
        exact appended.1 rfl

end Write

omit [Kernel] in
/-- No engine ever wrote to this device's log zone. -/
def Unformatted (world : World) : Prop :=
  ∃ data log, world.geometry.zones = data ++ [log] ∧ world.LogEnd data.length log log.start

omit [Kernel] in
/-- A start that formats its device finds no tables on it. -/
theorem engineInit_formats {params : Params} {uuid logicalSectors physicalSectors sectorsPerBlock : Nat} {world after : World}
    {lsm : Lsm} (ran : engineInit params uuid logicalSectors physicalSectors sectorsPerBlock world = (.ok lsm, after))
    (unformatted : Unformatted world) : lsm.sstables = [] ∧ lsm.residents = [Memtable.init] := by
  obtain ⟨data, log, split, ends⟩ := unformatted
  obtain ⟨opened, opening, started⟩ := engineInit_ok split ran
  obtain ⟨_, _, tables, flushing⟩ := started.idle opening
  refine ⟨?_, by rw [residents, Generations.tables, tables, flushing]; rfl⟩
  obtain ⟨rebuilt, reserve, vacant, ⟨recovered, walked, rebuilds⟩, _, _, engine, _⟩ := started
  have reindexes := gcRebuild_reindexes recovered
  unfold Effect.Ensures at reindexes
  rw [rebuilds] at reindexes
  dsimp only at engine
  rw [engine, reindexes.engine]
  dsimp only
  have pointer : opened.lsm.metaWp = opened.lsm.metaStart + blockSectors := by
    obtain ⟨middle, _, opens⟩ := opening.opening
    generalize opened.lsm.metaStart = metaStart, opened.lsm.metaWp = metaWp, opened.lsm.metaEnd = metaEnd,
      opened.lsm.super = super at opens
    cases opens with
    | found _ found used => exact absurd (found.trans ends.symm) used
    | formatted => rfl
  rw [recoverSstables, Effect.get_bind_run, recoverFrom, Effect.get_bind_run, pointer,
    if_neg (Nat.lt_irrefl _)] at walked
  cases walked
  rw [opening.engine]
  rfl

omit [Kernel] in
/-- The flat array after an event: a write changes the sectors of the fragments
that completed, which are those before the ones left. -/
def contentsAfter (contents : Nat → UInt8) : Event → Option Reply → Nat → UInt8
  | .bio bio, some (.wrote outcome) =>
    overlay contents (bio.sector * sectorBytes) ((bio.sectors - outcome.remaining) * sectorBytes) bio.data
  | _, _ => contents

omit [Kernel] in
/-- A reply a flat array with these contents could give. -/
def Expected (contents : Nat → UInt8) : Event → Option Reply → Prop
  | .bio bio, some (.read (.ok answered)) =>
    ∀ index < bio.size, answered.data index = contents (bio.sector * sectorBytes + index)
  | .bio bio, some (.wrote outcome) => outcome.remaining ≤ bio.sectors ∧ (outcome.status = .ok () → outcome.remaining = 0)
  | _, _ => True

/-- Over these events the machine is a flat array with these contents at first:
it shows them, and every reply is one the array could give. -/
def Faithful (params : Params) : List Event → Machine → (Nat → UInt8) → Prop
  | [], machine, contents => disk machine = contents
  | event :: events, machine, contents =>
    disk machine = contents ∧ Expected contents event (handle params event machine).1 ∧
      Faithful params events (handle params event machine).2 (contentsAfter contents event (handle params event machine).1)

section Events
variable (params : Params) {machine : Machine} (reflects : Reflects machine log limit contents)
include reflects

theorem queueIo_reflects (bio : Bio) (ranged : bio.op = .read ∨ bio.op = .write → InRange machine.lsm bio) :
    Expected contents (.bio bio) (some (queueIo params bio machine).1) ∧
      Reflects (queueIo params bio machine).2 log limit
        (contentsAfter contents (.bio bio) (some (queueIo params bio machine).1)) := by
  have allocated := allocate_same machine
  unfold Effect.Ensures at allocated
  unfold queueIo
  split
  next ran =>
    rw [ran] at allocated
    exact ⟨trivial, reflects.same allocated⟩
  next after ran =>
    rw [ran] at allocated
    have reflects' := reflects.same allocated
    unfold ioWorker
    split
    next reads =>
      obtain ⟨_, whole, _, _⟩ := ranged (Or.inl reads)
      have same := ioRead_same bio after
      have spec := ioRead_spec reflects' whole
      unfold Effect.Ensures at same spec
      refine ⟨?_, reflects'.same same⟩
      cases result : (ioRead bio after).1 with
      | ok answered => exact spec answered result
      | error error => trivial
    next writes =>
      obtain ⟨some_, whole, low, fits⟩ := ranged (Or.inr writes)
      have positive : 0 < bio.sectors := by
        simp only [Bio.sectors, sectorBytes] at whole ⊢
        omega
      have bound := reflects.serving.coherent.logicalSectors
      have inside : bio.sector + bio.sectors ≤ limit := by omega
      obtain ⟨bounded, finished, written⟩ := ioWrite_spec params reflects' positive inside
      exact ⟨⟨bounded, finished⟩, written⟩
    next =>
      have same := ioFlush_same after
      unfold Effect.Ensures at same
      exact ⟨trivial, reflects'.same same⟩
    next => exact ⟨trivial, reflects'⟩

/-- One event of a faithful machine. -/
theorem handle_reflects (event : Event) : Expected contents event (handle params event machine).1 ∧
    Reflects (handle params event machine).2 log limit (contentsAfter contents event (handle params event machine).1) := by
  cases event with
  | flushWork =>
    have flushed := flushWorker_flushed reflects.serving.coherent fun _ => reflects.distinct
    exact ⟨trivial, reflects.serving.flushWorker fun _ => reflects.distinct, reflects.distinct.later flushed.flushes.later,
      (flushed.disk reflects.serving.coherent trivial).trans reflects.disk⟩
  | bio bio =>
    rw [handle]
    unfold engineMap
    split
    next flushes => exact queueIo_reflects params reflects bio (by simp only [flushes]; nofun)
    next => split
            next ranged => exact queueIo_reflects params reflects bio fun _ => ranged
            next => exact ⟨trivial, reflects⟩
    next => split
            next ranged => exact queueIo_reflects params reflects bio fun _ => ranged
            next => exact ⟨trivial, reflects⟩
    next => exact ⟨trivial, reflects⟩

end Events

theorem Reflects.faithful (params : Params) (events : List Event) {machine : Machine}
    (reflects : Reflects machine log limit contents) : Faithful params events machine contents := by
  induction events generalizing machine contents with
  | nil => exact reflects.disk
  | cons event events ih =>
    obtain ⟨expected, after⟩ := handle_reflects params reflects event
    exact ⟨reflects.disk, expected, ih after⟩

omit [Kernel] in
/-- Nothing was written to a target without tables. -/
theorem disk_unwritten {machine : Machine} (tables : machine.lsm.sstables = [])
    (residents : machine.lsm.residents = [Memtable.init]) : disk machine = fun _ => 0 := by
  funext address
  have unmapped : mapping machine (address / blockBytes) = none := by
    rw [mapping, layers, tables, residents]
    rfl
  rw [disk, unmapped]

omit [Kernel] in
theorem fresh_unformatted : Unformatted (World.fresh smallGeometry) :=
  ⟨[⟨0, 32, 32⟩, ⟨32, 32, 32⟩], ⟨64, 64, 64⟩, rfl, rfl⟩

omit [Kernel] in
/-- A read of one block. -/
def readBlock (logicalBlock : Nat) : Event := .bio ⟨.read, logicalBlock * blockSectors, [blockBytes], fun _ => 0⟩

omit [Kernel] in
/-- A block is written, its table flushed, and the block read. -/
def writeFlushRead : List Event := [writeBlock 0 1, .flushWork, readBlock 0]

omit [Kernel] in
/-- The byte at the start of what a read returned. -/
def Reply.firstByte : Option Reply → Option UInt8
  | some (.read (.ok answered)) => some (answered.data 0)
  | _ => none

omit [Kernel] in
/-- The sectors a write left. -/
def Reply.left : Option Reply → Option Nat
  | some (.wrote outcome) => some outcome.remaining
  | _ => none

private theorem Faithful.reads_back {params : Params} {machine : Machine} {contents : Nat → UInt8}
    (faithful : Faithful params writeFlushRead machine contents) {byte : UInt8}
    (wrote : Reply.left (handle params (writeBlock 0 1) machine).1 = some 0)
    (answered : Reply.firstByte (handle params (readBlock 0) (run params [writeBlock 0 1, .flushWork] machine)).1 = some byte) :
    byte = 1 := by
  obtain ⟨_, _, _, _, _, expected, _⟩ := faithful
  change Reply.firstByte (handle params (readBlock 0) (handle params .flushWork
    (handle params (writeBlock 0 1) machine).2).2).1 = some byte at answered
  generalize (handle params (readBlock 0) (handle params .flushWork (handle params (writeBlock 0 1) machine).2).2).1 = reply
    at answered expected
  generalize (handle params (writeBlock 0 1) machine).1 = first at wrote expected
  match reply, answered with
  | some (.read (.ok bio)), answered =>
    match first, wrote with
    | some (.wrote outcome), wrote =>
      have begins := expected 0 (by decide)
      rw [← Option.some.inj answered, begins]
      dsimp only [contentsAfter, writeBlock, handle]
      rw [Option.some.inj wrote, overlay_inside (by decide) (by decide)]

end Lsm
end ZnsBase
