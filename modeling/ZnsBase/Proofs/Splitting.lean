import ZnsBase.Proofs.Fragments
import ZnsBase.Proofs.Sessions

/-! The device mapper splits bios before they are mapped. Where the parts meet at
block boundaries, serving them in turn is serving the bio: the fast path for whole
blocks, the fragment loops and the bounce buffer all agree. -/

namespace ZnsBase
open Library

namespace Lsm

/-- Memory is never short. -/
def Ample (world : World) : Prop := world.oracle.alloc = Stream'.const true

theorem Ample.later {before after : World} (ample : Ample before) (later : before.oracle.Later after.oracle) : Ample after := by
  obtain ⟨allocs, _, _, same, _⟩ := later
  rw [Ample, same, ample]
  rfl

theorem allocate_ample {machine : Machine} (ample : Ample machine.world) : onWorld allocate machine = (.ok (), machine) := by
  obtain ⟨lsm, world⟩ := machine
  obtain ⟨geometry, writePointer, condition, media, fullAtLength, ⟨alloc, data, metadata⟩, submitted⟩ := world
  cases show alloc = Stream'.const true from ample
  rfl

section Bytes
variable {bytes other : Nat → UInt8} (same : ∀ index < blockBytes, bytes index = other index)
include same

/-- A data write takes one block of its buffer. -/
theorem blockWrite_congr (lane : Lane) (sector : Nat) : blockWrite lane sector bytes = blockWrite lane sector other := by
  have commits (world : World) (index : Nat) (extent : Extent) :
      world.commit index extent sector bytes = world.commit index extent sector other := by
    simp only [World.commit, overlay_congr same]
  simp only [blockWrite, submit, commits]

theorem appendWrite_congr [Kernel] (params : Params) (sector : Nat) : appendWrite params sector bytes = appendWrite params sector other := by
  have submits (failAt attempt physicalSector : Nat) :
      submitUnlessInjected failAt attempt physicalSector bytes = submitUnlessInjected failAt attempt physicalSector other := by
    simp only [submitUnlessInjected, blockWrite_congr same]
  simp only [appendWrite, submits]

end Bytes

/-- The loops over the fragments of a request, without the bio it came in. -/
def readPart (sector : Nat) : Effect Machine Errno (Nat → UInt8) := do
  let buffer ← fetchBlock (sector - fragmentOffset sector)
  pure fun index => buffer (fragmentOffset sector * sectorBytes + index)

def readParts : Nat → Nat → Nat → Effect Machine Errno (Nat → UInt8)
  | 0, _, _ => pure fun _ => 0
  | rounds + 1, sector, remaining =>
    if remaining = 0 then pure fun _ => 0
    else do
      let sectors := fragmentSectors sector remaining
      let bytes ← readPart sector
      let more ← readParts rounds (sector + sectors) (remaining - sectors)
      pure (splice (sectors * sectorBytes) bytes more)

section Read
variable {rounds sector : Nat}

theorem readParts_succ {remaining : Nat} (more : remaining ≠ 0) (machine : Machine) : readParts (rounds + 1) sector remaining machine =
    match readPart sector machine with
    | (.error error, after) => (.error error, after)
    | (.ok bytes, after) =>
      match readParts rounds (sector + fragmentSectors sector remaining) (remaining - fragmentSectors sector remaining) after with
      | (.error error, last) => (.error error, last)
      | (.ok rest, last) => (.ok (splice (fragmentSectors sector remaining * sectorBytes) bytes rest), last) := by
  rw [readParts, if_neg more]
  split
  next ran => exact Effect.bind_error ran
  next bytes after ran =>
    rw [Effect.bind_ok ran]
    split
    next ran => exact Effect.bind_error ran
    next ran => exact Effect.bind_ok ran

theorem readParts_enough {more remaining : Nat} (machine : Machine) (enough : remaining ≤ rounds) (beyond : rounds ≤ more) :
    readParts more sector remaining machine = readParts rounds sector remaining machine := by
  induction rounds generalizing more sector remaining machine with
  | zero =>
    obtain rfl : remaining = 0 := by omega
    cases more <;> rfl
  | succ rounds ih =>
    obtain ⟨more, rfl⟩ : ∃ others, more = others + 1 := ⟨more - 1, by omega⟩
    by_cases none_ : remaining = 0
    · subst none_
      rfl
    · obtain ⟨positive, short, _⟩ := fragment_bounds sector none_
      rw [readParts_succ none_, readParts_succ none_]
      split
      · rfl
      · rw [ih _ (by omega) (by omega)]

theorem readParts_split (rounds : Nat) {sector first rest : Nat} (machine : Machine) (enough : first + rest ≤ rounds)
    (boundary : (sector + first) % blockSectors = 0) : readParts rounds sector (first + rest) machine =
      match readParts rounds sector first machine with
      | (.error error, after) => (.error error, after)
      | (.ok bytes, after) =>
        match readParts rounds (sector + first) rest after with
        | (.error error, last) => (.error error, last)
        | (.ok more, last) => (.ok (splice (first * sectorBytes) bytes more), last) := by
  induction rounds generalizing sector first machine with
  | zero =>
    obtain ⟨rfl, rfl⟩ : first = 0 ∧ rest = 0 := by omega
    exact congrArg (fun bytes => ((.ok bytes : Except Errno (Nat → UInt8)), machine)) (by rw [Nat.zero_mul, splice_zero])
  | succ rounds ih =>
    by_cases none_ : first = 0
    · subst none_
      rw [show readParts (rounds + 1) sector 0 machine = (.ok fun _ => 0, machine) from rfl]
      simp only [Nat.zero_add, Nat.zero_mul, splice_zero, Nat.add_zero]
      split
      next ran => exact ran
      next ran => exact ran
    · have whole : fragmentSectors sector (first + rest) = fragmentSectors sector first := by
        simp only [fragmentSectors, fragmentOffset, blockSectors] at *
        omega
      obtain ⟨positive, short, _, _, _⟩ := fragment_bounds sector none_
      have ends : (sector + fragmentSectors sector first + (first - fragmentSectors sector first)) % blockSectors = 0 := by
        rw [Nat.add_assoc, Nat.add_sub_cancel' short]
        exact boundary
      rw [readParts_succ (by omega), whole, readParts_succ none_]
      cases readPart sector machine with
      | mk result after =>
        cases result with
        | error error => rfl
        | ok bytes =>
          dsimp only
          rw [show first + rest - fragmentSectors sector first = (first - fragmentSectors sector first) + rest by omega,
            ih after (by omega) ends, Nat.add_assoc sector, Nat.add_sub_cancel' short]
          cases readParts rounds (sector + fragmentSectors sector first) (first - fragmentSectors sector first) after with
          | mk result after =>
            cases result with
            | error error => rfl
            | ok more =>
              dsimp only
              rw [readParts_enough after (show rest ≤ rounds by omega) (Nat.le_succ _)]
              cases readParts rounds (sector + first) rest after with
              | mk result last =>
                cases result with
                | error error => rfl
                | ok rest' =>
                  dsimp only
                  rw [splice_splice, ← Nat.add_mul, Nat.add_sub_cancel' short]

theorem readFragments_parts (rounds : Nat) {sector remaining bioOffset : Nat} {bio : Bio} (machine : Machine)
    (enough : remaining ≤ rounds) (room : bioOffset + remaining * sectorBytes ≤ bio.size) :
    readFragments rounds sector remaining bioOffset bio machine =
      match readParts rounds sector remaining machine with
      | (.error error, after) => (.error error, after)
      | (.ok bytes, after) => (.ok { bio with data := overlay bio.data bioOffset (remaining * sectorBytes) bytes }, after) := by
  induction rounds generalizing sector remaining bioOffset bio machine with
  | zero =>
    obtain rfl : remaining = 0 := by omega
    rw [Nat.zero_mul]
    simp only [readParts, Effect.pure_run, overlay_zero]
    rfl
  | succ rounds ih =>
    by_cases none_ : remaining = 0
    · subst none_
      rw [Nat.zero_mul]
      simp only [readParts, if_true, Effect.pure_run, overlay_zero]
      rfl
    · obtain ⟨positive, short, inside, _, _⟩ := fragment_bounds sector none_
      have covered : bioOffset + fragmentSectors sector remaining * sectorBytes ≤ bio.size := by
        have := Nat.mul_le_mul_right sectorBytes short
        omega
      rw [readFragments, if_neg none_, readParts_succ none_]
      cases fetched : fetchBlock (sector - fragmentOffset sector) machine with
      | mk result after =>
        cases result with
        | error error =>
          rw [Effect.bind_error fetched, show readPart sector machine = (.error error, after) from Effect.bind_error fetched]
        | ok buffer =>
          rw [Effect.bind_ok fetched, show readPart sector machine =
            (.ok fun index => buffer (fragmentOffset sector * sectorBytes + index), after) from Effect.bind_ok fetched]
          obtain ⟨final, ran, same⟩ := @copyFragment_toBio bio bioOffset (fragmentOffset sector * sectorBytes)
            _ buffer (Nat.mul_pos positive (by decide)) covered
          rw [ran]
          dsimp only
          rw [ih after (by omega) ?_]
          · cases readParts rounds (sector + fragmentSectors sector remaining) (remaining - fragmentSectors sector remaining) after with
            | mk result last =>
              cases result with
              | error error => rfl
              | ok rest =>
                dsimp only
                rw [same, overlay_splice, ← Nat.add_mul, Nat.add_sub_cancel' short]
          · rw [Nat.sub_mul]
            have := Nat.mul_le_mul_right sectorBytes short
            change bioOffset + _ + _ ≤ bio.size
            omega

/-- The fast path for one block reads what the fragment loop would. -/
theorem ioRead_parts (bio : Bio) {machine : Machine} (ample : Ample machine.world) (whole : bio.size = bio.sectors * sectorBytes) :
    ioRead bio machine = match readParts bio.sectors bio.sector bio.sectors machine with
      | (.error error, after) => (.error error, after)
      | (.ok bytes, after) => (.ok { bio with data := overlay bio.data 0 bio.size bytes }, after) := by
  by_cases aligned : isAlignedIo bio.sector bio.sectors = false
  · rw [ioRead, if_pos aligned, readPartial, Effect.bind_ok (allocate_ample ample), readFragments_parts _ _ le_rfl (by omega), whole]
  ·
    obtain ⟨eight, start⟩ : bio.sectors = blockSectors ∧ bio.sector % blockSectors = 0 := by
      simpa [isAlignedIo] using aligned
    have offset : fragmentOffset bio.sector = 0 := start
    have sectors : fragmentSectors bio.sector (7 + 1) = blockSectors := by
      rw [fragmentSectors, offset]
      rfl
    have one : readPart bio.sector machine = (fetchBlock bio.sector >>= fun buffer => pure fun index => buffer index) machine := by
      simp only [readPart, offset, Nat.sub_zero, Nat.zero_mul, Nat.zero_add]
    -- Both bring in the block the same way.
    have fast : ioRead bio machine = match fetchBlock bio.sector machine with
        | (.error error, after) => (.error error, after)
        | (.ok block, after) => (.ok { bio with data := overlay bio.data 0 bio.size block }, after) := by
      unfold ioRead fetchBlock
      rw [if_neg aligned, Effect.bind_ok (allocate_ample ample), eight, Effect.attempt_bind_run, Effect.attempt_bind_run]
      cases read bio.sector blockSectors machine with
      | mk result after =>
        cases result with
        | error error => cases error <;> rfl
        | ok physicalSector =>
          dsimp only
          cases ran : onWorld (blockRead .data physicalSector) after with
          | mk result last =>
            cases result with
            | error error => exact Effect.bind_error ran
            | ok block => exact Effect.bind_ok ran
    rw [fast, whole, eight, show blockSectors = 7 + 1 from rfl, readParts_succ (Nat.succ_ne_zero 7), sectors, one]
    cases fetched : fetchBlock bio.sector machine with
    | mk result after =>
      cases result with
      | error error => rw [Effect.bind_error fetched]
      | ok block =>
        rw [Effect.bind_ok fetched]
        have spliced : overlay bio.data 0 (blockSectors * sectorBytes) (splice (blockSectors * sectorBytes) (fun index => block index)
            fun _ => 0) = overlay bio.data 0 (blockSectors * sectorBytes) block := overlay_congr fun index inside => if_pos inside
        exact congrArg (fun data => ((.ok { bio with data } : Except Errno Bio), after)) spliced.symm

theorem readParts_same (rounds sector remaining : Nat) (machine : Machine) :
    Effect.Ensures (readParts rounds sector remaining) machine (fun _ after => Same machine after) := by
  induction rounds generalizing sector remaining machine with
  | zero => exact .refl _
  | succ rounds ih =>
    unfold readParts
    split
    · exact .refl _
    · have part : Effect.Ensures (readPart sector) machine (fun _ after => Same machine after) :=
        Effect.Ensures.bind (fetchBlock_same _ machine) (fun _ _ same => same) fun _ _ same => same
      refine Effect.Ensures.bind part ?_ fun _ _ same => same
      intro bytes after same
      exact Effect.Ensures.bind (ih _ _ after) (fun _ _ later => same.trans later) fun _ _ later => same.trans later

/-- Nothing follows what was read. -/
theorem readParts_ends (rounds : Nat) {sector remaining : Nat} {machine after : Machine} {bytes : Nat → UInt8}
    (ran : readParts rounds sector remaining machine = (.ok bytes, after)) (enough : remaining ≤ rounds) :
    splice (remaining * sectorBytes) bytes (fun _ => 0) = bytes := by
  induction rounds generalizing sector remaining machine bytes after with
  | zero =>
    obtain rfl : remaining = 0 := by omega
    cases ran
    rw [Nat.zero_mul, splice_zero]
  | succ rounds ih =>
    by_cases none_ : remaining = 0
    · subst none_
      cases ran
      rw [Nat.zero_mul, splice_zero]
    · obtain ⟨positive, short, _⟩ := fragment_bounds sector none_
      rw [readParts_succ none_] at ran
      split at ran
      · cases ran
      next first middle _ =>
        split at ran
        · cases ran
        next rest last more =>
          cases ran
          have ends := ih more (by omega)
          have count : remaining * sectorBytes = fragmentSectors sector remaining * sectorBytes +
              (remaining - fragmentSectors sector remaining) * sectorBytes := by rw [← Nat.add_mul, Nat.add_sub_cancel' short]
          rw [count, ← splice_splice, ends]

end Read

section Write
variable [Kernel]

def writePart (params : Params) (sector sectors : Nat) (source : Nat → UInt8) : Effect Machine Errno Unit := do
  let offset := fragmentOffset sector
  let buffer ← if offset ≠ 0 ∨ sectors ≠ blockSectors then fetchBlock (sector - offset) else pure fun _ => 0
  appendWrite params (sector - offset) (overlay buffer (offset * sectorBytes) (sectors * sectorBytes) source)

def writeParts (params : Params) : Nat → Nat → Nat → (Nat → UInt8) → Machine → WriteOutcome × Machine
  | 0, _, remaining, _, machine => (⟨.ok (), remaining⟩, machine)
  | rounds + 1, sector, remaining, source, machine =>
    if remaining = 0 then (⟨.ok (), remaining⟩, machine)
    else match writePart params sector (fragmentSectors sector remaining) source machine with
      | (.error error, machine) => (⟨.error error, remaining⟩, machine)
      | (.ok (), machine) =>
        let sectors := fragmentSectors sector remaining
        writeParts params rounds (sector + sectors) (remaining - sectors)
          (fun index => source (sectors * sectorBytes + index)) machine

private theorem appendMerged_eq (params : Params) {offset sectors blockSector bioOffset : Nat} {bio : Bio} (buffer : Nat → UInt8)
    (some_ : 0 < sectors * sectorBytes) (room : bioOffset + sectors * sectorBytes ≤ bio.size) (machine : Machine) :
    ∃ merged, appendMerged params offset sectors blockSector bioOffset bio buffer machine =
      match appendWrite params blockSector
        (overlay buffer (offset * sectorBytes) (sectors * sectorBytes) fun index => bio.data (bioOffset + index)) machine with
      | (.error error, after) => (.error error, after)
      | (.ok (), after) => (.ok merged, after) := by
  obtain ⟨final, ran, same⟩ := @copyFragment_fromBio bio bioOffset (offset * sectorBytes) _ buffer some_ room
  refine ⟨final.buffer, ?_⟩
  unfold appendMerged
  rw [ran, ← same]
  dsimp only
  split
  next failed => exact Effect.bind_error failed
  next done => exact Effect.bind_ok done

theorem writeFragment_part (params : Params) {sector remaining bioOffset : Nat} {bio : Bio} (buffer : Nat → UInt8)
    (more : remaining ≠ 0) (room : bioOffset + remaining * sectorBytes ≤ bio.size) (machine : Machine) :
    ∃ merged, writeFragment params sector remaining bioOffset bio buffer machine =
      match writePart params sector (fragmentSectors sector remaining) (fun index => bio.data (bioOffset + index)) machine with
      | (.error error, after) => (.error error, after)
      | (.ok (), after) => (.ok merged, after) := by
  obtain ⟨some_, short, inside, _, _⟩ := fragment_bounds sector more
  have covered : bioOffset + fragmentSectors sector remaining * sectorBytes ≤ bio.size := by
    have := Nat.mul_le_mul_right sectorBytes short
    omega
  have appended (buffer : Nat → UInt8) (machine : Machine) := @appendMerged_eq _ params (fragmentOffset sector)
    (fragmentSectors sector remaining) (sector - fragmentOffset sector) bioOffset bio buffer (Nat.mul_pos some_ (by decide)) covered machine
  by_cases part : fragmentOffset sector ≠ 0 ∨ fragmentSectors sector remaining ≠ blockSectors
  · have left : writeFragment params sector remaining bioOffset bio buffer machine =
        (fetchBlock (sector - fragmentOffset sector) >>= appendMerged params (fragmentOffset sector)
          (fragmentSectors sector remaining) (sector - fragmentOffset sector) bioOffset bio) machine := by
      simp only [writeFragment, if_pos part]
      rfl
    have right : writePart params sector (fragmentSectors sector remaining) (fun index => bio.data (bioOffset + index)) machine =
        (fetchBlock (sector - fragmentOffset sector) >>= fun buffer => appendWrite params (sector - fragmentOffset sector)
          (overlay buffer (fragmentOffset sector * sectorBytes) (fragmentSectors sector remaining * sectorBytes)
            fun index => bio.data (bioOffset + index))) machine := by
      simp only [writePart, if_pos part]
    rw [left, right]
    cases fetched : fetchBlock (sector - fragmentOffset sector) machine with
    | mk result after =>
      cases result with
      | error error =>
        rw [Effect.bind_error fetched, Effect.bind_error fetched]
        exact ⟨buffer, rfl⟩
      | ok block =>
        rw [Effect.bind_ok fetched, Effect.bind_ok fetched]
        exact appended block after
  · have left : writeFragment params sector remaining bioOffset bio buffer machine =
        appendMerged params (fragmentOffset sector) (fragmentSectors sector remaining) (sector - fragmentOffset sector) bioOffset bio
          buffer machine := by
      simp only [writeFragment, if_neg part]
      rfl
    have right : writePart params sector (fragmentSectors sector remaining) (fun index => bio.data (bioOffset + index)) machine =
        appendWrite params (sector - fragmentOffset sector)
          (overlay (fun _ => 0) (fragmentOffset sector * sectorBytes) (fragmentSectors sector remaining * sectorBytes)
            fun index => bio.data (bioOffset + index)) machine := by
      simp only [writePart, if_neg part]
      rfl
    obtain ⟨offset, whole⟩ : fragmentOffset sector = 0 ∧ fragmentSectors sector remaining = blockSectors := by omega
    -- A whole block leaves nothing of what the buffer held.
    have same : ∀ index < blockBytes,
        overlay (fun _ => 0) (fragmentOffset sector * sectorBytes) (fragmentSectors sector remaining * sectorBytes)
          (fun index => bio.data (bioOffset + index)) index =
        overlay buffer (fragmentOffset sector * sectorBytes) (fragmentSectors sector remaining * sectorBytes)
          (fun index => bio.data (bioOffset + index)) index := by
      intro index bounded
      rw [offset, whole, overlay_inside (by omega) (by simp only [blockSectors, sectorBytes, blockBytes] at *; omega),
        overlay_inside (by omega) (by simp only [blockSectors, sectorBytes, blockBytes] at *; omega)]
    rw [left, right, appendWrite_congr same]
    exact appended buffer machine

theorem writeFragments_parts (params : Params) (rounds : Nat) {sector remaining bioOffset : Nat} {bio : Bio} (buffer : Nat → UInt8)
    (room : bioOffset + remaining * sectorBytes ≤ bio.size) (machine : Machine) :
    writeFragments params rounds sector remaining bioOffset bio buffer machine =
      writeParts params rounds sector remaining (fun index => bio.data (bioOffset + index)) machine := by
  induction rounds generalizing sector remaining bioOffset buffer machine with
  | zero => rfl
  | succ rounds ih =>
    rw [writeFragments, writeParts]
    split
    · rfl
    next more =>
      obtain ⟨_, short, _⟩ := fragment_bounds sector more
      obtain ⟨merged, same⟩ := writeFragment_part params buffer more room machine
      rw [same]
      cases writePart params sector (fragmentSectors sector remaining) (fun index => bio.data (bioOffset + index)) machine with
      | mk result after =>
        cases result with
        | error error => rfl
        | ok =>
          dsimp only
          rw [ih]
          · simp only [Nat.add_assoc]
          · rw [Nat.sub_mul]
            have := Nat.mul_le_mul_right sectorBytes short
            omega

theorem writeParts_enough (params : Params) {rounds more sector remaining : Nat} (source : Nat → UInt8) (machine : Machine)
    (enough : remaining ≤ rounds) (beyond : rounds ≤ more) :
    writeParts params more sector remaining source machine = writeParts params rounds sector remaining source machine := by
  induction rounds generalizing more sector remaining source machine with
  | zero =>
    obtain rfl : remaining = 0 := by omega
    cases more <;> rfl
  | succ rounds ih =>
    obtain ⟨more, rfl⟩ : ∃ others, more = others + 1 := ⟨more - 1, by omega⟩
    rw [writeParts, writeParts]
    split
    · rfl
    next some_ =>
      obtain ⟨positive, short, _⟩ := fragment_bounds sector some_
      split
      · rfl
      · exact ih _ _ (by omega) (by omega)

/-- Two parts that meet where a block ends. -/
theorem writeParts_split (params : Params) (rounds : Nat) {sector first rest : Nat} (source : Nat → UInt8) (machine : Machine)
    (enough : first + rest ≤ rounds) (boundary : (sector + first) % blockSectors = 0) :
    writeParts params rounds sector (first + rest) source machine =
      match writeParts params rounds sector first source machine with
      | (⟨.error error, remaining⟩, after) => (⟨.error error, remaining + rest⟩, after)
      | (⟨.ok (), _⟩, after) =>
        writeParts params rounds (sector + first) rest (fun index => source (first * sectorBytes + index)) after := by
  induction rounds generalizing sector first source machine with
  | zero =>
    obtain ⟨rfl, rfl⟩ : first = 0 ∧ rest = 0 := by omega
    rfl
  | succ rounds ih =>
    by_cases none_ : first = 0
    · subst none_
      simp only [writeParts, Nat.zero_add, Nat.zero_mul, Nat.add_zero, if_true]
    · have whole : fragmentSectors sector (first + rest) = fragmentSectors sector first := by
        simp only [fragmentSectors, fragmentOffset, blockSectors] at *
        omega
      obtain ⟨positive, short, _, _, _⟩ := fragment_bounds sector none_
      have ends : (sector + fragmentSectors sector first + (first - fragmentSectors sector first)) % blockSectors = 0 := by
        rw [Nat.add_assoc, Nat.add_sub_cancel' short]
        exact boundary
      rw [writeParts, if_neg (show first + rest ≠ 0 by omega), whole, writeParts, if_neg none_]
      cases writePart params sector (fragmentSectors sector first) source machine with
      | mk result after =>
        cases result with
        | error error => rfl
        | ok =>
          dsimp only
          rw [show first + rest - fragmentSectors sector first = (first - fragmentSectors sector first) + rest by omega,
            ih _ after (by omega) ends]
          split
          · rfl
          next after' _ =>
            have source_ : (fun index => source (fragmentSectors sector first * sectorBytes +
                ((first - fragmentSectors sector first) * sectorBytes + index))) =
                fun index => source (first * sectorBytes + index) := by
              funext index
              rw [← Nat.add_assoc, ← Nat.add_mul, Nat.add_sub_cancel' short]
            rw [source_, Nat.add_assoc sector, Nat.add_sub_cancel' short]
            exact (writeParts_enough params _ after' (by omega) (Nat.le_succ _)).symm

/-- The fast path for one block writes what the fragment loop would. -/
theorem ioWrite_parts (params : Params) (bio : Bio) {machine : Machine} (ample : Ample machine.world)
    (whole : bio.size = bio.sectors * sectorBytes) : ioWrite params bio machine =
      if machine.lsm.writesStopped then (⟨.error .eio, bio.sectors⟩, machine)
      else writeParts params bio.sectors bio.sector bio.sectors bio.data machine := by
  unfold ioWrite
  split
  next =>
    unfold writePartial
    split
    · rfl
    · rw [allocate_ample ample]
      dsimp only
      rw [writeFragments_parts params _ _ (by omega)]
      simp only [Nat.zero_add]
  next aligned =>
    obtain ⟨eight, start⟩ : bio.sectors = blockSectors ∧ bio.sector % blockSectors = 0 := by
      simpa [isAlignedIo] using aligned
    rw [allocate_ample ample]
    dsimp only
    cases stopped : machine.lsm.writesStopped with
    | true =>
      have refused : appendWrite params bio.sector bio.data machine = (.error .eio, machine) := by simp [appendWrite, stopped]
      rw [refused]
      rfl
    | false =>
      have same : ∀ index < blockBytes,
          overlay (fun _ => 0) (fragmentOffset bio.sector * sectorBytes) (blockSectors * sectorBytes) bio.data index =
            bio.data index := by
        intro index bounded
        rw [fragmentOffset, start, overlay_inside (by omega) (by simp only [blockSectors, sectorBytes, blockBytes] at *; omega)]
        simp
      have one : writePart params bio.sector blockSectors bio.data = appendWrite params bio.sector bio.data := by
        rw [← appendWrite_congr same]
        simp only [writePart, fragmentOffset, start]
        rfl
      have sectors : fragmentSectors bio.sector (7 + 1) = blockSectors := by
        rw [fragmentSectors, fragmentOffset, start]
        rfl
      rw [eight, if_neg Bool.false_ne_true, show blockSectors = 7 + 1 from rfl, writeParts, if_neg (Nat.succ_ne_zero 7), sectors, one]
      cases appendWrite params bio.sector bio.data machine with
      | mk result after =>
        cases result <;> rfl

/-- The outcome of a write without an error is a write without a rest. -/
theorem writeParts_done (params : Params) (rounds : Nat) {sector remaining : Nat} (source : Nat → UInt8) (machine : Machine)
    (enough : remaining ≤ rounds) (done : (writeParts params rounds sector remaining source machine).1.status = .ok ()) :
    (writeParts params rounds sector remaining source machine).1.remaining = 0 := by
  induction rounds generalizing sector remaining source machine with
  | zero => exact Nat.le_zero.mp enough
  | succ rounds ih =>
    rw [writeParts] at done ⊢
    split at done
    next none_ =>
      rw [if_pos none_]
      exact none_
    next more =>
      obtain ⟨positive, short, _⟩ := fragment_bounds sector more
      rw [if_neg more]
      split at done
      · cases done
      · exact ih _ _ (by omega) done

/-- An engine that serves and never lacks memory. -/
structure Steady (machine : Machine) (log : Extent) (limit : Nat) : Prop where
  serving : Serving machine log limit False
  ample : Ample machine.world

variable {log : Extent} {limit : Nat} {machine : Machine}

theorem Steady.same {after : Machine} (steady : Steady machine log limit) (same : Same machine after) : Steady after log limit :=
  ⟨steady.serving.same same, steady.ample.later same.2.later⟩

theorem writePart_keeps (params : Params) (sector sectors : Nat) (source : Nat → UInt8) (steady : Steady machine log limit)
    (inside : sector < limit) : Effect.Ensures (writePart params sector sectors source) machine (fun result after =>
      Steady after log limit ∧ (result = .ok () → after.lsm.writesStopped = false)) := by
  obtain ⟨_, _, _, low, aligned⟩ := fragment_bounds sector Nat.one_ne_zero
  have append {start : Machine} (steady : Steady start log limit) (buffer : Nat → UInt8) :=
    (steady.serving.append params (overlay buffer (fragmentOffset sector * sectorBytes) (sectors * sectorBytes) source) aligned
      (show sector - fragmentOffset sector < limit by omega)).mono fun result after done =>
        (⟨⟨done.1, steady.ample.later done.2.beside.later⟩, fun ok => (done.2.written ok).2.1⟩ :
          Steady after log limit ∧ (result = .ok () → after.lsm.writesStopped = false))
  unfold writePart
  dsimp only
  split
  · refine Effect.Ensures.bind (fetchBlock_same _ machine) (fun buffer after same => append (steady.same same) buffer) ?_
    intro error after same
    exact ⟨steady.same same, by rintro ⟨⟩⟩
  · exact append steady _

/-- Until its first failure a write does not stop the target. -/
theorem writeParts_keeps (params : Params) (rounds : Nat) {sector remaining : Nat} (source : Nat → UInt8)
    (steady : Steady machine log limit) (running : machine.lsm.writesStopped = false) (inside : sector + remaining ≤ limit) :
    Steady (writeParts params rounds sector remaining source machine).2 log limit ∧
      ((writeParts params rounds sector remaining source machine).1.status = .ok () →
        (writeParts params rounds sector remaining source machine).2.lsm.writesStopped = false) := by
  induction rounds generalizing sector remaining source machine with
  | zero => exact ⟨steady, fun _ => running⟩
  | succ rounds ih =>
    rw [writeParts]
    split
    · exact ⟨steady, fun _ => running⟩
    next more =>
      obtain ⟨positive, short, _⟩ := fragment_bounds sector more
      have step := writePart_keeps params sector (fragmentSectors sector remaining) source steady (by omega)
      unfold Effect.Ensures at step
      split
      next ran =>
        rw [ran] at step
        exact ⟨step.1, by rintro ⟨⟩⟩
      next ran =>
        rw [ran] at step
        exact ih _ step.1 (step.2 rfl) (by omega)

end Write

section Parts
variable [Kernel]

omit [Kernel] in
/-- A part of a bio, in segments of its own. -/
def part (bio : Bio) (first : Nat) (segments : List Nat) : Bio :=
  { bio with
    sector := bio.sector + first
    segments
    data := fun index => bio.data (first * sectorBytes + index) }

omit [Kernel] in
/-- The parts of a bio from a sector on; they meet where blocks end. -/
inductive Parts (bio : Bio) : Nat → List Bio → Prop
  | last {first : Nat} {segments : List Nat} (some_ : first < bio.sectors)
      (size : segments.sum = (bio.sectors - first) * sectorBytes) : Parts bio first [part bio first segments]
  | cut {first sectors : Nat} {segments : List Nat} {parts : List Bio} (some_ : 0 < sectors)
      (size : segments.sum = sectors * sectorBytes) (boundary : (bio.sector + first + sectors) % blockSectors = 0)
      (rest : Parts bio (first + sectors) parts) : Parts bio first (part bio first segments :: parts)

/-- Serve the parts of a write one after the other, up to the first that fails. -/
def writeInTurn (params : Params) : List Bio → Machine → WriteOutcome × Machine
  | [], machine => (⟨.ok (), 0⟩, machine)
  | bio :: bios, machine =>
    match engineMap params bio machine with
    | (.wrote ⟨.ok (), _⟩, after) => writeInTurn params bios after
    | (.wrote ⟨.error error, remaining⟩, after) => (⟨.error error, remaining + (bios.map Bio.sectors).sum⟩, after)
    | (_, after) => (⟨.error .eio, bio.sectors + (bios.map Bio.sectors).sum⟩, after)

/-- Serve the parts of a read one after the other, up to the first that fails. -/
def readInTurn (params : Params) : List Bio → Machine → Except Errno (Nat → UInt8) × Machine
  | [], machine => (.ok fun _ => 0, machine)
  | bio :: bios, machine =>
    match engineMap params bio machine with
    | (.read (.ok answered), after) =>
      match readInTurn params bios after with
      | (.error error, last) => (.error error, last)
      | (.ok more, last) => (.ok (splice bio.size answered.data more), last)
    | (.read (.error error), after) => (.error error, after)
    | (_, after) => (.error .eio, after)

variable {log : Extent} {limit : Nat} {machine : Machine}

omit [Kernel] in
theorem part_sectors (bio : Bio) (first : Nat) {count : Nat} {segments : List Nat} (size : segments.sum = count * sectorBytes) :
    (part bio first segments).sectors = count := by
  rw [Bio.sectors, Bio.size, part, size]
  exact Nat.mul_div_cancel _ (by decide)

omit [Kernel] in
theorem Parts.some {bio : Bio} {first : Nat} {parts : List Bio} (split : Parts bio first parts) : first < bio.sectors := by
  induction split with
  | last some_ _ => exact some_
  | cut some_ _ _ _ ih => omega

omit [Kernel] in
theorem Parts.total {bio : Bio} {first : Nat} {parts : List Bio} (split : Parts bio first parts) :
    (parts.map Bio.sectors).sum = bio.sectors - first := by
  induction split with
  | last some_ size => simp [part_sectors bio _ size]
  | cut some_ size _ rest ih =>
    have := rest.some
    rw [List.map_cons, List.sum_cons, part_sectors bio _ size, ih]
    omega

theorem engineMap_steady (params : Params) {bio : Bio} (steady : Steady machine log limit) (ranged : InRange machine.lsm bio) :
    (bio.op = .write → engineMap params bio machine = (.wrote (ioWrite params bio machine).1, (ioWrite params bio machine).2)) ∧
      (bio.op = .read → engineMap params bio machine = (.read (ioRead bio machine).1, (ioRead bio machine).2)) := by
  refine ⟨fun op => ?_, fun op => ?_⟩
  · simp only [engineMap, op, if_pos ranged, queueIo, allocate_ample steady.ample, ioWorker]
  · simp only [engineMap, op, if_pos ranged, queueIo, allocate_ample steady.ample, ioWorker]

theorem Steady.ranged (steady : Steady machine log limit) {bio : Bio} {first count : Nat} {segments : List Nat}
    (size : segments.sum = count * sectorBytes) (some_ : 0 < count) (inside : bio.sector + first + count ≤ limit) :
    InRange machine.lsm (part bio first segments) := by
  have sectors := part_sectors bio first size
  have logical := steady.serving.coherent.logicalSectors
  have same : (part bio first segments).size = count * sectorBytes := size
  refine ⟨?_, ?_, ?_, ?_⟩
  · rw [same]
    exact Nat.pos_iff_ne_zero.mp (Nat.mul_pos some_ (by decide))
  · rw [same, Nat.mul_mod_left]
  · rw [logical]
    change bio.sector + first < limit
    omega
  · rw [logical, sectors]
    change count ≤ limit - (bio.sector + first)
    omega

/-- A part that is a write. -/
theorem engineMap_part (params : Params) (steady : Steady machine log limit) {bio : Bio} (op : bio.op = .write) {first count : Nat}
    {segments : List Nat} (size : segments.sum = count * sectorBytes) (some_ : 0 < count) (inside : bio.sector + first + count ≤ limit) :
    engineMap params (part bio first segments) machine =
      let outcome := if machine.lsm.writesStopped then (⟨.error .eio, count⟩, machine)
        else writeParts params count (bio.sector + first) count (fun index => bio.data (first * sectorBytes + index)) machine
      (.wrote outcome.1, outcome.2) := by
  have sectors := part_sectors bio first size
  have whole : (part bio first segments).size = (part bio first segments).sectors * sectorBytes := by
    rw [sectors]
    exact size
  rw [(engineMap_steady params steady (steady.ranged size some_ inside)).1 op, ioWrite_parts params _ steady.ample whole, sectors]
  rfl

theorem writeInTurn_parts (params : Params) {bio : Bio} (op : bio.op = .write) {first : Nat} {parts : List Bio}
    (split : Parts bio first parts) (steady : Steady machine log limit) (inside : bio.sector + bio.sectors ≤ limit) :
    writeInTurn params parts machine =
      if machine.lsm.writesStopped then (⟨.error .eio, bio.sectors - first⟩, machine)
      else writeParts params bio.sectors (bio.sector + first) (bio.sectors - first)
        (fun index => bio.data (first * sectorBytes + index)) machine := by
  induction split generalizing machine with
  | @last first segments some_ size =>
    rw [writeInTurn, engineMap_part params steady op size (by omega) (by omega),
      writeParts_enough params _ machine le_rfl (Nat.sub_le _ _)]
    cases machine.lsm.writesStopped with
    | true => rfl
    | false =>
      rw [if_neg Bool.false_ne_true]
      have done := @writeParts_done _ params _ (bio.sector + first) (bio.sectors - first)
        (fun index => bio.data (first * sectorBytes + index)) machine le_rfl
      generalize writeParts params (bio.sectors - first) (bio.sector + first) (bio.sectors - first)
        (fun index => bio.data (first * sectorBytes + index)) machine = outcome at done ⊢
      obtain ⟨⟨status, remaining⟩, after⟩ := outcome
      cases status with
      | error error => rfl
      | ok =>
        obtain rfl : remaining = 0 := done rfl
        rfl
  | @cut first sectors segments parts some_ size boundary rest ih =>
    have behind := rest.some
    have keeps := @writeParts_keeps _ log limit machine params sectors (bio.sector + first) sectors
      (fun index => bio.data (first * sectorBytes + index)) steady
    rw [writeInTurn, engineMap_part params steady op size some_ (by omega)]
    cases stopped : machine.lsm.writesStopped with
    | true =>
      change ((⟨.error .eio, sectors + (parts.map Bio.sectors).sum⟩ : WriteOutcome), machine) = (⟨.error .eio, bio.sectors - first⟩, machine)
      rw [rest.total, show sectors + (bio.sectors - (first + sectors)) = bio.sectors - first by omega]
    | false =>
      rw [if_neg Bool.false_ne_true, if_neg Bool.false_ne_true,
        show bio.sectors - first = sectors + (bio.sectors - (first + sectors)) by omega,
        writeParts_split params _ _ machine (by omega) boundary,
        writeParts_enough params _ machine le_rfl (show sectors ≤ bio.sectors by omega)]
      have keeps := keeps stopped (by omega)
      generalize writeParts params sectors (bio.sector + first) sectors
        (fun index => bio.data (first * sectorBytes + index)) machine = outcome at keeps ⊢
      obtain ⟨⟨status, remaining⟩, after⟩ := outcome
      cases status with
      | error error =>
        dsimp only
        rw [rest.total]
      | ok =>
        have running := keeps.2 rfl
        dsimp only at running ⊢
        rw [ih keeps.1 , running, if_neg Bool.false_ne_true, Nat.add_assoc]
        have source : (fun index => bio.data ((first + sectors) * sectorBytes + index)) =
            fun index => bio.data (first * sectorBytes + (sectors * sectorBytes + index)) := by
          funext index
          rw [Nat.add_mul, Nat.add_assoc]
        rw [source]

theorem readInTurn_parts (params : Params) {bio : Bio} (op : bio.op = .read) {first : Nat} {parts : List Bio}
    (split : Parts bio first parts) (steady : Steady machine log limit) (inside : bio.sector + bio.sectors ≤ limit) :
    readInTurn params parts machine = readParts bio.sectors (bio.sector + first) (bio.sectors - first) machine := by
  -- What a part answers is what its fragments hold.
  have answers {start : Machine} {first count : Nat} {segments : List Nat} (steady : Steady start log limit)
      (size : segments.sum = count * sectorBytes) (some_ : 0 < count) (inside : bio.sector + first + count ≤ limit) :
      engineMap params (part bio first segments) start = match readParts count (bio.sector + first) count start with
        | (.error error, after) => (.read (.error error), after)
        | (.ok bytes, after) => (.read (.ok { part bio first segments with
            data := overlay (part bio first segments).data 0 (part bio first segments).size bytes }), after) := by
    have sectors := part_sectors bio first size
    have whole : (part bio first segments).size = (part bio first segments).sectors * sectorBytes := by
      rw [sectors]
      exact size
    rw [(engineMap_steady params steady (steady.ranged size some_ inside)).2 op, ioRead_parts _ steady.ample whole, sectors]
    rw [show (part bio first segments).sector = bio.sector + first from rfl]
    cases readParts count (bio.sector + first) count start with
    | mk result after => cases result <;> rfl
  have shown {count : Nat} {segments : List Nat} (first : Nat) (size : segments.sum = count * sectorBytes) (bytes more : Nat → UInt8) :
      splice (part bio first segments).size (overlay (part bio first segments).data 0 (part bio first segments).size bytes) more =
        splice (count * sectorBytes) bytes more := by
    have same : (part bio first segments).size = count * sectorBytes := size
    funext index
    unfold splice
    rw [same]
    split
    next within => rw [overlay_inside (Nat.zero_le _) (by omega), Nat.sub_zero]
    · rfl
  induction split generalizing machine with
  | @last first segments some_ size =>
    rw [readInTurn, answers steady size (by omega) (by omega),
      readParts_enough machine le_rfl (show bio.sectors - first ≤ bio.sectors by omega)]
    cases ran : readParts (bio.sectors - first) (bio.sector + first) (bio.sectors - first) machine with
    | mk result after =>
      cases result with
      | error error => rfl
      | ok bytes =>
        dsimp only
        rw [readInTurn]
        dsimp only
        rw [shown first size, readParts_ends _ ran le_rfl]
  | @cut first sectors segments parts some_ size boundary rest ih =>
    have behind := rest.some
    rw [readInTurn, answers steady size some_ (by omega),
      show bio.sectors - first = sectors + (bio.sectors - (first + sectors)) by omega,
      readParts_split _ machine (by omega) boundary,
      readParts_enough machine le_rfl (show sectors ≤ bio.sectors by omega)]
    have same := readParts_same sectors (bio.sector + first) sectors machine
    unfold Effect.Ensures at same
    cases ran : readParts sectors (bio.sector + first) sectors machine with
    | mk result after =>
      rw [ran] at same
      cases result with
      | error error => rfl
      | ok bytes =>
        dsimp only
        rw [ih (steady.same same), Nat.add_assoc]
        cases readParts bio.sectors (bio.sector + (first + sectors)) (bio.sectors - (first + sectors)) after with
        | mk result last =>
          cases result with
          | error error => rfl
          | ok more =>
            dsimp only
            rw [shown first size]

end Parts

end Lsm
end ZnsBase
