import ZnsBase.Proofs.Sessions

/-! Recovery and lookups on a metadata zone with any bytes in it. Only the headers
are trusted, and only as far as the checks of the load go; payloads need not be
sorted. -/

namespace ZnsBase
open Library

/-- Payload block `page` of a table. -/
def Sstable.payloadSector (sst : Sstable) (page : Nat) : Nat := sst.startSector + (page + 1) * blockSectors

/-- `sstReadPayloadBlock` with any way to fetch a block. -/
def sstReadVia (fetch : Nat → Effect World Errno (Nat → UInt8)) (sst : Sstable) (blockIndex : Nat) (cache : SstCache) :
    Effect World Errno SstCache :=
  if cache.cached = blockIndex then pure cache
  else do
    let block ← fetch (sst.payloadSector blockIndex)
    pure ⟨blockIndex, block⟩

def sstLocateVia (fetch : Nat → Effect World Errno (Nat → UInt8)) (sst : Sstable) (logicalBlock : Nat) :
    Nat → Nat → Nat → SstCache → Effect World Errno (Nat × SstCache)
  | 0, low, _, cache => pure (low, cache)
  | rounds + 1, low, high, cache =>
    if low < high then do
      let mid := low + (high - low + 1) / 2
      let cache ← sstReadVia fetch sst mid cache
      if sstBlockFirstKey cache.block ≤ logicalBlock then sstLocateVia fetch sst logicalBlock rounds mid high cache
      else sstLocateVia fetch sst logicalBlock rounds low (mid - 1) cache
    else pure (low, cache)

/-- `sstLookup` with any way to fetch a block. -/
def sstLookupVia (fetch : Nat → Effect World Errno (Nat → UInt8)) (sst : Sstable) (logicalBlock : Nat) :
    Effect World Errno Nat := do
  if sst.nrBlocks < 2 then Effect.fail .einval
  else if logicalBlock < sst.minKey ∨ logicalBlock > sst.maxKey then Effect.fail .enodata
  else do
    allocate
    let high := sst.nrBlocks - 2
    let (low, cache) ← sstLocateVia fetch sst logicalBlock (high + 1) 0 high ⟨2 ^ 32 - 1, fun _ => 0⟩
    let cache ← sstReadVia fetch sst low cache
    Effect.ofExcept (sstBlockFind cache.block (sstEntriesInBlock sst.nrEntries low) logicalBlock)

private theorem sstLocate_via (sst : Sstable) (wanted rounds low high : Nat) (cache : SstCache) :
    sstLocate sst wanted rounds low high cache = sstLocateVia (blockRead .metadata) sst wanted rounds low high cache := by
  induction rounds generalizing low high cache with
  | zero => rfl
  | succ rounds ih =>
    rw [sstLocate, sstLocateVia]
    simp only [ih]
    rfl

theorem sstLookup_via (sst : Sstable) (wanted : Nat) : sstLookup sst wanted = sstLookupVia (blockRead .metadata) sst wanted := by
  unfold sstLookup sstLookupVia
  simp only [sstLocate_via]
  rfl

/-- A computation goes on in the same way if it starts in the same way and goes on
in the same way from every value it can have. -/
private theorem bind_congr {σ ε α β : Type} {first other : Effect σ ε α} {next more : α → Effect σ ε β} (starts : first = other)
    (goes : ∀ state value after, first state = (.ok value, after) → next value = more value) :
    (first >>= next) = (other >>= more) := by
  subst starts
  funext state
  cases ran : first state with
  | mk result after =>
    cases result with
    | error error => rw [Effect.bind_error ran, Effect.bind_error ran]
    | ok value => rw [Effect.bind_ok ran, Effect.bind_ok ran, goes state value after ran]

section Confined
variable {sst : Sstable} {wanted : Nat} {fetch other : Nat → Effect World Errno (Nat → UInt8)}

private theorem sstLocateVia_bounded (rounds low high : Nat) (cache : SstCache) (order : low ≤ high) (world : World) :
    Effect.Ensures (sstLocateVia fetch sst wanted rounds low high cache) world
      (fun result _ => ∀ page read, result = .ok (page, read) → page ≤ high) := by
  induction rounds generalizing low high cache world with
  | zero =>
    intro page read same
    cases same
    exact order
  | succ rounds ih =>
    rw [sstLocateVia]
    split
    next apart =>
      refine Effect.Ensures.run_bind ?_ (by rintro _ _ _ _ _ ⟨⟩)
      intro read after _
      split
      · exact ih _ high read (by omega) after
      · refine (ih low _ read (by omega) after).mono fun result _ bounded page cache same => ?_
        exact (bounded page cache same).trans (by omega)
    next =>
      intro page read same
      cases same
      exact order

variable (agree : ∀ page < sst.nrBlocks - 1, fetch (sst.payloadSector page) = other (sst.payloadSector page))
include agree

private theorem sstReadVia_confined {page : Nat} (inside : page < sst.nrBlocks - 1) (cache : SstCache) :
    sstReadVia fetch sst page cache = sstReadVia other sst page cache := by
  unfold sstReadVia
  rw [agree page inside]

private theorem sstLocateVia_confined (rounds low high : Nat) (cache : SstCache) (inside : high < sst.nrBlocks - 1) :
    sstLocateVia fetch sst wanted rounds low high cache = sstLocateVia other sst wanted rounds low high cache := by
  induction rounds generalizing low high cache with
  | zero => rfl
  | succ rounds ih =>
    rw [sstLocateVia, sstLocateVia]
    split
    next apart =>
      refine bind_congr (sstReadVia_confined agree (by omega) cache) fun _ read _ _ => ?_
      rw [ih _ high read inside, ih low _ read (by omega)]
    next => rfl

/-- A lookup fetches no block but the table's own payload. -/
theorem sstLookupVia_confined (two : 2 ≤ sst.nrBlocks) : sstLookupVia fetch sst wanted = sstLookupVia other sst wanted := by
  unfold sstLookupVia
  split
  · rfl
  split
  · rfl
  refine bind_congr rfl fun _ _ _ _ => ?_
  refine bind_congr (sstLocateVia_confined agree _ _ _ _ (by omega)) fun world place _ ran => ?_
  have bounded := @sstLocateVia_bounded sst wanted fetch (sst.nrBlocks - 2 + 1) 0 (sst.nrBlocks - 2) ⟨2 ^ 32 - 1, fun _ => 0⟩
    (Nat.zero_le _) world
  unfold Effect.Ensures at bounded
  rw [ran] at bounded
  have inside := bounded place.1 place.2 rfl
  exact bind_congr (sstReadVia_confined agree (by omega) place.2) fun _ _ _ _ => rfl

end Confined

/-- The search over first keys ends by itself: more rounds change nothing. -/
theorem sstLocate_rounds (sst : Sstable) (wanted rounds more low high : Nat) (cache : SstCache) (enough : high - low < rounds)
    (enough' : high - low < more) :
    sstLocate sst wanted rounds low high cache = sstLocate sst wanted more low high cache := by
  induction rounds generalizing more low high cache with
  | zero => omega
  | succ rounds ih =>
    cases more with
    | zero => omega
    | succ more =>
      rw [sstLocate, sstLocate]
      split
      next apart =>
        refine bind_congr rfl fun _ read _ _ => ?_
        rw [ih more _ high read (by omega) (by omega), ih more low _ read (by omega) (by omega)]
      next => rfl

/-- So does the search inside a block. -/
theorem sstBlockSearch_rounds (block : Nat → UInt8) (wanted rounds more low high : Nat) (enough : high - low < rounds)
    (enough' : high - low < more) : sstBlockSearch block wanted rounds low high = sstBlockSearch block wanted more low high := by
  induction rounds generalizing more low high with
  | zero => omega
  | succ rounds ih =>
    cases more with
    | zero => omega
    | succ more =>
      rw [sstBlockSearch, sstBlockSearch]
      split
      next apart =>
        dsimp only
        rw [ih more _ high (by omega) (by omega), ih more low _ (by omega) (by omega)]
      next => rfl

/-- What the search inside a block finds is there, sorted or not. -/
private theorem sstBlockSearch_sound {block : Nat → UInt8} {wanted rounds low high sector : Nat}
    (found : sstBlockSearch block wanted rounds low high = .ok sector) :
    ∃ index, low ≤ index ∧ index < high ∧ sstEntryKey block index = wanted ∧ sstEntrySector block index = sector := by
  induction rounds generalizing low high with
  | zero => cases found
  | succ rounds ih =>
    rw [sstBlockSearch] at found
    split at found
    next apart =>
      dsimp only at found
      generalize same : low + (high - low) / 2 = mid at found
      split at found
      next below =>
        obtain ⟨index, above, inside, here⟩ := ih found
        exact ⟨index, by omega, inside, here⟩
      next notBelow =>
        split at found
        next above =>
          obtain ⟨index, above, inside, here⟩ := ih found
          exact ⟨index, above, by omega, here⟩
        next notAbove =>
          cases found
          exact ⟨mid, by omega, by omega, by omega, rfl⟩
    next => cases found

private theorem sstBlockSearch_error {block : Nat → UInt8} {wanted rounds low high : Nat} {error : Errno}
    (failed : sstBlockSearch block wanted rounds low high = .error error) : error = .enodata := by
  induction rounds generalizing low high with
  | zero => exact (Except.error.inj failed).symm
  | succ rounds ih =>
    rw [sstBlockSearch] at failed
    split at failed
    · dsimp only at failed
      split at failed
      · exact ih failed
      split at failed
      · exact ih failed
      · cases failed
    · exact (Except.error.inj failed).symm

section Lookup
variable {world : World} {sst : Sstable} (sized : sst.Sized) (filled : 0 < sst.nrEntries)
include sized filled

theorem Sstable.Sized.pages : sst.nrBlocks = 1 + (sst.nrEntries + 255) / 256 ∧ 2 ≤ sst.nrBlocks := by
  have blocks : sst.nrBlocks = _ := sized.blocks.trans (sstNrBlocks_eq sized.limited)
  omega

/-- Each payload block holds some of the first entries. -/
theorem Sstable.Sized.page {page : Nat} (inside : page < sst.nrBlocks - 1) :
    1 ≤ sstEntriesInBlock sst.nrEntries page ∧ sstEntriesInBlock sst.nrEntries page ≤ entriesPerBlock ∧
      page * entriesPerBlock + sstEntriesInBlock sst.nrEntries page ≤ sst.nrEntries := by
  obtain ⟨blocks, _⟩ := sized.pages filled
  rw [sstEntriesInBlock_eq sized.limited (by omega)]
  unfold entriesPerBlock
  omega

private theorem sstBlockFind_sound {wanted page : Nat} (inside : page < sst.nrBlocks - 1) :
    (∀ sector, sstBlockFind (world.block (sst.startSector + (page + 1) * blockSectors)) (sstEntriesInBlock sst.nrEntries page)
        wanted = .ok sector → (wanted, sector) ∈ sst.entries world.media) ∧
      ∀ error, sstBlockFind (world.block (sst.startSector + (page + 1) * blockSectors)) (sstEntriesInBlock sst.nrEntries page)
        wanted = .error error → error = .enodata := by
  obtain ⟨some_, few, within⟩ := sized.page filled inside
  rw [sstBlockFind, if_neg (by omega)]
  constructor
  · intro sector found
    obtain ⟨index, _, below, key, place⟩ := sstBlockSearch_sound found
    rw [sstEntryKey_page] at key
    rw [sstEntrySector_page] at place
    exact Sstable.mem_entries.mpr ⟨page * entriesPerBlock + index, by omega, key, place⟩
  · exact fun error failed => sstBlockSearch_error failed

/-- A lookup in a table with any payload answers with one of its entries, and
rejects nothing. -/
theorem sstLookup_sound (wanted : Nat) : Effect.Ensures (sstLookup sst wanted) world (fun result after => world.Quiet after ∧
    (∀ sector, result = .ok sector → (wanted, sector) ∈ sst.entries world.media) ∧
    (result = .error .einval → world.oracle.Reports .metadata .einval)) := by
  obtain ⟨blocks, two⟩ := sized.pages filled
  have limit := sized.limited
  rw [sstLookup, if_neg (by omega)]
  split
  next => exact ⟨.refl _, (by rintro _ ⟨⟩), (by rintro ⟨⟩)⟩
  next =>
    refine Effect.Ensures.bind (allocate_quiet world) ?_ ?_
    · rintro _ allocated ⟨before, _⟩
      dsimp only
      have nothing : Cached world sst ⟨2 ^ 32 - 1, fun _ => 0⟩ := by
        intro small
        simp only at small
        omega
      refine Effect.Ensures.bind (@sstLocate_keeps world sst wanted (fun _ _ => True) (fun _ _ _ _ _ _ _ _ => trivial)
        (fun _ _ _ _ _ _ _ _ => trivial) (sst.nrBlocks - 2 + 1) 0 (sst.nrBlocks - 2) allocated before _ nothing
        (by omega) (Nat.zero_le _) (by omega) trivial) ?_ ?_
      · rintro ⟨page, read⟩ after ⟨quiet, ⟨_, _, same, cached, inside, _⟩ | ⟨_, same, _⟩⟩
        · cases same
          refine Effect.Ensures.bind (sstReadPayloadBlock_spec quiet inside cached) ?_ ?_
          · rintro read final ⟨quiet, ⟨_, same, _, content⟩ | ⟨_, same, _⟩⟩
            · cases same
              obtain ⟨sound, misses⟩ := @sstBlockFind_sound world sst sized filled wanted page inside
              rw [content]
              refine ⟨quiet, sound, fun failed => ?_⟩
              cases misses .einval failed
            · cases same
          · rintro error final ⟨quiet, ⟨_, same, _⟩ | ⟨_, same, reports⟩⟩
            · cases same
            · cases same
              refine ⟨quiet, (by rintro _ ⟨⟩), fun same => ?_⟩
              cases same
              exact reports
        · cases same
      · rintro error after ⟨quiet, ⟨_, _, same, _⟩ | ⟨_, same, reports⟩⟩
        · cases same
        · cases same
          refine ⟨quiet, (by rintro _ ⟨⟩), fun same => ?_⟩
          cases same
          exact reports
    · rintro error after ⟨quiet, same | ⟨same, _⟩⟩
      · cases same
      · cases same
        exact ⟨quiet, (by rintro _ ⟨⟩), (by rintro ⟨⟩)⟩

end Lookup

/-- All a lookup promises about a table whose payload may hold anything. -/
structure LookupSafe (sst : Sstable) (wanted : Nat) : Prop where
  /-- Both searches end by themselves. -/
  locates : ∀ more cache, sstLocate sst wanted (sst.nrBlocks - 2 + 1 + more) 0 (sst.nrBlocks - 2) cache =
    sstLocate sst wanted (sst.nrBlocks - 2 + 1) 0 (sst.nrBlocks - 2) cache
  searches : ∀ block nrInBlock more, sstBlockSearch block wanted (nrInBlock + 1 + more) 0 nrInBlock =
    sstBlockSearch block wanted (nrInBlock + 1) 0 nrInBlock
  /-- Sectors outside the payload might as well be read in any other way. -/
  own : ∀ fetch, (∀ page < sst.nrBlocks - 1, fetch (sst.payloadSector page) = blockRead .metadata (sst.payloadSector page)) →
    sstLookup sst wanted = sstLookupVia fetch sst wanted
  answers : ∀ world, Effect.Ensures (sstLookup sst wanted) world (fun result _ =>
    (∀ sector, result = .ok sector → (wanted, sector) ∈ sst.entries world.media) ∧
    (result = .error .einval → world.oracle.Reports .metadata .einval))

theorem Sstable.Sized.lookupSafe {sst : Sstable} (sized : sst.Sized) (filled : 0 < sst.nrEntries) (wanted : Nat) :
    LookupSafe sst wanted where
  locates more cache := sstLocate_rounds sst wanted _ _ _ _ cache (by omega) (by omega)
  searches block nrInBlock more := sstBlockSearch_rounds block wanted _ _ _ _ (by omega) (by omega)
  own fetch agree := by
    rw [sstLookup_via]
    exact sstLookupVia_confined (fun page inside => (agree page inside).symm) (sized.pages filled).2
  answers world := (sstLookup_sound sized filled wanted).mono fun _ _ sound => sound.2

namespace Lsm

/-- The walk ends by itself: a longer bound on its rounds changes nothing. -/
theorem recoverFrom_rounds (rounds more cursor : Nat) (machine : Machine) (enough : machine.lsm.metaWp < cursor + rounds)
    (enough' : machine.lsm.metaWp < cursor + more) : recoverFrom rounds cursor machine = recoverFrom more cursor machine := by
  induction rounds generalizing more cursor machine with
  | zero =>
    cases more with
    | zero => rfl
    | succ more =>
      rw [recoverFrom, recoverFrom, Effect.get_bind_run, if_neg (by omega)]
  | succ rounds ih =>
    cases more with
    | zero =>
      rw [recoverFrom, recoverFrom, Effect.get_bind_run, if_neg (by omega)]
    | succ more =>
      rw [recoverFrom, recoverFrom, Effect.get_bind_run, Effect.get_bind_run]
      split
      next below =>
        have loads : Effect.Ensures (onWorld (sstLoad cursor machine.lsm.metaWp)) machine (fun result after =>
            after.lsm = machine.lsm ∧ ∀ sst, result = .ok sst → sst.Sized ∧ 0 < sst.nrEntries) :=
          onWorld_ensures ((sstLoad_spec cursor _ machine.world).mono fun _ _ spec =>
            ⟨rfl, fun sst same => ⟨(spec.2.1 sst same).1, (spec.2.1 sst same).2.1⟩⟩)
        rw [Effect.attempt_bind_run, Effect.attempt_bind_run]
        unfold Effect.Ensures at loads
        generalize onWorld (sstLoad cursor machine.lsm.metaWp) machine = outcome at loads
        obtain ⟨result, loaded⟩ := outcome
        obtain ⟨same, found⟩ := loads
        cases result with
        | error error => cases error <;> rfl
        | ok sst =>
          obtain ⟨_, two⟩ := (found sst rfl).1.pages (found sst rfl).2
          have size : cursor < cursor + sst.nrBlocks * blockSectors := by
            simp only [blockSectors]
            omega
          have metaWp : (loaded.lsm.adoptSstable sst).metaWp = machine.lsm.metaWp := by
            rw [show loaded.lsm = machine.lsm from same]
            rfl
          refine ih more _ { loaded with lsm := loaded.lsm.adoptSstable sst } ?_ ?_
          · change (loaded.lsm.adoptSstable sst).metaWp < _
            omega
          · change (loaded.lsm.adoptSstable sst).metaWp < _
            omega
      next => rfl

/-- Whatever bytes the metadata zone holds, recovery ends below the write pointer
with tables that follow each other without a gap, and lookups in them are safe. -/
theorem recovery_is_safe_on_any_bytes (machine : Machine) (room : machine.lsm.metaStart + blockSectors ≤ machine.lsm.metaWp) :
    (∀ more, recoverFrom (machine.lsm.metaWp + 1 + more) (machine.lsm.metaStart + blockSectors) machine =
      recoverSstables machine) ∧
    Effect.Ensures recoverSstables machine (fun result after => (machine.world.oracle.Healthy → result = .ok ()) ∧
      ∃ tables cursor, after.lsm.sstables = tables.reverse ++ machine.lsm.sstables ∧
        Adjacent (machine.lsm.metaStart + blockSectors) tables cursor ∧ cursor ≤ machine.lsm.metaWp ∧
        ∀ sst ∈ tables, 1 ≤ sst.nrEntries ∧ 2 ≤ sst.nrBlocks ∧
          sst.startSector + sst.nrBlocks * blockSectors ≤ machine.lsm.metaWp ∧ ∀ wanted, LookupSafe sst wanted) := by
  refine ⟨fun more => recoverFrom_rounds _ _ _ machine (by omega) (by omega), ?_⟩
  have walk := recoverFrom_tiles (machine.lsm.metaWp + 1) (machine.lsm.metaStart + blockSectors) machine
  unfold Effect.Ensures at walk ⊢
  obtain ⟨ends, tables, cursor, tiles⟩ := walk
  refine ⟨ends, tables, cursor, tiles.listed, tiles.adjacent, tiles.inside room, fun sst member => ?_⟩
  obtain ⟨sized, filled, fits⟩ := tiles.sized sst member
  exact ⟨filled, (sized.pages filled).2, fits, sized.lookupSafe filled⟩

/-- A log of `0xff` bytes up to its end. -/
theorem recovery_is_safe_on_garbage : ∃ lsm : Lsm, lsm.metaStart + blockSectors < lsm.metaWp ∧
    Effect.Ensures recoverSstables ⟨lsm, { World.fresh smallGeometry with media := fun _ => 0xff }⟩ (fun result after =>
      result = .ok () ∧ ∃ tables cursor, after.lsm.sstables = tables.reverse ++ lsm.sstables ∧
        Adjacent (lsm.metaStart + blockSectors) tables cursor ∧ cursor ≤ lsm.metaWp ∧
        ∀ sst ∈ tables, ∀ wanted, LookupSafe sst wanted) := by
  have ends : startsAnd plainParams (World.fresh smallGeometry) (fun lsm _ => decide (lsm.metaStart = 64)) = true := by
    decide +kernel
  obtain ⟨lsm, after, _, passes⟩ := startsAnd_spec ends
  have start : lsm.metaStart = 64 := of_decide_eq_true passes
  have room : lsm.metaStart + blockSectors < 128 := by
    rw [start]
    decide
  refine ⟨{ lsm with metaWp := 128 }, room, ?_⟩
  refine (recovery_is_safe_on_any_bytes ⟨{ lsm with metaWp := 128 }, _⟩ room.le).2.mono ?_
  rintro result final ⟨ok, tables, cursor, listed, adjacent, inside, safe⟩
  exact ⟨ok Oracle.calm_healthy, tables, cursor, listed, adjacent, inside, fun sst member => (safe sst member).2.2.2⟩

end Lsm
end ZnsBase
