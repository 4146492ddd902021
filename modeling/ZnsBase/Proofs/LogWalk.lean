import ZnsBase.Proofs.StartupFrame

/-! The tables of a log as recovery finds them: one behind the other in the
order they were written, up to the write pointer or to a table that was cut off. -/

namespace ZnsBase
open Library

/-- The listed tables lie one below the other from `high` down to `low`, newest
first, and the counters agree with the list. -/
structure LogState.Ordered (state : LogState) (low high : Nat) : Prop where
  bounded : low ≤ high
  placed : ∀ sst ∈ state.sstables, low ≤ sst.startSector ∧ sst.startSector + sst.nrBlocks * blockSectors ≤ high
  stacked : state.sstables.Pairwise fun newer older =>
    older.startSector + older.nrBlocks * blockSectors ≤ newer.startSector ∧ older.seq < newer.seq
  numbered : ∀ sst ∈ state.sstables, sst.seq < state.nextSstSeq
  tables : state.nrSstables = state.sstables.length
  entries : state.nrSstEntries = (state.sstables.map Sstable.nrEntries).sum

theorem LogState.Ordered.raise {state after : LogState} {low high higher : Nat} (ordered : state.Ordered low high)
    (above : high ≤ higher) (listed : after.sstables = state.sstables) (next : state.nextSstSeq ≤ after.nextSstSeq)
    (tables : after.nrSstables = state.nrSstables) (entries : after.nrSstEntries = state.nrSstEntries) :
    after.Ordered low higher := by
  refine ⟨ordered.bounded.trans above, ?_, ?_, ?_, ?_, ?_⟩
  · rw [listed]
    exact fun sst member => ⟨(ordered.placed sst member).1, (ordered.placed sst member).2.trans above⟩
  · rw [listed]
    exact ordered.stacked
  · rw [listed]
    exact fun sst member => (ordered.numbered sst member).trans_le next
  · rw [tables, listed, ordered.tables]
  · rw [entries, listed, ordered.entries]

/-- A table behind the last one, with a higher sequence number. -/
theorem LogState.Ordered.add {state after : LogState} {low high higher : Nat} {sst : Sstable} (ordered : state.Ordered low high)
    (starts : high ≤ sst.startSector) (ends : sst.startSector + sst.nrBlocks * blockSectors ≤ higher)
    (newer : state.nextSstSeq ≤ sst.seq) (next : sst.seq < after.nextSstSeq) (listed : after.sstables = sst :: state.sstables)
    (tables : after.nrSstables = state.nrSstables + 1) (entries : after.nrSstEntries = state.nrSstEntries + sst.nrEntries) :
    after.Ordered low higher := by
  have bounded := ordered.bounded
  have below : high ≤ higher := by omega
  refine ⟨bounded.trans below, ?_, ?_, ?_, ?_, ?_⟩
  · rw [listed, List.forall_mem_cons]
    exact ⟨⟨bounded.trans starts, ends⟩, fun older member =>
      ⟨(ordered.placed older member).1, (ordered.placed older member).2.trans below⟩⟩
  · rw [listed, List.pairwise_cons]
    refine ⟨fun older member => ⟨(ordered.placed older member).2.trans starts, ?_⟩, ordered.stacked⟩
    exact (ordered.numbered older member).trans_le newer
  · rw [listed, List.forall_mem_cons]
    exact ⟨next, fun older member => ((ordered.numbered older member).trans_le newer).trans next⟩
  · rw [tables, listed, List.length_cons, ordered.tables]
  · rw [entries, listed, List.map_cons, List.sum_cons, ordered.entries, Nat.add_comm]

/-- The sectors a table takes up in the log. -/
def Memtable.logSectors (table : Memtable) : Nat := (1 + (table.root.inorder.length + 255) / 256) * blockSectors

/-- Where a log ends that begins with the given tables, oldest first, each with
its sequence number. -/
def logEnd : Nat → List (Memtable × Nat) → Nat
  | sector, [] => sector
  | sector, (table, _) :: rest => logEnd (sector + table.logSectors) rest

/-- The index of each table of a log. -/
def logTables : Nat → List (Memtable × Nat) → List Sstable
  | _, [] => []
  | sector, (table, seq) :: rest => sstLoaded table sector seq :: logTables (sector + table.logSectors) rest

/-- Complete tables one behind the other. -/
def Tiled [Kernel] (media : Nat → UInt8) : Nat → List (Memtable × Nat) → Prop
  | _, [] => True
  | sector, (table, seq) :: rest =>
    Stored media (sstLoaded table sector seq) table ∧ Tiled media (sector + table.logSectors) rest

/-- What follows the last complete table: nothing, or the head of a table that
was cut off by the write pointer. -/
inductive LogTail [Kernel] (media : Nat → UInt8) (sector limit : Nat) : Prop
  | clean (ends : sector = limit)
  | torn (table : Memtable) (seq : Nat) (sound : table.Sound) (filled : table.root.inorder ≠ []) (small : seq < 2 ^ 64)
      (header : Holds media sector ((sstImage table sector seq).take 1)) (begun : sector < limit)
      (short : limit < sector + table.logSectors)

theorem sstImage_sectors (table : Memtable) (sector seq : Nat) :
    (sstImage table sector seq).length * blockSectors = table.logSectors := by
  rw [sstImage_length, Memtable.logSectors]

theorem Memtable.logSectors_pos (table : Memtable) : blockSectors ≤ table.logSectors :=
  Nat.le_mul_of_pos_left _ (by omega)

theorem le_logEnd (sector : Nat) (tables : List (Memtable × Nat)) : sector + tables.length ≤ logEnd sector tables := by
  induction tables generalizing sector with
  | nil => exact Nat.le_refl _
  | cons entry rest ih =>
    obtain ⟨table, seq⟩ := entry
    have step := ih (sector + table.logSectors)
    have size := table.logSectors_pos
    simp only [blockSectors] at size
    simp only [logEnd, List.length_cons]
    omega

theorem sstLoaded_place (table : Memtable) (sector seq : Nat) :
    (sstLoaded table sector seq).startSector = sector ∧ (sstLoaded table sector seq).seq = seq :=
  ⟨sstSummary_startSector table sector seq, sstSummary_seq table sector seq⟩

theorem Stored.loaded_image [Kernel] {media : Nat → UInt8} {table : Memtable} {sector seq : Nat}
    (stored : Stored media (sstLoaded table sector seq) table) : Holds media sector (sstImage table sector seq) := by
  obtain ⟨start, number⟩ := sstLoaded_place table sector seq
  have image := stored.image
  rw [start, number] at image
  exact image

theorem Holds.head {media : Nat → UInt8} {sector : Nat} {blocks : List (Nat → UInt8)} (held : Holds media sector blocks) :
    Holds media sector (blocks.take 1) := by
  intro index block found
  rw [List.getElem?_take] at found
  split at found
  · exact held index block found
  · cases found

theorem logEnd_append (sector : Nat) (tables more : List (Memtable × Nat)) :
    logEnd sector (tables ++ more) = logEnd (logEnd sector tables) more := by
  induction tables generalizing sector with
  | nil => rfl
  | cons entry rest ih => exact ih _

theorem logTables_append (sector : Nat) (tables more : List (Memtable × Nat)) :
    logTables sector (tables ++ more) = logTables sector tables ++ logTables (logEnd sector tables) more := by
  induction tables generalizing sector with
  | nil => rfl
  | cons entry rest ih => exact congrArg _ (ih _)

theorem tiled_append [Kernel] {media : Nat → UInt8} {sector : Nat} (tables more : List (Memtable × Nat)) :
    Tiled media sector (tables ++ more) ↔ Tiled media sector tables ∧ Tiled media (logEnd sector tables) more := by
  induction tables generalizing sector with
  | nil => simp [Tiled, logEnd]
  | cons entry rest ih => rw [List.cons_append, Tiled, ih, Tiled, and_assoc, logEnd]

namespace Lsm
variable [Kernel]

theorem sstLoaded_logSectors {media : Nat → UInt8} {table : Memtable} {sector seq : Nat}
    (stored : Stored media (sstLoaded table sector seq) table) :
    (sstLoaded table sector seq).nrBlocks * blockSectors = table.logSectors := by
  rw [Memtable.logSectors, stored.nrBlocks]

/-- Adopting the tables of a log in order, each takes its place. -/
theorem adopt_ordered (tables : List Memtable) {media : Nat → UInt8} {low cursor seq : Nat} {lsm : Lsm}
    (tiled : Tiled media cursor (tables.zipIdx seq)) (small : seq + tables.length < 2 ^ 64)
    (ordered : lsm.logState.Ordered low cursor) (next : lsm.nextSstSeq = seq) :
    ((logTables cursor (tables.zipIdx seq)).foldl adoptSstable lsm).logState.Ordered low (logEnd cursor (tables.zipIdx seq)) := by
  induction tables generalizing cursor seq lsm with
  | nil => exact ordered
  | cons table rest ih =>
    obtain ⟨stored, tiled⟩ := tiled
    obtain ⟨start, number⟩ := sstLoaded_place table cursor seq
    rw [List.length_cons] at small
    have counted : (lsm.adoptSstable (sstLoaded table cursor seq)).nextSstSeq = seq + 1 := by
      rw [adoptSstable, number, next, if_pos (Nat.le_refl _), Nat.mod_eq_of_lt (by omega)]
    refine ih tiled (by omega) ?_ counted
    refine ordered.add (Nat.le_of_eq start.symm) (by rw [start, sstLoaded_logSectors stored]) ?_ ?_ rfl rfl rfl
    · rw [number]
      exact Nat.le_of_eq next
    · change _ < (lsm.adoptSstable (sstLoaded table cursor seq)).nextSstSeq
      rw [number, counted]
      exact Nat.lt_succ_self _

/-- Loading the sector where a table begins, by an engine that knows its log up
to `metaWp`. -/
theorem sstLoad_machine {table : Memtable} {cursor seq : Nat} {machine : Machine} (sound : table.Sound)
    (filled : table.root.inorder ≠ []) (small : seq < 2 ^ 64) (below : cursor < machine.lsm.metaWp)
    (header : ZnsBase.Holds machine.world.media cursor ((sstImage table cursor seq).take 1)) :
    Effect.Ensures (onWorld (sstLoad cursor machine.lsm.metaWp)) machine (fun result after =>
      after.lsm = machine.lsm ∧ machine.world.Quiet after.world ∧
      ((result = if machine.lsm.metaWp < cursor + table.logSectors then .error .einval
          else .ok (sstLoaded table cursor seq)) ∨
        ∃ error, result = .error error ∧ ¬ machine.world.oracle.Healthy ∧
          (error = .einval → machine.world.oracle.Reports .metadata .einval))) := by
  refine onWorld_ensures ((sstLoad_header sound filled small below header).mono ?_)
  rintro result world ⟨quiet, rfl | ⟨error, rfl, cause⟩⟩
  · exact ⟨rfl, quiet, Or.inl (by rw [sstImage_sectors])⟩
  · refine ⟨rfl, quiet, Or.inr ⟨error, rfl, ?_⟩⟩
    rcases cause with reports | ⟨rfl, sick⟩
    · exact ⟨fun healthy => healthy.requests _ _ reports, fun same => same ▸ reports⟩
    · exact ⟨sick, nofun⟩

/-- Where the walk got: it adopted every table ahead, or stopped early at a read
that failed. -/
def Walked (machine : Machine) (cursor : Nat) (tables : List (Memtable × Nat)) (result : Except Errno Unit)
    (after : Machine) : Prop :=
  ∃ found, found <+: tables ∧ after.lsm = (logTables cursor found).foldl adoptSstable machine.lsm ∧
    machine.world.Quiet after.world ∧
    ((result = .ok () ∧ (found = tables ∨ machine.world.oracle.Reports .metadata .einval)) ∨
      ∃ error, result = .error error ∧ ¬ machine.world.oracle.Healthy)

omit [Kernel] in
theorem Walked.here {machine after : Machine} {cursor : Nat} {tables : List (Memtable × Nat)} {result : Except Errno Unit}
    (same : after.lsm = machine.lsm) (quiet : machine.world.Quiet after.world)
    (reason : (result = .ok () ∧ (tables = [] ∨ machine.world.oracle.Reports .metadata .einval)) ∨
      ∃ error, result = .error error ∧ ¬ machine.world.oracle.Healthy) :
    Walked machine cursor tables result after :=
  ⟨[], List.nil_prefix, same, quiet, reason.imp_left fun ⟨done, end_⟩ => ⟨done, end_.imp_left Eq.symm⟩⟩

omit [Kernel] in
theorem Walked.on {machine loaded after : Machine} {cursor seq : Nat} {table : Memtable} {tables : List (Memtable × Nat)}
    {result : Except Errno Unit} (same : loaded.lsm = machine.lsm) (quiet : machine.world.Quiet loaded.world)
    (rest : Walked { loaded with lsm := loaded.lsm.adoptSstable (sstLoaded table cursor seq) } (cursor + table.logSectors)
      tables result after) :
    Walked machine cursor ((table, seq) :: tables) result after := by
  obtain ⟨found, ahead, engine, more, reason⟩ := rest
  refine ⟨(table, seq) :: found, List.cons_prefix_cons.mpr ⟨rfl, ahead⟩, ?_, quiet.trans more, ?_⟩
  · rw [engine, logTables, List.foldl_cons, same]
  · rcases reason with ⟨done, all | reports⟩ | ⟨error, failed, sick⟩
    · exact Or.inl ⟨done, Or.inl (by rw [all])⟩
    · exact Or.inl ⟨done, Or.inr (reports.later quiet.later)⟩
    · exact Or.inr ⟨error, failed, fun healthy => sick (healthy.later quiet.later)⟩

/-- The walk of `zns_lsm_recover_sstables` over a log the engine wrote, its last
table perhaps cut off. -/
theorem recoverFrom_walk (tables : List (Memtable × Nat)) {rounds cursor : Nat} {machine : Machine}
    (tiled : Tiled machine.world.media cursor tables)
    (tail : LogTail machine.world.media (logEnd cursor tables) machine.lsm.metaWp)
    (small : ∀ entry ∈ tables, entry.2 < 2 ^ 64) (enough : machine.lsm.metaWp < rounds + cursor) :
    Effect.Ensures (recoverFrom rounds cursor) machine (Walked machine cursor tables) := by
  -- A read that fails with the walk's own end mark is taken for the end.
  induction tables generalizing rounds cursor machine with
  | nil =>
    cases rounds with
    | zero => exact .here rfl (.refl _) (Or.inl ⟨rfl, Or.inl rfl⟩)
    | succ rounds =>
      rw [recoverFrom]
      apply Effect.Ensures.get_bind
      split
      next below =>
        cases tail with
        | clean ends => exact absurd below (by rw [← ends]; exact Nat.lt_irrefl _)
        | torn table seq sound filled small header begun short =>
          refine Effect.Ensures.attempt_bind (sstLoad_machine sound filled small below header) ?_
          rintro result after ⟨same, quiet, rfl | ⟨error, rfl, sick, _⟩⟩
          · rw [if_pos (show machine.lsm.metaWp < cursor + table.logSectors from short)]
            exact .here same quiet (Or.inl ⟨rfl, Or.inl rfl⟩)
          · cases error with
            | einval => exact .here same quiet (Or.inl ⟨rfl, Or.inl rfl⟩)
            | _ => exact .here same quiet (Or.inr ⟨_, rfl, sick⟩)
      next _ => exact .here rfl (.refl _) (Or.inl ⟨rfl, Or.inl rfl⟩)
  | cons entry rest ih =>
    obtain ⟨table, seq⟩ := entry
    obtain ⟨stored, tiled⟩ := tiled
    obtain ⟨low, small⟩ := List.forall_mem_cons.mp small
    have size := table.logSectors_pos
    have ahead : cursor + table.logSectors ≤ machine.lsm.metaWp := by
      have ends := le_logEnd (cursor + table.logSectors) rest
      cases tail with
      | clean ends => rw [← ends, logEnd]; omega
      | torn _ _ _ _ _ _ begun _ => rw [logEnd] at begun; omega
    simp only [blockSectors] at size
    cases rounds with
    | zero => omega
    | succ rounds =>
      rw [recoverFrom]
      apply Effect.Ensures.get_bind
      rw [if_pos (by omega)]
      have held : ZnsBase.Holds machine.world.media cursor (sstImage table cursor seq) := stored.loaded_image
      refine Effect.Ensures.attempt_bind (sstLoad_machine stored.sound stored.filled low (by omega) held.head) ?_
      rintro result after ⟨same, quiet, rfl | ⟨error, rfl, sick, reports⟩⟩
      · rw [if_neg (by omega)]
        apply Effect.Ensures.modify_bind
        rw [sstLoaded_logSectors stored]
        refine (ih ?_ ?_ small ?_).mono fun result final walked => Walked.on same quiet walked
        · rw [quiet.media]
          exact tiled
        · change LogTail after.world.media _ after.lsm.metaWp
          rw [quiet.media, same]
          exact tail
        · change after.lsm.metaWp < _
          rw [same]
          omega
      · cases error with
        | einval => exact .here same quiet (Or.inl ⟨rfl, Or.inr (reports rfl)⟩)
        | _ => exact .here same quiet (Or.inr ⟨_, rfl, sick⟩)

end Lsm
end ZnsBase
