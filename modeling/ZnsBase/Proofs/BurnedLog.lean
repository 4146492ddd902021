import Mathlib.Data.List.TakeWhile
import ZnsBase.Proofs.Restarts

/-! Logs in which failed flushes left parts of tables. The walk takes a header for
a complete table as soon as the log is long enough for what it claims, so what
lies behind a part of a table decides what a start makes of it. -/

namespace ZnsBase
open Library

/-- What one attempt to append a table left in the log: all of its sectors, or the
first few. -/
structure Remains where
  table : Memtable
  seq : Nat
  sectors : Nat

namespace Remains

def Whole (remains : Remains) : Prop := remains.sectors = remains.table.logSectors

instance (remains : Remains) : Decidable remains.Whole := inferInstanceAs (Decidable (_ = _))

def entry (remains : Remains) : Memtable × Nat := (remains.table, remains.seq)

end Remains

def remainsSectors (attempts : List Remains) : Nat := (attempts.map Remains.sectors).sum

/-- The tables of a log that were written completely, oldest first. -/
def wholeTables (attempts : List Remains) : List Memtable :=
  (attempts.filter fun remains => remains.Whole).map Remains.table

/-- Their indexes, in a log that begins at a sector. -/
def wholeSstables : Nat → List Remains → List Sstable
  | _, [] => []
  | sector, remains :: rest =>
    if remains.Whole then sstLoaded remains.table sector remains.seq :: wholeSstables (sector + remains.sectors) rest
    else wholeSstables (sector + remains.sectors) rest

/-- No complete table lies behind a part of one, and all parts together are shorter
than the first of them was to be. -/
def TornTail : List Remains → Prop
  | [] => True
  | remains :: rest =>
    if remains.Whole then TornTail rest
    else (∀ other ∈ rest, ¬ other.Whole) ∧ remainsSectors (remains :: rest) < remains.table.logSectors

instance decidableTornTail : (attempts : List Remains) → Decidable (TornTail attempts)
  | [] => .isTrue trivial
  | remains :: rest =>
    have := decidableTornTail rest
    inferInstanceAs (Decidable (if remains.Whole then TornTail rest else _))

theorem remainsSectors_append (first rest : List Remains) :
    remainsSectors (first ++ rest) = remainsSectors first + remainsSectors rest := by
  rw [remainsSectors, List.map_append, List.sum_append]
  rfl

theorem remainsSectors_cons (remains : Remains) (rest : List Remains) :
    remainsSectors (remains :: rest) = remains.sectors + remainsSectors rest := by
  rw [remainsSectors, List.map_cons, List.sum_cons]
  rfl

/-- The complete tables before the first part of one. -/
def intact (attempts : List Remains) : List Remains := attempts.takeWhile fun remains => remains.Whole

/-- The first part of a table, and what was written behind it. -/
def fromTorn (attempts : List Remains) : List Remains := attempts.dropWhile fun remains => remains.Whole

theorem intact_append_fromTorn (attempts : List Remains) : intact attempts ++ fromTorn attempts = attempts :=
  List.takeWhile_append_dropWhile

theorem intact_whole (attempts : List Remains) : ∀ remains ∈ intact attempts, remains.Whole := by
  intro remains member
  have holds : decide remains.Whole = true := List.mem_takeWhile_imp (p := fun remains : Remains => decide remains.Whole) member
  exact of_decide_eq_true holds

theorem fromTorn_head (attempts : List Remains) : ∀ part ∈ (fromTorn attempts).head?, ¬ part.Whole := by
  intro part first
  have stops := List.head?_dropWhile_not (fun remains : Remains => decide remains.Whole) attempts
  rw [show (attempts.dropWhile fun remains => decide remains.Whole).head? = some part from first] at stops
  simpa using stops

section Whole
variable {whole rest : List Remains} (all : ∀ remains ∈ whole, remains.Whole)
include all

theorem wholeSstables_append (sector : Nat) : wholeSstables sector (whole ++ rest) =
    logTables sector (whole.map Remains.entry) ++ wholeSstables (sector + remainsSectors whole) rest := by
  induction whole generalizing sector with
  | nil => rfl
  | cons remains whole ih =>
    obtain ⟨complete, all⟩ := List.forall_mem_cons.mp all
    rw [List.cons_append, wholeSstables, if_pos complete, ih all, remainsSectors_cons, List.map_cons, Remains.entry, logTables,
      List.cons_append, ← Nat.add_assoc, complete]

theorem wholeTables_append : wholeTables (whole ++ rest) = whole.map Remains.table ++ wholeTables rest := by
  rw [wholeTables, List.filter_append, List.map_append, List.filter_eq_self.mpr fun remains member => decide_eq_true (all remains member)]
  rfl

theorem logEnd_whole (sector : Nat) : logEnd sector (whole.map Remains.entry) = sector + remainsSectors whole := by
  induction whole generalizing sector with
  | nil => rfl
  | cons remains whole ih =>
    obtain ⟨complete, all⟩ := List.forall_mem_cons.mp all
    rw [List.map_cons, Remains.entry, logEnd, ih all, remainsSectors_cons, complete, Nat.add_assoc]

theorem tornTail_append : TornTail (whole ++ rest) ↔ TornTail rest := by
  induction whole with
  | nil => rfl
  | cons remains whole ih =>
    obtain ⟨complete, all⟩ := List.forall_mem_cons.mp all
    rw [List.cons_append, TornTail, if_pos complete, ih all]

end Whole

theorem wholeSstables_nil {rest : List Remains} {sector : Nat} :
    wholeSstables sector rest = [] ↔ ∀ remains ∈ rest, ¬ remains.Whole := by
  induction rest generalizing sector with
  | nil => exact ⟨fun _ => nofun, fun _ => rfl⟩
  | cons remains rest ih =>
    rw [wholeSstables, List.forall_mem_cons]
    by_cases complete : remains.Whole
    · rw [if_pos complete]
      exact ⟨nofun, fun none_ => absurd complete none_.1⟩
    · rw [if_neg complete, ih]
      exact ⟨fun none_ => ⟨complete, none_⟩, fun none_ => none_.2⟩

/-- Such a log ends within the first part, or there is none. -/
theorem tornTail_iff {rest : List Remains} (torn : ∀ remains ∈ rest.head?, ¬ remains.Whole) (sector : Nat) :
    TornTail rest ↔ wholeSstables sector rest = [] ∧
      ∀ remains ∈ rest.head?, remainsSectors rest < remains.table.logSectors := by
  cases rest with
  | nil => exact ⟨fun _ => ⟨rfl, nofun⟩, fun _ => trivial⟩
  | cons remains rest =>
    have incomplete := torn remains rfl
    rw [TornTail, if_neg incomplete, wholeSstables, if_neg incomplete, wholeSstables_nil]
    refine ⟨fun ⟨none_, short⟩ => ⟨none_, fun other same => ?_⟩, fun ⟨none_, short⟩ => ⟨none_, short remains rfl⟩⟩
    cases same
    exact short

section Laid
variable [Kernel] {media : Nat → UInt8} {sector : Nat} {remains : Remains} {attempts whole rest : List Remains}

/-- What an attempt left lies at a sector: its header, and the table if it is whole. -/
structure Remains.Lies (media : Nat → UInt8) (sector : Nat) (remains : Remains) : Prop where
  sound : remains.table.Sound
  filled : remains.table.root.inorder ≠ []
  begun : blockSectors ≤ remains.sectors
  aligned : remains.sectors % blockSectors = 0
  within : remains.sectors ≤ remains.table.logSectors
  header : Holds media sector ((sstImage remains.table sector remains.seq).take 1)
  stored : remains.Whole → Stored media (sstLoaded remains.table sector remains.seq) remains.table

/-- Each where the one before it ends. -/
def Laid (media : Nat → UInt8) : Nat → List Remains → Prop
  | _, [] => True
  | sector, remains :: rest => remains.Lies media sector ∧ Laid media (sector + remains.sectors) rest

theorem Remains.Lies.frame {other : Nat → UInt8} (lies : remains.Lies media sector)
    (same : ∀ address, sector * sectorBytes ≤ address → address < (sector + remains.sectors) * sectorBytes →
      other address = media address) : remains.Lies other sector := by
  have begun := lies.begun
  refine { lies with header := fun index block found byte inside => ?_, stored := fun complete => ?_ }
  · rw [← lies.header index block found byte inside]
    rw [List.getElem?_take] at found
    split at found
    · refine same _ ?_ ?_ <;> simp only [sectorBytes, blockSectors, blockBytes] at * <;> omega
    · cases found
  · have stored := lies.stored complete
    refine stored.frame fun address low high => ?_
    rw [(sstLoaded_place remains.table sector remains.seq).1] at low high
    rw [Lsm.sstLoaded_logSectors stored, ← show remains.sectors = remains.table.logSectors from complete] at high
    exact same address low high

theorem laid_append : Laid media sector (whole ++ rest) ↔
    Laid media sector whole ∧ Laid media (sector + remainsSectors whole) rest := by
  induction whole generalizing sector with
  | nil => simp [Laid, remainsSectors]
  | cons remains whole ih => rw [List.cons_append, Laid, ih, Laid, and_assoc, remainsSectors_cons, Nat.add_assoc]

theorem Laid.frame {other : Nat → UInt8} (laid : Laid media sector attempts)
    (same : ∀ address, sector * sectorBytes ≤ address → address < (sector + remainsSectors attempts) * sectorBytes →
      other address = media address) : Laid other sector attempts := by
  induction attempts generalizing sector with
  | nil => trivial
  | cons remains rest ih =>
    obtain ⟨lies, laid⟩ := laid
    rw [remainsSectors_cons] at same
    refine ⟨lies.frame fun address low high => same address low (high.trans_le ?_), ih laid fun address low high => same address ?_ ?_⟩
    · exact Nat.mul_le_mul_right _ (by omega)
    · exact (Nat.mul_le_mul_right _ (Nat.le_add_right _ _)).trans low
    · rw [← Nat.add_assoc]
      exact high

/-- Complete ones are tables one behind the other. -/
theorem Laid.tiled (laid : Laid media sector whole) (all : ∀ remains ∈ whole, remains.Whole) :
    Tiled media sector (whole.map Remains.entry) := by
  induction whole generalizing sector with
  | nil => trivial
  | cons remains whole ih =>
    obtain ⟨complete, all⟩ := List.forall_mem_cons.mp all
    obtain ⟨lies, laid⟩ := laid
    refine ⟨lies.stored complete, ?_⟩
    rw [← show remains.sectors = remains.table.logSectors from complete]
    exact ih laid all

theorem Remains.Lies.magic (lies : remains.Lies media sector) (low : remains.seq < 2 ^ 64) :
    leValue media (sector * sectorBytes) 8 = sstMagic := by
  have decoded : sstDecodeHeader (fun byte => media (sector * sectorBytes + byte)) sector =
      .ok (sstLoaded remains.table sector remains.seq) :=
    sstDecodeHeader_image lies.sound lies.filled low fun byte inside => lies.header 0 _ rfl byte inside
  rw [sstDecodeHeader] at decoded
  split at decoded
  · cases decoded
  · next same =>
    rw [← Decidable.not_not.mp same]
    exact leValue_congr 8 fun index _ => by rw [Nat.zero_add]

/-- Taken for a complete table, a part of one has the magic number of what was
written behind it among its keys. -/
theorem Laid.misread {part next : Remains} (laid : Laid media sector (part :: next :: rest)) (torn : ¬ part.Whole)
    (low : next.seq < 2 ^ 64) : ∃ pair ∈ (sstLoaded part.table sector part.seq).entries media, pair.1 = sstMagic := by
  obtain ⟨lies, behind, _⟩ := laid
  have limited : part.table.root.inorder.length < 2 ^ 32 := by
    rw [← lies.sound.counted]
    exact lies.sound.limited.trans_lt Kernel.entryLimit_lt
  have entries : (sstLoaded part.table sector part.seq).nrEntries = part.table.root.inorder.length :=
    sstSummary_nrEntries sector part.seq limited
  have begun := lies.begun
  have aligned := lies.aligned
  have short : part.sectors < part.table.logSectors := lies.within.lt_of_ne torn
  rw [Memtable.logSectors] at short
  have inside : (part.sectors / blockSectors - 1) * entriesPerBlock < (sstLoaded part.table sector part.seq).nrEntries := by
    rw [entries]
    simp only [blockSectors, entriesPerBlock] at *
    omega
  refine ⟨((sstLoaded part.table sector part.seq).keyAt media ((part.sectors / blockSectors - 1) * entriesPerBlock), _),
    Sstable.mem_entries.mpr ⟨_, inside, rfl, rfl⟩, ?_⟩
  have place : (sstLoaded part.table sector part.seq).payloadStart +
      (part.sectors / blockSectors - 1) * entriesPerBlock * entryBytes = (sector + part.sectors) * sectorBytes := by
    rw [Sstable.payloadStart, (sstLoaded_place part.table sector part.seq).1]
    simp only [blockSectors, sectorBytes, entryBytes, entriesPerBlock] at *
    omega
  rw [← behind.magic low, ← place]
  rfl

theorem Laid.length_le (laid : Laid media sector attempts) : attempts.length ≤ remainsSectors attempts := by
  induction attempts generalizing sector with
  | nil => exact Nat.le_refl _
  | cons remains rest ih =>
    have begun := laid.1.begun
    have others := ih laid.2
    rw [remainsSectors_cons, List.length_cons]
    simp only [blockSectors] at begun
    omega

end Laid

namespace Lsm
variable [Kernel]

/-- The walk over a log in which a part of a table is followed by as many sectors
as its header claims: it is taken for a table, unless a read failed before. -/
theorem recoverFrom_burned (tables : List (Memtable × Nat)) {rounds cursor : Nat} {machine : Machine} {part : Remains}
    (tiled : Tiled machine.world.media cursor tables) (small : ∀ entry ∈ tables, entry.2 < 2 ^ 64)
    (lies : part.Lies machine.world.media (logEnd cursor tables)) (low : part.seq < 2 ^ 64)
    (fits : logEnd cursor tables + part.table.logSectors ≤ machine.lsm.metaWp) (enough : machine.lsm.metaWp < cursor + rounds) :
    Effect.Ensures (recoverFrom rounds cursor) machine (fun _ after =>
      sstLoaded part.table (logEnd cursor tables) part.seq ∈ after.lsm.sstables ∨
        ¬ machine.world.oracle.Healthy ∧
          ∃ found, found <+: tables ∧ after.lsm = (logTables cursor found).foldl adoptSstable machine.lsm) := by
  have stopped {after : Machine} {cursor : Nat} {machine : Machine} (tables : List (Memtable × Nat)) (same : after.lsm = machine.lsm)
      (sick : ¬ machine.world.oracle.Healthy) : ¬ machine.world.oracle.Healthy ∧
        ∃ found, found <+: tables ∧ after.lsm = (logTables cursor found).foldl adoptSstable machine.lsm :=
    ⟨sick, [], List.nil_prefix, same⟩
  have size := part.table.logSectors_pos
  simp only [blockSectors] at size
  induction tables generalizing rounds cursor machine with
  | nil =>
    rw [logEnd] at lies fits ⊢
    cases rounds with
    | zero => omega
    | succ rounds =>
      rw [recoverFrom]
      apply Effect.Ensures.get_bind
      rw [if_pos (by omega)]
      refine Effect.Ensures.attempt_bind (sstLoad_machine lies.sound lies.filled low (by omega) lies.header) ?_
      rintro result after ⟨same, quiet, rfl | ⟨error, rfl, sick, _⟩⟩
      · rw [if_neg (by omega)]
        apply Effect.Ensures.modify_bind
        refine (recoverFrom_tiles _ _ _).mono ?_
        rintro result final ⟨_, listed, _, tiles⟩
        rw [tiles.listed]
        exact Or.inl (List.mem_append_right _ List.mem_cons_self)
      · cases error with
        | einval => exact Or.inr (stopped [] same sick)
        | _ => exact Or.inr (stopped [] same sick)
  | cons entry rest ih =>
    obtain ⟨table, seq⟩ := entry
    obtain ⟨stored, tiled⟩ := tiled
    obtain ⟨first, small⟩ := List.forall_mem_cons.mp small
    have beyond := le_logEnd (cursor + table.logSectors) rest
    have span := table.logSectors_pos
    simp only [blockSectors] at span
    rw [logEnd] at lies fits ⊢
    cases rounds with
    | zero => omega
    | succ rounds =>
      rw [recoverFrom]
      apply Effect.Ensures.get_bind
      rw [if_pos (by omega)]
      have held : ZnsBase.Holds machine.world.media cursor (sstImage table cursor seq) := stored.loaded_image
      refine Effect.Ensures.attempt_bind (sstLoad_machine stored.sound stored.filled first (by omega) held.head) ?_
      rintro result after ⟨same, quiet, rfl | ⟨error, rfl, sick, _⟩⟩
      · rw [if_neg (by omega)]
        apply Effect.Ensures.modify_bind
        rw [sstLoaded_logSectors stored]
        refine (ih (by rw [quiet.media]; exact tiled) small (by rw [quiet.media]; exact lies) ?_ ?_).mono ?_
        · change _ ≤ after.lsm.metaWp
          rw [same]
          exact fits
        · change after.lsm.metaWp < _
          rw [same]
          omega
        · rintro result final (listed | ⟨sick, found, ahead, engine⟩)
          · exact Or.inl listed
          · refine Or.inr ⟨fun healthy => sick (healthy.later quiet.later), (table, seq) :: found, ?_, ?_⟩
            · exact List.cons_prefix_cons.mpr ⟨rfl, ahead⟩
            · rw [engine, logTables, List.foldl_cons, ← same]
      · cases error with
        | einval => exact Or.inr (stopped _ same sick)
        | _ => exact Or.inr (stopped _ same sick)

/-- The log of a device holds what these attempts left, or it is yet to be formatted. -/
def Archive (world : World) (data : List Extent) (log : Extent) (attempts : List Remains) : Prop :=
  (world.LogEnd data.length log log.start ∧ attempts = []) ∨
    (Laid world.media (log.start + blockSectors) attempts ∧
      world.LogEnd data.length log (log.start + blockSectors + remainsSectors attempts) ∧
      ∀ place remains, attempts[place]? = some remains → remains.seq ≤ place + 1)

section Start
variable {log : Extent} {params : Params} {logicalSectors uuid : Nat} {world : World} {data : List Extent} {opened : Machine}
  {attempts : List Remains} (archive : Archive world data log attempts)
  (opening : Opened params logicalSectors uuid world opened.world data log opened.lsm)
include archive opening

theorem Archive.opened_log : Laid opened.world.media (log.start + blockSectors) attempts ∧
    log.start + blockSectors + remainsSectors attempts = opened.lsm.metaWp ∧
    ∀ place remains, attempts[place]? = some remains → remains.seq ≤ place + 1 := by
  obtain ⟨middle, quiet, logged⟩ := opening.opening
  generalize same : (⟨opened.lsm.metaStart, opened.lsm.metaWp, opened.lsm.metaEnd, opened.lsm.super⟩ : Metadata) = metadata
    at logged
  have pointer : opened.lsm.metaWp = metadata.metaWp := by rw [← same]
  rw [pointer, quiet.media]
  cases logged with
  | formatted ends landed later dataWrites =>
    rcases archive with ⟨_, rfl⟩ | ⟨_, other, _⟩
    · exact ⟨trivial, rfl, nofun⟩
    · have clash : log.start + blockSectors + remainsSectors attempts = log.start := other.trans ends.symm
      simp only [blockSectors] at clash
      omega
  | found still ends used decoded matched =>
    rcases archive with ⟨empty, _⟩ | ⟨laid, other, numbered⟩
    · exact absurd (ends.trans empty.symm) used
    · exact ⟨by rw [still.media]; exact laid, other.trans ends.symm, numbered⟩

variable (split : world.geometry.zones = data ++ [log])
include split

/-- No number comes near the end of its field: the device is too small. -/
theorem Archive.small : ∀ remains ∈ attempts, remains.seq + 1 ≤ attempts.length + 1 ∧ remains.seq + 1 < 2 ^ 64 := by
  obtain ⟨laid, last, numbered⟩ := archive.opened_log opening
  have capacity := world.geometry.capacity_le log (by rw [split]; simp)
  have zone := world.geometry.bounded log (by rw [split]; simp)
  have inside := opening.logEnd
  have few := laid.length_le
  intro remains member
  obtain ⟨place, found⟩ := List.mem_iff_getElem?.mp member
  obtain ⟨bound, _⟩ := List.getElem?_eq_some_iff.mp found
  have number := numbered place remains found
  simp only [blockSectors] at last
  omega

/-- What recovery makes of such a log. -/
theorem Archive.walked {whole rest : List Remains} (parts : attempts = whole ++ rest) (all : ∀ remains ∈ whole, remains.Whole) :
    Effect.Ensures recoverSstables opened (fun _ recovered =>
      (∃ found, found <+: whole.map Remains.entry ∧
        recovered.lsm = (logTables (log.start + blockSectors) found).foldl adoptSstable opened.lsm ∧
        (opened.world.oracle.Healthy → found = whole.map Remains.entry ∧
          ∀ part ∈ rest.head?, ¬ part.Whole → remainsSectors rest < part.table.logSectors)) ∨
      ∃ part ∈ rest.head?, part.table.logSectors ≤ remainsSectors rest ∧
        sstLoaded part.table (log.start + blockSectors + remainsSectors whole) part.seq ∈ recovered.lsm.sstables) := by
  obtain ⟨laid, last, _⟩ := archive.opened_log opening
  have small := archive.small opening split
  subst parts
  obtain ⟨front, behind⟩ := laid_append.mp laid
  have tiled := front.tiled all
  have ends := logEnd_whole all (log.start + blockSectors)
  rw [remainsSectors_append] at last
  have low : ∀ entry ∈ whole.map Remains.entry, entry.2 < 2 ^ 64 := by
    intro entry member
    obtain ⟨remains, inside, rfl⟩ := List.mem_map.mp member
    have := (small remains (List.mem_append_left _ inside)).2
    exact (Nat.lt_succ_self _).trans this
  have started : recoverSstables opened = recoverFrom (opened.lsm.metaWp + 1) (log.start + blockSectors) opened := by
    rw [recoverSstables, Effect.get_bind_run, (opening.attached split).metaStart]
  rw [Effect.Ensures, started]
  -- A part that is long enough for its header is adopted, the walk ends at any other.
  by_cases long : ∃ part ∈ rest.head?, part.table.logSectors ≤ remainsSectors rest
  · obtain ⟨part, first, long⟩ := long
    obtain ⟨others, rfl⟩ : ∃ others, rest = part :: others := by
      cases rest with
      | nil => cases first
      | cons other others =>
        cases first
        exact ⟨others, rfl⟩
    have lies : part.Lies opened.world.media (logEnd (log.start + blockSectors) (whole.map Remains.entry)) := by
      rw [ends]
      exact behind.1
    have number := (small part (List.mem_append_right _ List.mem_cons_self)).2
    have walk := @recoverFrom_burned _ (whole.map Remains.entry) (opened.lsm.metaWp + 1) (log.start + blockSectors) opened part
      tiled low lies ((Nat.lt_succ_self _).trans number) (by omega) (by omega)
    unfold Effect.Ensures at walk
    rcases walk with adopted | ⟨sick, found, ahead, engine⟩
    · rw [ends] at adopted
      exact Or.inr ⟨part, rfl, long, adopted⟩
    · exact Or.inl ⟨found, ahead, engine, fun healthy => absurd healthy sick⟩
  · have short : ∀ part ∈ rest.head?, remainsSectors rest < part.table.logSectors :=
      fun part first => Nat.lt_of_not_le fun fits => long ⟨part, first, fits⟩
    have tail : LogTail opened.world.media (logEnd (log.start + blockSectors) (whole.map Remains.entry)) opened.lsm.metaWp := by
      cases rest with
      | nil => exact .clean (by rw [ends, ← last]; rfl)
      | cons part others =>
        have number := (small part (List.mem_append_right _ List.mem_cons_self)).2
        have begun := behind.1.begun
        have cut := short part rfl
        rw [remainsSectors_cons] at last cut
        simp only [blockSectors] at begun
        refine .torn part.table part.seq behind.1.sound behind.1.filled ((Nat.lt_succ_self _).trans number) ?_ ?_ ?_
        · rw [ends]
          exact behind.1.header
        · omega
        · omega
    have walk : Effect.Ensures (recoverFrom (opened.lsm.metaWp + 1) (log.start + blockSectors)) opened
        (Walked opened (log.start + blockSectors) (whole.map Remains.entry)) := recoverFrom_walk _ tiled tail low (by omega)
    obtain ⟨found, ahead, engine, _, reason⟩ := walk
    refine Or.inl ⟨found, ahead, engine, fun healthy => ⟨?_, fun part first _ => short part first⟩⟩
    rcases reason with ⟨_, same | reports⟩ | ⟨_, _, sick⟩
    · exact same
    · exact absurd reports (healthy.requests _ _)
    · exact absurd healthy sick

/-- A start that goes through adopted no part of a table: its keys are out of range. -/
theorem Archive.started (narrow : logicalSectors < 2 ^ 64) {after : Machine} (started : Started opened after)
    {whole rest : List Remains} (parts : attempts = whole ++ rest) (all : ∀ remains ∈ whole, remains.Whole)
    (torn : ∀ part ∈ rest.head?, ¬ part.Whole) :
    after.lsm.nextSstSeq ≤ attempts.length + 1 ∧ (opened.world.oracle.Healthy →
      after.lsm.sstables = (logTables (log.start + blockSectors) (whole.map Remains.entry)).reverse ∧
        ∀ part ∈ rest.head?, remainsSectors rest < part.table.logSectors) := by
  obtain ⟨recovered, ran, state, still⟩ := started.recovered
  have walked := archive.walked opening split parts all
  have small := archive.small opening split
  rw [Effect.Ensures, ran] at walked
  have sstables : after.lsm.sstables = recovered.lsm.sstables := congrArg LogState.sstables state
  have next : after.lsm.nextSstSeq = recovered.lsm.nextSstSeq := congrArg LogState.nextSstSeq state
  rcases walked with ⟨found, ⟨missed, ahead⟩, engine, complete⟩ | ⟨part, first, long, adopted⟩
  · have within (sst : Sstable) (member : sst ∈ logTables (log.start + blockSectors) found) :
        sst.seq + 1 ≤ attempts.length + 1 ∧ sst.seq + 1 < 2 ^ 64 := by
      obtain ⟨entry, inside, same⟩ := logTables_seq member
      have listed : entry ∈ whole.map Remains.entry := by
        rw [← ahead]
        exact List.mem_append_left _ inside
      obtain ⟨remains, held, rfl⟩ := List.mem_map.mp listed
      rw [same]
      exact small remains (by rw [parts]; exact List.mem_append_left _ held)
    have adopts := adoptSstable_all _ opened.lsm fun sst member => (within sst member).2
    dsimp only at engine
    rw [← engine] at adopts
    have fresh : opened.lsm.sstables = [] ∧ opened.lsm.nextSstSeq = 1 := by
      rw [opening.engine]
      exact ⟨rfl, rfl⟩
    refine ⟨?_, fun healthy => ?_⟩
    · rw [next]
      exact adopts.bounded _ (by rw [fresh.2]; omega) fun sst member => (within sst member).1
    · obtain ⟨rfl, short⟩ := complete healthy
      refine ⟨?_, fun part first => short part first (torn part first)⟩
      rw [sstables, adopts.sstables, fresh.1, List.append_nil]
  · exfalso
    obtain ⟨laid, _, _⟩ := archive.opened_log opening
    subst parts
    obtain ⟨_, behind⟩ := laid_append.mp laid
    have incomplete := torn part first
    -- Something lies behind the part, or it would be too short for its header.
    obtain ⟨other, others, rfl⟩ : ∃ other others, rest = part :: other :: others := by
      rcases rest with _ | ⟨found, _ | ⟨other, others⟩⟩
      · cases first
      · cases first
        rw [remainsSectors_cons] at long
        have within := behind.1.within
        exact absurd (within.antisymm long) incomplete
      · cases first
        exact ⟨other, others, rfl⟩
    have number := (small other (List.mem_append_right _ (by simp))).2
    obtain ⟨pair, held, key⟩ := behind.misread incomplete ((Nat.lt_succ_self _).trans number)
    rw [← sstables] at adopted
    have sized : ∀ sst ∈ after.lsm.sstables, sst.Sized := fun sst member => (started.placed opening sst member).1
    obtain ⟨_, inRange, _⟩ := started.restored split opening sized
    rw [← started.device.media] at held
    have bound := inRange _ adopted pair held
    have limit : after.lsm.super.logicalSectors = logicalSectors := by
      rw [started.sameLog.super]
      obtain ⟨_, _, opens⟩ := opening.opening
      exact opens.bounds.2.2.1
    rw [key, logicalBlocks, limit, sstMagic] at bound
    simp only [blockSectors] at bound
    omega

end Start

section Session
variable {log : Extent} {limit : Nat} {attempts : List Remains} {machine after : Machine}

/-- A session on a log that holds what these attempts left. -/
structure Archived (machine : Machine) (log : Extent) (limit : Nat) (attempts : List Remains) : Prop where
  settled : Settled machine log limit machine.logView
  dry : ¬ machine.world.oracle.Spills .metadata
  laid : Laid machine.world.media (log.start + blockSectors) attempts
  last : log.start + blockSectors + remainsSectors attempts = machine.lsm.metaWp
  ends : machine.world.LogEnd machine.lsm.allocator.zones.length log machine.lsm.metaWp
  numbered : ∀ place remains, attempts[place]? = some remains → remains.seq ≤ place + 1
  next : machine.lsm.nextSstSeq ≤ attempts.length + 1

/-- What an attempt to append a table to the log leaves there. -/
def remainsOf (table : Memtable) (machine : Machine) : List Remains :=
  if (attemptTable table machine).1.consumed = 0 then []
  else [⟨table, machine.lsm.nextSstSeq, (attemptTable table machine).1.consumed⟩]

variable (archived : Archived machine log limit attempts)
include archived

/-- Whatever leaves the log alone. -/
theorem Archived.beside (settled : Settled after log limit machine.logView) : Archived after log limit attempts := by
  have of := settled.1.of
  have attached := archived.settled.1.attached
  have pointer : after.world.writePointer after.world.logIndex = machine.world.writePointer machine.world.logIndex :=
    congrArg LogDevice.writePointer of.device
  have condition : after.world.condition after.world.logIndex = machine.world.condition machine.world.logIndex :=
    congrArg LogDevice.condition of.device
  have metaWp : after.lsm.metaWp = machine.lsm.metaWp := congrArg LogState.metaWp of.state
  have next : after.lsm.nextSstSeq = machine.lsm.nextSstSeq := congrArg LogState.nextSstSeq of.state
  have media (address : Nat) (above : log.start * sectorBytes ≤ address) :
      after.world.media address = machine.world.media address := by
    have bytes := congrFun (congrArg LogDevice.bytes of.device) (address - log.start * sectorBytes)
    simp only [Machine.logView, World.logDevice, settled.1.attached.logStart, attached.logStart] at bytes
    rw [Nat.add_sub_cancel' above] at bytes
    exact bytes
  refine ⟨⟨{ settled.1 with of := ⟨rfl, rfl, .refl _⟩ }, settled.2⟩, fun spills => archived.dry (spills.later of.later), ?_,
    by rw [metaWp]; exact archived.last, ?_, archived.numbered, by rw [next]; exact archived.next⟩
  · refine archived.laid.frame fun address low _ => media address ((Nat.mul_le_mul_right _ ?_).trans low)
    exact Nat.le_add_right _ _
  · rw [settled.1.attached.logIndex, attached.logIndex] at pointer condition
    rw [metaWp, World.LogEnd, pointer, condition]
    exact archived.ends

omit archived in
/-- A log with one more thing behind it. -/
theorem Archived.behind {remains : Remains} (archived : Archived machine log limit attempts)
    (settled : Settled after log limit after.logView) (dry : ¬ after.world.oracle.Spills .metadata)
    (laid : Laid after.world.media (log.start + blockSectors) attempts)
    (lies : remains.Lies after.world.media machine.lsm.metaWp) (seq : remains.seq = machine.lsm.nextSstSeq)
    (metaWp : after.lsm.metaWp = machine.lsm.metaWp + remains.sectors)
    (ends : after.world.LogEnd after.lsm.allocator.zones.length log (machine.lsm.metaWp + remains.sectors))
    (next : after.lsm.nextSstSeq ≤ machine.lsm.nextSstSeq + 1) : Archived after log limit (attempts ++ [remains]) := by
  have number := archived.next
  refine ⟨settled, dry, ?_, ?_, by rw [metaWp]; exact ends, fun place found held => ?_, ?_⟩
  · rw [laid_append, archived.last]
    exact ⟨laid, lies, trivial⟩
  · rw [remainsSectors_append, ← Nat.add_assoc, archived.last, metaWp]
    rfl
  · rcases Nat.lt_or_ge place attempts.length with less | beyond
    · rw [List.getElem?_append_left less] at held
      exact archived.numbered place found held
    · rw [List.getElem?_append_right beyond] at held
      have first := (List.getElem?_eq_some_iff.mp held).1
      rw [List.length_singleton] at first
      obtain rfl : place = attempts.length := by omega
      rw [Nat.sub_self] at held
      cases held
      omega
  · rw [List.length_append, List.length_singleton]
    omega

/-- An attempt to append one of the tables in memory. -/
theorem Archived.attempt (narrow : limit < 2 ^ 64) {table : Memtable} (resident : table ∈ machine.lsm.residents)
    (flushes : Flushes machine after log) (world : after.world = (attemptTable table machine).2)
    (metaWp : after.lsm.metaWp = machine.lsm.metaWp + (attemptTable table machine).1.consumed)
    (next : after.lsm.nextSstSeq = machine.lsm.nextSstSeq ∨ after.lsm.nextSstSeq = machine.lsm.nextSstSeq + 1 ∧
      ∃ sst, (attemptTable table machine).1.result = .ok sst) :
    Archived after log limit (attempts ++ remainsOf table machine) := by
  have disciplined := archived.settled.1
  have sound : table.Sound := (disciplined.narrow narrow).1 table resident
  have settled : Settled after log limit after.logView := by
    refine ⟨{ flushes.disciplined disciplined with of := ⟨rfl, rfl, .refl _⟩ }, fun running => ?_⟩
    rw [flushes.writesStopped] at running
    exact flushes.synced (archived.settled.2 running)
  have dry : ¬ after.world.oracle.Spills .metadata := fun spills => archived.dry (spills.later flushes.later)
  have write := sstWrite_attached disciplined.flushable sound.toRegular machine.lsm.nextSstSeq
  have outcome := @SstWrite.extends _ [] _ _ machine.lsm.metaWp _ _ _ _ _ _ write sound archived.dry trivial rfl archived.ends
  obtain ⟨count, aligned, _⟩ := (write.attempted sound.toRegular).consumed
  obtain ⟨appended, _, _⟩ := write.appended
  have zones : after.lsm.allocator.zones.length = machine.lsm.allocator.zones.length := by rw [flushes.allocator]
  have kept : Laid after.world.media (log.start + blockSectors) attempts := by
    refine archived.laid.frame fun address _ high => ?_
    rw [world]
    exact appended.media address (Or.inl (by rw [← archived.last]; exact high))
  change Extends _ _ _ _ _ _ _ _ (attemptTable table machine).1 (attemptTable table machine).2 at outcome
  change (attemptTable table machine).1.consumed = _ at aligned
  rw [remainsOf]
  generalize attemptTable table machine = attempted at outcome world metaWp next aligned
  obtain ⟨written, device⟩ := attempted
  dsimp only at outcome world metaWp next aligned ⊢
  subst world
  have size := table.logSectors_pos
  cases outcome with
  | nothing tiled ends =>
    have still : after.lsm.nextSstSeq = machine.lsm.nextSstSeq := by
      rcases next with same | ⟨_, _, done⟩
      · exact same
      · cases done
    rw [if_pos rfl, List.append_nil]
    refine ⟨settled, dry, kept, by rw [metaWp]; exact archived.last, ?_, archived.numbered, by rw [still]; exact archived.next⟩
    rw [zones, metaWp]
    exact ends
  | complete filled tiled ends room =>
    rw [if_neg (show ¬ table.logSectors = 0 by simp only [blockSectors] at size; omega)]
    obtain ⟨stored, _⟩ : Tiled after.world.media machine.lsm.metaWp [(table, machine.lsm.nextSstSeq)] := tiled
    refine archived.behind settled dry kept ⟨sound, filled, size, ?_, Nat.le_refl _, stored.loaded_image.head, fun _ => stored⟩ rfl
      metaWp (by rw [zones]; exact ends) (by omega)
    rw [show table.logSectors = count * blockSectors from aligned]
    exact Nat.mul_mod_left _ _
  | @torn _ error consumed filled some_ short tiled header ends room cause sick =>
    have still : after.lsm.nextSstSeq = machine.lsm.nextSstSeq := by
      rcases next with same | ⟨_, _, done⟩
      · exact same
      · cases done
    rw [if_neg (show ¬ consumed = 0 by omega)]
    have whole : consumed % blockSectors = 0 := by
      rw [show consumed = count * blockSectors from aligned]
      exact Nat.mul_mod_left _ _
    refine archived.behind settled dry kept ⟨sound, filled, ?_, whole, short.le, header, fun complete => ?_⟩ rfl metaWp
      (by rw [zones]; exact ends) (by omega)
    · exact Nat.le_of_dvd some_ (Nat.dvd_of_mod_eq_zero whole)
    · exact absurd complete short.ne

/-- Requests, and what the flush worker does besides writing, leave the log alone. -/
theorem Archived.request (params : Params) (bio : Bio) : Archived (engineMap params bio machine).2 log limit attempts :=
  archived.beside (engineMap_preserves (fun _ settled => settled.1.logicalSectors) (fun _ _ settled same => settled.same same)
    (fun _ _ bytes settled _ inside => appendWrite_settled params bytes settled inside) bio archived.settled)

theorem Archived.notes {lsm : Lsm} (flushes : Flushes machine { machine with lsm } log)
    (state : lsm.logState = machine.lsm.logState) : Archived { machine with lsm } log limit attempts := by
  refine archived.beside ⟨{ flushes.disciplined archived.settled.1 with of := ⟨state, rfl, .refl _⟩ }, fun running => ?_⟩
  rw [flushes.writesStopped] at running
  exact flushes.synced (archived.settled.2 running)

theorem Archived.claim : Archived { machine with lsm := machine.lsm.claimFlushVictim } log limit attempts := by
  refine archived.notes (claimFlushVictim_flushes machine log) ?_
  unfold claimFlushVictim
  split <;> rfl

theorem Archived.flags (flushInFlight flushPending : Bool) :
    Archived { machine with lsm := { machine.lsm with flushInFlight, flushPending } } log limit attempts := by
  refine archived.notes ⟨rfl, rfl, rfl, rfl, Nat.le_refl _, rfl, rfl, rfl, rfl, rfl, rfl, rfl, fun _ member => member, ?_, rfl, .refl _⟩ rfl
  exact (World.SameDevice.refl _).appended _ _ _

theorem Archived.victim (narrow : limit < 2 ^ 64) {victim : Memtable} (slot : machine.lsm.flushing = some victim) :
    Archived (flushVictim victim machine).2 log limit (attempts ++ remainsOf victim machine) := by
  have resident : victim ∈ machine.lsm.residents := by simp [residents, slot]
  obtain ⟨world, state⟩ := flushVictim_log victim machine
  refine archived.attempt narrow resident (flushVictim_flushes archived.settled.1.flushable slot) world ?_ ?_
  · rcases state with ⟨_, _, moved⟩ | ⟨sst, _, published⟩
    · exact congrArg LogState.metaWp moved
    · exact congrArg LogState.metaWp published
  · rcases state with ⟨_, _, moved⟩ | ⟨sst, done, published⟩
    · exact Or.inl (congrArg LogState.nextSstSeq moved)
    · exact Or.inr ⟨congrArg LogState.nextSstSeq published, sst, done⟩

/-- One round of a detach. -/
theorem Archived.detach (narrow : limit < 2 ^ 64) {table : Memtable} (resident : table ∈ machine.lsm.residents) :
    Archived (flushGenerations [some table] machine).2 log limit (attempts ++ remainsOf table machine) := by
  have sound : table.Sound := (archived.settled.1.narrow narrow).1 table resident
  obtain ⟨_, _, _, flushes⟩ := flushGenerations_single archived.settled.1.flushable sound.toRegular
  obtain ⟨goesOn, skips, stops⟩ := @flushGenerations_round table [] machine (attemptTable table machine).2
    (attemptTable table machine).1 rfl
  cases done : (attemptTable table machine).1.result with
  | ok sst =>
    have ended := goesOn sst done
    rw [flushGenerations] at ended
    exact archived.attempt narrow resident flushes (by rw [ended]) (by rw [ended]) (Or.inr ⟨by rw [ended], sst, done⟩)
  | error error =>
    have ended : (flushGenerations [some table] machine).2 =
        ⟨{ machine.lsm with metaWp := machine.lsm.metaWp + (attemptTable table machine).1.consumed }, (attemptTable table machine).2⟩ := by
      by_cases empty : error = .enodata
      · subst empty
        rw [skips done]
        rfl
      · rw [stops error done empty]
    exact archived.attempt narrow resident flushes (by rw [ended]) (by rw [ended]) (Or.inl (by rw [ended]))

end Session

section Restart
variable {log : Extent} {limit uuid : Nat} {params : Params} {attempts : List Remains} {machine opened after : Machine}
  {world : World} {data : List Extent}

/-- The session after a start. -/
theorem Archive.archived (archive : Archive world data log attempts)
    (opening : Opened params limit uuid world opened.world data log opened.lsm) (split : world.geometry.zones = data ++ [log])
    (started : Started opened after) (narrow : limit < 2 ^ 64) (orderly : Orderly world) (dry : ¬ world.oracle.Spills .metadata) :
    Archived after log limit attempts := by
  obtain ⟨laid, last, numbered⟩ := archive.opened_log opening
  obtain ⟨next, _⟩ := archive.started opening split narrow started (intact_append_fromTorn attempts).symm (intact_whole attempts)
    (fromTorn_head attempts)
  obtain ⟨middle, quiet, logged⟩ := opening.opening
  have later : world.oracle.Later after.world.oracle := (logged.later.trans quiet.later).trans started.device.later
  have attached := started.attached split opening
  have zones : after.lsm.allocator.zones.length = data.length := by
    rw [← attached.logIndex, World.logIndex, started.device.geometry, (opening.appended split).1.geometry, split]
    simp
  refine ⟨started.settled split opening orderly, fun spills => dry (spills.later later), ?_, ?_, ?_, numbered, next⟩
  · rw [started.device.media]
    exact laid
  · rw [last, started.sameLog.metaWp]
  · rw [zones, started.sameLog.metaWp]
    exact started.device.logEnd (quiet.logEnd logged.bounds.2.2.2)

/-- The device without its engine, after a detach or a crash. -/
theorem Archived.archive (archived : Archived machine log limit attempts) (oracle : Oracle) :
    Archive { machine.world with oracle } (machine.lsm.allocator.zones.map Zone.extent) log attempts := by
  refine Or.inr ⟨archived.laid, ?_, archived.numbered⟩
  have ends := archived.ends
  rw [← archived.last] at ends
  rw [List.length_map]
  exact ends

end Restart

/-- What the attempts of all sessions on a device left in its log, oldest first.
A session ends at any point, after a detach or not, and the next start goes through. -/
inductive Logs (limit : Nat) : Machine → List Remains → Prop
  | format {params : Params} {uuid physicalSectors sectorsPerBlock : Nat} {world after : World} {lsm : Lsm}
      (unformatted : Unformatted world) (unwritten : world.submitted = []) (dry : ¬ world.oracle.Spills .metadata)
      (ran : engineInit params uuid limit physicalSectors sectorsPerBlock world = (.ok lsm, after)) : Logs limit ⟨lsm, after⟩ []
  | request (params : Params) (bio : Bio) {machine : Machine} {attempts : List Remains} (logs : Logs limit machine attempts) :
      Logs limit (engineMap params bio machine).2 attempts
  | claim {machine : Machine} {attempts : List Remains} (logs : Logs limit machine attempts) :
      Logs limit { machine with lsm := machine.lsm.claimFlushVictim } attempts
  | flags (flushInFlight flushPending : Bool) {machine : Machine} {attempts : List Remains} (logs : Logs limit machine attempts) :
      Logs limit { machine with lsm := { machine.lsm with flushInFlight, flushPending } } attempts
  | attempt {victim : Memtable} {machine : Machine} {attempts : List Remains} (slot : machine.lsm.flushing = some victim)
      (logs : Logs limit machine attempts) : Logs limit (flushVictim victim machine).2 (attempts ++ remainsOf victim machine)
  | detach {table : Memtable} {machine : Machine} {attempts : List Remains} (resident : table ∈ machine.lsm.residents)
      (logs : Logs limit machine attempts) :
      Logs limit (flushGenerations [some table] machine).2 (attempts ++ remainsOf table machine)
  | restart {params : Params} {uuid physicalSectors sectorsPerBlock : Nat} {oracle : Oracle} {machine : Machine} {after : World}
      {lsm : Lsm} {attempts : List Remains} (logs : Logs limit machine attempts) (dry : ¬ oracle.Spills .metadata)
      (ran : engineInit params uuid limit physicalSectors sectorsPerBlock { machine.world with oracle } = (.ok lsm, after)) :
      Logs limit ⟨lsm, after⟩ attempts

theorem Logs.archived {limit : Nat} (narrow : limit < 2 ^ 64) {machine : Machine} {attempts : List Remains}
    (logs : Logs limit machine attempts) : ∃ log, Archived machine log limit attempts := by
  induction logs with
  | @format params uuid _ _ world after lsm unformatted unwritten dry ran =>
    obtain ⟨data, log, split, ends⟩ := unformatted
    obtain ⟨opened, opening, started⟩ := engineInit_ok split ran
    have archive : Archive world data log [] := Or.inl ⟨ends, rfl⟩
    have orderly : Orderly world := by
      intro write member
      simp [World.dataWrites, unwritten] at member
    exact ⟨log, archive.archived opening split started narrow orderly dry⟩
  | request params bio _ ih => exact ih.imp fun log archived => archived.request params bio
  | claim _ ih => exact ih.imp fun log archived => archived.claim
  | flags flushInFlight flushPending _ ih => exact ih.imp fun log archived => archived.flags flushInFlight flushPending
  | attempt slot _ ih => exact ih.imp fun log archived => archived.victim narrow slot
  | detach resident _ ih => exact ih.imp fun log archived => archived.detach narrow resident
  | @restart params uuid _ _ oracle machine after lsm attempts _ dry ran ih =>
    obtain ⟨log, archived⟩ := ih
    have split : ({ machine.world with oracle } : World).geometry.zones = machine.lsm.allocator.zones.map Zone.extent ++ [log] :=
      archived.settled.1.attached.geometry
    obtain ⟨opened, opening, started⟩ := engineInit_ok split ran
    exact ⟨log, (archived.archive oracle).archived opening split started narrow archived.settled.1.orderly dry⟩

omit [Kernel] in
theorem wholeSstables_stops {whole rest : List Remains} (all : ∀ remains ∈ whole, remains.Whole) (sector : Nat) :
    (logTables sector (whole.map Remains.entry)).reverse = (wholeSstables sector (whole ++ rest)).reverse ↔
      wholeSstables (sector + remainsSectors whole) rest = [] := by
  rw [wholeSstables_append all, List.reverse_inj]
  exact List.self_eq_append_right

omit [Kernel] in
theorem wholeSstables_above {rest : List Remains} {sector : Nat} :
    ∀ sst ∈ wholeSstables sector rest, sector ≤ sst.startSector := by
  induction rest generalizing sector with
  | nil => nofun
  | cons remains rest ih =>
    rw [wholeSstables]
    have later (sst : Sstable) (member : sst ∈ wholeSstables (sector + remains.sectors) rest) : sector ≤ sst.startSector :=
      (Nat.le_add_right _ _).trans (ih sst member)
    split
    · rw [List.forall_mem_cons]
      exact ⟨(sstLoaded_place _ _ _).1.ge, later⟩
    · exact later

omit [Kernel] in
theorem logTables_below {tables : List (Memtable × Nat)} {sector : Nat} :
    ∀ sst ∈ logTables sector tables, sst.startSector < logEnd sector tables := by
  induction tables generalizing sector with
  | nil => nofun
  | cons entry rest ih =>
    obtain ⟨table, seq⟩ := entry
    have size := table.logSectors_pos
    have beyond := le_logEnd (sector + table.logSectors) rest
    simp only [blockSectors] at size
    rw [logTables, logEnd, List.forall_mem_cons]
    exact ⟨by rw [(sstLoaded_place _ _ _).1]; omega, ih⟩

section Found
variable {log : Extent} {params : Params} {limit uuid : Nat} {world : World} {data : List Extent} {opened recovered : Machine}
  {whole rest : List Remains} (archive : Archive world data log (whole ++ rest))
  (opening : Opened params limit uuid world opened.world data log opened.lsm) (split : world.geometry.zones = data ++ [log])
  (all : ∀ remains ∈ whole, remains.Whole) (torn : ∀ part ∈ rest.head?, ¬ part.Whole)
  (healthy : opened.world.oracle.Healthy) (ran : recoverSstables opened = (.ok (), recovered))
include archive opening split all

include torn healthy ran in
/-- Recovery lists all complete tables and nothing else just when the log ends
within the first part of one. -/
theorem Archive.finds_iff : recovered.lsm.sstables = (wholeSstables (log.start + blockSectors) (whole ++ rest)).reverse ↔
    TornTail (whole ++ rest) := by
  obtain ⟨laid, _, _⟩ := archive.opened_log opening
  have small := archive.small opening split
  have walked := archive.walked opening split rfl all
  have empty : opened.lsm.sstables = [] := by
    rw [opening.engine]
    rfl
  rw [Effect.Ensures, ran] at walked
  rw [tornTail_append all, tornTail_iff torn (log.start + blockSectors + remainsSectors whole)]
  rcases walked with ⟨found, _, engine, complete⟩ | ⟨part, first, long, adopted⟩
  · obtain ⟨rfl, short⟩ := complete healthy
    have adopts := adoptSstable_all (logTables (log.start + blockSectors) (whole.map Remains.entry)) opened.lsm fun sst member => by
      obtain ⟨entry, inside, same⟩ := logTables_seq member
      obtain ⟨remains, held, rfl⟩ := List.mem_map.mp inside
      rw [same]
      exact (small remains (List.mem_append_left _ held)).2
    dsimp only at engine
    rw [← engine] at adopts
    rw [adopts.sstables, empty, List.append_nil, wholeSstables_stops all]
    exact ⟨fun none_ => ⟨none_, fun part first => short part first (torn part first)⟩, fun both => both.1⟩
  · refine ⟨fun same => ?_, fun both => absurd long (Nat.not_le.mpr (both.2 part first))⟩
    exfalso
    rw [same, List.mem_reverse, wholeSstables_append all, List.mem_append] at adopted
    have place := (sstLoaded_place part.table (log.start + blockSectors + remainsSectors whole) part.seq).1
    rcases adopted with before | behind
    · have below := logTables_below _ before
      rw [place, logEnd_whole all] at below
      exact Nat.lt_irrefl _ below
    · cases rest with
      | nil => cases first
      | cons other others =>
        cases first
        have begun := (laid_append.mp laid).2.1.begun
        rw [wholeSstables, if_neg (torn _ rfl)] at behind
        have above := wholeSstables_above _ behind
        rw [place] at above
        simp only [blockSectors] at begun
        omega

omit split in
include ran in
/-- What such a recovery finds is what was written completely. -/
theorem Archive.recalls (found : recovered.lsm.sstables = (wholeSstables (log.start + blockSectors) (whole ++ rest)).reverse)
    (none_ : ∀ remains ∈ rest, ¬ remains.Whole) (logicalBlock : Nat) : lookup recovered logicalBlock =
      answer (Layers.resolve ((wholeTables (whole ++ rest)).reverse.map Memtable.pairs) logicalBlock) := by
  obtain ⟨laid, _, _⟩ := archive.opened_log opening
  have tiled := (laid_append.mp laid).1.tiled all
  have adopts : Effect.Ensures recoverSstables opened (fun _ after => Adopts opened after) :=
    recoverFrom_adopts (opened.lsm.metaWp + 1) (opened.lsm.metaStart + blockSectors) opened
  rw [Effect.Ensures, ran] at adopts
  have listed : recovered.lsm.sstables = (logTables (log.start + blockSectors) (whole.map Remains.entry)).reverse := by
    rw [found, wholeSstables_append all, wholeSstables_nil.mpr none_, List.append_nil]
  have residents : recovered.lsm.residents = [Memtable.init] := by
    rw [adopts.engine]
    exact opening.residents
  have findable : Findable recovered := by
    refine ⟨?_, ?_⟩
    · rw [residents]
      intro table member
      rw [List.mem_singleton.mp member]
      exact Memtable.init_regular
    · rw [listed, adopts.quiet.media]
      intro sst member
      obtain ⟨_, stored⟩ := tiled_genuine tiled sst (List.mem_reverse.mp member)
      exact stored.searchable
  have others : wholeTables rest = [] := by
    rw [wholeTables, List.map_eq_nil_iff, List.filter_eq_nil_iff]
    exact fun remains member => by simpa using none_ remains member
  rw [findable.lookup_eq, mapping, layers, residents, listed, adopts.quiet.media, List.map_reverse, tiled_entries tiled,
    wholeTables_append all, others, List.append_nil, List.map_map, List.map_reverse, List.map_map]
  rfl

end Found

omit [Kernel] in
/-- A device that fails the second block of the first table. -/
def burningLog : World :=
  { World.fresh smallGeometry with
    oracle := { Oracle.calm with
      metadata := Stream'.cons .ok (Stream'.cons .ok (Stream'.cons (.fail .eio none) (Stream'.const .ok))) } }

omit [Kernel] in
def burned : Bio := ⟨.write, 0, [blockBytes], fun _ => 1⟩

end Lsm
end ZnsBase