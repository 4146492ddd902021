import ZnsBase.Proofs.Sessions

/-! The read path on a coherent engine: a lookup answers with the mapping, and a
read with the bytes of the target. -/

namespace ZnsBase
open Library

namespace Lsm

/-- How a lookup answers for what it found. -/
def answer : Option Nat → Except Errno Nat
  | none => .error .enodata
  | some physicalSector => .ok physicalSector

theorem answer_ok {found : Option Nat} {physicalSector : Nat} : answer found = .ok physicalSector ↔ found = some physicalSector := by
  cases found with
  | none => simp [answer]
  | some other => simp [answer]

section Tables
variable [Kernel]

private theorem lookup_answer {table : Memtable} (regular : table.Regular) (logicalBlock : Nat) :
    table.lookup logicalBlock = answer (table.pairs.lookup logicalBlock) := by
  rw [regular.lookup_eq]
  cases table.pairs.lookup logicalBlock <;> rfl

private theorem orOlder_answer {older : Option Memtable} (regular : ∀ table ∈ older.toList, table.Regular)
    (found : Option Nat) (logicalBlock : Nat) :
    orOlder (answer found) older logicalBlock =
      answer (found.or (Layers.resolve (older.toList.map Memtable.pairs) logicalBlock)) := by
  cases older with
  | none => cases found <;> rfl
  | some table =>
    cases found with
    | some physicalSector => rfl
    | none =>
      simp only [answer, orOlder, Option.toList_some, List.map_cons, List.map_nil, Layers.resolve_cons, Layers.resolve_nil,
        Option.or_none, Option.none_or]
      exact lookup_answer (regular table (by simp)) logicalBlock

/-- `zns_lsm_lookup_memtables` searches the resident generations in order. -/
theorem lookupMemtables_eq {lsm : Lsm} (regular : ∀ table ∈ lsm.residents, table.Regular) (logicalBlock : Nat) :
    lsm.lookupMemtables logicalBlock = answer (Layers.resolve (lsm.residents.map Memtable.pairs) logicalBlock) := by
  have member {table : Memtable} (held : table ∈ lsm.tables.immutable.toList ∨ table ∈ lsm.flushing.toList) :
      table ∈ lsm.residents := by
    simp only [residents, Generations.tables, List.mem_append, List.mem_cons]
    exact held.imp_left Or.inr
  rw [lookupMemtables, lookup_answer (regular _ (by simp [residents, Generations.tables])),
    orOlder_answer (fun table held => regular table (member (Or.inl held))),
    orOlder_answer (fun table held => regular table (member (Or.inr held)))]
  simp only [residents, Generations.tables, List.map_append, List.map_cons, Layers.resolve_append, Layers.resolve_cons]

omit [Kernel] in
/-- `zns_lsm_lookup_sstables`; a failed read is no miss as long as its code is
another one. -/
theorem lookupSstables_spec (sstables : List Sstable) (logicalBlock : Nat) {world : World}
    (searchable : ∀ sst ∈ sstables, sst.Searchable world.media) (distinct : world.oracle.Distinct) :
    Effect.Ensures (lookupSstables sstables logicalBlock) world (fun result after => world.Quiet after ∧
      (result = answer (Layers.resolve (sstables.map (Sstable.entries world.media)) logicalBlock) ∨
        ∃ error, result = .error error ∧ error ≠ .enodata ∧ ¬ world.oracle.Healthy)) := by
  induction sstables generalizing world with
  | nil => exact ⟨.refl _, Or.inl rfl⟩
  | cons sst sstables ih =>
    rw [lookupSstables]
    refine Effect.Ensures.attempt_bind (sstLookup_spec (searchable sst List.mem_cons_self) logicalBlock) ?_
    rintro result after ⟨quiet, outcome⟩
    have rest := ih (fun other member => by rw [quiet.media]; exact searchable other (List.mem_cons_of_mem _ member))
      (distinct.later quiet.later)
    rw [quiet.media] at rest
    rcases outcome with found | ⟨error, rfl, cause⟩
    · cases held : (sst.entries world.media).lookup logicalBlock with
      | some physicalSector =>
        rw [held] at found
        subst found
        refine ⟨quiet, Or.inl ?_⟩
        simp only [List.map_cons, Layers.resolve_cons, held, Option.some_or]
        rfl
      | none =>
        rw [held] at found
        subst found
        refine rest.mono ?_
        rintro result final ⟨quiet', done⟩
        refine ⟨quiet.trans quiet', ?_⟩
        simp only [List.map_cons, Layers.resolve_cons, held, Option.none_or]
        exact done.imp_right fun ⟨error, failed, other, sick⟩ =>
          ⟨error, failed, other, fun healthy => sick (healthy.later quiet.later)⟩
    · have other : error ≠ .enodata := by
        rintro rfl
        rcases cause with reports | ⟨same, _⟩
        · exact distinct reports
        · cases same
      have sick : ¬ world.oracle.Healthy := by
        rcases cause with reports | ⟨_, sick⟩
        · exact fun healthy => healthy.requests _ _ reports
        · exact sick
      cases error with
      | enodata => exact absurd rfl other
      | _ => exact ⟨quiet, Or.inr ⟨_, rfl, other, sick⟩⟩

end Tables

/-- Tables in memory and on the device that lookups can rely on. -/
structure Findable [Kernel] (machine : Machine) : Prop where
  regular : ∀ table ∈ machine.lsm.residents, table.Regular
  searchable : ∀ sst ∈ machine.lsm.sstables, sst.Searchable machine.world.media

section Reads
variable [Kernel] {machine : Machine}

/-- `zns_lsm_read` of one block. -/
theorem Findable.read (findable : Findable machine) (distinct : machine.world.oracle.Distinct) {sector : Nat}
    (aligned : sector % blockSectors = 0) :
    Effect.Ensures (Lsm.read sector blockSectors) machine (fun result after => Same machine after ∧
      (result = answer (mapping machine (sector / blockSectors)) ∨
        ∃ error, result = .error error ∧ error ≠ .enodata ∧ ¬ machine.world.oracle.Healthy)) := by
  refine Effect.Ensures.and (read_same sector blockSectors machine) ?_
  rw [Lsm.read, if_neg (by simp [isAlignedIo, aligned])]
  apply Effect.Ensures.get_bind
  rw [lookupMemtables_eq findable.regular]
  have mapped : mapping machine (sector / blockSectors) =
      (Layers.resolve (machine.lsm.residents.map Memtable.pairs) (sector / blockSectors)).or
        (Layers.resolve (machine.lsm.sstables.map (Sstable.entries machine.world.media)) (sector / blockSectors)) :=
    Layers.resolve_append _ _ _
  rw [mapped]
  cases Layers.resolve (machine.lsm.residents.map Memtable.pairs) (sector / blockSectors) with
  | some physicalSector => exact Or.inl rfl
  | none =>
    refine onWorld_ensures ((lookupSstables_spec _ (sector / blockSectors) findable.searchable distinct).mono ?_)
    rintro result world ⟨_, done⟩
    exact done

variable {log : Extent} {limit : Nat} {lossless : Prop} (coherent : Coherent machine log limit lossless) (trusted : lossless)
include coherent trusted

theorem Coherent.findable : Findable machine := by
  refine ⟨fun table member => (coherent.sound table member).toRegular, fun sst member => ?_⟩
  obtain ⟨⟨memtable, stored, _⟩, _⟩ := coherent.stored trusted sst member
  exact stored.searchable

theorem read_spec (distinct : machine.world.oracle.Distinct) {sector : Nat} (aligned : sector % blockSectors = 0) :
    Effect.Ensures (read sector blockSectors) machine (fun result after => Same machine after ∧
      (result = answer (mapping machine (sector / blockSectors)) ∨
        ∃ error, result = .error error ∧ error ≠ .enodata ∧ ¬ machine.world.oracle.Healthy)) :=
  (coherent.findable trusted).read distinct aligned

end Reads

/-- What a lookup finds when no I/O fails. -/
def lookup (machine : Machine) (logicalBlock : Nat) : Except Errno Nat :=
  (read (logicalBlock * blockSectors) blockSectors { machine with world.oracle := .calm }).1

theorem Findable.lookup_eq [Kernel] {machine : Machine} (findable : Findable machine) (logicalBlock : Nat) :
    lookup machine logicalBlock = answer (mapping machine logicalBlock) := by
  have calm : Findable { machine with world.oracle := .calm } := ⟨findable.regular, findable.searchable⟩
  have spec := calm.read (Oracle.calm_healthy.requests .metadata .enodata) (Nat.mul_mod_left logicalBlock blockSectors)
  rw [Nat.mul_div_cancel _ (by decide)] at spec
  obtain ⟨_, found | ⟨error, _, _, sick⟩⟩ := spec
  · exact found
  · exact absurd Oracle.calm_healthy sick

theorem lookup_eq [Kernel] {machine : Machine} {log : Extent} {limit : Nat} {lossless : Prop}
    (coherent : Coherent machine log limit lossless) (trusted : lossless) (logicalBlock : Nat) :
    lookup machine logicalBlock = answer (mapping machine logicalBlock) :=
  (coherent.findable trusted).lookup_eq logicalBlock

end Lsm
end ZnsBase
