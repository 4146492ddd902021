import ZnsBase.Library.Layers
import ZnsBase.Memtable
import ZnsBase.Proofs.WorldFrame

/-! MemTables as finite maps: a put changes one key, compaction merges with the
newer table winning, and a put through the active/immutable pair changes one key
of the two layers together, whatever fails on the way. -/

namespace ZnsBase
open Library

namespace Memtable

/-- The mappings of a table in key order. -/
def pairs (memtable : Memtable) : List (Nat × Nat) :=
  memtable.root.inorder.map fun entry => (entry.logicalBlock, entry.physicalSector)

/-- A table for the blocks below `count`. -/
def Within (memtable : Memtable) (count : Nat) : Prop := ∀ entry ∈ memtable.root.inorder, entry.logicalBlock < count

theorem within_iff {memtable : Memtable} {count : Nat} : memtable.Within count ↔ ∀ pair ∈ memtable.pairs, pair.1 < count := by
  simp only [Within, pairs, List.forall_mem_map]

/-- A table as the engine builds it: a search tree with its entries counted. -/
structure Regular [Kernel] (memtable : Memtable) : Prop where
  ordered : memtable.root.Ordered Entry.logicalBlock
  counted : memtable.nrEntries = memtable.root.inorder.length
  limited : memtable.nrEntries ≤ Kernel.entryLimit

/-- A table whose entries are in the range of the on-disk fields. -/
structure Sound [Kernel] (memtable : Memtable) : Prop extends Regular memtable where
  narrow : ∀ entry ∈ memtable.root.inorder, entry.logicalBlock < 2 ^ 64 ∧ entry.physicalSector < 2 ^ 64

theorem mem_pairs {memtable : Memtable} {logicalBlock physicalSector : Nat} :
    (logicalBlock, physicalSector) ∈ memtable.pairs ↔
      ∃ entry ∈ memtable.root.inorder, entry.logicalBlock = logicalBlock ∧ entry.physicalSector = physicalSector := by
  simp only [pairs, List.mem_map, Prod.mk.injEq]

theorem pairs_init : init.pairs = [] := rfl

theorem create_spec (world : World) :
    Effect.Ensures create world (fun result after => world.Quiet after ∧
      ∀ memtable, result = .ok memtable → memtable = init) := by
  refine Effect.Ensures.bind (allocate_quiet world) ?_ ?_
  · rintro _ after ⟨quiet, _⟩
    exact ⟨quiet, fun memtable same => by cases same; rfl⟩
  · rintro error after ⟨quiet, _⟩
    exact ⟨quiet, fun memtable same => by cases same⟩

variable [Kernel]

theorem Regular.distinct {memtable : Memtable} (regular : memtable.Regular) :
    memtable.pairs.Pairwise (fun first second => first.1 ≠ second.1) := by
  simp only [pairs, List.pairwise_map]
  exact regular.ordered.imp (fun less => less.ne)

theorem Regular.lookup_pairs {memtable : Memtable} (regular : memtable.Regular) (logicalBlock : Nat) :
    memtable.pairs.lookup logicalBlock = (memtable.find logicalBlock).map Entry.physicalSector := by
  apply Option.ext
  intro physicalSector
  rw [lookup_eq_some_iff regular.distinct, mem_pairs, Option.map_eq_some_iff]
  constructor
  · rintro ⟨entry, member, key, sector⟩
    exact ⟨entry, (SearchTree.find_eq_some_iff regular.ordered _ _).mpr ⟨member, key⟩, sector⟩
  · rintro ⟨entry, found, sector⟩
    obtain ⟨member, key⟩ := (SearchTree.find_eq_some_iff regular.ordered _ _).mp found
    exact ⟨entry, member, key, sector⟩

theorem Regular.lookup_eq {memtable : Memtable} (regular : memtable.Regular) (logicalBlock : Nat) :
    memtable.lookup logicalBlock =
      match memtable.pairs.lookup logicalBlock with
      | none => .error .enodata
      | some physicalSector => .ok physicalSector := by
  rw [regular.lookup_pairs, Memtable.lookup]
  cases memtable.find logicalBlock <;> rfl

theorem init_regular : init.Regular :=
  ⟨by simp [init, SearchTree.Ordered, SearchTree.inorder], rfl, Nat.zero_le _⟩

theorem init_sound : init.Sound := ⟨init_regular, by simp [init, SearchTree.inorder]⟩

section Store
variable {memtable : Memtable} {logicalBlock : Nat} (ordered : memtable.root.Ordered Entry.logicalBlock) (physicalSector : Nat)
include ordered

private theorem inorder_store_found {found : Entry} (present : memtable.find logicalBlock = some found) :
    (memtable.store logicalBlock physicalSector).root.inorder = memtable.root.inorder.map (fun entry =>
      if entry.logicalBlock = logicalBlock then { entry with physicalSector, sequence := memtable.nextSequence }
      else entry) := by
  simp only [store, present]
  exact SearchTree.inorder_change ordered _ _

omit [Kernel] in
private theorem absent_keys (absent : memtable.find logicalBlock = none) :
    ∀ entry ∈ memtable.root.inorder, Entry.logicalBlock entry ≠
      Entry.logicalBlock ⟨logicalBlock, physicalSector, memtable.nextSequence⟩ :=
  (SearchTree.find_eq_none_iff ordered _).mp absent

theorem mem_store (entry : Entry) :
    entry ∈ (memtable.store logicalBlock physicalSector).root.inorder ↔
      (entry.logicalBlock ≠ logicalBlock ∧ entry ∈ memtable.root.inorder) ∨
      (entry = ⟨logicalBlock, physicalSector, memtable.nextSequence⟩) := by
  cases present : memtable.find logicalBlock with
  | none =>
    have apart := absent_keys ordered physicalSector present
    simp only [store, present, Kernel.inorder_rbInsertColor]
    rw [SearchTree.mem_link apart]
    constructor
    · rintro (same | member)
      · exact Or.inr same
      · exact Or.inl ⟨apart entry member, member⟩
    · rintro (⟨_, member⟩ | same)
      · exact Or.inr member
      · exact Or.inl same
  | some found =>
    obtain ⟨held, key⟩ := (SearchTree.find_eq_some_iff ordered _ _).mp present
    rw [inorder_store_found ordered physicalSector present, List.mem_map]
    constructor
    · rintro ⟨source, member, rfl⟩
      split
      next same => exact Or.inr (by rw [same])
      next different => exact Or.inl ⟨different, member⟩
    · rintro (⟨different, member⟩ | rfl)
      · exact ⟨entry, member, by simp [different]⟩
      · exact ⟨found, held, by simp [key]⟩

theorem store_ordered : (memtable.store logicalBlock physicalSector).root.Ordered Entry.logicalBlock := by
  cases present : memtable.find logicalBlock with
  | none =>
    simp only [store, present, SearchTree.Ordered, Kernel.inorder_rbInsertColor]
    exact SearchTree.link_ordered ordered (absent_keys ordered physicalSector present)
  | some found =>
    rw [SearchTree.Ordered, inorder_store_found ordered physicalSector present, List.pairwise_map]
    refine List.Pairwise.imp ?_ ordered
    intro first second less
    split <;> split <;> exact less

/-- Counted modulo the width of the counter, the entries grow by a new key only. -/
theorem store_counted (counted : memtable.nrEntries = memtable.root.inorder.length % 2 ^ 32) :
    (memtable.store logicalBlock physicalSector).nrEntries =
      (memtable.store logicalBlock physicalSector).root.inorder.length % 2 ^ 32 := by
  cases present : memtable.find logicalBlock with
  | none =>
    simp only [store, present, Kernel.inorder_rbInsertColor]
    rw [SearchTree.length_link (absent_keys ordered physicalSector present), counted, Nat.mod_add_mod]
  | some found =>
    rw [inorder_store_found ordered physicalSector present, List.length_map, ← counted]
    simp only [store, present]

omit ordered

theorem store_regular (regular : memtable.Regular) (room : memtable.nrEntries < Kernel.entryLimit) :
    (memtable.store logicalBlock physicalSector).Regular := by
  have limit := Kernel.entryLimit_lt
  have ordered := regular.ordered
  have counted := regular.counted
  cases present : memtable.find logicalBlock with
  | none =>
    refine ⟨store_ordered ordered physicalSector, ?_, ?_⟩
    · simp only [store, present, Kernel.inorder_rbInsertColor]
      rw [SearchTree.length_link (absent_keys ordered physicalSector present), ← counted]
      omega
    · simp only [store, present]
      omega
  | some found =>
    refine ⟨store_ordered ordered physicalSector, ?_, ?_⟩
    · rw [inorder_store_found ordered physicalSector present, List.length_map, ← counted]
      simp only [store, present]
    · simp only [store, present]
      exact regular.limited

theorem store_sound (sound : memtable.Sound) (room : memtable.nrEntries < Kernel.entryLimit)
    (block : logicalBlock < 2 ^ 64) (sector : physicalSector < 2 ^ 64) :
    (memtable.store logicalBlock physicalSector).Sound := by
  refine ⟨store_regular physicalSector sound.toRegular room, ?_⟩
  intro entry member
  rcases (mem_store sound.ordered physicalSector entry).mp member with ⟨_, old⟩ | rfl
  · exact sound.narrow entry old
  · exact ⟨block, sector⟩

/-- A put changes the mapping of its own block and of no other. -/
theorem lookup_store (regular : memtable.Regular) (stored : (memtable.store logicalBlock physicalSector).Regular) (wanted : Nat) :
    (memtable.store logicalBlock physicalSector).pairs.lookup wanted =
      if wanted = logicalBlock then some physicalSector else memtable.pairs.lookup wanted := by
  apply Option.ext
  intro result
  rw [lookup_eq_some_iff stored.distinct, mem_pairs]
  constructor
  · rintro ⟨entry, member, rfl, rfl⟩
    rcases (mem_store regular.ordered physicalSector entry).mp member with ⟨different, old⟩ | rfl
    · rw [if_neg different, lookup_eq_some_iff regular.distinct, mem_pairs]
      exact ⟨entry, old, rfl, rfl⟩
    · simp
  · intro found
    split at found
    next same =>
      cases found
      exact ⟨_, (mem_store regular.ordered physicalSector _).mpr (Or.inr rfl), same.symm, rfl⟩
    next different =>
      rw [lookup_eq_some_iff regular.distinct, mem_pairs] at found
      obtain ⟨entry, old, key, sector⟩ := found
      exact ⟨entry, (mem_store regular.ordered physicalSector entry).mpr (Or.inl ⟨key ▸ different, old⟩), key, sector⟩

end Store

private theorem allocateEntry_spec (memtable : Memtable) (world : World) :
    Effect.Ensures memtable.allocateEntry world (fun result after => world.Quiet after ∧
      ((result = .ok () ∧ memtable.nrEntries < Kernel.entryLimit) ∨
        (result = .error .enomem ∧ (world.oracle.Healthy → Kernel.entryLimit ≤ memtable.nrEntries)))) := by
  refine Effect.Ensures.bind (allocate_quiet world) ?_ ?_
  · rintro _ after ⟨quiet, _⟩
    split
    next room => exact ⟨quiet, Or.inl ⟨rfl, room⟩⟩
    next full => exact ⟨quiet, Or.inr ⟨rfl, fun _ => by omega⟩⟩
  · rintro error after ⟨quiet, same | ⟨same, sick⟩⟩
    · cases same
    · cases same
      exact ⟨quiet, Or.inr ⟨rfl, fun healthy => absurd healthy sick⟩⟩

theorem put_spec (memtable : Memtable) (logicalBlock physicalSector : Nat) (world : World) :
    Effect.Ensures (memtable.put logicalBlock physicalSector) world (fun result after => world.Quiet after ∧
      ((result = .ok (memtable.store logicalBlock physicalSector) ∧ memtable.nrEntries < Kernel.entryLimit) ∨
        (result = .error .enomem ∧ (world.oracle.Healthy → Kernel.entryLimit ≤ memtable.nrEntries)))) := by
  refine Effect.Ensures.bind (allocateEntry_spec memtable world) ?_ ?_
  · rintro _ after ⟨quiet, ⟨_, room⟩ | ⟨same, _⟩⟩
    · exact ⟨quiet, Or.inl ⟨rfl, room⟩⟩
    · cases same
  · rintro error after ⟨quiet, ⟨same, _⟩ | ⟨same, short⟩⟩
    · cases same
    · cases same
      exact ⟨quiet, Or.inr ⟨rfl, short⟩⟩

/-- Entries copied in key order end up in the destination, above what it held. -/
private theorem compactCopy_spec (entries : List Entry) (destination : Memtable) (world : World)
    (sound : destination.Sound) (ordered : entries.Pairwise (fun first second => first.logicalBlock < second.logicalBlock))
    (narrow : ∀ entry ∈ entries, entry.logicalBlock < 2 ^ 64 ∧ entry.physicalSector < 2 ^ 64) :
    Effect.Ensures (compactCopy entries destination) world (fun result after => world.Quiet after ∧
      ∀ merged, result = .ok merged → merged.Sound ∧ ∀ wanted, merged.pairs.lookup wanted =
        ((entries.map fun entry => (entry.logicalBlock, entry.physicalSector)).lookup wanted).or
          (destination.pairs.lookup wanted)) := by
  induction entries generalizing destination world with
  | nil =>
    refine ⟨.refl _, fun merged same => ?_⟩
    cases same
    exact ⟨sound, fun wanted => rfl⟩
  | cons entry rest ih =>
    obtain ⟨above, later⟩ := List.pairwise_cons.mp ordered
    obtain ⟨block, sector⟩ := narrow entry List.mem_cons_self
    refine Effect.Ensures.bind (put_spec destination entry.logicalBlock entry.physicalSector world) ?_ ?_
    · rintro stored after ⟨quiet, ⟨same, room⟩ | ⟨same, _⟩⟩
      · cases same
        have storedSound := store_sound entry.physicalSector sound room block sector
        refine (ih _ after storedSound later (fun other member => narrow other (List.mem_cons_of_mem _ member))).mono ?_
        rintro result final ⟨quiet', copied⟩
        refine ⟨quiet.trans quiet', fun merged same => ?_⟩
        obtain ⟨mergedSound, merges⟩ := copied merged same
        refine ⟨mergedSound, fun wanted => ?_⟩
        rw [merges wanted, lookup_store entry.physicalSector sound.toRegular storedSound.toRegular, List.map_cons, List.lookup_cons]
        by_cases here : wanted = entry.logicalBlock
        · subst here
          have unseen : (rest.map fun entry => (entry.logicalBlock, entry.physicalSector)).lookup
              entry.logicalBlock = none := by
            rw [lookup_eq_none_iff]
            intro pair member
            obtain ⟨other, held, rfl⟩ := List.mem_map.mp member
            exact (above other held).ne'
          simp [unseen]
        · have apart : (wanted == entry.logicalBlock) = false := by simpa using here
          simp [here, apart]
      · cases same
    · rintro error after ⟨quiet, _⟩
      exact ⟨quiet, fun merged same => by cases same⟩

private theorem compactCopy_regular (entries : List Entry) (destination : Memtable) (world : World)
    (regular : destination.Regular) :
    Effect.Ensures (compactCopy entries destination) world (fun result after =>
      world.Quiet after ∧ ∀ merged, result = .ok merged → merged.Regular) := by
  induction entries generalizing destination world with
  | nil => exact ⟨.refl _, fun merged same => by cases same; exact regular⟩
  | cons entry rest ih =>
    refine Effect.Ensures.bind (put_spec destination entry.logicalBlock entry.physicalSector world) ?_ ?_
    · rintro stored after ⟨quiet, ⟨same, room⟩ | ⟨same, _⟩⟩
      · cases same
        refine (ih _ after (store_regular _ regular room)).mono ?_
        exact fun _ _ spec => ⟨quiet.trans spec.1, spec.2⟩
      · cases same
    · exact fun error after spec => ⟨spec.1, nofun⟩

theorem compact_regular (older newer : Memtable) (world : World) :
    Effect.Ensures (compact older newer) world (fun result after =>
      world.Quiet after ∧ ∀ merged, result = .ok merged → merged.Regular) := by
  refine Effect.Ensures.bind (create_spec world) ?_ (fun error after spec => ⟨spec.1, nofun⟩)
  rintro fresh created ⟨quiet, same⟩
  obtain rfl := same fresh rfl
  refine Effect.Ensures.bind (compactCopy_regular older.root.inorder init created init_regular) ?_
    (fun error after spec => ⟨quiet.trans spec.1, nofun⟩)
  rintro half copied ⟨quiet', regular⟩
  refine (compactCopy_regular newer.root.inorder half copied (regular half rfl)).mono ?_
  exact fun _ _ spec => ⟨(quiet.trans quiet').trans spec.1, spec.2⟩

theorem compact_spec {older newer : Memtable} (world : World) (olderSound : older.Sound) (newerSound : newer.Sound) :
    Effect.Ensures (compact older newer) world (fun result after => world.Quiet after ∧
      ∀ merged, result = .ok merged → merged.Sound ∧ ∀ wanted, merged.pairs.lookup wanted =
        (newer.pairs.lookup wanted).or (older.pairs.lookup wanted)) := by
  refine Effect.Ensures.bind (create_spec world) ?_ ?_
  · rintro fresh created ⟨quiet, same⟩
    obtain rfl := same fresh rfl
    refine Effect.Ensures.bind
      (compactCopy_spec older.root.inorder init created init_sound olderSound.ordered olderSound.narrow) ?_ ?_
    · rintro half copied ⟨quiet', merges⟩
      obtain ⟨halfSound, holds⟩ := merges half rfl
      refine (compactCopy_spec newer.root.inorder half copied halfSound newerSound.ordered newerSound.narrow).mono ?_
      rintro result after ⟨quiet'', merges'⟩
      refine ⟨(quiet.trans quiet').trans quiet'', fun merged same => ?_⟩
      obtain ⟨mergedSound, holds'⟩ := merges' merged same
      refine ⟨mergedSound, fun wanted => ?_⟩
      rw [holds' wanted, holds wanted, pairs_init, List.lookup_nil, Option.or_none]
      rfl
    · rintro error after ⟨quiet', _⟩
      exact ⟨quiet.trans quiet', fun merged same => by cases same⟩
  · rintro error after ⟨quiet, _⟩
    exact ⟨quiet, fun merged same => by cases same⟩

end Memtable

namespace Generations
variable [Kernel]

def tables (generations : Generations) : List Memtable := generations.active :: generations.immutable.toList

/-- The two generations as layers, newest first. -/
def layers (generations : Generations) : List (List (Nat × Nat)) := generations.tables.map Memtable.pairs

def Sound (generations : Generations) : Prop := ∀ memtable ∈ generations.tables, memtable.Sound

/-- The block maps to its new sector, every other block as before. -/
def Updates (before after : Generations) (logicalBlock physicalSector : Nat) : Prop :=
  after.Sound ∧ ∀ wanted, Layers.resolve after.layers wanted =
    if wanted = logicalBlock then some physicalSector else Layers.resolve before.layers wanted

/-- No other block gets an entry. -/
theorem Updates.bounded {before after : Generations} {logicalBlock physicalSector limit : Nat}
    (updates : Updates before after logicalBlock physicalSector) (bound : logicalBlock < limit)
    (old : ∀ table ∈ before.tables, ∀ entry ∈ table.root.inorder, entry.logicalBlock < limit) :
    ∀ table ∈ after.tables, ∀ entry ∈ table.root.inorder, entry.logicalBlock < limit := by
  intro table member entry held
  by_cases same : entry.logicalBlock = logicalBlock
  · rw [same]
    exact bound
  have present : Layers.resolve before.layers entry.logicalBlock ≠ none := by
    have found := updates.2 entry.logicalBlock
    rw [if_neg same] at found
    rw [← found]
    intro absent
    exact Layers.resolve_eq_none_iff.mp absent table.pairs (List.mem_map_of_mem member)
      (entry.logicalBlock, entry.physicalSector) (Memtable.mem_pairs.mpr ⟨entry, held, rfl, rfl⟩) rfl
  rw [Ne, Layers.resolve_eq_none_iff] at present
  push Not at present
  obtain ⟨layer, inside, pair, stands, key⟩ := present
  obtain ⟨older, among, rfl⟩ := List.mem_map.mp inside
  obtain ⟨stored, kept, block, _⟩ := Memtable.mem_pairs.mp stands
  have small := old older among stored kept
  rw [block, key] at small
  exact small

section Put
variable {active : Memtable} {immutable : Option Memtable} {logicalBlock physicalSector : Nat}
  (sound : Sound ⟨active, immutable⟩) (storedSound : (active.store logicalBlock physicalSector).Sound)
include sound storedSound

private theorem stored_updates :
    Updates ⟨active, immutable⟩ ⟨active.store logicalBlock physicalSector, immutable⟩ logicalBlock physicalSector := by
  have activeSound : active.Sound := sound active List.mem_cons_self
  constructor
  · intro memtable member
    rcases List.mem_cons.mp member with rfl | older
    · exact storedSound
    · exact sound memtable (List.mem_cons_of_mem _ older)
  · intro wanted
    rw [layers, tables, List.map_cons, layers, tables, List.map_cons, Layers.resolve_cons, Layers.resolve_cons,
      Memtable.lookup_store physicalSector activeSound.toRegular storedSound.toRegular wanted]
    split <;> rfl

/-- A table that holds what the two generations held may replace both. -/
private theorem frozen_updates {frozen : Memtable} (frozenSound : frozen.Sound)
    (holds : ∀ wanted, frozen.pairs.lookup wanted =
      Layers.resolve (layers ⟨active.store logicalBlock physicalSector, immutable⟩) wanted) :
    Updates ⟨active, immutable⟩ ⟨Memtable.init, some frozen⟩ logicalBlock physicalSector := by
  constructor
  · intro memtable member
    rcases List.mem_cons.mp member with rfl | older
    · exact Memtable.init_sound
    · obtain rfl : memtable = frozen := by simpa using older
      exact frozenSound
  · intro wanted
    rw [← (stored_updates sound storedSound).2 wanted, ← holds wanted]
    simp [layers, tables, Memtable.pairs_init]

/-- The freeze or compaction after a put keeps all mappings; if it fails, the
two generations stay as the put left them. -/
private theorem rotate_spec {world : World} :
    Effect.Ensures (match immutable with
      | none => do
        match ← Effect.attempt Memtable.create with
        | .error _ => Pure.pure ⟨active.store logicalBlock physicalSector, immutable⟩
        | .ok newActive => Pure.pure ⟨newActive, some (active.store logicalBlock physicalSector)⟩
      | some older => do
        match ← Effect.attempt (Memtable.compact older (active.store logicalBlock physicalSector)) with
        | .error _ => Pure.pure ⟨active.store logicalBlock physicalSector, immutable⟩
        | .ok merged => do
          match ← Effect.attempt Memtable.create with
          | .error _ => Pure.pure ⟨active.store logicalBlock physicalSector, immutable⟩
          | .ok newActive => Pure.pure ⟨newActive, some merged⟩) world
      (fun (result : Except Errno Generations) after => world.Quiet after ∧
        ∃ put, result = .ok put ∧ Updates ⟨active, immutable⟩ put logicalBlock physicalSector) := by
  have stays := stored_updates sound storedSound
  split
  · refine Effect.Ensures.attempt_bind (Memtable.create_spec world) ?_
    rintro result created ⟨quiet, same⟩
    cases result with
    | error error => exact ⟨quiet, _, rfl, stays⟩
    | ok newActive =>
      obtain rfl := same newActive rfl
      refine ⟨quiet, _, rfl, frozen_updates sound storedSound storedSound ?_⟩
      intro wanted
      simp [layers, tables]
  · next older =>
    have olderSound : older.Sound := sound older (by simp [tables])
    refine Effect.Ensures.attempt_bind (Memtable.compact_spec world olderSound storedSound) ?_
    rintro result compacted ⟨quiet, merges⟩
    cases result with
    | error error => exact ⟨quiet, _, rfl, stays⟩
    | ok merged =>
      obtain ⟨mergedSound, holds⟩ := merges merged rfl
      refine Effect.Ensures.attempt_bind (Memtable.create_spec compacted) ?_
      rintro result created ⟨quiet', same⟩
      cases result with
      | error error => exact ⟨quiet.trans quiet', _, rfl, stays⟩
      | ok newActive =>
        obtain rfl := same newActive rfl
        refine ⟨quiet.trans quiet', _, rfl, frozen_updates sound storedSound mergedSound ?_⟩
        intro wanted
        simp [holds wanted, layers, tables]

end Put

def Regular (generations : Generations) : Prop := ∀ memtable ∈ generations.tables, memtable.Regular

theorem regular_pair {active : Memtable} {immutable : Option Memtable} (activeRegular : active.Regular)
    (older : ∀ table, immutable = some table → table.Regular) : Regular ⟨active, immutable⟩ := by
  intro memtable member
  rcases List.mem_cons.mp member with rfl | member
  · exact activeRegular
  · exact older memtable (by simpa using member)

/-- A put only takes memory and builds regular tables, whatever it is given. -/
theorem putActive_regular {generations : Generations} (threshold logicalBlock physicalSector : Nat) (world : World)
    (regular : generations.Regular) :
    Effect.Ensures (generations.putActive threshold logicalBlock physicalSector) world (fun result after =>
      world.Quiet after ∧ ∀ put, result = .ok put → put.Regular) := by
  obtain ⟨active, immutable⟩ := generations
  have older : ∀ table, immutable = some table → table.Regular :=
    fun table same => regular table (by simp [tables, same])
  unfold putActive putActiveWithOps
  split
  · exact ⟨.refl _, nofun⟩
  · refine Effect.Ensures.bind (Memtable.put_spec active logicalBlock physicalSector world) ?_
      (fun error after spec => ⟨spec.1, nofun⟩)
    rintro stored after ⟨quiet, ⟨same, room⟩ | ⟨same, _⟩⟩
    · cases same
      have storedRegular : (active.store logicalBlock physicalSector).Regular :=
        Memtable.store_regular physicalSector (regular active List.mem_cons_self) room
      have stays := regular_pair storedRegular older
      split
      · exact ⟨quiet, fun put same => by cases same; exact stays⟩
      · split
        · refine Effect.Ensures.attempt_bind (Memtable.create_spec after) ?_
          rintro result created ⟨quiet', fresh⟩
          cases result with
          | error error => exact ⟨quiet.trans quiet', fun put same => by cases same; exact stays⟩
          | ok newActive =>
            obtain rfl := fresh newActive rfl
            refine ⟨quiet.trans quiet', fun put same => ?_⟩
            cases same
            exact regular_pair Memtable.init_regular (fun table same => by cases same; exact storedRegular)
        · refine Effect.Ensures.attempt_bind (Memtable.compact_regular _ _ after) ?_
          rintro result compacted ⟨quiet', mergedRegular⟩
          cases result with
          | error error => exact ⟨quiet.trans quiet', fun put same => by cases same; exact stays⟩
          | ok merged =>
            refine Effect.Ensures.attempt_bind (Memtable.create_spec compacted) ?_
            rintro result created ⟨quiet'', fresh⟩
            have quiet := (quiet.trans quiet').trans quiet''
            cases result with
            | error error => exact ⟨quiet, fun put same => by cases same; exact stays⟩
            | ok newActive =>
              obtain rfl := fresh newActive rfl
              refine ⟨quiet, fun put same => ?_⟩
              cases same
              exact regular_pair Memtable.init_regular (fun table same => by cases same; exact mergedRegular merged rfl)
    · cases same

theorem putActive_spec {generations : Generations} {logicalBlock physicalSector : Nat} (threshold : Nat) (world : World)
    (sound : generations.Sound) (block : logicalBlock < 2 ^ 64) (sector : physicalSector < 2 ^ 64) :
    Effect.Ensures (generations.putActive threshold logicalBlock physicalSector) world (fun result after =>
      world.Quiet after ∧
      ((∃ put, result = .ok put ∧ generations.Updates put logicalBlock physicalSector) ∨
        ∃ error, result = .error error ∧ (threshold = 0 ∨
          (world.oracle.Healthy → Kernel.entryLimit ≤ generations.active.nrEntries)))) := by
  obtain ⟨active, immutable⟩ := generations
  unfold putActive putActiveWithOps
  split
  next zero => exact ⟨.refl _, Or.inr ⟨.einval, rfl, Or.inl zero⟩⟩
  next _ =>
    refine Effect.Ensures.bind (Memtable.put_spec active logicalBlock physicalSector world) ?_ ?_
    · rintro stored after ⟨quiet, ⟨same, room⟩ | ⟨same, _⟩⟩
      · cases same
        have storedSound :=
          Memtable.store_sound physicalSector (sound active List.mem_cons_self) room block sector
        split
        next _ => exact ⟨quiet, Or.inl ⟨_, rfl, stored_updates sound storedSound⟩⟩
        next _ =>
          refine (rotate_spec sound storedSound).mono ?_
          rintro result final ⟨quiet', put, same, updates⟩
          exact ⟨quiet.trans quiet', Or.inl ⟨put, same, updates⟩⟩
      · cases same
    · rintro error after ⟨quiet, ⟨same, _⟩ | ⟨same, short⟩⟩
      · cases same
      · cases same
        exact ⟨quiet, Or.inr ⟨.enomem, rfl, Or.inr short⟩⟩

theorem lookupActiveImmutable_eq {generations : Generations} (sound : generations.Sound) (logicalBlock : Nat) :
    generations.lookupActiveImmutable logicalBlock =
      match Layers.resolve generations.layers logicalBlock with
      | none => .error .enodata
      | some physicalSector => .ok physicalSector := by
  obtain ⟨active, immutable⟩ := generations
  have activeSound : active.Sound := sound active List.mem_cons_self
  rw [lookupActiveImmutable, activeSound.toRegular.lookup_eq, layers, tables, List.map_cons, Layers.resolve_cons]
  cases active.pairs.lookup logicalBlock with
  | some sector => rfl
  | none =>
    cases immutable with
    | none => rfl
    | some older =>
      have olderSound : older.Sound := sound older (by simp [tables])
      simp only [olderSound.toRegular.lookup_eq, Option.toList_some, List.map_singleton, Layers.resolve_cons,
        Layers.resolve_nil, Option.or_none, Option.none_or]

/-- The puts of a run that were acknowledged, newest first, with the tables and
the world they leave behind. -/
def putCalls (threshold : Nat) : List (Nat × Nat) → List (Nat × Nat) → Generations → World →
    List (Nat × Nat) × Generations × World
  | [], stored, tables, world => (stored, tables, world)
  | (logicalBlock, physicalSector) :: calls, stored, tables, world =>
    match tables.putActive threshold logicalBlock physicalSector world with
    | (.ok put, world) => putCalls threshold calls ((logicalBlock, physicalSector) :: stored) put world
    | (.error _, world) => putCalls threshold calls stored tables world

private theorem putCalls_spec {threshold : Nat} (calls stored : List (Nat × Nat)) (generations : Generations) (world : World)
    (narrow : ∀ call ∈ calls, call.1 < 2 ^ 64 ∧ call.2 < 2 ^ 64) (sound : generations.Sound)
    (holds : ∀ wanted, Layers.resolve generations.layers wanted = stored.lookup wanted) :
    (putCalls threshold calls stored generations world).2.1.Sound ∧
      ∀ wanted, Layers.resolve (putCalls threshold calls stored generations world).2.1.layers wanted =
        (putCalls threshold calls stored generations world).1.lookup wanted := by
  induction calls generalizing stored generations world with
  | nil => exact ⟨sound, holds⟩
  | cons call calls ih =>
    obtain ⟨logicalBlock, physicalSector⟩ := call
    obtain ⟨block, sector⟩ := narrow _ List.mem_cons_self
    have rest := fun other member => narrow other (List.mem_cons_of_mem _ member)
    have spec := putActive_spec threshold world sound block sector
    unfold Effect.Ensures at spec
    rw [putCalls]
    split
    next put after ran =>
      rw [ran] at spec
      obtain ⟨_, ⟨_, same, putSound, updates⟩ | ⟨_, same, _⟩⟩ := spec
      · cases same
        refine ih _ _ _ rest putSound fun wanted => ?_
        rw [updates wanted, holds wanted, List.lookup_cons]
        by_cases here : wanted = logicalBlock
        · simp [here]
        · have apart : (wanted == logicalBlock) = false := by simpa using here
          simp [here, apart]
      · cases same
    next error after ran => exact ih _ _ _ rest sound holds

/-- The freeze or compaction that follows a put is the only thing that can fail
after the entry is stored, and then both generations stay where they are. -/
private theorem putActive_eq {threshold : Nat} (positive : threshold ≠ 0) (active : Memtable) (immutable : Option Memtable)
    (logicalBlock physicalSector : Nat) (world : World) :
    putActive threshold ⟨active, immutable⟩ logicalBlock physicalSector world =
      match active.put logicalBlock physicalSector world with
      | (.error error, after) => (.error error, after)
      | (.ok stored, after) =>
        if stored.size < threshold then (.ok ⟨stored, immutable⟩, after)
        else match immutable with
          | none =>
            match Memtable.create after with
            | (.error _, after) => (.ok ⟨stored, none⟩, after)
            | (.ok newActive, after) => (.ok ⟨newActive, some stored⟩, after)
          | some older =>
            match Memtable.compact older stored after with
            | (.error _, after) => (.ok ⟨stored, some older⟩, after)
            | (.ok merged, after) =>
              match Memtable.create after with
              | (.error _, after) => (.ok ⟨stored, some older⟩, after)
              | (.ok newActive, after) => (.ok ⟨newActive, some merged⟩, after) := by
  unfold putActive putActiveWithOps
  rw [if_neg positive]
  dsimp only
  rcases ran : active.put logicalBlock physicalSector world with ⟨error | stored, after⟩
  · rw [Effect.bind_error ran]
  · rw [Effect.bind_ok ran]
    dsimp only
    split
    · rfl
    · cases immutable with
      | none =>
        dsimp only
        rw [Effect.attempt_bind_run]
        rcases Memtable.create after with ⟨_ | _, _⟩ <;> rfl
      | some older =>
        dsimp only
        rw [Effect.attempt_bind_run]
        rcases Memtable.compact older stored after with ⟨_ | merged, compacted⟩
        · rfl
        · dsimp only
          rw [Effect.attempt_bind_run]
          rcases Memtable.create compacted with ⟨_ | _, _⟩ <;> rfl

/-- Memory ran out in the freeze or the compaction that follows a put. -/
def MaintenanceFails (stored : Memtable) (immutable : Option Memtable) (world : World) : Prop :=
  match immutable with
  | none => ∃ error, (Memtable.create world).1 = .error error
  | some older => (∃ error, (Memtable.compact older stored world).1 = .error error) ∨
      ∃ error, (Memtable.create (Memtable.compact older stored world).2).1 = .error error

omit [Kernel] in
/-- A kernel for tables of at most one entry, where rebalancing has nothing to do. -/
@[reducible] def plainKernel : Kernel where
  rbInsertColor tree := tree
  inorder_rbInsertColor _ := rfl
  entryLimit := 2 ^ 20
  entryLimit_lt := by decide

end Generations
end ZnsBase
