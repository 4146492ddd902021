import ZnsBase.Append4kMap
import ZnsBase.Proofs.LockSplit

/-! Both append engines act as a flat disk, whatever the order of their critical
sections and of the lower device's work: no two writes share a sector, and a read
finds the write to its block that was stored last. -/

namespace ZnsBase
open Library

namespace BioPc

/-- A bio that was seen completed stays as it was seen. -/
def Since (first pc : BioPc) : Prop := ∀ sector result, first = .completed sector result → pc = first

/-- The sector that a bio was given. -/
def slot : BioPc → Option Nat
  | .placed physicalSector | .remapped physicalSector | .completed physicalSector _ => some physicalSector
  | _ => none

end BioPc

namespace Traffic

/-- A write that was given a sector. -/
def Holds (bios : Nat → Bio) (traffic : Traffic) (thread sector : Nat) : Prop :=
  (bios thread).op = .write ∧ (traffic.pc thread).slot = some sector

/-- The last write whose mapping a block has. -/
def lastStore (bios : Nat → Bio) (sectorsPerBlock : Nat) (traffic : Traffic) (block : Nat) : Option Nat :=
  traffic.stored.reverse.find? fun thread => (bios thread).sector / sectorsPerBlock = block

/-- What a write that stands somewhere has made of its sectors, over the bytes of
old media. -/
def slotBytes (bios : Nat → Bio) (fates : Nat → LowerIo) (old : Nat → UInt8) (thread sector : Nat) : BioPc → Nat → UInt8
  | .completed _ _ =>
    match fates thread with
    | .done => (bios thread).data
    | .failed _ left => left
  | _ => fun index => old (sector * sectorBytes + index)

section Steps
variable {bios : Nat → Bio} {fates : Nat → LowerIo} {old : Nat → UInt8} {size : Nat} {traffic : Traffic}
  {thread other sector : Nat} {pc : BioPc}

@[simp] theorem setPc_self (traffic : Traffic) (thread : Nat) (pc : BioPc) : (traffic.setPc thread pc).pc thread = pc := if_pos rfl

theorem setPc_other (traffic : Traffic) (pc : BioPc) (different : other ≠ thread) :
    (traffic.setPc thread pc).pc other = traffic.pc other := if_neg different

theorem setPc_setPc (traffic : Traffic) (thread : Nat) (first pc : BioPc) :
    (traffic.setPc thread first).setPc thread pc = traffic.setPc thread pc := by
  simp only [setPc, mk.injEq, and_self, and_true]
  funext other
  split <;> rfl

theorem lastStore_store (thread block : Nat) : (traffic.store thread).lastStore bios size block =
    if (bios thread).sector / size = block then some thread else traffic.lastStore bios size block := by
  rw [lastStore, store, List.reverse_append, List.reverse_singleton, List.singleton_append, List.find?_cons]
  by_cases here : (bios thread).sector / size = block
  · rw [if_pos here, decide_eq_true here]
  · rw [if_neg here, decide_eq_false here]
    rfl

/-- Only writes change the media, and only where they are for. -/
theorem lowerIo_media (bio : Bio) (sector : Nat) (fate : LowerIo) (media : Nat → UInt8) {address : Nat}
    (outside : bio.op = .write → address < sector * sectorBytes ∨ sector * sectorBytes + bio.sectors * sectorBytes ≤ address) :
    (lowerIo bio sector fate media).2 address = media address := by
  cases op : bio.op <;> cases fate <;> simp only [lowerIo, op]
  · exact overlay_outside (outside op)
  · exact overlay_outside (outside op)

theorem lowerIo_write (sector : Nat) (media : Nat → UInt8) (op : (bios thread).op = .write) {index : Nat}
    (inside : index < (bios thread).sectors * sectorBytes) {result : Except Errno (Nat → UInt8)} :
    (lowerIo (bios thread) sector (fates thread) media).2 (sector * sectorBytes + index) =
      slotBytes bios fates old thread sector (.completed sector result) index := by
  cases fate : fates thread <;> simp only [lowerIo, op, slotBytes, fate] <;>
    rw [overlay_inside (by omega) (by omega), Nat.add_sub_cancel_left]

theorem lowerIo_read (bio : Bio) (sector : Nat) (fate : LowerIo) (media : Nat → UInt8) (op : bio.op = .read) {data : Nat → UInt8}
    (read : (lowerIo bio sector fate media).1 = .ok data) {index : Nat} (inside : index < bio.sectors * sectorBytes) :
    data index = media (sector * sectorBytes + index) := by
  cases fate <;> simp only [lowerIo, op, Except.ok.injEq, reduceCtorEq] at read
  rw [← read, overlay_inside (by omega) (by omega), Nat.sub_zero]

end Steps
end Traffic

open Traffic

/-- A bio for one whole block of the target. -/
def Append4kBlock (blocks size : Nat) (bio : Bio) : Prop :=
  bio.sectors = size ∧ bio.sector % size = 0 ∧ bio.sector / size < blocks

theorem append4kBlock_ok {blocks size : Nat} {bio : Bio} (valid : Append4kBlock blocks size bio) :
    append4kBlock size blocks bio.sector bio.sectors = .ok (bio.sector / size) := by
  rw [append4kBlock, if_neg (not_not.mpr ⟨valid.1, valid.2.1⟩), if_neg (Nat.not_le.mpr valid.2.2)]

theorem append4kBlock_error {blocks size : Nat} {bio : Bio} (refused : ¬ Append4kBlock blocks size bio) :
    append4kBlock size blocks bio.sector bio.sectors = .error .einval := by
  unfold append4kBlock
  split
  · rfl
  · rename_i aligned
    rw [if_pos]
    exact Nat.le_of_not_lt fun below => refused ⟨(not_not.mp aligned).1, (not_not.mp aligned).2, below⟩

theorem append4kMapRead_ne_placed (found : Except Errno Nat) (sector : Nat) : append4kMapRead found ≠ .placed sector := by
  unfold append4kMapRead
  split <;> rintro ⟨⟩

/-- What holds after any turns of any bios on `append4k-alloc`. -/
structure Append4kAlloc.Serves (bios : Nat → Bio) (fates : Nat → LowerIo) (old : Nat → UInt8) (blocks size limit : Nat)
    (state : Append4kAlloc × Traffic) : Prop where
  nrLogicalBlocks : state.1.nrLogicalBlocks = blocks
  sectorsPerBlock : state.1.sectorsPerBlock = size
  linear : state.1.allocator.mode = .linear
  block : state.1.allocator.sectorsPerBlock = size
  physicalSectors : state.1.allocator.physicalSectors = limit
  whole : size ∣ state.1.allocator.nextSector
  inside : state.1.allocator.nextSector ≤ limit
  writes : ∀ thread sector, state.2.pc thread = .placed sector → (bios thread).op = .write
  valid : ∀ thread sector, state.2.Holds bios thread sector → (bios thread).sectors = size
  below : ∀ thread sector, state.2.Holds bios thread sector → sector + size ≤ state.1.allocator.nextSector
  apart : ∀ thread other sector sector', state.2.Holds bios thread sector → state.2.Holds bios other sector' →
    thread ≠ other → sector + size ≤ sector' ∨ sector' + size ≤ sector
  covered : ∀ sector < state.1.allocator.nextSector,
    ∃ thread slot, state.2.Holds bios thread slot ∧ slot ≤ sector ∧ sector < slot + size
  full : ∀ thread, (bios thread).op = .write → Append4kBlock blocks size (bios thread) → state.2.pc thread = .killed →
    state.1.allocator.nextSector = limit
  kept : ∀ thread sector, state.2.Holds bios thread sector → state.2.pc thread = .placed sector ∨ thread ∈ state.2.stored
  unmapped : ∀ block, state.2.lastStore bios size block = none → state.1.addrMapping block = append4kUnmapped
  mapped : ∀ block writer, state.2.lastStore bios size block = some writer →
    state.2.Holds bios writer (state.1.addrMapping block)
  bytes : ∀ thread sector, state.2.Holds bios thread sector → ∀ index < size * sectorBytes,
    state.2.media (sector * sectorBytes + index) = slotBytes bios fates old thread sector (state.2.pc thread) index
  fresh : ∀ address, state.1.allocator.nextSector * sectorBytes ≤ address → state.2.media address = old address

namespace Append4kAlloc
variable {bios : Nat → Bio} {fates : Nat → LowerIo} {old : Nat → UInt8} {blocks size limit : Nat}
  {engine : Append4kAlloc} {traffic after : Traffic} {thread sector : Nat} {pc : BioPc}

/-- Turns that hand out no sector and store no mapping. -/
theorem Serves.frame (serves : Serves bios fates old blocks size limit (engine, traffic))
    (holds : ∀ thread sector, after.Holds bios thread sector ↔ traffic.Holds bios thread sector)
    (stored : after.stored = traffic.stored)
    (writes : ∀ thread sector, after.pc thread = .placed sector → (bios thread).op = .write)
    (kept : ∀ thread sector, traffic.pc thread = .placed sector → after.pc thread = .placed sector)
    (full : ∀ thread, (bios thread).op = .write → Append4kBlock blocks size (bios thread) → after.pc thread = .killed →
      engine.allocator.nextSector = limit)
    (bytes : ∀ thread sector, traffic.Holds bios thread sector → ∀ index < size * sectorBytes,
      after.media (sector * sectorBytes + index) = slotBytes bios fates old thread sector (after.pc thread) index)
    (fresh : ∀ address, engine.allocator.nextSector * sectorBytes ≤ address → after.media address = old address) :
    Serves bios fates old blocks size limit (engine, after) where
  nrLogicalBlocks := serves.nrLogicalBlocks
  sectorsPerBlock := serves.sectorsPerBlock
  linear := serves.linear
  block := serves.block
  physicalSectors := serves.physicalSectors
  whole := serves.whole
  inside := serves.inside
  writes := writes
  valid thread sector held := serves.valid thread sector ((holds _ _).mp held)
  below thread sector held := serves.below thread sector ((holds _ _).mp held)
  apart thread other sector sector' held held' := serves.apart thread other sector sector' ((holds _ _).mp held) ((holds _ _).mp held')
  covered sector below := by
    obtain ⟨thread, slot, held, inside⟩ := serves.covered sector below
    exact ⟨thread, slot, (holds _ _).mpr held, inside⟩
  full := full
  kept thread sector held := by
    rw [stored]
    exact (serves.kept thread sector ((holds _ _).mp held)).imp_left (kept thread sector)
  unmapped block none_ := serves.unmapped block (by rw [← none_, Traffic.lastStore, Traffic.lastStore, stored])
  mapped block writer last := (holds _ _).mpr (serves.mapped block writer (by rw [← last, Traffic.lastStore, Traffic.lastStore, stored]))
  bytes thread sector held := bytes thread sector ((holds _ _).mp held)
  fresh := fresh

/-- A turn that moves one bio without a sector to a place without a sector. -/
theorem Serves.pass (serves : Serves bios fates old blocks size limit (engine, traffic)) (waiting : traffic.pc thread = .submitted)
    (without : (bios thread).op = .write → pc = .killed)
    (placed : ∀ sector, pc ≠ .placed sector)
    (full : (bios thread).op = .write → Append4kBlock blocks size (bios thread) → engine.allocator.nextSector = limit) :
    Serves bios fates old blocks size limit (engine, traffic.setPc thread pc) := by
  have holds (other sector : Nat) : (traffic.setPc thread pc).Holds bios other sector ↔ traffic.Holds bios other sector := by
    by_cases here : other = thread
    · subst here
      constructor
      · rintro ⟨op, held⟩
        rw [setPc_self, without op] at held
        cases held
      · rintro ⟨_, held⟩
        rw [waiting] at held
        cases held
    · rw [Traffic.Holds, setPc_other _ _ here]
      rfl
  refine serves.frame holds rfl (fun other sector held => ?_) (fun other sector held => ?_) (fun other op valid killed => ?_)
    (fun other sector held index below => ?_) serves.fresh
  · by_cases here : other = thread
    · subst here
      rw [setPc_self] at held
      exact absurd held (placed sector)
    · exact serves.writes other sector ((setPc_other _ _ here).symm.trans held)
  · rw [setPc_other _ _ (by rintro rfl; rw [waiting] at held; cases held)]
    exact held
  · by_cases here : other = thread
    · subst here
      exact full op valid
    · exact serves.full other op valid ((setPc_other _ _ here).symm.trans killed)
  · have elsewhere : other ≠ thread := by
      rintro rfl
      rw [Traffic.Holds, waiting] at held
      cases held.2
    rw [setPc_other _ _ elsewhere]
    exact serves.bytes other sector held index below

/-- A write that gets a sector gets the next one. -/
theorem Serves.writeAlloc (serves : Serves bios fates old blocks size limit (engine, traffic)) (bio : Bio) (divides : limit % size = 0) :
    (∃ error, engine.writeAlloc bio.sector bio.sectors = (.error error, engine) ∧
      (Append4kBlock blocks size bio → engine.allocator.nextSector = limit)) ∨
    (engine.writeAlloc bio.sector bio.sectors = (.ok engine.allocator.nextSector, engine.advance) ∧ Append4kBlock blocks size bio ∧
      engine.allocator.nextSector + size ≤ limit) := by
  have inside := serves.inside
  have whole := serves.whole
  dsimp only at inside whole
  have checks : append4kBlock engine.sectorsPerBlock engine.nrLogicalBlocks = append4kBlock size blocks := by
    rw [serves.nrLogicalBlocks, serves.sectorsPerBlock]
  have linear : ¬ engine.allocator.mode = .zoned := by
    rw [serves.linear]
    rintro ⟨⟩
  have limits := serves.physicalSectors
  have block := serves.block
  dsimp only at limits block
  by_cases valid : Append4kBlock blocks size bio
  · by_cases room : engine.allocator.nextSector + size ≤ limit
    · have taken : engine.allocator.alloc = (.ok engine.allocator.nextSector, engine.advance.allocator) := by
        rw [Allocator.alloc, if_neg linear, if_neg (by omega)]
        rfl
      refine Or.inr ⟨?_, valid, room⟩
      rw [Append4kAlloc.writeAlloc, checks, append4kBlock_ok valid]
      dsimp only
      rw [taken]
      rfl
    · have refused : engine.allocator.alloc = (.error .enospc, engine.allocator) := by
        rw [Allocator.alloc, if_neg linear, if_pos (by omega)]
      refine Or.inl ⟨.enospc, ?_, fun _ => ?_⟩
      · rw [Append4kAlloc.writeAlloc, checks, append4kBlock_ok valid]
        dsimp only
        rw [refused]
      · obtain ⟨count, same⟩ := whole
        obtain ⟨most, total⟩ := Nat.dvd_of_mod_eq_zero divides
        rw [same, total] at inside room ⊢
        rw [← Nat.mul_succ] at room
        have fewer := Nat.lt_of_mul_lt_mul_left (Nat.lt_of_not_le room)
        have more : size * most ≤ size * count := Nat.mul_le_mul_left size (Nat.lt_succ_iff.mp fewer)
        omega
  · refine Or.inl ⟨.einval, ?_, fun held => absurd held valid⟩
    rw [Append4kAlloc.writeAlloc, checks, append4kBlock_error valid]

/-- The turn in which a write gets its sector. -/
theorem Serves.place (serves : Serves bios fates old blocks size limit (engine, traffic)) (waiting : traffic.pc thread = .submitted)
    (op : (bios thread).op = .write) (valid : Append4kBlock blocks size (bios thread))
    (room : engine.allocator.nextSector + size ≤ limit) :
    Serves bios fates old blocks size limit (engine.advance, traffic.setPc thread (.placed engine.allocator.nextSector)) := by
  have next : engine.advance.allocator.nextSector = engine.allocator.nextSector + size := by
    rw [← serves.block]
    rfl
  have holds {other sector : Nat}
      (held : (traffic.setPc thread (.placed engine.allocator.nextSector)).Holds bios other sector) :
      other = thread ∧ sector = engine.allocator.nextSector ∨ other ≠ thread ∧ traffic.Holds bios other sector := by
    by_cases here : other = thread
    · subst here
      rw [Traffic.Holds, setPc_self] at held
      exact Or.inl ⟨rfl, (Option.some.inj held.2).symm⟩
    · rw [Traffic.Holds, setPc_other _ _ here] at held
      exact Or.inr ⟨here, held⟩
  have still {other sector : Nat} (held : traffic.Holds bios other sector) :
      other ≠ thread ∧ (traffic.setPc thread (.placed engine.allocator.nextSector)).Holds bios other sector := by
    have elsewhere : other ≠ thread := by
      rintro rfl
      rw [Traffic.Holds, waiting] at held
      cases held.2
    refine ⟨elsewhere, ?_⟩
    rw [Traffic.Holds, setPc_other _ _ elsewhere]
    exact held
  have mine : (traffic.setPc thread (.placed engine.allocator.nextSector)).Holds bios thread engine.allocator.nextSector :=
    ⟨op, by rw [setPc_self]; rfl⟩
  refine ⟨serves.nrLogicalBlocks, serves.sectorsPerBlock, serves.linear, serves.block, serves.physicalSectors, ?_, ?_, ?_, ?_, ?_,
    ?_, ?_, ?_, ?_, serves.unmapped, ?_, ?_, ?_⟩
  · rw [next]
    exact (Nat.dvd_add_right serves.whole).mpr (Nat.dvd_refl size)
  · rw [next]
    exact room
  · intro other sector held
    by_cases here : other = thread
    · rw [here]
      exact op
    · exact serves.writes other sector ((setPc_other _ _ here).symm.trans held)
  · intro other sector held
    rcases holds held with ⟨rfl, _⟩ | ⟨_, held⟩
    · exact valid.1
    · exact serves.valid other sector held
  · intro other sector held
    rw [next]
    rcases holds held with ⟨_, rfl⟩ | ⟨_, held⟩
    · exact Nat.le_refl _
    · exact Nat.le_add_right_of_le (serves.below other sector held)
  · intro one two sector sector' held held' different
    rcases holds held with ⟨here, rfl⟩ | ⟨_, held⟩ <;> rcases holds held' with ⟨here', rfl⟩ | ⟨_, held'⟩
    · exact absurd (here.trans here'.symm) different
    · exact Or.inr (serves.below two sector' held')
    · exact Or.inl (serves.below one sector held)
    · exact serves.apart one two sector sector' held held' different
  · intro sector below
    rw [next] at below
    by_cases old_ : sector < engine.allocator.nextSector
    · obtain ⟨other, slot, held, inside⟩ := serves.covered sector old_
      exact ⟨other, slot, (still held).2, inside⟩
    · exact ⟨thread, _, mine, Nat.le_of_not_lt old_, below⟩
  · intro other op' valid' killed
    by_cases here : other = thread
    · subst here
      rw [setPc_self] at killed
      cases killed
    · have stuck := serves.full other op' valid' ((setPc_other _ _ here).symm.trans killed)
      dsimp only at stuck
      rw [next]
      omega
  · intro other sector held
    rcases holds held with ⟨rfl, rfl⟩ | ⟨elsewhere, held⟩
    · exact Or.inl (setPc_self _ _ _)
    · rw [setPc_other _ _ elsewhere]
      exact serves.kept other sector held
  · intro block writer last
    exact (still (serves.mapped block writer last)).2
  · intro other sector held index below
    rcases holds held with ⟨rfl, rfl⟩ | ⟨elsewhere, held⟩
    · rw [setPc_self]
      exact serves.fresh _ (Nat.le_add_right _ _)
    · rw [setPc_other _ _ elsewhere]
      exact serves.bytes other sector held index below
  · intro address beyond
    rw [next, Nat.add_mul] at beyond
    exact serves.fresh address (by dsimp only; omega)

/-- The turn in which a write stores its mapping. -/
theorem Serves.store (serves : Serves bios fates old blocks size limit (engine, traffic)) (placed : traffic.pc thread = .placed sector) :
    Serves bios fates old blocks size limit
      (engine.writeStore (bios thread).sector sector, (traffic.setPc thread (.remapped sector)).store thread) := by
  have op := serves.writes thread sector placed
  have pcs : (traffic.setPc thread (.remapped sector)).pc = ((traffic.setPc thread (.remapped sector)).store thread).pc := rfl
  have holds (other slot : Nat) : ((traffic.setPc thread (.remapped sector)).store thread).Holds bios other slot ↔
      traffic.Holds bios other slot := by
    rw [Traffic.Holds, Traffic.Holds, ← pcs]
    by_cases here : other = thread
    · subst here
      rw [setPc_self, placed]
      rfl
    · rw [setPc_other _ _ here]
  refine ⟨serves.nrLogicalBlocks, serves.sectorsPerBlock, serves.linear, serves.block, serves.physicalSectors, serves.whole,
    serves.inside, ?_, ?_, ?_, ?_, ?_, ?_, ?_, ?_, ?_, ?_, serves.fresh⟩
  · intro other slot held
    by_cases here : other = thread
    · rw [here]
      exact op
    · exact serves.writes other slot ((setPc_other _ _ here).symm.trans held)
  · exact fun other slot held => serves.valid other slot ((holds _ _).mp held)
  · exact fun other slot held => serves.below other slot ((holds _ _).mp held)
  · exact fun one two slot slot' held held' => serves.apart one two slot slot' ((holds _ _).mp held) ((holds _ _).mp held')
  · intro slot below
    obtain ⟨other, start, held, inside⟩ := serves.covered slot below
    exact ⟨other, start, (holds _ _).mpr held, inside⟩
  · intro other op' valid killed
    have elsewhere : other ≠ thread := by
      rintro rfl
      have stands : (traffic.setPc other (.remapped sector)).pc other = .killed := killed
      rw [setPc_self] at stands
      cases stands
    exact serves.full other op' valid ((setPc_other _ _ elsewhere).symm.trans killed)
  · intro other slot held
    by_cases here : other = thread
    · rw [here]
      exact Or.inr (List.mem_append_right _ (List.mem_singleton_self thread))
    · rw [← pcs, setPc_other _ _ here]
      exact (serves.kept other slot ((holds _ _).mp held)).imp_right (List.mem_append_left _)
  · intro block none_
    rw [lastStore_store] at none_
    split at none_
    · cases none_
    · rename_i elsewhere
      refine (if_neg fun here => elsewhere ?_).trans (serves.unmapped block none_)
      rw [here, ← serves.sectorsPerBlock]
  · intro block writer last
    rw [holds]
    rw [lastStore_store] at last
    split at last
    · rename_i here
      cases last
      have mapping : (engine.writeStore (bios thread).sector sector).addrMapping block = sector := by
        refine if_pos ?_
        rw [← here, ← serves.sectorsPerBlock]
      rw [mapping]
      exact ⟨op, by rw [placed]; rfl⟩
    · rename_i elsewhere
      have mapping : (engine.writeStore (bios thread).sector sector).addrMapping block = engine.addrMapping block := by
        refine if_neg fun here => elsewhere ?_
        rw [here, ← serves.sectorsPerBlock]
      rw [mapping]
      exact serves.mapped block writer last
  · intro other slot held index below
    rw [← pcs]
    by_cases here : other = thread
    · subst here
      rw [setPc_self]
      exact (serves.bytes other slot ((holds _ _).mp held) index below).trans (by rw [placed]; rfl)
    · rw [setPc_other _ _ here]
      exact serves.bytes other slot ((holds _ _).mp held) index below

/-- The turn in which the lower device carries out a bio. -/
theorem Serves.lower (serves : Serves bios fates old blocks size limit (engine, traffic)) (remapped : traffic.pc thread = .remapped sector) :
    Serves bios fates old blocks size limit (engine, traffic.lower bios fates thread sector) := by
  have pcs (other : Nat) (elsewhere : other ≠ thread) : (traffic.lower bios fates thread sector).pc other = traffic.pc other :=
    if_neg elsewhere
  have mine : (traffic.lower bios fates thread sector).pc thread =
      .completed sector (lowerIo (bios thread) sector (fates thread) traffic.media).1 := if_pos rfl
  have holds (other slot : Nat) : (traffic.lower bios fates thread sector).Holds bios other slot ↔ traffic.Holds bios other slot := by
    by_cases here : other = thread
    · subst here
      rw [Traffic.Holds, Traffic.Holds, mine, remapped]
      rfl
    · rw [Traffic.Holds, Traffic.Holds, pcs other here]
  refine serves.frame holds rfl (fun other slot held => ?_) (fun other slot held => ?_) (fun other op valid killed => ?_)
    (fun other slot held index below => ?_) (fun address beyond => ?_)
  · by_cases here : other = thread
    · subst here
      rw [mine] at held
      cases held
    · exact serves.writes other slot (pcs other here ▸ held)
  · rw [pcs other (by rintro rfl; rw [remapped] at held; cases held)]
    exact held
  · by_cases here : other = thread
    · subst here
      rw [mine] at killed
      cases killed
    · exact serves.full other op valid (pcs other here ▸ killed)
  · by_cases here : other = thread
    · subst here
      have width := serves.valid other slot held
      have given := held.2
      rw [remapped] at given
      cases given
      rw [mine]
      exact lowerIo_write sector traffic.media held.1 (by rw [width]; exact below)
    · rw [pcs other here]
      refine (lowerIo_media _ _ _ _ fun op => ?_).trans (serves.bytes other slot held index below)
      have given : traffic.Holds bios thread sector := ⟨op, by rw [remapped]; rfl⟩
      rw [serves.valid thread sector given]
      have apart := serves.apart other thread slot sector held given here
      simp only [sectorBytes] at below ⊢
      omega
  · refine (lowerIo_media _ _ _ _ fun op => ?_).trans (serves.fresh address beyond)
    have given : traffic.Holds bios thread sector := ⟨op, by rw [remapped]; rfl⟩
    have below := serves.below thread sector given
    rw [serves.valid thread sector given]
    simp only [sectorBytes] at below beyond ⊢
    omega

theorem Serves.turned {state : Append4kAlloc × Traffic} (serves : Serves bios fates old blocks size limit state)
    (divides : limit % size = 0) (thread : Nat) : Serves bios fates old blocks size limit (Append4kAlloc.turn bios fates state thread) := by
  obtain ⟨engine, traffic⟩ := state
  unfold Append4kAlloc.turn
  cases stands : traffic.pc thread with
  | submitted =>
    dsimp only
    cases op : (bios thread).op with
    | write =>
      rcases serves.writeAlloc (bios thread) divides with ⟨error, refused, full⟩ | ⟨taken, valid, room⟩
      · simp only [engineMap, op, refused]
        exact serves.pass stands (fun _ => rfl) (by rintro _ ⟨⟩) fun _ => full
      · simp only [engineMap, op, taken]
        exact serves.place stands op valid room
    | read =>
      simp only [engineMap, op]
      refine serves.pass stands ?_ (fun sector => ?_) ?_
      · rw [op]
        rintro ⟨⟩
      · exact append4kMapRead_ne_placed _ sector
      · rw [op]
        rintro ⟨⟩
    | flush =>
      simp only [engineMap, op]
      refine serves.pass stands ?_ (by rintro _ ⟨⟩) ?_ <;>
      · rw [op]
        rintro ⟨⟩
    | other =>
      simp only [engineMap, op]
      refine serves.pass stands (fun _ => rfl) (by rintro _ ⟨⟩) ?_
      rw [op]
      rintro ⟨⟩
  | placed sector =>
    exact serves.store stands
  | remapped sector =>
    exact serves.lower stands
  | zeroFilled | killed | completed _ _ =>
    exact serves

theorem turn_pc_other (state : Append4kAlloc × Traffic) {thread other : Nat} (elsewhere : other ≠ thread) :
    (turn bios fates state thread).2.pc other = state.2.pc other := by
  unfold turn
  split
  · exact setPc_other _ _ elsewhere
  · exact setPc_other _ _ elsewhere
  · exact setPc_other _ _ elsewhere
  · rfl

/-- A bio that is through stays as it is. -/
theorem turn_pc_through (state : Append4kAlloc × Traffic) (turned : Nat) (through : turn bios fates state thread = state) :
    (turn bios fates state turned).2.pc thread = state.2.pc thread := by
  by_cases here : thread = turned
  · rw [← here, through]
  · rw [turn_pc_other state here]

theorem turn_pc_completed (state : Append4kAlloc × Traffic) (turned : Nat) {result : Except Errno (Nat → UInt8)}
    (completed : state.2.pc thread = .completed sector result) :
    (turn bios fates state turned).2.pc thread = .completed sector result :=
  (turn_pc_through state turned (by rw [turn, completed])).trans completed

theorem serve_zeroFilled (state : Append4kAlloc × Traffic) (zeroFilled : state.2.pc thread = .zeroFilled) (schedule : List Nat) :
    (serve bios fates state schedule).2.pc thread = .zeroFilled := by
  induction schedule generalizing state with
  | nil => exact zeroFilled
  | cons turned rest ih => exact ih _ ((turn_pc_through state turned (by rw [turn, zeroFilled])).trans zeroFilled)

/-- Once a write has a sector it keeps it. -/
theorem turn_holds {state : Append4kAlloc × Traffic} (turned : Nat) (held : state.2.Holds bios thread sector) :
    (turn bios fates state turned).2.Holds bios thread sector := by
  by_cases here : thread = turned
  · subst here
    refine ⟨held.1, ?_⟩
    have slot := held.2
    unfold turn
    cases stands : state.2.pc thread with
    | submitted | zeroFilled | killed =>
      rw [stands] at slot
      cases slot
    | placed sector =>
      rw [stands] at slot
      cases slot
      exact congrArg BioPc.slot (setPc_self _ _ _)
    | remapped sector =>
      rw [stands] at slot
      cases slot
      exact congrArg BioPc.slot (setPc_self _ _ _)
    | completed _ _ =>
      rw [stands] at slot
      exact (congrArg BioPc.slot stands).trans slot
  · exact ⟨held.1, by rw [turn_pc_other state here]; exact held.2⟩

end Append4kAlloc

/-- A read that was sent to the sector of a write, and what it brings back. The
write stood at `first` when the read was mapped. -/
structure Sees (bios : Nat → Bio) (fates : Nat → LowerIo) (old : Nat → UInt8) (size : Nat) (first : BioPc) (traffic : Traffic)
    (reader writer sector : Nat) : Prop where
  held : traffic.Holds bios writer sector
  since : first.Since (traffic.pc writer)
  stands : traffic.pc reader = .remapped sector ∨ ∃ result, traffic.pc reader = .completed sector result ∧
    ∀ data, result = .ok data → ∃ stage, first.Since stage ∧
      ∀ index < size * sectorBytes, data index = slotBytes bios fates old writer sector stage index

namespace Append4kAlloc
variable {bios : Nat → Bio} {fates : Nat → LowerIo} {old : Nat → UInt8} {blocks size limit : Nat}
  {state : Append4kAlloc × Traffic} {reader writer sector : Nat} {first : BioPc}

theorem Serves.sees (serves : Serves bios fates old blocks size limit state) (read : (bios reader).op = .read)
    (whole : (bios reader).sectors = size) (sees : Sees bios fates old size first state.2 reader writer sector) (thread : Nat) :
    Sees bios fates old size first (turn bios fates state thread).2 reader writer sector := by
  refine ⟨turn_holds thread sees.held, fun slot result completed => ?_, ?_⟩
  · have before := sees.since slot result completed
    rw [completed] at before ⊢
    exact turn_pc_completed state thread before
  · rcases sees.stands with remapped | ⟨result, completed, data⟩
    · by_cases here : reader = thread
      · subst here
        have next : (turn bios fates state reader).2 = state.2.lower bios fates reader sector := by rw [turn, remapped]
        rw [next]
        refine Or.inr ⟨_, if_pos rfl, fun data done => ⟨_, sees.since, fun index below => ?_⟩⟩
        rw [lowerIo_read _ _ _ _ read done (by rw [whole]; exact below)]
        exact serves.bytes writer sector sees.held index below
      · exact Or.inl ((turn_pc_other state here).trans remapped)
    · exact Or.inr ⟨result, turn_pc_completed state thread completed, data⟩

theorem Serves.served (serves : Serves bios fates old blocks size limit state) (divides : limit % size = 0) (schedule : List Nat) :
    Serves bios fates old blocks size limit (Append4kAlloc.serve bios fates state schedule) := by
  induction schedule generalizing state with
  | nil => exact serves
  | cons thread rest ih => exact ih (serves.turned divides thread)

theorem Serves.serve_sees (serves : Serves bios fates old blocks size limit state) (divides : limit % size = 0)
    (read : (bios reader).op = .read) (whole : (bios reader).sectors = size)
    (sees : Sees bios fates old size first state.2 reader writer sector) (schedule : List Nat) :
    Sees bios fates old size first (Append4kAlloc.serve bios fates state schedule).2 reader writer sector := by
  induction schedule generalizing state with
  | nil => exact sees
  | cons thread rest ih => exact ih (serves.turned divides thread) (serves.sees read whole sees thread)

/-- The turn in which a read is mapped. -/
theorem Serves.mapRead (serves : Serves bios fates old blocks size limit state) (narrow : limit < append4kUnmapped) (some_ : 0 < size)
    (read : (bios reader).op = .read) (valid : Append4kBlock blocks size (bios reader)) (waiting : state.2.pc reader = .submitted) :
    (state.2.lastStore bios size ((bios reader).sector / size) = none →
      (turn bios fates state reader).2.pc reader = .zeroFilled) ∧
    ∀ writer, state.2.lastStore bios size ((bios reader).sector / size) = some writer →
      ∃ sector, Sees bios fates old size (state.2.pc writer) (turn bios fates state reader).2 reader writer sector := by
  have next : (turn bios fates state reader).2.pc reader =
      append4kMapRead (append4kMapped (state.1.addrMapping ((bios reader).sector / size))) := by
    simp only [turn, waiting, engineMap, read, setPc_self]
    rw [Append4kAlloc.read, serves.sectorsPerBlock, serves.nrLogicalBlocks, append4kBlock_ok valid]
    rfl
  refine ⟨fun none_ => ?_, fun writer last => ⟨state.1.addrMapping ((bios reader).sector / size), ?_⟩⟩
  · rw [next, serves.unmapped _ none_, append4kMapped, if_pos rfl]
    rfl
  · have held := serves.mapped _ writer last
    have below := serves.below writer _ held
    have inside := serves.inside
    have elsewhere : writer ≠ reader := by
      rintro rfl
      rw [held.1] at read
      cases read
    refine ⟨turn_holds reader held, fun _ _ _ => turn_pc_other state elsewhere, Or.inl ?_⟩
    rw [next, append4kMapped, if_neg (by omega)]
    rfl

end Append4kAlloc
/-- Bios over a target of whole blocks act as on a flat disk: the writes share no
sector, a read is for the write to its block that was stored last, and space runs
out only when every sector is taken. `runs` has the state behind each schedule. -/
structure FlatTarget (bios : Nat → Bio) (fates : Nat → LowerIo) (old : Nat → UInt8) (blocks size limit : Nat)
    (runs : List Nat → Traffic) : Prop where
  inside : ∀ schedule thread sector, (runs schedule).Holds bios thread sector → sector + size ≤ limit
  apart : ∀ schedule thread other sector sector', (runs schedule).Holds bios thread sector →
    (runs schedule).Holds bios other sector' → thread ≠ other → sector + size ≤ sector' ∨ sector' + size ≤ sector
  full : ∀ schedule thread, (bios thread).op = .write → Append4kBlock blocks size (bios thread) →
    (runs schedule).pc thread = .killed →
    ∀ sector < limit, ∃ other slot, (runs schedule).Holds bios other slot ∧ slot ≤ sector ∧ sector < slot + size
  stored : ∀ schedule thread sector result, (bios thread).op = .write → (runs schedule).pc thread = .completed sector result →
    thread ∈ (runs schedule).stored
  ordered : ∀ before after, (runs before).stored <+: (runs (before ++ after)).stored
  blank : ∀ before reader after, (bios reader).op = .read → Append4kBlock blocks size (bios reader) →
    (runs before).pc reader = .submitted → (runs before).lastStore bios size ((bios reader).sector / size) = none →
    (runs (before ++ reader :: after)).pc reader = .zeroFilled
  last : ∀ before reader after writer, (bios reader).op = .read → Append4kBlock blocks size (bios reader) →
    (runs before).pc reader = .submitted → (runs before).lastStore bios size ((bios reader).sector / size) = some writer →
    ∃ sector, Sees bios fates old size ((runs before).pc writer) (runs (before ++ reader :: after)) reader writer sector

theorem Append4kAlloc.turn_stored {bios : Nat → Bio} {fates : Nat → LowerIo} (state : Append4kAlloc × Traffic) (thread : Nat) :
    state.2.stored <+: (turn bios fates state thread).2.stored := by
  unfold turn
  split
  · exact List.prefix_refl _
  · exact List.prefix_append _ _
  · exact List.prefix_refl _
  · exact List.prefix_refl _

theorem Append4kAlloc.serve_append {bios : Nat → Bio} {fates : Nat → LowerIo} (state : Append4kAlloc × Traffic) (before after : List Nat) :
    serve bios fates state (before ++ after) = serve bios fates (serve bios fates state before) after := List.foldl_append

theorem Append4kAlloc.serve_stored {bios : Nat → Bio} {fates : Nat → LowerIo} (state : Append4kAlloc × Traffic) (schedule : List Nat) :
    state.2.stored <+: (serve bios fates state schedule).2.stored := by
  induction schedule generalizing state with
  | nil => exact List.prefix_refl _
  | cons thread rest ih => exact (turn_stored state thread).trans (ih (turn bios fates state thread))

/-- Whatever the bios and their order, `append4k-alloc` serves a flat disk. -/
theorem Append4kAlloc.Serves.flatTarget {bios : Nat → Bio} {fates : Nat → LowerIo} {old : Nat → UInt8} {blocks size limit : Nat}
    {state : Append4kAlloc × Traffic} (serves : Serves bios fates old blocks size limit state) (narrow : limit < append4kUnmapped)
    (some_ : 0 < size) (divides : limit % size = 0) :
    FlatTarget bios fates old blocks size limit fun schedule => (Append4kAlloc.serve bios fates state schedule).2 where
  inside schedule thread sector held :=
    ((serves.served divides schedule).below thread sector held).trans (serves.served divides schedule).inside
  apart schedule := (serves.served divides schedule).apart
  full schedule thread op valid killed sector below :=
    (serves.served divides schedule).covered sector
      (by rw [(serves.served divides schedule).full thread op valid killed]; exact below)
  stored schedule thread sector result op completed := by
    refine ((serves.served divides schedule).kept thread sector ⟨op, ?_⟩).resolve_left ?_
    · rw [completed]
      rfl
    · rw [completed]
      rintro ⟨⟩
  ordered before after := by
    rw [serve_append]
    exact serve_stored _ after
  blank before reader after read valid waiting none_ := by
    rw [serve_append]
    exact serve_zeroFilled _ (((serves.served divides before).mapRead narrow some_ read valid waiting).1 none_) after
  last before reader after writer read valid waiting last := by
    rw [serve_append]
    obtain ⟨sector, sees⟩ := ((serves.served divides before).mapRead narrow some_ read valid waiting).2 writer last
    exact ⟨sector, ((serves.served divides before).turned divides reader).serve_sees divides read valid.1 sees after⟩

/-- The two engines between turns, nothing between an allocation and its store. -/
structure Alike (alloc : Append4kAlloc × Traffic) (plain : Append4k × Traffic) : Prop where
  inStep : InStep alloc.1 plain.1
  mapping : alloc.1.addrMapping = plain.1.addrMapping
  traffic : alloc.2 = plain.2
  unplaced : ∀ thread sector, plain.2.pc thread ≠ .placed sector

namespace Alike
variable {bios : Nat → Bio} {fates : Nat → LowerIo} {alloc : Append4kAlloc × Traffic} {plain : Append4k × Traffic}
  {engine engine' : Append4kAlloc} {m m' : Append4k} {traffic after : Traffic} {thread : Nat} {pc : BioPc}

theorem moves (alike : Alike (engine, traffic) (m, traffic)) (inStep : InStep engine' m')
    (mapping : engine'.addrMapping = m'.addrMapping) (moved : after.pc = (traffic.setPc thread pc).pc)
    (unplaced : ∀ sector, pc ≠ .placed sector) : Alike (engine', after) (m', after) := by
  refine ⟨inStep, mapping, rfl, fun other sector placed => ?_⟩
  dsimp only at placed
  rw [moved] at placed
  by_cases here : other = thread
  · rw [here] at placed
    exact unplaced sector ((setPc_self _ _ _).symm.trans placed)
  · exact alike.unplaced other sector ((setPc_other _ _ here).symm.trans placed)

theorem setPc (alike : Alike (engine, traffic) (m, traffic)) (unplaced : ∀ sector, pc ≠ .placed sector) :
    Alike (engine, traffic.setPc thread pc) (m, traffic.setPc thread pc) :=
  alike.moves alike.inStep alike.mapping rfl unplaced

/-- What a read finds is the same on both, and neither stores it. -/
theorem turn_read (alike : Alike (engine, traffic) (m, traffic)) (stands : traffic.pc thread = .submitted)
    (op : (bios thread).op = .read) : Append4k.turn bios fates (m, traffic) thread =
      (m, traffic.setPc thread (append4kMapRead (engine.read (bios thread).sector (bios thread).sectors))) := by
  rw [alike.inStep.read (congrFun alike.mapping)]
  simp only [Append4k.turn, stands, Append4k.engineMap, op]
  cases append4kMapRead (m.read (bios thread).sector (bios thread).sectors) <;> simp

/-- A turn of `append4k` is one turn of `append4k-alloc`, or two where a write
gets a sector and stores its mapping. -/
theorem turn (alike : Alike alloc plain) (thread : Nat) :
    ∃ steps, Alike (Append4kAlloc.serve bios fates alloc steps) (Append4k.turn bios fates plain thread) ∧
      ((bios thread).op = .read → steps = [thread]) := by
  obtain ⟨engine, traffic⟩ := alloc
  obtain ⟨m, _⟩ := plain
  obtain rfl : traffic = _ := alike.traffic
  cases stands : traffic.pc thread with
  | submitted =>
    cases op : (bios thread).op with
    | write =>
      rcases alike.inStep.alloc (bios thread).sector (bios thread).sectors with ⟨error, refused, refused'⟩ | ⟨taken, wrote, room⟩
      · refine ⟨[thread], ?_, by rintro ⟨⟩⟩
        simp only [Append4kAlloc.serve, List.foldl_cons, List.foldl_nil, Append4kAlloc.turn, Append4k.turn, stands,
          Append4kAlloc.engineMap, Append4k.engineMap, op, refused, refused']
        exact alike.setPc (by rintro _ ⟨⟩)
      · refine ⟨[thread, thread], ?_, by rintro ⟨⟩⟩
        have stores : Append4k.turn bios fates (m, traffic) thread =
            (m.append ((bios thread).sector / m.sectorsPerBlock), (traffic.setPc thread (.remapped m.nextAppendSector)).store thread) := by
          simp only [Append4k.turn, stands, Append4k.engineMap, op, wrote, if_true]
        have turns : Append4kAlloc.serve bios fates (engine, traffic) [thread, thread] =
            (engine.advance.writeStore (bios thread).sector m.nextAppendSector,
              (traffic.setPc thread (.remapped m.nextAppendSector)).store thread) := by
          simp only [Append4kAlloc.serve, List.foldl_cons, List.foldl_nil, Append4kAlloc.turn, stands, Append4kAlloc.engineMap, op,
            taken, setPc_self, setPc_setPc]
        rw [stores, turns]
        refine alike.moves ((alike.inStep.advance _ room).store _ _) ?_ rfl (by rintro _ ⟨⟩)
        rw [Append4kAlloc.writeStore, Append4k.append, ← alike.mapping, ← alike.inStep.sectorsPerBlock]
        rfl
    | read =>
      refine ⟨[thread], ?_, fun _ => rfl⟩
      rw [alike.turn_read stands op]
      simp only [Append4kAlloc.serve, List.foldl_cons, List.foldl_nil, Append4kAlloc.turn, stands, Append4kAlloc.engineMap, op]
      exact alike.setPc (append4kMapRead_ne_placed _)
    | flush =>
      refine ⟨[thread], ?_, by rintro ⟨⟩⟩
      simp only [Append4kAlloc.serve, List.foldl_cons, List.foldl_nil, Append4kAlloc.turn, Append4k.turn, stands,
        Append4kAlloc.engineMap, Append4k.engineMap, op]
      exact alike.setPc (by rintro _ ⟨⟩)
    | other =>
      refine ⟨[thread], ?_, by rintro ⟨⟩⟩
      simp only [Append4kAlloc.serve, List.foldl_cons, List.foldl_nil, Append4kAlloc.turn, Append4k.turn, stands,
        Append4kAlloc.engineMap, Append4k.engineMap, op]
      exact alike.setPc (by rintro _ ⟨⟩)
  | placed sector => exact absurd stands (alike.unplaced thread sector)
  | remapped sector =>
    refine ⟨[thread], ?_, fun _ => rfl⟩
    simp only [Append4kAlloc.serve, List.foldl_cons, List.foldl_nil, Append4kAlloc.turn, Append4k.turn, stands]
    exact alike.moves alike.inStep alike.mapping rfl (by rintro _ ⟨⟩)
  | zeroFilled | killed | completed _ _ =>
    refine ⟨[thread], ?_, fun _ => rfl⟩
    simp only [Append4kAlloc.serve, List.foldl_cons, List.foldl_nil, Append4kAlloc.turn, Append4k.turn, stands]
    exact alike

theorem serve (alike : Alike alloc plain) (schedule : List Nat) :
    ∃ steps, Alike (Append4kAlloc.serve bios fates alloc steps) (Append4k.serve bios fates plain schedule) := by
  induction schedule generalizing alloc plain with
  | nil => exact ⟨[], alike⟩
  | cons thread rest ih =>
    obtain ⟨first, alike, _⟩ := alike.turn thread
    obtain ⟨steps, alike⟩ := ih alike
    refine ⟨first ++ steps, ?_⟩
    rw [Append4kAlloc.serve_append]
    exact alike

end Alike

/-- Runs that are runs of a flat target with more turns between. -/
theorem FlatTarget.of_split {bios : Nat → Bio} {fates : Nat → LowerIo} {old : Nat → UInt8} {blocks size limit : Nat}
    {runs finer : List Nat → Traffic} (flat : FlatTarget bios fates old blocks size limit finer)
    (split : ∀ before after, ∃ steps later, runs before = finer steps ∧ runs (before ++ after) = finer (steps ++ later))
    (read : ∀ before reader after, (bios reader).op = .read →
      ∃ steps later, runs before = finer steps ∧ runs (before ++ reader :: after) = finer (steps ++ reader :: later)) :
    FlatTarget bios fates old blocks size limit runs where
  inside schedule := by
    obtain ⟨steps, _, same, _⟩ := split schedule []
    rw [same]
    exact flat.inside steps
  apart schedule := by
    obtain ⟨steps, _, same, _⟩ := split schedule []
    rw [same]
    exact flat.apart steps
  full schedule := by
    obtain ⟨steps, _, same, _⟩ := split schedule []
    rw [same]
    exact flat.full steps
  stored schedule := by
    obtain ⟨steps, _, same, _⟩ := split schedule []
    rw [same]
    exact flat.stored steps
  ordered before after := by
    obtain ⟨steps, later, same, same'⟩ := split before after
    rw [same, same']
    exact flat.ordered steps later
  blank before reader after op := by
    obtain ⟨steps, later, same, same'⟩ := read before reader after op
    rw [same, same']
    exact flat.blank steps reader later op
  last before reader after writer op := by
    obtain ⟨steps, later, same, same'⟩ := read before reader after op
    rw [same, same']
    exact flat.last steps reader later writer op

/-- Whatever the bios and their order, `append4k` serves a flat disk as
`append4k-alloc` does. -/
theorem Alike.flatTarget {bios : Nat → Bio} {fates : Nat → LowerIo} {old : Nat → UInt8} {blocks size limit : Nat}
    {alloc : Append4kAlloc × Traffic} {plain : Append4k × Traffic} (alike : Alike alloc plain)
    (flat : FlatTarget bios fates old blocks size limit fun schedule => (Append4kAlloc.serve bios fates alloc schedule).2) :
    FlatTarget bios fates old blocks size limit fun schedule => (Append4k.serve bios fates plain schedule).2 := by
  have split (before after : List Nat) (state : Append4k × Traffic) : Append4k.serve bios fates state (before ++ after) =
      Append4k.serve bios fates (Append4k.serve bios fates state before) after := List.foldl_append
  refine flat.of_split (fun before after => ?_) fun before reader after op => ?_
  · obtain ⟨steps, between⟩ := alike.serve before
    obtain ⟨later, behind⟩ := between.serve after
    refine ⟨steps, later, between.traffic.symm, ?_⟩
    rw [split, Append4kAlloc.serve_append]
    exact behind.traffic.symm
  · obtain ⟨steps, between⟩ := alike.serve before
    obtain ⟨turn, mapped, single⟩ := between.turn reader
    obtain ⟨later, behind⟩ := mapped.serve after
    cases single op
    refine ⟨steps, later, between.traffic.symm, ?_⟩
    rw [split, Append4kAlloc.serve_append]
    exact behind.traffic.symm

/-- The engine that `zns_engine_init` leaves behind. -/
def Append4kAlloc.fresh (blocks size limit : Nat) : Append4kAlloc where
  addrMapping := fun _ => append4kUnmapped
  nrLogicalBlocks := blocks
  sectorsPerBlock := size
  allocator := { Allocator.reset with physicalSectors := limit, sectorsPerBlock := size }

theorem Append4kAlloc.init_ok {logicalSectors physicalSectors sectorsPerBlock : Nat} {world after : World} {engine : Append4kAlloc}
    (ran : Append4kAlloc.init logicalSectors physicalSectors sectorsPerBlock world = (.ok engine, after)) :
    append4kSizes logicalSectors physicalSectors sectorsPerBlock ∧
      engine = fresh (logicalSectors / sectorsPerBlock) sectorsPerBlock physicalSectors := by
  unfold Append4kAlloc.init at ran
  by_cases sizes : append4kSizes logicalSectors physicalSectors sectorsPerBlock
  · rw [if_neg (not_not.mpr sizes)] at ran
    refine ⟨sizes, ?_⟩
    obtain ⟨some_, _, whole⟩ := sizes
    cases first : allocate world with
    | mk result middle =>
      cases result with
      | error error =>
        rw [Effect.bind_error first] at ran
        cases ran
      | ok _ =>
        rw [Effect.bind_ok first] at ran
        cases second : allocate middle with
        | mk result last =>
          cases result with
          | error error =>
            rw [Effect.bind_error second] at ran
            cases ran
          | ok _ =>
            rw [Effect.bind_ok second, Allocator.init, if_neg (by omega)] at ran
            cases ran
            rfl
  · rw [if_pos sizes] at ran
    cases ran

theorem Append4kAlloc.serves_start {bios : Nat → Bio} {fates : Nat → LowerIo} {media : Nat → UInt8} (blocks size limit : Nat) :
    Serves bios fates media blocks size limit (fresh blocks size limit, Traffic.start media) := by
  have holds (thread sector : Nat) : ¬ (Traffic.start media).Holds bios thread sector := by
    rintro ⟨_, ⟨⟩⟩
  refine ⟨rfl, rfl, rfl, rfl, rfl, Nat.dvd_zero size, Nat.zero_le _, by rintro _ _ ⟨⟩, fun thread sector held => absurd held (holds _ _),
    fun thread sector held => absurd held (holds _ _), fun thread _ _ _ held => absurd held (holds _ _),
    fun sector below => absurd below (Nat.not_lt_zero sector), by rintro _ _ _ ⟨⟩, fun thread sector held => absurd held (holds _ _),
    fun _ _ => rfl, by rintro _ _ ⟨⟩, fun thread sector held => absurd held (holds _ _), fun _ _ => rfl⟩

end ZnsBase
