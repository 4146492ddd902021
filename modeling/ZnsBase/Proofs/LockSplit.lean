import ZnsBase.Append4k
import ZnsBase.Proofs.WorldFrame

/-! `append4k-alloc` under any interleaving of its writes against `append4k` with
the same writes one after another, in the order in which sectors were handed out. -/

namespace ZnsBase
open Library

/-- The two engines agree on everything but the mapping. -/
structure InStep (engine : Append4kAlloc) (m : Append4k) : Prop where
  nrLogicalBlocks : engine.nrLogicalBlocks = m.nrLogicalBlocks
  sectorsPerBlock : engine.sectorsPerBlock = m.sectorsPerBlock
  linear : engine.allocator.mode = .linear
  block : engine.allocator.sectorsPerBlock = m.sectorsPerBlock
  limit : engine.allocator.physicalSectors = m.nrPhysicalSectors
  next : engine.allocator.nextSector = m.nextAppendSector
  inside : m.nextAppendSector ≤ m.nrPhysicalSectors
  filled : 0 < m.sectorsPerBlock
  narrow : m.nrPhysicalSectors + m.sectorsPerBlock < 2 ^ 64

/-- The engine behind an allocation. -/
def Append4kAlloc.advance (engine : Append4kAlloc) : Append4kAlloc :=
  { engine with allocator := { engine.allocator with
      nextSector := engine.allocator.nextSector + engine.allocator.sectorsPerBlock } }

/-- `append4k` behind a write. -/
def Append4k.append (m : Append4k) (logicalBlock : Nat) : Append4k :=
  { m with
    nextAppendSector := m.nextAppendSector + m.sectorsPerBlock
    addrMapping := storeMapping m.addrMapping logicalBlock m.nextAppendSector }

/-- The two overflow checks say the same, so an allocation and a whole write of
`append4k` end alike. -/
theorem InStep.alloc {engine : Append4kAlloc} {m : Append4k} (inStep : InStep engine m) (logicalSector sectors : Nat) :
    (∃ error, engine.writeAlloc logicalSector sectors = (.error error, engine) ∧
      m.write logicalSector sectors = (.error error, m)) ∨
    (engine.writeAlloc logicalSector sectors = (.ok m.nextAppendSector, engine.advance) ∧
      m.write logicalSector sectors = (.ok m.nextAppendSector, m.append (logicalSector / m.sectorsPerBlock)) ∧
      m.nextAppendSector + m.sectorsPerBlock ≤ m.nrPhysicalSectors) := by
  obtain ⟨blocks, size, linear, block, limit, next, inside, filled, narrow⟩ := inStep
  unfold Append4kAlloc.writeAlloc Append4k.write
  rw [show append4kBlock engine.sectorsPerBlock engine.nrLogicalBlocks logicalSector sectors =
    append4kBlock m.sectorsPerBlock m.nrLogicalBlocks logicalSector sectors by rw [blocks, size]]
  cases found : append4kBlock m.sectorsPerBlock m.nrLogicalBlocks logicalSector sectors with
  | error error => exact Or.inl ⟨error, rfl, rfl⟩
  | ok logicalBlock =>
    have same : logicalBlock = logicalSector / m.sectorsPerBlock := by
      unfold append4kBlock at found
      split at found
      · cases found
      split at found
      · cases found
      exact (Except.ok.inj found).symm
    subst same
    dsimp only
    have whole : (m.nextAppendSector + m.sectorsPerBlock) % 2 ^ 64 = m.nextAppendSector + m.sectorsPerBlock :=
      Nat.mod_eq_of_lt (by omega)
    rw [whole, Allocator.alloc, if_neg (by rw [linear]; rintro ⟨⟩)]
    by_cases full : m.nextAppendSector + m.sectorsPerBlock > m.nrPhysicalSectors
    · rw [if_pos full, if_pos (by omega)]
      exact Or.inl ⟨.enospc, rfl, rfl⟩
    · rw [if_neg full, if_neg (by omega)]
      refine Or.inr ⟨?_, rfl, by omega⟩
      rw [← next]
      rfl

theorem InStep.advance {engine : Append4kAlloc} {m : Append4k} (inStep : InStep engine m) (logicalBlock : Nat)
    (room : m.nextAppendSector + m.sectorsPerBlock ≤ m.nrPhysicalSectors) : InStep engine.advance (m.append logicalBlock) :=
  { inStep with
    next := by
      change engine.allocator.nextSector + engine.allocator.sectorsPerBlock = _
      rw [inStep.next, inStep.block]
      rfl
    inside := room }

theorem InStep.read {engine : Append4kAlloc} {m : Append4k} (inStep : InStep engine m)
    (mapping : ∀ block, engine.addrMapping block = m.addrMapping block) (logicalSector sectors : Nat) :
    engine.read logicalSector sectors = m.read logicalSector sectors := by
  unfold Append4kAlloc.read Append4k.read
  rw [inStep.sectorsPerBlock, inStep.nrLogicalBlocks, funext mapping]

theorem InStep.store {engine : Append4kAlloc} {m : Append4k} (inStep : InStep engine m) (logicalSector physicalSector : Nat) :
    InStep (engine.writeStore logicalSector physicalSector) m := { inStep with }

theorem Append4k.run_append (m : Append4k) (writes : List Append4kWrite) (write : Append4kWrite) :
    m.run (writes ++ [write]) = ((m.run writes).1 ++ [((m.run writes).2.write write.logicalSector write.sectors).1],
      ((m.run writes).2.write write.logicalSector write.sectors).2) := by
  rw [Append4k.run, List.foldl_append]
  rfl

namespace Append4kWriters

/-- The block a thread writes. -/
def target (writes : Nat → Append4kWrite) (state : Append4kWriters) (thread : Nat) : Nat :=
  (writes thread).logicalSector / state.engine.sectorsPerBlock

/-- `append4k` after the writes that have taken their sectors. -/
def sequential (writes : Nat → Append4kWrite) (m : Append4k) (state : Append4kWriters) : List (Except Errno Nat) × Append4k :=
  m.run (state.order.map writes)

/-- What holds after any steps of any threads. -/
structure Refines (writes : Nat → Append4kWrite) (m : Append4k) (state : Append4kWriters) : Prop where
  inStep : InStep state.engine (state.sequential writes m).2
  once : state.order.Nodup
  ordered : ∀ thread, thread ∈ state.order ↔ state.pc thread ≠ .called
  outcomes : state.order.map (fun thread => (state.pc thread).outcome) = (state.sequential writes m).1.map some
  below : ∀ thread sector, (state.pc thread).outcome = some (.ok sector) → sector < state.engine.allocator.nextSector
  apart : ∀ thread other sector, (state.pc thread).outcome = some (.ok sector) → (state.pc other).outcome = some (.ok sector) →
    thread = other
  mapped : ∀ block, state.engine.addrMapping block ≠ append4kUnmapped →
    ∃ thread, state.pc thread = .returned (.ok (state.engine.addrMapping block)) ∧ block = state.target writes thread

section Steps
variable {writes : Nat → Append4kWrite} {m : Append4k} {state : Append4kWriters}

@[simp] theorem setPc_self (thread : Nat) (pc : WritePc) : (state.setPc thread pc).pc thread = pc := if_pos rfl

theorem setPc_other {thread other : Nat} (pc : WritePc) (different : other ≠ thread) :
    (state.setPc thread pc).pc other = state.pc other := if_neg different

/-- What a step of a thread can do. -/
theorem step_cases (inStep : InStep state.engine (state.sequential writes m).2) (thread : Nat) :
    (∃ error, state.pc thread = .called ∧
      step writes state thread = { state with order := state.order ++ [thread] }.setPc thread (.returned (.error error)) ∧
      (step writes state thread).sequential writes m =
        ((state.sequential writes m).1 ++ [.error error], (state.sequential writes m).2)) ∨
    (state.pc thread = .called ∧
      step writes state thread = { state with engine := state.engine.advance, order := state.order ++ [thread] }.setPc thread
        (.placed (state.sequential writes m).2.nextAppendSector) ∧
      (step writes state thread).sequential writes m =
        ((state.sequential writes m).1 ++ [.ok (state.sequential writes m).2.nextAppendSector],
          (state.sequential writes m).2.append (state.target writes thread)) ∧
      (state.sequential writes m).2.nextAppendSector + (state.sequential writes m).2.sectorsPerBlock ≤
        (state.sequential writes m).2.nrPhysicalSectors) ∨
    (∃ sector, state.pc thread = .placed sector ∧
      step writes state thread = { state with engine := state.engine.writeStore (writes thread).logicalSector sector }.setPc thread
        (.returned (.ok sector)) ∧
      (step writes state thread).sequential writes m = state.sequential writes m) ∨
    step writes state thread = state := by
  unfold step
  cases stands : state.pc thread with
  | called =>
    have more (engine : Append4kAlloc) (pc : WritePc) :
        (({ state with engine, order := state.order ++ [thread] } : Append4kWriters).setPc thread pc).sequential writes m =
          ((state.sequential writes m).1 ++
            [((state.sequential writes m).2.write (writes thread).logicalSector (writes thread).sectors).1],
          ((state.sequential writes m).2.write (writes thread).logicalSector (writes thread).sectors).2) := by
      change m.run ((state.order ++ [thread]).map writes) = _
      rw [List.map_append, List.map_singleton, Append4k.run_append]
      rfl
    rcases inStep.alloc (writes thread).logicalSector (writes thread).sectors with ⟨error, placed, wrote⟩ | ⟨placed, wrote, room⟩
    · dsimp only
      rw [placed]
      refine Or.inl ⟨error, rfl, rfl, ?_⟩
      rw [more, wrote]
    · dsimp only
      rw [placed]
      refine Or.inr (Or.inl ⟨rfl, rfl, ?_, room⟩)
      rw [more, wrote, target, inStep.sectorsPerBlock]
  | placed sector => exact Or.inr (Or.inr (Or.inl ⟨sector, rfl, rfl, rfl⟩))
  | returned result => exact Or.inr (Or.inr (Or.inr rfl))

/-- A thread takes its place in the order once it knows its outcome. -/
theorem Refines.takes (refines : Refines writes m state) {thread : Nat} (called : state.pc thread = .called)
    {engine : Append4kAlloc} {pc : WritePc} {result : Except Errno Nat} (known : pc.outcome = some result)
    {after : Append4kWriters} (next : after = ({ state with engine, order := state.order ++ [thread] }.setPc thread pc))
    (results : (after.sequential writes m).1 = (state.sequential writes m).1 ++ [result]) :
    after.order.Nodup ∧ (∀ other, other ∈ after.order ↔ after.pc other ≠ .called) ∧
      after.order.map (fun other => (after.pc other).outcome) = (after.sequential writes m).1.map some := by
  have fresh : thread ∉ state.order := fun member => (refines.ordered thread).mp member called
  have here : after.pc thread = pc := by rw [next, setPc_self]
  have order : after.order = state.order ++ [thread] := by rw [next]; rfl
  have others (other : Nat) (different : other ≠ thread) : after.pc other = state.pc other := by
    rw [next, setPc_other _ different]
  rw [results, order]
  refine ⟨?_, fun other => ?_, ?_⟩
  · exact List.nodup_append.mpr ⟨refines.once, List.nodup_singleton thread, fun old member new same => by
      rw [List.mem_singleton.mp same]
      rintro rfl
      exact fresh member⟩
  · rw [List.mem_append, List.mem_singleton]
    by_cases same : other = thread
    · subst same
      rw [here]
      refine ⟨fun _ waits => ?_, fun _ => Or.inr rfl⟩
      rw [waits] at known
      cases known
    · rw [others other same, refines.ordered]
      exact or_iff_left same
  · rw [List.map_append, List.map_append, List.map_singleton, List.map_singleton, here, known, ← refines.outcomes]
    congr 1
    refine List.map_congr_left fun other member => ?_
    rw [others other fun same => fresh (same ▸ member)]

private theorem outcome_setPc {thread other : Nat} {pc : WritePc} {sector : Nat}
    (held : ((state.setPc thread pc).pc other).outcome = some (.ok sector)) :
    other = thread ∧ pc.outcome = some (.ok sector) ∨ other ≠ thread ∧ (state.pc other).outcome = some (.ok sector) := by
  by_cases same : other = thread
  · subst same
    rw [setPc_self] at held
    exact Or.inl ⟨rfl, held⟩
  · rw [setPc_other pc same] at held
    exact Or.inr ⟨same, held⟩

/-- A mapping by a call that has returned outlives the steps of all others. -/
private theorem returned_setPc {thread other : Nat} {pc : WritePc} {result : Except Errno Nat}
    (busy : ∀ result, state.pc thread ≠ .returned result) (held : state.pc other = .returned result) :
    (state.setPc thread pc).pc other = .returned result := by
  rw [setPc_other pc, held]
  rintro rfl
  exact busy result held

theorem Refines.step (refines : Refines writes m state) (thread : Nat) : Refines writes m (state.step writes thread) := by
  rcases step_cases refines.inStep thread with ⟨error, called, next, behind⟩ | ⟨called, next, behind, room⟩ |
    ⟨sector, placed, next, behind⟩ | idle
  · obtain ⟨once, ordered, outcomes⟩ := refines.takes called rfl next (congrArg Prod.fst behind)
    refine ⟨?_, once, ordered, outcomes, ?_, ?_, ?_⟩
    · rw [behind, next]
      exact refines.inStep
    · rw [next]
      intro other sector held
      rcases outcome_setPc held with ⟨_, ⟨⟩⟩ | ⟨_, held⟩
      exact refines.below other sector held
    · rw [next]
      intro one two sector held held'
      rcases outcome_setPc held with ⟨_, ⟨⟩⟩ | ⟨_, held⟩
      rcases outcome_setPc held' with ⟨_, ⟨⟩⟩ | ⟨_, held'⟩
      exact refines.apart one two sector held held'
    · rw [next]
      intro block some_
      obtain ⟨writer, returned, target⟩ := refines.mapped block some_
      exact ⟨writer, returned_setPc (by rw [called]; rintro _ ⟨⟩) returned, target⟩
  · obtain ⟨once, ordered, outcomes⟩ := refines.takes called rfl next (congrArg Prod.fst behind)
    have pointer := refines.inStep.next
    have size : 0 < state.engine.allocator.sectorsPerBlock := by
      rw [refines.inStep.block]
      exact refines.inStep.filled
    refine ⟨?_, once, ordered, outcomes, ?_, ?_, ?_⟩
    · rw [behind, next]
      exact refines.inStep.advance _ room
    · rw [next]
      intro other sector held
      change sector < state.engine.allocator.nextSector + state.engine.allocator.sectorsPerBlock
      rcases outcome_setPc held with ⟨_, same⟩ | ⟨_, held⟩
      · cases same
        omega
      · have := refines.below other sector held
        omega
    · rw [next]
      intro one two sector held held'
      rcases outcome_setPc held with ⟨here, same⟩ | ⟨_, held⟩ <;> rcases outcome_setPc held' with ⟨here', same'⟩ | ⟨_, held'⟩
      · exact here.trans here'.symm
      · cases same
        have := refines.below two _ held'
        omega
      · cases same'
        have := refines.below one _ held
        omega
      · exact refines.apart one two sector held held'
    · rw [next]
      intro block some_
      obtain ⟨writer, returned, target⟩ := refines.mapped block some_
      exact ⟨writer, returned_setPc (by rw [called]; rintro _ ⟨⟩) returned, target⟩
  · have outcomes (other : Nat) : ((state.step writes thread).pc other).outcome = (state.pc other).outcome := by
      rw [next]
      by_cases same : other = thread
      · rw [same, setPc_self, placed]
        rfl
      · rw [setPc_other _ same]
    have order : (state.step writes thread).order = state.order := by rw [next]; rfl
    refine ⟨?_, ?_, fun other => ?_, ?_, ?_, ?_, ?_⟩
    · rw [behind, next]
      exact refines.inStep.store _ _
    · rw [order]
      exact refines.once
    · have stands (pc : WritePc) : pc ≠ .called ↔ pc.outcome ≠ none := by cases pc <;> simp [WritePc.outcome]
      rw [order, refines.ordered, stands, stands, outcomes]
    · rw [order, behind, ← refines.outcomes]
      exact List.map_congr_left fun other _ => outcomes other
    · intro other sector held
      rw [outcomes] at held
      rw [next]
      exact refines.below other sector held
    · intro one two sector held held'
      rw [outcomes] at held held'
      exact refines.apart one two sector held held'
    · rw [next]
      intro block some_
      by_cases here : block = state.target writes thread
      · have stored : (state.engine.writeStore (writes thread).logicalSector sector).addrMapping block = sector := if_pos here
        refine ⟨thread, ?_, here⟩
        rw [setPc_self]
        exact congrArg (fun sector => WritePc.returned (.ok sector)) stored.symm
      · have kept : (state.engine.writeStore (writes thread).logicalSector sector).addrMapping block =
            state.engine.addrMapping block := if_neg here
        change (state.engine.writeStore (writes thread).logicalSector sector).addrMapping block ≠ _ at some_
        rw [kept] at some_
        obtain ⟨writer, returned, target⟩ := refines.mapped block some_
        have still := @returned_setPc state thread writer (.returned (.ok sector)) _ (by rw [placed]; rintro _ ⟨⟩) returned
        exact ⟨writer, still.trans (congrArg (fun sector => WritePc.returned (.ok sector)) kept.symm), target⟩
  · rw [idle]
    exact refines

theorem Refines.run (refines : Refines writes m state) (schedule : List Nat) : Refines writes m (state.run writes schedule) := by
  induction schedule generalizing state with
  | nil => exact refines
  | cons thread rest ih => exact ih (refines.step thread)

/-- Between its allocation and its store no write has company on its block. -/
def Separate (writes : Nat → Append4kWrite) (state : Append4kWriters) : Prop :=
  ∀ thread other sector sector', state.pc thread = .placed sector → state.pc other = .placed sector' →
    state.target writes thread = state.target writes other → thread = other

/-- The mapping is that of the sequential run but for stores still to come. -/
structure Settled (writes : Nat → Append4kWrite) (m : Append4k) (state : Append4kWriters) : Prop where
  stored : ∀ block, (∀ thread sector, state.pc thread = .placed sector → state.target writes thread ≠ block) →
    state.engine.addrMapping block = (state.sequential writes m).2.addrMapping block
  pending : ∀ thread sector, state.pc thread = .placed sector →
    (state.sequential writes m).2.addrMapping (state.target writes thread) = sector

private theorem placed_setPc {thread other sector : Nat} {pc : WritePc} (held : (state.setPc thread pc).pc other = .placed sector) :
    other = thread ∧ pc = .placed sector ∨ other ≠ thread ∧ state.pc other = .placed sector := by
  by_cases same : other = thread
  · subst same
    rw [setPc_self] at held
    exact Or.inl ⟨rfl, held⟩
  · rw [setPc_other pc same] at held
    exact Or.inr ⟨same, held⟩

theorem Settled.step (settled : Settled writes m state) (refines : Refines writes m state) (thread : Nat)
    (separate : Separate writes (state.step writes thread)) : Settled writes m (state.step writes thread) := by
  rcases step_cases refines.inStep thread with ⟨error, called, next, behind⟩ | ⟨called, next, behind, room⟩ |
    ⟨sector, placed, next, behind⟩ | idle
  · rw [next] at behind ⊢
    constructor
    · intro block free
      rw [behind]
      refine settled.stored block fun other sector held => free other sector ?_
      rw [setPc_other _ fun same => ?_]
      · exact held
      · rw [same, called] at held
        cases held
    · intro other sector held
      rw [behind]
      rcases placed_setPc held with ⟨_, ⟨⟩⟩ | ⟨_, held⟩
      exact settled.pending other sector held
  · rw [next] at behind separate ⊢
    constructor
    · intro block free
      have elsewhere : block ≠ state.target writes thread := fun here => free thread _ (setPc_self thread _) here.symm
      rw [behind]
      refine (settled.stored block fun other sector held => free other sector ?_).trans (if_neg elsewhere).symm
      rw [setPc_other _ fun same => ?_]
      · exact held
      · rw [same, called] at held
        cases held
    · intro other sector held
      rw [behind]
      rcases placed_setPc held with ⟨same, new⟩ | ⟨different, held'⟩
      · cases new
        rw [same]
        exact if_pos rfl
      · have elsewhere : state.target writes other ≠ state.target writes thread := fun here =>
          different (separate other thread _ _ held (setPc_self thread _) here)
        exact (if_neg elsewhere).trans (settled.pending other sector held')
  · rw [next] at behind separate ⊢
    constructor
    · intro block free
      rw [behind]
      by_cases here : block = state.target writes thread
      · subst here
        exact (if_pos rfl).trans (settled.pending thread sector placed).symm
      · refine (if_neg here).trans (settled.stored block fun other sector' held => ?_)
        by_cases same : other = thread
        · rw [same]
          exact fun target => here target.symm
        · exact free other sector' ((setPc_other _ same).trans held)
    · intro other sector' held
      rw [behind]
      rcases placed_setPc held with ⟨_, ⟨⟩⟩ | ⟨_, held⟩
      exact settled.pending other sector' held
  · rw [idle]
    exact settled

theorem Settled.run (settled : Settled writes m state) (refines : Refines writes m state) (schedule : List Nat)
    (separate : ∀ earlier, earlier <+: schedule → Separate writes (state.run writes earlier)) :
    Settled writes m (state.run writes schedule) := by
  induction schedule using List.reverseRecOn with
  | nil => exact settled
  | append_singleton earlier thread ih =>
    have before := ih fun prior inside => separate prior (inside.trans (List.prefix_append earlier [thread]))
    have last := separate (earlier ++ [thread]) (List.prefix_refl _)
    rw [Append4kWriters.run, List.foldl_append] at last ⊢
    exact before.step (refines.run earlier) thread last

end Steps

theorem refines_start {engine : Append4kAlloc} {m : Append4k} (writes : Nat → Append4kWrite) (inStep : InStep engine m)
    (unmapped : engine.addrMapping = fun _ => append4kUnmapped) : Refines writes m (start engine) where
  inStep := inStep
  once := List.nodup_nil
  ordered thread := ⟨fun member => absurd member List.not_mem_nil, fun waits => absurd rfl waits⟩
  outcomes := rfl
  below _ _ := by rintro ⟨⟩
  apart _ _ _ := by rintro ⟨⟩
  mapped block some_ := absurd (congrFun unmapped block) some_

theorem settled_start {engine : Append4kAlloc} {m : Append4k} (writes : Nat → Append4kWrite)
    (same : engine.addrMapping = m.addrMapping) : Settled writes m (start engine) where
  stored block _ := congrFun same block
  pending _ _ := by rintro ⟨⟩

end Append4kWriters

/-- Both engines refuse the same sizes and start with nothing mapped. -/
theorem append4k_init_alike (logicalSectors physicalSectors sectorsPerBlock : Nat)
    (narrow : physicalSectors + sectorsPerBlock < 2 ^ 64) (world : World) :
    (∃ error after, Append4k.init logicalSectors physicalSectors sectorsPerBlock world = (.error error, after) ∧
      Append4kAlloc.init logicalSectors physicalSectors sectorsPerBlock world = (.error error, after)) ∨
    ∃ m engine after, Append4k.init logicalSectors physicalSectors sectorsPerBlock world = (.ok m, after) ∧
      Append4kAlloc.init logicalSectors physicalSectors sectorsPerBlock world = (.ok engine, after) ∧ InStep engine m ∧
      engine.addrMapping = (fun _ => append4kUnmapped) ∧ engine.addrMapping = m.addrMapping := by
  unfold Append4k.init Append4kAlloc.init
  by_cases sizes : append4kSizes logicalSectors physicalSectors sectorsPerBlock
  · rw [if_neg (not_not.mpr sizes), if_neg (not_not.mpr sizes)]
    obtain ⟨some_, _, whole⟩ := sizes
    cases first : allocate world with
    | mk result middle =>
      cases result with
      | error error =>
        rw [Effect.bind_error first, Effect.bind_error first]
        exact Or.inl ⟨error, middle, rfl, rfl⟩
      | ok _ =>
        rw [Effect.bind_ok first, Effect.bind_ok first]
        cases second : allocate middle with
        | mk result after =>
          cases result with
          | error error =>
            rw [Effect.bind_error second, Effect.bind_error second]
            exact Or.inl ⟨error, after, rfl, rfl⟩
          | ok _ =>
            rw [Effect.bind_ok second, Effect.bind_ok second, Allocator.init, if_neg (by omega)]
            refine Or.inr ⟨_, _, after, rfl, rfl, ?_, rfl, rfl⟩
            exact ⟨rfl, rfl, rfl, rfl, rfl, rfl, Nat.zero_le _, Nat.pos_of_ne_zero some_, narrow⟩
  · rw [if_pos sizes, if_pos sizes]
    exact Or.inl ⟨.einval, world, rfl, rfl⟩

/-- Splitting the lock changes no placement: whatever the interleaving, the calls
end as those of `append4k` would in the order of the allocations, and the mapping
is the same unless two writes to one block overlapped. -/
theorem append4k_alloc_places_like_append4k (logicalSectors physicalSectors sectorsPerBlock : Nat)
    (narrow : physicalSectors + sectorsPerBlock < 2 ^ 64) (world : World) :
    (∃ error after, Append4k.init logicalSectors physicalSectors sectorsPerBlock world = (.error error, after) ∧
      Append4kAlloc.init logicalSectors physicalSectors sectorsPerBlock world = (.error error, after)) ∨
    ∃ m engine after, Append4k.init logicalSectors physicalSectors sectorsPerBlock world = (.ok m, after) ∧
      Append4kAlloc.init logicalSectors physicalSectors sectorsPerBlock world = (.ok engine, after) ∧
      ∀ (writes : Nat → Append4kWrite) (schedule : List Nat),
        let state := (Append4kWriters.start engine).run writes schedule
        let sequential := m.run (state.order.map writes)
        state.order.Nodup ∧ (∀ thread, thread ∈ state.order ↔ state.pc thread ≠ .called) ∧
        state.order.map (fun thread => (state.pc thread).outcome) = sequential.1.map some ∧
        (∀ block, state.engine.addrMapping block ≠ append4kUnmapped →
          state.engine.addrMapping block < state.engine.allocator.nextSector ∧
          ∀ other, state.engine.addrMapping other = state.engine.addrMapping block → other = block) ∧
        ((∀ thread sector, state.pc thread ≠ .placed sector) →
          (∀ earlier, earlier <+: schedule → Append4kWriters.Separate writes ((Append4kWriters.start engine).run writes earlier)) →
          ∀ logicalSector sectors, state.engine.read logicalSector sectors = sequential.2.read logicalSector sectors) := by
  rcases append4k_init_alike logicalSectors physicalSectors sectorsPerBlock narrow world with failed |
    ⟨m, engine, after, ran, ran', inStep, unmapped, same⟩
  · exact Or.inl failed
  · refine Or.inr ⟨m, engine, after, ran, ran', fun writes schedule => ?_⟩
    have start := Append4kWriters.refines_start writes inStep unmapped
    have refines := start.run schedule
    refine ⟨refines.once, refines.ordered, refines.outcomes, fun block some_ => ?_, fun finished separate logicalSector sectors => ?_⟩
    · obtain ⟨thread, returned, target⟩ := refines.mapped block some_
      refine ⟨refines.below thread _ (by rw [returned]; rfl), fun other shared => ?_⟩
      obtain ⟨thread', returned', target'⟩ := refines.mapped other (by rw [shared]; exact some_)
      rw [shared] at returned'
      have one := refines.apart thread thread' _ (by rw [returned]; rfl) (by rw [returned']; rfl)
      rw [target, target', one]
    · have settled := (Append4kWriters.settled_start writes same).run start schedule separate
      have mapping := fun block => settled.stored block fun thread sector held => absurd held (finished thread sector)
      exact refines.inStep.read mapping logicalSector sectors

/-- Two threads write one block each, the later allocation storing first. -/
theorem append4k_alloc_places_like_append4k_reordered : ∃ m engine after,
    Append4k.init 16 32 8 (World.fresh ⟨[⟨0, 32, 32⟩], by decide, by decide, by decide⟩) = (.ok m, after) ∧
    Append4kAlloc.init 16 32 8 (World.fresh ⟨[⟨0, 32, 32⟩], by decide, by decide, by decide⟩) = (.ok engine, after) ∧
    let state := (Append4kWriters.start engine).run (fun thread => ⟨thread * 8, 8⟩) [0, 1, 1, 0]
    state.order.map (fun thread => (state.pc thread).outcome) =
      (m.run (state.order.map fun thread => ⟨thread * 8, 8⟩)).1.map some := by
  rcases append4k_alloc_places_like_append4k 16 32 8 (by decide) (World.fresh ⟨[⟨0, 32, 32⟩], by decide, by decide, by decide⟩)
    with ⟨error, after, failed, _⟩ | ⟨m, engine, after, ran, ran', runs⟩
  · cases failed
  · obtain ⟨_, _, outcomes, _⟩ := runs (fun thread => ⟨thread * 8, 8⟩) [0, 1, 1, 0]
    exact ⟨m, engine, after, ran, ran', outcomes⟩

end ZnsBase
