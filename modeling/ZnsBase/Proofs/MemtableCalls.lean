import ZnsBase.Proofs.Memtables

/-! A table under any calls of its interface, with allocations failing at will:
the last successful store of each block wins, and the sequence numbers tell the
stores apart. -/

namespace ZnsBase
open Library

/-- Value and sequence number of the last store of a block. The stores are listed
newest first and numbered from one. -/
def lastStore : List (Nat × Nat) → Nat → Option (Nat × Nat)
  | [], _ => none
  | store :: earlier, wanted => if wanted = store.1 then some (store.2, earlier.length + 1) else lastStore earlier wanted

theorem lastStore_bounds {stores : List (Nat × Nat)} {wanted sector sequence : Nat}
    (found : lastStore stores wanted = some (sector, sequence)) : 1 ≤ sequence ∧ sequence ≤ stores.length := by
  induction stores with
  | nil => cases found
  | cons store earlier ih =>
    rw [lastStore] at found
    rw [List.length_cons]
    split at found
    · cases found
      omega
    · have := ih found
      omega

/-- One sequence number belongs to one block. -/
theorem lastStore_inj {stores : List (Nat × Nat)} {first second sector sector' sequence : Nat}
    (found : lastStore stores first = some (sector, sequence)) (found' : lastStore stores second = some (sector', sequence)) :
    first = second := by
  induction stores with
  | nil => cases found
  | cons store earlier ih =>
    rw [lastStore] at found found'
    split at found <;> split at found'
    next here here' => exact here.trans here'.symm
    next =>
      cases found
      have := lastStore_bounds found'
      omega
    next =>
      cases found'
      have := lastStore_bounds found
      omega
    next => exact ih found found'

namespace Memtable
variable [Kernel]

/-- What holds of a table behind some stores, newest first. -/
structure Holds (stores : List (Nat × Nat)) (memtable : Memtable) : Prop where
  ordered : memtable.root.Ordered Entry.logicalBlock
  counted : memtable.nrEntries = memtable.root.inorder.length % 2 ^ 32
  next : memtable.nextSequence = stores.length + 1
  found : ∀ wanted, (memtable.find wanted).map (fun entry => (entry.physicalSector, entry.sequence)) = lastStore stores wanted

omit [Kernel] in
theorem holds_init : init.Holds [] :=
  ⟨by simp [init, SearchTree.Ordered, SearchTree.inorder], rfl, rfl, fun _ => rfl⟩

theorem find_store {memtable : Memtable} (ordered : memtable.root.Ordered Entry.logicalBlock)
    (logicalBlock physicalSector wanted : Nat) : (memtable.store logicalBlock physicalSector).find wanted =
      if wanted = logicalBlock then some ⟨logicalBlock, physicalSector, memtable.nextSequence⟩ else memtable.find wanted := by
  have ordered' := @store_ordered _ _ logicalBlock ordered physicalSector
  apply Option.ext
  intro entry
  rw [find, SearchTree.find_eq_some_iff ordered', mem_store ordered]
  split
  next here =>
    constructor
    · rintro ⟨⟨different, _⟩ | rfl, same⟩
      · exact absurd (same.trans here) different
      · rfl
    · rintro ⟨⟩
      exact ⟨Or.inr rfl, here.symm⟩
  next elsewhere =>
    rw [find, SearchTree.find_eq_some_iff ordered]
    constructor
    · rintro ⟨⟨_, member⟩ | rfl, same⟩
      · exact ⟨member, same⟩
      · exact absurd same.symm elsewhere
    · rintro ⟨member, same⟩
      exact ⟨Or.inl ⟨fun here => elsewhere (same.symm.trans here), member⟩, same⟩

theorem Holds.store {stores : List (Nat × Nat)} {memtable : Memtable} (holds : memtable.Holds stores)
    (logicalBlock physicalSector : Nat) (few : stores.length + 2 < 2 ^ 64) :
    (memtable.store logicalBlock physicalSector).Holds ((logicalBlock, physicalSector) :: stores) where
  ordered := store_ordered holds.ordered physicalSector
  counted := store_counted holds.ordered physicalSector holds.counted
  next := by
    have same : (memtable.store logicalBlock physicalSector).nextSequence = (memtable.nextSequence + 1) % 2 ^ 64 := by
      unfold Memtable.store
      cases memtable.find logicalBlock <;> rfl
    rw [same, holds.next, List.length_cons, Nat.mod_eq_of_lt few]
  found wanted := by
    rw [find_store holds.ordered, lastStore]
    split
    · rw [Option.map_some, holds.next]
    · exact holds.found wanted

/-- The two ways of an insert: it refuses a key it holds, or it stores as a put does. -/
theorem insert_eq (memtable : Memtable) (logicalBlock physicalSector : Nat) :
    memtable.insert logicalBlock physicalSector =
      if (memtable.find logicalBlock).isSome then (.error .eexist, memtable)
      else (.ok (), memtable.store logicalBlock physicalSector) := by
  rw [Memtable.insert, SearchTree.linkNew_eq]
  cases held : memtable.find logicalBlock with
  | none =>
    rw [show SearchTree.find Entry.logicalBlock _ memtable.root = none from held, Option.isNone_none, if_pos rfl,
      Memtable.store, held]
    rfl
  | some entry =>
    rw [show SearchTree.find Entry.logicalBlock _ memtable.root = some entry from held, Option.isNone_some,
      if_neg (by decide)]
    rfl

end Memtable

variable [Kernel]

/-- A call fails and leaves the table as it was, or it stores. -/
theorem MemtableCall.run_cases (call : MemtableCall) (allocated : Bool) (memtable : Memtable) :
    (∃ error, call.run allocated memtable = (.error error, memtable) ∧ (error = .eexist ∨ error = .enodata ∨ error = .enomem)) ∨
      call.run allocated memtable = (.ok (), memtable.store call.logicalBlock call.physicalSector) := by
  obtain ⟨op, logicalBlock, physicalSector⟩ := call
  unfold run
  cases op with
  | insert =>
    cases allocated with
    | false => exact Or.inl ⟨.enomem, rfl, Or.inr (Or.inr rfl)⟩
    | true =>
      dsimp only
      rw [if_pos rfl, Memtable.insert_eq]
      split
      · exact Or.inl ⟨.eexist, rfl, Or.inl rfl⟩
      · exact Or.inr rfl
  | update =>
    dsimp only
    rw [Memtable.update, Memtable.store]
    cases memtable.find logicalBlock with
    | none => exact Or.inl ⟨.enodata, rfl, Or.inr (Or.inl rfl)⟩
    | some entry => exact Or.inr rfl
  | put =>
    cases allocated with
    | false => exact Or.inl ⟨.enomem, rfl, Or.inr (Or.inr rfl)⟩
    | true => exact Or.inr rfl

/-- Add a call to the stores that have succeeded so far, newest first, and to the
table behind them. -/
def memtableCall (done : List (Nat × Nat) × Memtable) (call : MemtableCall × Bool) : List (Nat × Nat) × Memtable :=
  match call.1.run call.2 done.2 with
  | (.ok (), after) => ((call.1.logicalBlock, call.1.physicalSector) :: done.1, after)
  | (.error _, after) => (done.1, after)

/-- Calls on a fresh table, each with the outcome of its allocation. -/
def memtableCalls (calls : List (MemtableCall × Bool)) : List (Nat × Nat) × Memtable :=
  calls.foldl memtableCall ([], Memtable.init)

theorem memtableCalls_append (calls : List (MemtableCall × Bool)) (call : MemtableCall × Bool) :
    memtableCalls (calls ++ [call]) = memtableCall (memtableCalls calls) call := by
  rw [memtableCalls, List.foldl_append]
  rfl

theorem memtableCall_cases (done : List (Nat × Nat) × Memtable) (call : MemtableCall × Bool) :
    memtableCall done call = done ∨ memtableCall done call = ((call.1.logicalBlock, call.1.physicalSector) :: done.1,
      done.2.store call.1.logicalBlock call.1.physicalSector) := by
  unfold memtableCall
  rcases call.1.run_cases call.2 done.2 with ⟨error, ran, _⟩ | ran
  · rw [ran]
    exact Or.inl rfl
  · rw [ran]
    exact Or.inr rfl

theorem memtableCalls_hold (calls : List (MemtableCall × Bool)) (few : calls.length < 2 ^ 64 - 1) :
    (memtableCalls calls).1.length ≤ calls.length ∧ (memtableCalls calls).2.Holds (memtableCalls calls).1 := by
  induction calls using List.reverseRecOn with
  | nil => exact ⟨Nat.le_refl _, Memtable.holds_init⟩
  | append_singleton calls call ih =>
    rw [List.length_append, List.length_singleton] at few ⊢
    obtain ⟨short, holds⟩ := ih (by omega)
    rw [memtableCalls_append]
    rcases memtableCall_cases (memtableCalls calls) call with same | same
    · rw [same]
      exact ⟨by omega, holds⟩
    · rw [same]
      exact ⟨by rw [List.length_cons]; omega, holds.store _ _ (by omega)⟩

/-- `memtable_put` of the engine is a call whose allocation went as it did. -/
theorem put_is_call (memtable : Memtable) (logicalBlock physicalSector : Nat) (world : World) : ∃ allocated : Bool,
    Effect.Ensures (memtable.put logicalBlock physicalSector) world (fun result _ =>
      result = ((⟨.put, logicalBlock, physicalSector⟩ : MemtableCall).run allocated memtable).1.map fun _ =>
        ((⟨.put, logicalBlock, physicalSector⟩ : MemtableCall).run allocated memtable).2) := by
  have puts := memtable.put_spec logicalBlock physicalSector world
  unfold Effect.Ensures at puts
  rcases puts with ⟨_, ⟨stored, _⟩ | ⟨failed, _⟩⟩
  · exact ⟨true, stored⟩
  · exact ⟨false, failed⟩

namespace Memtable
section Held
variable {stores : List (Nat × Nat)} {memtable : Memtable} (holds : memtable.Holds stores)
include holds

omit [Kernel]

theorem Holds.entry {entry : Entry} (member : entry ∈ memtable.root.inorder) :
    lastStore stores entry.logicalBlock = some (entry.physicalSector, entry.sequence) := by
  have found : memtable.find entry.logicalBlock = some entry :=
    (SearchTree.find_eq_some_iff holds.ordered _ _).mpr ⟨member, rfl⟩
  rw [← holds.found, found, Option.map_some]

theorem Holds.sequence_bounds {entry : Entry} (member : entry ∈ memtable.root.inorder) :
    1 ≤ entry.sequence ∧ entry.sequence < memtable.nextSequence := by
  have := lastStore_bounds (holds.entry member)
  have := holds.next
  omega

theorem Holds.sequences_nodup : (memtable.root.inorder.map Entry.sequence).Nodup := by
  rw [List.Nodup, List.pairwise_map]
  refine List.Pairwise.imp_of_mem ?_ holds.ordered
  intro first second member member' less same
  have one := holds.entry member'
  rw [← same] at one
  exact less.ne (lastStore_inj (holds.entry member) one)

theorem Holds.latest {logicalBlock physicalSector : Nat} {earlier : List (Nat × Nat)}
    (last : stores = (logicalBlock, physicalSector) :: earlier) :
    ∃ entry ∈ memtable.root.inorder, entry.logicalBlock = logicalBlock ∧
      ∀ other ∈ memtable.root.inorder, other.sequence ≤ entry.sequence := by
  subst last
  have found := holds.found logicalBlock
  rw [lastStore, if_pos rfl, Option.map_eq_some_iff] at found
  obtain ⟨entry, found, same⟩ := found
  obtain ⟨member, key⟩ := (SearchTree.find_eq_some_iff holds.ordered _ _).mp found
  refine ⟨entry, member, key, fun other held => ?_⟩
  have bound := lastStore_bounds (holds.entry held)
  rw [List.length_cons] at bound
  have : entry.sequence = earlier.length + 1 := congrArg Prod.snd same
  omega

theorem Holds.lookupSequence (wanted : Nat) :
    memtable.lookupSequence wanted = (lastStore stores wanted).elim (.error .enodata) .ok := by
  rw [Memtable.lookupSequence, ← holds.found]
  cases memtable.find wanted <;> rfl

end Held
end Memtable

/-- The representation of a table after any calls with any failed allocations. The
32-bit counter has the number of keys modulo its range. -/
theorem memtable_keeps_the_last_store (calls : List (MemtableCall × Bool)) (few : calls.length < 2 ^ 64 - 1) :
    let done := memtableCalls calls
    (done.2.root.inorder.map Entry.logicalBlock).Pairwise (fun first second => first < second) ∧
    done.2.nrEntries = done.2.root.inorder.length % 2 ^ 32 ∧
    (done.2.root.inorder.map Entry.sequence).Nodup ∧
    (∀ entry ∈ done.2.root.inorder, 1 ≤ entry.sequence ∧ entry.sequence < done.2.nextSequence) ∧
    (∀ logicalBlock physicalSector earlier, done.1 = (logicalBlock, physicalSector) :: earlier →
      ∃ entry ∈ done.2.root.inorder, entry.logicalBlock = logicalBlock ∧
        ∀ other ∈ done.2.root.inorder, other.sequence ≤ entry.sequence) ∧
    (∀ wanted, done.2.lookupSequence wanted = (lastStore done.1 wanted).elim (.error .enodata) .ok) ∧
    ∀ (call : MemtableCall) (allocated : Bool) (error : Errno), (call.run allocated done.2).1 = .error error →
      (call.run allocated done.2).2 = done.2 := by
  obtain ⟨_, holds⟩ := memtableCalls_hold calls few
  refine ⟨List.pairwise_map.mpr holds.ordered, holds.counted, holds.sequences_nodup, fun entry => holds.sequence_bounds,
    fun _ _ _ => holds.latest, holds.lookupSequence, fun call allocated error failed => ?_⟩
  rcases call.run_cases allocated (memtableCalls calls).2 with ⟨_, ran, _⟩ | ran
  · rw [ran]
  · rw [ran] at failed
    cases failed

omit [Kernel] in
/-- Two stores of one block, an insert that is refused and one that finds no memory. -/
theorem memtable_keeps_the_last_store_twice :
    let calls : List (MemtableCall × Bool) :=
      [(⟨.put, 7, 8⟩, true), (⟨.insert, 7, 16⟩, true), (⟨.insert, 3, 16⟩, false), (⟨.update, 7, 24⟩, true)]
    (@memtableCalls Generations.plainKernel calls).2.nrEntries =
        (@memtableCalls Generations.plainKernel calls).2.root.inorder.length % 2 ^ 32 ∧
      (@memtableCalls Generations.plainKernel calls).2.lookupSequence 7 = .ok (24, 2) := by
  have keeps := @memtable_keeps_the_last_store Generations.plainKernel
    [(⟨.put, 7, 8⟩, true), (⟨.insert, 7, 16⟩, true), (⟨.insert, 3, 16⟩, false), (⟨.update, 7, 24⟩, true)] (by decide)
  exact ⟨keeps.2.1, (keeps.2.2.2.2.2.1 7).trans rfl⟩

/-- Inserts of the blocks below `count`, all of which find memory. -/
def insertsBelow (count : Nat) : List (MemtableCall × Bool) :=
  (List.range count).map fun block => (⟨.insert, block, 0⟩, true)

theorem memtableCalls_insertsBelow (count : Nat) :
    (memtableCalls (insertsBelow count)).2.root.Ordered Entry.logicalBlock ∧
      (∀ entry ∈ (memtableCalls (insertsBelow count)).2.root.inorder, entry.logicalBlock < count) ∧
      (memtableCalls (insertsBelow count)).2.root.inorder.length = count ∧
      (memtableCalls (insertsBelow count)).2.nrEntries = count % 2 ^ 32 := by
  induction count with
  | zero => exact ⟨Memtable.holds_init.ordered, (by rintro _ ⟨⟩), rfl, rfl⟩
  | succ count ih =>
    obtain ⟨ordered, below, length, counted⟩ := ih
    have absent : (memtableCalls (insertsBelow count)).2.find count = none :=
      (SearchTree.find_eq_none_iff ordered _).mpr fun entry member => (below entry member).ne
    have ran : (⟨.insert, count, 0⟩ : MemtableCall).run true (memtableCalls (insertsBelow count)).2 =
        (.ok (), (memtableCalls (insertsBelow count)).2.store count 0) := by
      rw [MemtableCall.run]
      dsimp only
      rw [if_pos rfl, Memtable.insert_eq, absent]
      rfl
    have after : memtableCalls (insertsBelow (count + 1)) = ((count, 0) :: (memtableCalls (insertsBelow count)).1,
        (memtableCalls (insertsBelow count)).2.store count 0) := by
      rw [insertsBelow, List.range_succ, List.map_append, List.map_singleton, memtableCalls_append, memtableCall]
      dsimp only
      rw [← insertsBelow, ran]
    have length' : ((memtableCalls (insertsBelow count)).2.store count 0).root.inorder.length = count + 1 := by
      simp only [Memtable.store, absent, Kernel.inorder_rbInsertColor]
      rw [SearchTree.length_link fun entry member => (below entry member).ne, length]
    rw [after]
    refine ⟨Memtable.store_ordered ordered 0, fun entry member => ?_, length', ?_⟩
    · rcases (Memtable.mem_store ordered 0 entry).mp member with ⟨_, old⟩ | rfl
      · exact (below entry old).trans (Nat.lt_succ_self count)
      · exact Nat.lt_succ_self count
    · rw [Memtable.store_counted ordered 0 (by rw [counted, length]), length']

omit [Kernel] in
/-- With `2 ^ 32` keys the counter is back at zero. -/
theorem entry_count_wraps : (insertsBelow (2 ^ 32)).length < 2 ^ 64 - 1 ∧
    (@memtableCalls Generations.plainKernel (insertsBelow (2 ^ 32))).2.nrEntries ≠
      (@memtableCalls Generations.plainKernel (insertsBelow (2 ^ 32))).2.root.inorder.length := by
  obtain ⟨_, _, length, counted⟩ := @memtableCalls_insertsBelow Generations.plainKernel (2 ^ 32)
  rw [length, counted, insertsBelow, List.length_map, List.length_range]
  decide

end ZnsBase
