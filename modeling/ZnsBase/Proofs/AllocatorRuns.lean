import ZnsBase.Proofs.AllocatorSpec

/-! The allocator over whole runs: after the reserve was chosen, any order of
allocations, reserve rotations and resynchronisations. An observer notes which
ranges were handed out and which were given back. -/

namespace ZnsBase
namespace Allocator

/-- A call made on an allocator in use. Only the sector allocated last is ever
resynchronised. -/
inductive Call where
  | alloc
  | allocGc
  | setReserveAfterReset (victim : Nat)
  | resync (reported : Zone)

/-- What the observer notes: a block handed out, a zone emptied with all its
blocks, or the last block taken back. -/
inductive Change where
  | granted (sector : Nat)
  | emptied (zone : Zone)
  | rolledBack (sector : Nat)

/-- An allocator, the sector it allocated last, and the notes, newest first. -/
structure Session where
  allocator : Allocator
  last : Option Nat
  history : List Change

namespace Session

/-- The reserve is looked for before anything is allocated. -/
def start (allocator : Allocator) (candidates : List Nat) : Session where
  allocator := candidates.foldl (fun allocator id => (allocator.setReserve id).2) allocator
  last := none
  history := []

def grant (session : Session) : Except Errno Nat × Allocator → Session
  | (.ok sector, allocator) => ⟨allocator, some sector, .granted sector :: session.history⟩
  | (.error _, allocator) => { session with allocator }

def rotate (session : Session) (victim : Nat) : Session :=
  match session.allocator.setReserveAfterReset victim, session.allocator.zones[victim]? with
  | (.ok (), allocator), some zone => { session with allocator, history := .emptied zone :: session.history }
  | (_, allocator), _ => { session with allocator }

def adopt (session : Session) (sector : Nat) (reported : Zone) : Session :=
  match session.allocator.resync sector reported with
  | (.error _, allocator) => { session with allocator }
  | (.ok (), allocator) =>
    { session with
      allocator
      history := if reported.writePointer = sector then .rolledBack sector :: session.history else session.history }

def call (session : Session) : Call → Session
  | .alloc => session.grant session.allocator.alloc
  | .allocGc => session.grant session.allocator.allocGc
  | .setReserveAfterReset victim => session.rotate victim
  | .resync reported =>
    match session.last with
    | none => session
    | some sector => session.adopt sector reported

def run (session : Session) (calls : List Call) : Session := calls.foldl call session

end Session

/-- Two blocks without a common sector. -/
def Apart (block first second : Nat) : Prop := first + block ≤ second ∨ second + block ≤ first

/-- A change that gives the block at a sector back. -/
def Frees : Change → Nat → Prop
  | .granted _, _ => False
  | .emptied zone, sector => zone.startSector ≤ sector ∧ sector < zone.startSector + zone.length
  | .rolledBack last, sector => last = sector

/-- Blocks handed out and not given back since. -/
def Live : List Change → Nat → Prop
  | [], _ => False
  | change :: older, sector => change = .granted sector ∨ Live older sector ∧ ¬ Frees change sector

/-- Every block was apart from all blocks live when it was handed out. -/
def Exclusive (block : Nat) : List Change → Prop
  | [] => True
  | change :: older =>
    (∀ sector, change = .granted sector → ∀ other, Live older other → Apart block sector other) ∧ Exclusive block older

private theorem live_append {newer older : List Change} {sector : Nat} (kept : ∀ change ∈ newer, ¬ Frees change sector)
    (live : Live older sector) : Live (newer ++ older) sector := by
  induction newer with
  | nil => exact live
  | cons change newer ih =>
    refine Or.inr ⟨ih fun other member => kept other (List.mem_cons_of_mem _ member), kept change List.mem_cons_self⟩

theorem Exclusive.apart {block : Nat} {newer middle older : List Change} {first second : Nat}
    (exclusive : Exclusive block (newer ++ .granted second :: (middle ++ .granted first :: older)))
    (kept : ∀ change ∈ middle, ¬ Frees change first) : Apart block second first := by
  induction newer with
  | nil => exact exclusive.1 second rfl first (live_append kept (Or.inl rfl))
  | cons change newer ih => exact ih exclusive.2

/-- Zones do not share a sector. -/
def Disjoint (zones : List Zone) : Prop :=
  ∀ (first second : Nat) (one other : Zone), zones[first]? = some one → zones[second]? = some other → first ≠ second →
    one.startSector + one.length ≤ other.startSector ∨ other.startSector + other.length ≤ one.startSector

/-- What holds of an allocator in use, whatever was called on it. -/
structure Safe (session : Session) : Prop where
  zoned : session.allocator.mode = .zoned
  positive : 0 < session.allocator.sectorsPerBlock
  disjoint : Disjoint session.allocator.zones
  valid : ∀ zone ∈ session.allocator.zones, zone.MetadataValid
  live : ∀ sector, Live session.history sector → ∃ (index : Nat) (zone : Zone), session.allocator.zones[index]? = some zone ∧
    zone.startSector ≤ sector ∧ sector + session.allocator.sectorsPerBlock ≤ zone.writePointer ∧
    zone.writePointer ≤ zone.endSector
  exclusive : Exclusive session.allocator.sectorsPerBlock session.history
  latest : ∀ last, session.last = some last → ∀ sector, Live session.history sector →
    sector = last ∨ Apart session.allocator.sectorsPerBlock sector last

theorem Disjoint.set {zones : List Zone} {index : Nat} {zone updated : Zone} (disjoint : Disjoint zones)
    (found : zones[index]? = some zone) (start : updated.startSector = zone.startSector)
    (length : updated.length = zone.length) : Disjoint (zones.set index updated) := by
  obtain ⟨bound, _⟩ := List.getElem?_eq_some_iff.mp found
  have shape (other : Nat) (current : Zone) (held : (zones.set index updated)[other]? = some current) :
      ∃ former, zones[other]? = some former ∧ former.startSector = current.startSector ∧ former.length = current.length := by
    by_cases here : other = index
    · subst here
      rw [List.getElem?_set_self bound] at held
      cases held
      exact ⟨zone, found, start.symm, length.symm⟩
    · rw [List.getElem?_set_ne (Ne.symm here)] at held
      exact ⟨current, held, rfl, rfl⟩
  intro first second one other left right different
  obtain ⟨former, found, start, length⟩ := shape first one left
  obtain ⟨former', found', start', length'⟩ := shape second other right
  rw [← start, ← length, ← start', ← length']
  exact disjoint first second former former' found found' different

theorem metadataValid_of_bounds {zone updated : Zone} (valid : zone.MetadataValid)
    (start : updated.startSector = zone.startSector) (length : updated.length = zone.length)
    (capacity : updated.capacity = zone.capacity)
    (bounds : zone.startSector ≤ updated.writePointer ∧ updated.writePointer ≤ zone.endSector) : updated.MetadataValid := by
  obtain ⟨some_, fits, small, _⟩ := valid
  refine ⟨by rw [length]; exact some_, by rw [length, capacity]; exact fits, by rw [start, capacity]; exact small, ?_⟩
  intro _
  rw [Zone.endSector, start, capacity]
  exact bounds

section Steps
variable {session : Session} (safe : Safe session)
include safe

private theorem Safe.member {index : Nat} {zone : Zone} (found : session.allocator.zones[index]? = some zone) :
    zone.MetadataValid := safe.valid zone (List.mem_of_getElem? found)

private theorem Safe.bounds {index : Nat} {zone : Zone} (found : session.allocator.zones[index]? = some zone)
    (room : zone.CanAppend session.allocator.sectorsPerBlock) :
    zone.startSector ≤ zone.writePointer ∧ zone.writePointer + session.allocator.sectorsPerBlock ≤ zone.endSector ∧
      zone.endSector ≤ zone.startSector + zone.length ∧ zone.endSector < 2 ^ 64 := by
  obtain ⟨_, fits, small, placed⟩ := safe.member found
  have inside := room.fits
  have low := (placed room.isWritable).1
  have positive := safe.positive
  refine ⟨low, inside, Nat.add_le_add_left fits _, ?_⟩
  unfold Zone.endSector at inside ⊢
  omega

/-- A zone changes; the blocks live in it stay below its write pointer. -/
private theorem Safe.live_set {index : Nat} {zone : Zone} (updated : Zone) (found : session.allocator.zones[index]? = some zone)
    (start : updated.startSector = zone.startSector) (inside : updated.writePointer ≤ updated.endSector) {sector : Nat}
    (live : Live session.history sector)
    (below : zone.startSector ≤ sector → sector + session.allocator.sectorsPerBlock ≤ zone.writePointer →
      zone.writePointer ≤ zone.endSector → sector + session.allocator.sectorsPerBlock ≤ updated.writePointer) :
    ∃ (index' : Nat) (zone' : Zone), (session.allocator.zones.set index updated)[index']? = some zone' ∧
      zone'.startSector ≤ sector ∧ sector + session.allocator.sectorsPerBlock ≤ zone'.writePointer ∧
      zone'.writePointer ≤ zone'.endSector := by
  obtain ⟨bound, _⟩ := List.getElem?_eq_some_iff.mp found
  obtain ⟨other, current, held, low, high, fits⟩ := safe.live sector live
  by_cases here : other = index
  · subst here
    cases found.symm.trans held
    exact ⟨other, updated, List.getElem?_set_self bound, by rw [start]; exact low, below low high fits, inside⟩
  · refine ⟨other, current, ?_, low, high, fits⟩
    rw [List.getElem?_set_ne (Ne.symm here)]
    exact held

private theorem Safe.valid_set {index : Nat} {updated : Zone} (valid : updated.MetadataValid) :
    ∀ zone ∈ session.allocator.zones.set index updated, zone.MetadataValid := by
  intro zone member
  rcases List.mem_or_eq_of_mem_set member with old | rfl
  · exact safe.valid zone old
  · exact valid

/-- The write pointer of a zone with room is past every live block of it. -/
private theorem Safe.apart {index : Nat} {zone : Zone} (found : session.allocator.zones[index]? = some zone)
    (room : zone.CanAppend session.allocator.sectorsPerBlock) {sector : Nat} (live : Live session.history sector) :
    Apart session.allocator.sectorsPerBlock zone.writePointer sector := by
  obtain ⟨other, current, held, low, high, fits⟩ := safe.live sector live
  by_cases here : other = index
  · subst here
    cases found.symm.trans held
    exact Or.inr high
  · obtain ⟨placed, inside, within, _⟩ := safe.bounds found room
    obtain ⟨_, short, _, _⟩ := safe.member held
    have distinct := safe.disjoint other index current zone held found here
    unfold Zone.endSector at fits
    unfold Apart
    omega

theorem Safe.grant {allocator : Allocator} {index : Nat} {zone : Zone}
    (takes : session.allocator.Takes allocator index zone) : Safe (session.grant (.ok zone.writePointer, allocator)) := by
  obtain ⟨placed, inside, within, _⟩ := safe.bounds takes.found takes.room
  obtain ⟨bound, _⟩ := List.getElem?_eq_some_iff.mp takes.found
  have block := takes.sectorsPerBlock
  have valid : Zone.MetadataValid { zone with writePointer := zone.writePointer + session.allocator.sectorsPerBlock } :=
    metadataValid_of_bounds (safe.member takes.found) rfl rfl rfl ⟨Nat.le_trans placed (Nat.le_add_right _ _), inside⟩
  unfold Session.grant
  refine ⟨?_, ?_, ?_, ?_, ?_, ?_, ?_⟩
  · exact takes.mode.trans safe.zoned
  · dsimp only
    rw [block]
    exact safe.positive
  · dsimp only
    rw [takes.zones]
    exact safe.disjoint.set takes.found rfl rfl
  · dsimp only
    rw [takes.zones]
    exact safe.valid_set valid
  · dsimp only
    rw [takes.zones, block]
    rintro sector (new | ⟨old, _⟩)
    · cases new
      exact ⟨index, _, List.getElem?_set_self bound, placed, Nat.le_refl _, inside⟩
    · exact safe.live_set { zone with writePointer := zone.writePointer + session.allocator.sectorsPerBlock } takes.found
        rfl inside old fun _ high _ => Nat.le_trans high (Nat.le_add_right _ _)
  · dsimp only
    rw [block]
    refine ⟨fun sector new other live => ?_, safe.exclusive⟩
    cases new
    exact safe.apart takes.found takes.room live
  · dsimp only
    rw [block]
    rintro last same sector (new | ⟨old, _⟩)
    · cases new
      cases same
      exact Or.inl rfl
    · cases same
      exact Or.inr (safe.apart takes.found takes.room old).symm

theorem Safe.rotate (victim : Nat) : Safe (session.rotate victim) := by
  unfold Session.rotate
  rcases setReserveAfterReset_spec session.allocator victim with ⟨zone, found, _, ran⟩ | ran
  · rw [ran, found]
    have valid : Zone.MetadataValid { zone with writePointer := zone.startSector, condition := .empty } :=
      metadataValid_of_bounds (safe.member found) rfl rfl rfl ⟨Nat.le_refl _, Nat.le_add_right _ _⟩
    refine ⟨safe.zoned, safe.positive, safe.disjoint.set found rfl rfl, safe.valid_set valid, ?_, ?_, ?_⟩
    · rintro sector (new | ⟨old, kept⟩)
      · cases new
      · refine safe.live_set { zone with writePointer := zone.startSector, condition := .empty } found rfl
          (Nat.le_add_right _ _) old fun low high fits => absurd ⟨low, ?_⟩ kept
        obtain ⟨_, short, _, _⟩ := safe.member found
        have positive := safe.positive
        unfold Zone.endSector at fits
        omega
    · exact ⟨nofun, safe.exclusive⟩
    · rintro last same sector (new | ⟨old, _⟩)
      · cases new
      · exact safe.latest last same sector old
  · rw [ran]
    exact ⟨safe.zoned, safe.positive, safe.disjoint, safe.valid, safe.live, safe.exclusive, safe.latest⟩

theorem Safe.adopt {sector : Nat} (last : session.last = some sector) (reported : Zone) :
    Safe (session.adopt sector reported) := by
  unfold Session.adopt
  rcases resync_spec session.allocator sector reported with ⟨index, zone, ok, starting, found, accepts, keeps, zones⟩ | ⟨failed, same⟩
  · obtain ⟨length, capacity, _, low, _, room, _, pointer, moved, _⟩ := accepts
    generalize ran : session.allocator.resync sector reported = outcome at ok keeps zones
    obtain ⟨result, allocator⟩ := outcome
    dsimp only at ok keeps zones
    subst ok
    dsimp only
    have block := keeps.sectorsPerBlock
    have fits : sector + session.allocator.sectorsPerBlock ≤ zone.endSector := by omega
    have valid : Zone.MetadataValid { zone with
        writePointer := reported.writePointer
        condition := reported.condition
        active := reported.active } :=
      metadataValid_of_bounds (safe.member found) rfl rfl rfl ⟨by dsimp only; omega, by dsimp only; omega⟩
    have kept (other : Nat) (live : Live session.history other)
        (rolled : reported.writePointer = sector → other ≠ sector) :
        ∃ (index' : Nat) (zone' : Zone), allocator.zones[index']? = some zone' ∧ zone'.startSector ≤ other ∧
          other + session.allocator.sectorsPerBlock ≤ zone'.writePointer ∧ zone'.writePointer ≤ zone'.endSector := by
      rw [zones]
      refine safe.live_set { zone with
        writePointer := reported.writePointer
        condition := reported.condition
        active := reported.active } found rfl ?_ live fun _ high _ => ?_
      · change reported.writePointer ≤ zone.endSector
        omega
      · have apart := safe.latest sector last other live
        have positive := safe.positive
        unfold Apart at apart
        dsimp only
        omega
    have history : ∀ other, Live (if reported.writePointer = sector then .rolledBack sector :: session.history
        else session.history) other → Live session.history other ∧ (reported.writePointer = sector → other ≠ sector) := by
      intro other live
      split at live
      next unmoved =>
        rcases live with new | ⟨old, notLast⟩
        · cases new
        · exact ⟨old, fun _ same => notLast same.symm⟩
      next moved => exact ⟨live, fun unmoved => absurd unmoved moved⟩
    refine ⟨keeps.mode.trans safe.zoned, ?_, ?_, ?_, ?_, ?_, ?_⟩
    · dsimp only
      rw [block]
      exact safe.positive
    · dsimp only
      rw [zones]
      exact safe.disjoint.set found rfl rfl
    · dsimp only
      rw [zones]
      exact safe.valid_set valid
    · dsimp only
      rw [block]
      exact fun other live => kept other (history other live).1 (history other live).2
    · dsimp only
      rw [block]
      split
      · exact ⟨nofun, safe.exclusive⟩
      · exact safe.exclusive
    · dsimp only
      rw [block]
      exact fun last same other live => safe.latest last same other (history other live).1
  · generalize ran : session.allocator.resync sector reported = outcome at failed same
    obtain ⟨result, allocator⟩ := outcome
    dsimp only at failed same
    subst failed same
    exact ⟨safe.zoned, safe.positive, safe.disjoint, safe.valid, safe.live, safe.exclusive, safe.latest⟩

/-- A refused allocation changes at most the cursor. -/
private theorem Safe.refused {allocator : Allocator} {error : Errno} (keeps : session.allocator.Keeps allocator)
    (zones : allocator.zones = session.allocator.zones) : Safe (session.grant (.error error, allocator)) := by
  obtain ⟨mode, block, _⟩ := keeps
  refine ⟨mode.trans safe.zoned, ?_, ?_, ?_, ?_, ?_, ?_⟩
  all_goals simp only [Session.grant, block, zones]
  exacts [safe.positive, safe.disjoint, safe.valid, safe.live, safe.exclusive, safe.latest]

theorem Safe.call (call : Call) : Safe (session.call call) := by
  cases call with
  | alloc =>
    change Safe (session.grant session.allocator.alloc)
    rcases alloc_spec safe.zoned with ⟨index, zone, ok, _, takes⟩ | ⟨failed, keeps, zones, _⟩
    · rw [show session.allocator.alloc = (.ok zone.writePointer, session.allocator.alloc.2) from Prod.ext ok rfl]
      exact safe.grant takes
    · rw [show session.allocator.alloc = (.error .enospc, session.allocator.alloc.2) from Prod.ext failed rfl]
      exact safe.refused keeps zones
  | allocGc =>
    change Safe (session.grant session.allocator.allocGc)
    rcases allocGc_spec session.allocator with ⟨zone, ok, takes⟩ | ⟨error, failed, same, _⟩
    · rw [show session.allocator.allocGc = (.ok zone.writePointer, session.allocator.allocGc.2) from Prod.ext ok rfl]
      exact safe.grant takes
    · rw [show session.allocator.allocGc = (.error error, session.allocator) from Prod.ext failed same]
      exact safe.refused (.refl _) rfl
  | setReserveAfterReset victim => exact safe.rotate victim
  | resync reported =>
    change Safe (match session.last with
      | none => session
      | some sector => session.adopt sector reported)
    cases last : session.last with
    | none => exact safe
    | some sector => exact safe.adopt last reported

theorem Safe.run (calls : List Call) : Safe (session.run calls) := by
  induction calls generalizing session with
  | nil => exact safe
  | cons call calls ih => exact ih (safe.call call)

theorem Safe.call_block (call : Call) :
    (session.call call).allocator.sectorsPerBlock = session.allocator.sectorsPerBlock := by
  cases call with
  | alloc =>
    have kept : session.allocator.alloc.2.sectorsPerBlock = session.allocator.sectorsPerBlock := by
      rcases alloc_spec safe.zoned with ⟨index, zone, _, _, takes⟩ | ⟨_, keeps, _, _⟩
      · exact takes.sectorsPerBlock
      · exact keeps.sectorsPerBlock
    rw [← kept, Session.call]
    rcases session.allocator.alloc with ⟨_ | _, _⟩ <;> rfl
  | allocGc =>
    have kept : session.allocator.allocGc.2.sectorsPerBlock = session.allocator.sectorsPerBlock := by
      rcases allocGc_spec session.allocator with ⟨zone, _, takes⟩ | ⟨_, _, same, _⟩
      · exact takes.sectorsPerBlock
      · rw [same]
    rw [← kept, Session.call]
    rcases session.allocator.allocGc with ⟨_ | _, _⟩ <;> rfl
  | setReserveAfterReset victim =>
    rw [Session.call, Session.rotate]
    rcases setReserveAfterReset_spec session.allocator victim with ⟨zone, found, _, ran⟩ | ran
    · rw [ran, found]
    · rw [ran]
  | resync reported =>
    rw [Session.call]
    split
    · rfl
    next sector _ =>
      have kept : (session.allocator.resync sector reported).2.sectorsPerBlock = session.allocator.sectorsPerBlock := by
        rcases resync_spec session.allocator sector reported with ⟨_, _, _, _, _, _, keeps, _⟩ | ⟨_, same⟩
        · exact keeps.sectorsPerBlock
        · rw [same]
      rw [← kept, Session.adopt]
      rcases session.allocator.resync sector reported with ⟨_ | _, _⟩ <;> rfl

theorem Safe.run_block (calls : List Call) :
    (session.run calls).allocator.sectorsPerBlock = session.allocator.sectorsPerBlock := by
  induction calls generalizing session with
  | nil => rfl
  | cons call calls ih => exact (ih (safe.call call)).trans (safe.call_block call)

end Steps

section Start
variable {zones : List Zone} {sectorsPerBlock : Nat} {allocator : Allocator}
  (accepted : initZoned zones sectorsPerBlock = .ok allocator)
include accepted

theorem initZoned_ok : 0 < sectorsPerBlock ∧ (∀ zone ∈ zones, zone.MetadataValid) ∧
    allocator = { reset with zones, sectorsPerBlock, mode := .zoned } := by
  unfold initZoned at accepted
  split at accepted
  · cases accepted
  next positive =>
    split at accepted
    next valid =>
      cases accepted
      exact ⟨Nat.pos_of_ne_zero fun zero => positive (Or.inr zero), valid, rfl⟩
    next _ => cases accepted

omit accepted in
private theorem setReserve_frame (allocator : Allocator) (id : Nat) :
    ∃ reserve, (allocator.setReserve id).2 = { allocator with reserveZone := reserve } := by
  unfold setReserve
  split
  · exact ⟨_, rfl⟩
  · split
    · exact ⟨_, rfl⟩
    · split
      · exact ⟨_, rfl⟩
      · exact ⟨id, rfl⟩

omit accepted in
private theorem start_frame (allocator : Allocator) (candidates : List Nat) :
    ∃ reserve, (Session.start allocator candidates).allocator = { allocator with reserveZone := reserve } := by
  induction candidates generalizing allocator with
  | nil => exact ⟨allocator.reserveZone, rfl⟩
  | cons id candidates ih =>
    obtain ⟨reserve, same⟩ := ih (allocator.setReserve id).2
    obtain ⟨_, chosen⟩ := setReserve_frame allocator id
    refine ⟨reserve, same.trans ?_⟩
    rw [chosen]

theorem Safe.start (disjoint : Disjoint zones) (candidates : List Nat) :
    Safe (Session.start allocator candidates) ∧
      (Session.start allocator candidates).allocator.sectorsPerBlock = sectorsPerBlock := by
  obtain ⟨positive, valid, rfl⟩ := initZoned_ok accepted
  obtain ⟨reserve, same⟩ := start_frame { reset with zones, sectorsPerBlock, mode := .zoned } candidates
  constructor
  · refine ⟨?_, ?_, ?_, ?_, ?_, trivial, ?_⟩
    · rw [same]
    · rw [same]
      exact positive
    · rw [same]
      exact disjoint
    · rw [same]
      exact valid
    · exact fun sector live => live.elim
    · intro last none_
      cases none_
  · rw [same]

end Start

/-- Over every run from an accepted table of disjoint zones: what is handed out
lies in one writable zone, outside the reserve for users and inside it for
moves; write pointers stay in their zones; and a sector is handed out twice only
after its zone was emptied or its first allocation was rolled back. -/
theorem allocations_are_exclusive (zones : List Zone) (sectorsPerBlock : Nat) (allocator : Allocator)
    (accepted : initZoned zones sectorsPerBlock = .ok allocator) (disjoint : Disjoint zones) (candidates : List Nat)
    (calls : List Call) :
    let session := (Session.start allocator candidates).run calls
    (∀ zone ∈ session.allocator.zones, zone.IsWritable →
      zone.startSector ≤ zone.writePointer ∧ zone.writePointer ≤ zone.endSector) ∧
    (∀ sector, session.allocator.alloc.1 = .ok sector →
      (∃ zone ∈ session.allocator.zones, zone.IsWritable ∧ zone.startSector ≤ sector ∧
        sector + sectorsPerBlock ≤ zone.endSector ∧ zone.endSector < 2 ^ 64) ∧
      ∀ reserve, session.allocator.zones[session.allocator.reserveZone]? = some reserve →
        ¬ (reserve.startSector ≤ sector ∧ sector < reserve.startSector + reserve.length)) ∧
    (∀ sector, session.allocator.allocGc.1 = .ok sector →
      ∃ reserve, session.allocator.zones[session.allocator.reserveZone]? = some reserve ∧ reserve.IsWritable ∧
        reserve.startSector ≤ sector ∧ sector + sectorsPerBlock ≤ reserve.endSector ∧ reserve.endSector < 2 ^ 64) ∧
    ∀ newer middle older first second,
      session.history = newer ++ .granted second :: (middle ++ .granted first :: older) →
      ¬ Apart sectorsPerBlock second first → ∃ change ∈ middle, Frees change first := by
  obtain ⟨start, block⟩ := Safe.start accepted disjoint candidates
  have safe := start.run calls
  rw [← start.run_block calls] at block
  generalize (Session.start allocator candidates).run calls = session at safe block
  dsimp only
  refine ⟨fun zone member => (safe.valid zone member).2.2.2, ?_, ?_, ?_⟩
  · intro sector granted
    rcases alloc_spec safe.zoned with ⟨index, zone, ok, apart, takes⟩ | ⟨failed, _⟩
    · rw [ok] at granted
      cases granted
      obtain ⟨placed, inside, within, small⟩ := safe.bounds takes.found takes.room
      refine ⟨⟨zone, List.mem_of_getElem? takes.found, takes.room.isWritable, placed, by omega, small⟩, ?_⟩
      rintro reserve held ⟨low, high⟩
      have positive := safe.positive
      have := safe.disjoint _ _ _ _ takes.found held apart
      omega
    · rw [failed] at granted
      cases granted
  · intro sector granted
    rcases allocGc_spec session.allocator with ⟨zone, ok, takes⟩ | ⟨error, failed, _, _⟩
    · rw [ok] at granted
      cases granted
      obtain ⟨placed, inside, _, small⟩ := safe.bounds takes.found takes.room
      exact ⟨zone, takes.found, takes.room.isWritable, placed, by omega, small⟩
    · rw [failed] at granted
      cases granted
  · intro newer middle older first second history overlap
    by_contra kept
    have exclusive := safe.exclusive
    rw [history, block] at exclusive
    exact overlap (exclusive.apart fun change member frees => kept ⟨change, member, frees⟩)

/-- Two zones of two blocks. -/
def twoZones : List Zone := [⟨0, 0, 16, 16, 0, .empty, false⟩, ⟨1, 16, 16, 16, 16, .empty, false⟩]

theorem twoZones_disjoint : Disjoint twoZones := by
  intro first second one other left right different
  match first, second with
  | 0, 0 => exact absurd rfl different
  | 0, 1 =>
    cases left
    cases right
    decide
  | 1, 0 =>
    cases left
    cases right
    decide
  | 1, 1 => exact absurd rfl different
  | _ + 2, _ => cases left
  | _, _ + 2 => cases right

/-- With the second zone in reserve, a move after two allocations goes there. -/
theorem allocations_are_exclusive_twoZones :
    ∃ reserve, ((Session.start { reset with zones := twoZones, sectorsPerBlock := 8, mode := .zoned } [1]).run
        [.alloc, .alloc]).allocator.zones[1]? = some reserve ∧ reserve.IsWritable ∧ reserve.startSector ≤ 16 ∧
      16 + 8 ≤ reserve.endSector ∧ reserve.endSector < 2 ^ 64 :=
  (allocations_are_exclusive twoZones 8 _ (by decide) twoZones_disjoint [1] [.alloc, .alloc]).2.2.1 16 rfl

/-- Starts and write pointers on the block grid. -/
def Blockwise (allocator : Allocator) : Prop :=
  ∀ zone ∈ allocator.zones, zone.startSector % allocator.sectorsPerBlock = 0 ∧
    zone.writePointer % allocator.sectorsPerBlock = 0

private theorem Blockwise.set {before after : Allocator} {index : Nat} {updated : Zone} (blockwise : Blockwise before)
    (block : after.sectorsPerBlock = before.sectorsPerBlock) (zones : after.zones = before.zones.set index updated)
    (start : updated.startSector % before.sectorsPerBlock = 0)
    (pointer : updated.writePointer % before.sectorsPerBlock = 0) : Blockwise after := by
  intro zone member
  rw [zones] at member
  rw [block]
  rcases List.mem_or_eq_of_mem_set member with old | rfl
  · exact blockwise zone old
  · exact ⟨start, pointer⟩

private theorem Blockwise.takes {before after : Allocator} {index : Nat} {zone : Zone} (blockwise : Blockwise before)
    (takes : before.Takes after index zone) : Blockwise after := by
  obtain ⟨start, pointer⟩ := blockwise zone (List.mem_of_getElem? takes.found)
  refine blockwise.set takes.sectorsPerBlock takes.zones start ?_
  rw [Nat.add_mod_right]
  exact pointer

theorem Safe.call_blockwise {session : Session} (safe : Safe session) (blockwise : Blockwise session.allocator) (call : Call) :
    Blockwise (session.call call).allocator := by
  cases call with
  | alloc =>
    have kept : Blockwise session.allocator.alloc.2 := by
      rcases alloc_spec safe.zoned with ⟨index, zone, _, _, takes⟩ | ⟨_, keeps, zones, _⟩
      · exact blockwise.takes takes
      · intro zone member
        rw [zones] at member
        rw [keeps.sectorsPerBlock]
        exact blockwise zone member
    rw [Session.call]
    rcases ran : session.allocator.alloc with ⟨_ | _, _⟩
    all_goals
      rw [ran] at kept
      exact kept
  | allocGc =>
    have kept : Blockwise session.allocator.allocGc.2 := by
      rcases allocGc_spec session.allocator with ⟨zone, _, takes⟩ | ⟨_, _, same, _⟩
      · exact blockwise.takes takes
      · rw [same]
        exact blockwise
    rw [Session.call]
    rcases ran : session.allocator.allocGc with ⟨_ | _, _⟩
    all_goals
      rw [ran] at kept
      exact kept
  | setReserveAfterReset victim =>
    rw [Session.call, Session.rotate]
    rcases setReserveAfterReset_spec session.allocator victim with ⟨zone, found, _, ran⟩ | ran
    · rw [ran, found]
      obtain ⟨start, _⟩ := blockwise zone (List.mem_of_getElem? found)
      exact blockwise.set rfl rfl start start
    · rw [ran]
      exact blockwise
  | resync reported =>
    rw [Session.call]
    split
    · exact blockwise
    next sector _ =>
      have kept : Blockwise (session.allocator.resync sector reported).2 := by
        rcases resync_spec session.allocator sector reported with ⟨_, zone, _, _, found, accepts, keeps, zones⟩ | ⟨_, same⟩
        · obtain ⟨_, _, _, _, _, _, whole, _, moved, _⟩ := accepts
          obtain ⟨start, _⟩ := blockwise zone (List.mem_of_getElem? found)
          refine blockwise.set keeps.sectorsPerBlock zones start ?_
          rcases moved with unmoved | advanced
          · rw [unmoved]
            exact whole
          · rw [advanced, Nat.add_mod_right]
            exact whole
        · rw [same]
          exact blockwise
      rw [Session.adopt]
      rcases ran : session.allocator.resync sector reported with ⟨_ | _, _⟩
      all_goals
        rw [ran] at kept
        exact kept

theorem Safe.run_blockwise {session : Session} (safe : Safe session) (blockwise : Blockwise session.allocator)
    (calls : List Call) : Blockwise (session.run calls).allocator := by
  induction calls generalizing session with
  | nil => exact blockwise
  | cons call calls ih => exact ih (safe.call call) (safe.call_blockwise blockwise call)

section Resync
variable {session : Session} (safe : Safe session)
include safe

private theorem Safe.starting {index : Nat} {zone : Zone} (found : session.allocator.zones[index]? = some zone) :
    session.allocator.zoneStarting zone.startSector = some index := by
  refine zoneStarting_eq_some found fun other current held same => ?_
  by_contra different
  have long := (safe.member found).1
  have short := (safe.member held).1
  have := safe.disjoint other index current zone held found different
  omega

private theorem Safe.starting_unique {reported : Zone} {index other : Nat} {zone : Zone}
    (found : session.allocator.zones[index]? = some zone) (same : reported.startSector = zone.startSector)
    (starting : session.allocator.zoneStarting reported.startSector = some other) : other = index := by
  rw [same, safe.starting found] at starting
  exact (Option.some.inj starting).symm

/-- Two zones do not hold one sector. -/
private theorem Safe.holder_unique {index other sector : Nat} {zone current : Zone}
    (found : session.allocator.zones[index]? = some zone) (held : session.allocator.zones[other]? = some current)
    (low : zone.startSector ≤ sector) (high : sector < zone.endSector) (low' : current.startSector ≤ sector)
    (high' : sector < current.endSector) : other = index := by
  by_contra different
  have short := (safe.member found).2.1
  have short' := (safe.member held).2.1
  have := safe.disjoint other index current zone held found different
  unfold Zone.endSector at high high'
  omega

end Resync

/-- A report the device may truthfully give after the write at a sector failed. -/
def Truthful (zone : Zone) (block failedSector : Nat) (reported : Zone) : Prop :=
  (reported.writePointer = failedSector ∨ reported.writePointer = failedSector + block) ∧
    (reported.condition = .empty ∧ reported.writePointer = zone.startSector ∨
      reported.condition = .impOpen ∨ reported.condition = .expOpen ∨ reported.condition = .closed ∨
      reported.condition = .full ∧ reported.writePointer = zone.endSector)

/-- The zone of a failed write after its report was adopted. -/
def adopted (zone reported : Zone) : Zone :=
  { zone with
    writePointer := reported.writePointer
    condition := reported.condition
    active := reported.active }

private theorem conditionAccepts_iff (zone reported : Zone) : conditionAccepts zone reported = true ↔
    reported.condition = .empty ∧ reported.writePointer = zone.startSector ∨
      reported.condition = .impOpen ∨ reported.condition = .expOpen ∨ reported.condition = .closed ∨
      reported.condition = .full ∧ reported.writePointer = zone.endSector := by
  unfold conditionAccepts
  cases reported.condition <;> simp

private theorem adopted_canAppend {zone reported : Zone} {block : Nat} (positive : 0 < block)
    (accepts : conditionAccepts zone reported = true) (notFull : reported.condition ≠ .full)
    (room : reported.writePointer + block ≤ zone.endSector) : (adopted zone reported).CanAppend block := by
  refine (Zone.canAppend_iff positive).mpr ⟨?_, room⟩
  rw [conditionAccepts_iff] at accepts
  change reported.condition ≠ .full ∧ reported.condition ≠ .readonly ∧ reported.condition ≠ .offline
  rcases accepts with ⟨open_, _⟩ | open_ | open_ | open_ | ⟨full, _⟩
  · simp [open_]
  · simp [open_]
  · simp [open_]
  · simp [open_]
  · exact absurd full notFull

/-- The state right after an allocation: the block's zone, one block ahead. -/
private structure Granted (taken : Allocator) (failed index : Nat) (zone : Zone) : Prop where
  found : taken.zones[index]? = some zone
  apart : index ≠ taken.reserveZone
  low : zone.startSector ≤ failed
  fits : failed + taken.sectorsPerBlock ≤ zone.endSector
  pointer : zone.writePointer = failed + taken.sectorsPerBlock
  whole : failed % taken.sectorsPerBlock = 0

section Adopt
variable {taken : Allocator} {failed index : Nat} {zone : Zone} {last : Option Nat} {history : List Change}
  (safe : Safe ⟨taken, last, history⟩) (granted : Granted taken failed index zone)
include safe granted

private theorem Granted.accepts_truthful {reported : Zone} (start : reported.startSector = zone.startSector)
    (length : reported.length = zone.length) (capacity : reported.capacity = zone.capacity)
    (truthful : Truthful zone taken.sectorsPerBlock failed reported) : (taken.resync failed reported).1 = .ok () := by
  obtain ⟨moved, condition⟩ := truthful
  have positive : 0 < taken.sectorsPerBlock := safe.positive
  have zoned : taken.mode = .zoned := safe.zoned
  have fits := granted.fits
  have low := granted.low
  have starting : taken.zoneStarting reported.startSector = some index := by
    rw [start]
    exact safe.starting granted.found
  rw [resync_eq zoned positive starting granted.found]
  refine ⟨length, capacity, ?_, low, by omega, by omega, granted.whole, granted.pointer, moved,
    (conditionAccepts_iff zone reported).mpr condition⟩
  exact metadataValid_of_bounds (safe.member granted.found) start length capacity ⟨by omega, by omega⟩

private theorem Granted.adopts {reported : Zone} (latest : last = some failed)
    (ok : (taken.resync failed reported).1 = .ok ()) :
    reported.startSector = zone.startSector ∧ reported.length = zone.length ∧ reported.capacity = zone.capacity ∧
    (reported.writePointer = failed ∨ reported.writePointer = failed + taken.sectorsPerBlock) ∧
    (taken.resync failed reported).2 = { taken with
      zones := taken.zones.set index (adopted zone reported)
      activeZone := (taken.resync failed reported).2.activeZone } ∧
    (reported.writePointer = failed → (taken.resync failed reported).2.alloc.1 = .ok failed) ∧
    (reported.writePointer = failed + taken.sectorsPerBlock → (taken.resync failed reported).2.alloc.1 ≠ .ok failed ∧
      (reported.condition ≠ .full → failed + taken.sectorsPerBlock + taken.sectorsPerBlock ≤ zone.endSector →
        (taken.resync failed reported).2.alloc.1 = .ok (failed + taken.sectorsPerBlock))) := by
  have positive : 0 < taken.sectorsPerBlock := safe.positive
  have zoned : taken.mode = .zoned := safe.zoned
  have fits := granted.fits
  obtain ⟨bound, _⟩ := List.getElem?_eq_some_iff.mp granted.found
  rcases resync_spec taken failed reported with ⟨other, current, _, starting, held, accepts, _⟩ | ⟨error, _⟩
  · have resynced := resync_eq zoned positive starting held accepts
    obtain ⟨length, capacity, _, low, _, room, _, _, moved, condition⟩ := accepts
    have same : other = index :=
      safe.holder_unique granted.found held granted.low (by omega) low (by omega)
    subst same
    cases granted.found.symm.trans held
    have start := zoneStarting_start starting held
    have found : (taken.zones.set other (adopted zone reported))[other]? = some (adopted zone reported) :=
      List.getElem?_set_self bound
    change taken.resync failed reported = (.ok (), { taken with
      zones := taken.zones.set other (adopted zone reported)
      activeZone := _ }) at resynced
    have served (notFull : reported.condition ≠ .full)
        (next : reported.writePointer + taken.sectorsPerBlock ≤ zone.endSector) :
        (taken.resync failed reported).2.alloc.1 = .ok reported.writePointer := by
      rw [resynced, if_neg (by rintro (full | short) <;> [exact notFull full; omega])]
      exact @alloc_active { taken with zones := taken.zones.set other (adopted zone reported), activeZone := other }
        (adopted zone reported) zoned found granted.apart (adopted_canAppend positive condition notFull next)
    refine ⟨start.symm, length, capacity, moved, ?_, ?_, ?_⟩
    · rw [resynced]
    · intro unmoved
      have again := served ?_ (by omega)
      · rw [unmoved] at again
        exact again
      · intro full
        rw [conditionAccepts_iff, full] at condition
        simp only [reduceCtorEq, false_and, false_or, true_and] at condition
        omega
    · intro consumed
      constructor
      · intro again
        have adoptedSafe := safe.adopt latest reported
        unfold Session.adopt at adoptedSafe
        dsimp only at adoptedSafe
        rw [resynced] at adoptedSafe again
        dsimp only at adoptedSafe again
        rcases alloc_spec adoptedSafe.zoned with ⟨place, next, granted', _, takes⟩ | ⟨refused, _⟩
        · dsimp only at granted' takes
          rw [granted'] at again
          have here := Except.ok.inj again
          obtain ⟨low', high', _, _⟩ := adoptedSafe.bounds takes.found takes.room
          dsimp only at low' high'
          have same := @Safe.holder_unique _ adoptedSafe other place failed (adopted zone reported) next found takes.found
            low (by change failed < zone.endSector; omega) (by omega) (by omega)
          subst same
          cases found.symm.trans takes.found
          change reported.writePointer = failed at here
          omega
        · dsimp only at refused
          rw [refused] at again
          cases again
      · intro notFull next
        have again := served notFull (by omega)
        rw [consumed] at again
        exact again
  · rw [error] at ok
    cases ok

end Adopt

/-- Right after an allocation, a report of its zone is either refused with
nothing changed or adopted exactly: the next allocation repeats a block that was
not consumed and passes over one that was. Every truthful report is adopted. -/
theorem resync_is_exact (zones : List Zone) (sectorsPerBlock : Nat) (allocator : Allocator)
    (accepted : initZoned zones sectorsPerBlock = .ok allocator) (disjoint : Disjoint zones)
    (whole : ∀ zone ∈ zones, zone.startSector % sectorsPerBlock = 0 ∧ zone.writePointer % sectorsPerBlock = 0)
    (candidates : List Nat) (calls : List Call) (failed : Nat) (taken : Allocator)
    (ran : ((Session.start allocator candidates).run calls).allocator.alloc = (.ok failed, taken)) (reported : Zone) :
    let resynced := taken.resync failed reported
    (∀ error, resynced.1 = .error error → resynced.2 = taken) ∧
    ∃ (index : Nat) (zone : Zone), taken.zones[index]? = some zone ∧ zone.startSector ≤ failed ∧
      failed + sectorsPerBlock ≤ zone.endSector ∧
      (resynced.1 = .ok () →
        reported.startSector = zone.startSector ∧ reported.length = zone.length ∧ reported.capacity = zone.capacity ∧
        (reported.writePointer = failed ∨ reported.writePointer = failed + sectorsPerBlock) ∧
        resynced.2 = { taken with
          zones := taken.zones.set index (adopted zone reported)
          activeZone := resynced.2.activeZone } ∧
        (reported.writePointer = failed → resynced.2.alloc.1 = .ok failed) ∧
        (reported.writePointer = failed + sectorsPerBlock → resynced.2.alloc.1 ≠ .ok failed ∧
          (reported.condition ≠ .full → failed + sectorsPerBlock + sectorsPerBlock ≤ zone.endSector →
            resynced.2.alloc.1 = .ok (failed + sectorsPerBlock)))) ∧
      (reported.startSector = zone.startSector → reported.length = zone.length → reported.capacity = zone.capacity →
        Truthful zone sectorsPerBlock failed reported → resynced.1 = .ok ()) := by
  obtain ⟨start, block⟩ := Safe.start accepted disjoint candidates
  have blockwise : Blockwise ((Session.start allocator candidates).run calls).allocator := by
    refine start.run_blockwise ?_ calls
    obtain ⟨_, _, rfl⟩ := initZoned_ok accepted
    obtain ⟨reserve, same⟩ := start_frame { reset with zones, sectorsPerBlock, mode := .zoned } candidates
    rw [same]
    exact whole
  have safe := start.run calls
  rw [← start.run_block calls] at block
  generalize (Session.start allocator candidates).run calls = session at safe block blockwise ran
  have grantedSafe := safe.call .alloc
  rw [Session.call, ran] at grantedSafe
  rcases alloc_spec safe.zoned with ⟨index, zone, ok, apart, takes⟩ | ⟨refused, _⟩
  · rw [ran] at ok takes
    cases ok
    obtain ⟨bound, _⟩ := List.getElem?_eq_some_iff.mp takes.found
    obtain ⟨placed, inside, _, _⟩ := safe.bounds takes.found takes.room
    have size : taken.sectorsPerBlock = session.allocator.sectorsPerBlock := takes.sectorsPerBlock
    have granted : Granted taken zone.writePointer index
        { zone with writePointer := zone.writePointer + session.allocator.sectorsPerBlock } := by
      refine ⟨?_, ?_, placed, ?_, ?_, ?_⟩
      · rw [takes.zones, List.getElem?_set_self bound]
      · rw [takes.reserveZone]
        exact apart
      · rw [size]
        exact inside
      · rw [size]
      · rw [size]
        exact (blockwise zone (List.mem_of_getElem? takes.found)).2
    rw [block] at size
    dsimp only
    rw [← size]
    refine ⟨fun error failed => ?_, index, _, granted.found, granted.low, granted.fits,
      fun ok => granted.adopts grantedSafe rfl ok,
      fun start length capacity truthful => granted.accepts_truthful grantedSafe start length capacity truthful⟩
    rcases resync_spec taken zone.writePointer reported with ⟨_, _, ok, _⟩ | ⟨_, same⟩
    · rw [ok] at failed
      cases failed
    · exact same
  · rw [ran] at refused
    cases refused

/-- `twoZones` after one allocation, with the second zone in reserve. -/
def oneTaken : Allocator :=
  { reset with
    zones := [⟨0, 0, 16, 16, 8, .empty, false⟩, ⟨1, 16, 16, 16, 16, .empty, false⟩]
    reserveZone := 1
    sectorsPerBlock := 8
    mode := .zoned }

/-- A report from another zone leaves everything as it was. -/
theorem resync_is_exact_twoZones : (oneTaken.resync 0 ⟨0, 16, 16, 16, 16, .empty, false⟩).1 = .error .eio ∧
    (oneTaken.resync 0 ⟨0, 16, 16, 16, 16, .empty, false⟩).2 = oneTaken := by
  have refused : (oneTaken.resync 0 ⟨0, 16, 16, 16, 16, .empty, false⟩).1 = .error .eio := by decide
  exact ⟨refused, (resync_is_exact twoZones 8 { reset with zones := twoZones, sectorsPerBlock := 8, mode := .zoned } (by decide)
    twoZones_disjoint (by decide) [1] [] 0 oneTaken rfl _).1 _ refused⟩

end Allocator
end ZnsBase
