import ZnsBase.Library.Layers

/-! Layered maps over a store whose slots are written once. Old layers keep showing
what they showed as long as the slots they name keep their contents, so a stack of
layers remembers one moment for each of its tails. -/

namespace ZnsBase.Library

variable {κ ν β : Type} [BEq κ]

namespace Layers

/-- What a key has: the content of the slot it resolves to. -/
def view (layers : List (List (κ × ν))) (content : ν → β) (blank : β) (key : κ) : β :=
  ((resolve layers key).map content).getD blank

/-- The layers show a moment, all of it in sealed slots, no two keys in one. -/
structure Shows (seals : ν → Prop) (content : ν → β) (blank : β) (layers : List (List (κ × ν))) (moment : κ → β) : Prop where
  view : ∀ key, Layers.view layers content blank key = moment key
  seals : ∀ key slot, resolve layers key = some slot → seals slot
  apart : ∀ key other slot, resolve layers key = some slot → resolve layers other = some slot → key = other

variable {seals seals' : ν → Prop} {content content' : ν → β} {blank : β} {layers stack : List (List (κ × ν))} {moment : κ → β}

/-- Sealed slots that stay sealed and keep their contents show the same. -/
theorem Shows.keep (shows_ : Shows seals content blank layers moment)
    (kept : ∀ slot, seals slot → seals' slot ∧ content' slot = content slot) : Shows seals' content' blank layers moment := by
  refine ⟨fun key => ?_, fun key slot found => (kept slot (shows_.seals key slot found)).1, shows_.apart⟩
  rw [← shows_.view key, Layers.view, Layers.view]
  cases found : resolve layers key with
  | none => rfl
  | some slot => exact (kept slot (shows_.seals key slot found)).2

theorem Shows.congr {other : List (List (κ × ν))} (shows_ : Shows seals content blank layers moment)
    (same : ∀ key, resolve other key = resolve layers key) : Shows seals content blank other moment := by
  refine ⟨fun key => ?_, fun key slot found => ?_, fun key key' slot found found' => ?_⟩
  · rw [← shows_.view key, Layers.view, Layers.view, same]
  · exact shows_.seals key slot ((same key).symm.trans found)
  · exact shows_.apart key key' slot ((same key).symm.trans found) ((same key').symm.trans found')

/-- Every tail of the stack with at least `base` layers shows some moment. -/
def Chronicle (seals : ν → Prop) (content : ν → β) (blank : β) (base : Nat) (stack : List (List (κ × ν)))
    (past : (κ → β) → Prop) : Prop :=
  ∀ tail, tail <:+ stack → base ≤ tail.length → ∃ moment, past moment ∧ Shows seals content blank tail moment

variable {base : Nat} {past past' : (κ → β) → Prop}

theorem Chronicle.keep (chronicle : Chronicle seals content blank base stack past)
    (kept : ∀ slot, seals slot → seals' slot ∧ content' slot = content slot) : Chronicle seals' content' blank base stack past := by
  intro tail suffix long
  obtain ⟨moment, member, shows_⟩ := chronicle tail suffix long
  exact ⟨moment, member, shows_.keep kept⟩

theorem Chronicle.mono (chronicle : Chronicle seals content blank base stack past) (more : ∀ moment, past moment → past' moment) :
    Chronicle seals content blank base stack past' := by
  intro tail suffix long
  obtain ⟨moment, member, shows_⟩ := chronicle tail suffix long
  exact ⟨moment, more moment member, shows_⟩

theorem Chronicle.tail {shorter : List (List (κ × ν))} (chronicle : Chronicle seals content blank base stack past)
    (suffix : shorter <:+ stack) : Chronicle seals content blank base shorter past :=
  fun tail inside long => chronicle tail (inside.trans suffix) long

/-- A layer on top of some tail. -/
theorem Chronicle.push {top : List (κ × ν)} {below : List (List (κ × ν))} (chronicle : Chronicle seals content blank base stack past)
    (suffix : below <:+ stack) (member : past moment) (shows_ : Shows seals content blank (top :: below) moment) :
    Chronicle seals content blank base (top :: below) past := by
  intro tail inside long
  rcases List.suffix_cons_iff.mp inside with rfl | deeper
  · exact ⟨moment, member, shows_⟩
  · exact chronicle tail (deeper.trans suffix) long

/-- Empty layers over the one moment there is. -/
theorem Chronicle.start {newer older : List (List (κ × ν))} (empty : ∀ layer ∈ newer, layer = []) (member : past moment)
    (shows_ : Shows seals content blank older moment) : Chronicle seals content blank older.length (newer ++ older) past := by
  induction newer with
  | nil =>
    intro tail inside long
    rw [inside.eq_of_length_le long]
    exact ⟨moment, member, shows_⟩
  | cons layer newer ih =>
    obtain ⟨rfl, rest⟩ := List.forall_mem_cons.mp empty
    have same (key : κ) : resolve (([] :: newer) ++ older) key = resolve older key := by
      have none_ : resolve ([] :: newer) key = none := by
        rw [resolve, List.findSome?_eq_none_iff]
        intro other found
        rw [empty other found, List.lookup_nil]
      rw [resolve_append, none_, Option.none_or]
    exact (ih rest).push (List.suffix_refl _) member (shows_.congr same)

/-- An empty layer goes. -/
theorem Chronicle.drop {newer older : List (List (κ × ν))}
    (chronicle : Chronicle seals content blank base (newer ++ [] :: older) past) :
    Chronicle seals content blank base (newer ++ older) past := by
  induction newer with
  | nil => exact chronicle.tail (List.suffix_cons _ _)
  | cons top newer ih =>
    intro tail inside long
    rw [List.cons_append] at inside
    rcases List.suffix_cons_iff.mp inside with same | deeper
    · obtain ⟨moment, member, shows_⟩ := chronicle _ (List.suffix_refl _) (by
        rw [same] at long
        simp only [List.cons_append, List.length_cons, List.length_append] at long ⊢
        omega)
      refine ⟨moment, member, shows_.congr fun key => ?_⟩
      rw [same, ← List.cons_append, resolve_append, resolve_append, resolve_cons [] older, List.lookup_nil, Option.none_or]
    · exact ih (chronicle.tail (List.suffix_cons _ _)) tail deeper long

end Layers
end ZnsBase.Library
