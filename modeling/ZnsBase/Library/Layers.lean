import Mathlib.Data.List.Pairwise

/-! Layered maps, newest layer first: a key resolves in the first layer that
holds it. Each layer is an association list with distinct keys. -/

namespace ZnsBase.Library

variable {κ ν : Type} [BEq κ] [LawfulBEq κ]

theorem lookup_eq_none_iff (layer : List (κ × ν)) (wanted : κ) :
    layer.lookup wanted = none ↔ ∀ pair ∈ layer, pair.1 ≠ wanted := by
  rw [List.lookup_eq_none_iff]
  constructor
  · intro absent pair member same
    have differs := absent pair member
    simp [same] at differs
  · intro absent pair member
    simpa using fun same => absent pair member same.symm

theorem mem_of_lookup {layer : List (κ × ν)} {wanted : κ} {value : ν} (found : layer.lookup wanted = some value) :
    (wanted, value) ∈ layer := by
  obtain ⟨before, after, rfl, _⟩ := List.lookup_eq_some_iff.mp found
  simp

theorem lookup_eq_some_iff {layer : List (κ × ν)} (distinct : layer.Pairwise (fun first second => first.1 ≠ second.1))
    (wanted : κ) (value : ν) : layer.lookup wanted = some value ↔ (wanted, value) ∈ layer := by
  refine ⟨mem_of_lookup, ?_⟩
  intro member
  induction layer with
  | nil => simp at member
  | cons pair rest ih =>
    obtain ⟨apart, later⟩ := List.pairwise_cons.mp distinct
    obtain ⟨key, held⟩ := pair
    rcases List.mem_cons.mp member with same | member
    · cases same
      simp
    · have different : (wanted == key) = false := by
        simpa using fun same => apart _ member same.symm
      rw [List.lookup_cons, different]
      exact ih later member

/-- An entry at the end counts where nothing came before it. -/
theorem lookup_concat {α β : Type} [DecidableEq α] (layer : List (α × β)) (key : α) (value : β) (wanted : α) :
    (layer ++ [(key, value)]).lookup wanted = (layer.lookup wanted).or (if wanted = key then some value else none) := by
  rw [List.lookup_append, List.lookup_cons]
  by_cases here : wanted = key
  · simp [here]
  · have differs : (wanted == key) = false := by simpa using here
    simp [here, differs]

namespace Layers

def resolve (layers : List (List (κ × ν))) (wanted : κ) : Option ν :=
  layers.findSome? (fun layer => layer.lookup wanted)

omit [LawfulBEq κ] in
@[simp] theorem resolve_nil (wanted : κ) : resolve ([] : List (List (κ × ν))) wanted = none := rfl

omit [LawfulBEq κ] in
@[simp] theorem resolve_cons (layer : List (κ × ν)) (layers : List (List (κ × ν))) (wanted : κ) :
    resolve (layer :: layers) wanted = (layer.lookup wanted).or (resolve layers wanted) := by
  simp only [resolve, List.findSome?_cons]
  cases layer.lookup wanted <;> rfl

omit [LawfulBEq κ] in
theorem resolve_append (newer older : List (List (κ × ν))) (wanted : κ) :
    resolve (newer ++ older) wanted = (resolve newer wanted).or (resolve older wanted) := by
  induction newer with
  | nil => simp [resolve]
  | cons layer newer ih => rw [List.cons_append, resolve_cons, resolve_cons, ih, Option.or_assoc]

omit [LawfulBEq κ] in
/-- Layers one after the other are searched like one list. -/
theorem lookup_flatten (layers : List (List (κ × ν))) (wanted : κ) : layers.flatten.lookup wanted = resolve layers wanted := by
  induction layers with
  | nil => rfl
  | cons layer layers ih => rw [List.flatten_cons, List.lookup_append, ih, resolve_cons]

/-- What resolves comes from one of the layers. -/
theorem mem_of_resolve {layers : List (List (κ × ν))} {wanted : κ} {value : ν}
    (found : resolve layers wanted = some value) : ∃ layer ∈ layers, (wanted, value) ∈ layer := by
  obtain ⟨layer, member, held⟩ := List.exists_of_findSome?_eq_some found
  exact ⟨layer, member, mem_of_lookup held⟩

theorem resolve_eq_none_iff {layers : List (List (κ × ν))} {wanted : κ} :
    resolve layers wanted = none ↔ ∀ layer ∈ layers, ∀ pair ∈ layer, pair.1 ≠ wanted := by
  simp only [resolve, List.findSome?_eq_none_iff, lookup_eq_none_iff]

end Layers
end ZnsBase.Library
