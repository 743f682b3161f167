import Mathlib.Data.List.Basic

/-!
# Rose trees in pre-order

A rose tree is a value with a list of subtrees, and a forest is such a list. `descendantsOf` lists
the trees of a forest and everything below them in pre-order, each with the value of its parent, so
that a node is followed at once by its own descendants. The edges of a tree, which are the parents
and values in this list, say which parent every node has and in which order the nodes come.

`removeFirstFrom` takes the first node with a property out of a forest, with everything below it.
`removeFirstFrom_spec` says what is left: the edges of the node and of its descendants are one block
of the edges, the block is gone, and the edges before and after it are as they were.
-/

set_option autoImplicit false
set_option relaxedAutoImplicit false

namespace NovaIde.Foundation

/-- A value and the subtrees below it, in order. -/
inductive RoseTree (α : Type*)
  | node (value : α) (children : List (RoseTree α))

namespace RoseTree

variable {α : Type*}

def value : RoseTree α → α
  | node value _ => value

def children : RoseTree α → List (RoseTree α)
  | node _ children => children

/-- The induction rule of forests: the first tree by its children, and the others. -/
@[elab_as_elim]
theorem forest_induction {motive : List (RoseTree α) → Prop} (nil : motive [])
    (cons : ∀ value children rest, motive children → motive rest →
      motive (node value children :: rest)) : ∀ forest, motive forest
  | [] => nil
  | node value children :: rest =>
    cons value children rest (forest_induction nil cons children) (forest_induction nil cons rest)

mutual

/-- The values of a tree in pre-order. -/
def values : RoseTree α → List α
  | node value children => value :: valuesOf children

/-- The values of a forest in pre-order. -/
def valuesOf : List (RoseTree α) → List α
  | [] => []
  | first :: rest => first.values ++ valuesOf rest

end

mutual

/-- The proper descendants of a tree in pre-order, each with the value of its parent. -/
def descendants : RoseTree α → List (α × RoseTree α)
  | node value children => descendantsOf value children

/-- The trees of a forest below a parent and all their descendants in pre-order, each with the value
of its own parent. -/
def descendantsOf (parent : α) : List (RoseTree α) → List (α × RoseTree α)
  | [] => []
  | first :: rest => (parent, first) :: (first.descendants ++ descendantsOf parent rest)

end

/-- The parent and the value of a descendant. -/
def edge (descendant : α × RoseTree α) : α × α := (descendant.1, descendant.2.value)

/-- The parents and values of the proper descendants of a tree in pre-order. -/
def edges (tree : RoseTree α) : List (α × α) := tree.descendants.map edge

theorem valuesOf_nil : valuesOf ([] : List (RoseTree α)) = [] := rfl

theorem valuesOf_cons (value : α) (children rest : List (RoseTree α)) :
    valuesOf (node value children :: rest) = value :: (valuesOf children ++ valuesOf rest) := rfl

theorem descendantsOf_cons (parent value : α) (children rest : List (RoseTree α)) :
    descendantsOf parent (node value children :: rest) =
      (parent, node value children) ::
        (descendantsOf value children ++ descendantsOf parent rest) := rfl

theorem descendants_eq (tree : RoseTree α) :
    tree.descendants = descendantsOf tree.value tree.children := by
  cases tree
  rfl

/-- The parent of a descendant is the parent of the forest or one of its values. -/
theorem parent_mem_of_mem_descendantsOf {descendant : α × RoseTree α}
    (forest : List (RoseTree α)) : ∀ {parent : α}, descendant ∈ descendantsOf parent forest →
      descendant.1 ∈ parent :: valuesOf forest := by
  induction forest using forest_induction with
  | nil => exact fun hmem ↦ absurd hmem List.not_mem_nil
  | cons value children rest ihChildren ihRest =>
    intro parent hmem
    rw [descendantsOf_cons, List.mem_cons, List.mem_append] at hmem
    rw [valuesOf_cons]
    rcases hmem with rfl | hmem | hmem
    · exact List.mem_cons_self
    · have hparent := ihChildren hmem
      simp only [List.mem_cons, List.mem_append] at hparent ⊢
      tauto
    · have hparent := ihRest hmem
      simp only [List.mem_cons, List.mem_append] at hparent ⊢
      tauto

/-! ### Removal of the first node with a property -/

section Removal

variable (property : α → Bool)

mutual

/-- A tree without its first proper descendant with a property, when there is one. -/
def removeFirst : RoseTree α → Option (RoseTree α)
  | node value children => (removeFirstFrom children).map (node value)

/-- A forest without its first node with a property in pre-order, when there is one. -/
def removeFirstFrom : List (RoseTree α) → Option (List (RoseTree α))
  | [] => none
  | first :: rest =>
    if property first.value then some rest
    else
      match removeFirst first with
      | some changed => some (changed :: rest)
      | none => (removeFirstFrom rest).map (first :: ·)

end

/-- The first descendant with a property. -/
def firstOf (parent : α) (forest : List (RoseTree α)) : Option (α × RoseTree α) :=
  (descendantsOf parent forest).find? fun descendant ↦ property descendant.2.value

theorem mem_of_firstOf {parent : α} {forest : List (RoseTree α)} {found : α × RoseTree α}
    (hfound : firstOf property parent forest = some found) :
    found ∈ descendantsOf parent forest := List.mem_of_find?_eq_some hfound

theorem property_of_firstOf {parent : α} {forest : List (RoseTree α)} {found : α × RoseTree α}
    (hfound : firstOf property parent forest = some found) : property found.2.value = true := by
  simpa using List.find?_some hfound

theorem firstOf_eq_none_iff {parent : α} {forest : List (RoseTree α)} :
    firstOf property parent forest = none ↔
      ∀ descendant ∈ descendantsOf parent forest, property descendant.2.value = false := by
  simp [firstOf]

/-- The first descendant is the first tree, or is found among its children, or among the others. -/
theorem firstOf_cons (parent value : α) (children rest : List (RoseTree α)) :
    firstOf property parent (node value children :: rest) =
      if property value then some (parent, node value children)
      else (firstOf property value children).or (firstOf property parent rest) := by
  rw [firstOf, descendantsOf_cons, List.find?_cons, List.find?_append]
  cases hvalue : property value with
  | true => simp [RoseTree.value, hvalue]
  | false => simp [RoseTree.value, hvalue, firstOf]

theorem removeFirstFrom_cons (value : α) (children rest : List (RoseTree α)) :
    removeFirstFrom property (node value children :: rest) =
      if property value then some rest
      else
        match removeFirstFrom property children with
        | some changed => some (node value changed :: rest)
        | none => (removeFirstFrom property rest).map (node value children :: ·) := by
  rw [removeFirstFrom, removeFirst, RoseTree.value]
  cases removeFirstFrom property children <;> rfl

/-- Nothing is removed exactly when no node has the property. -/
theorem removeFirstFrom_eq_none_iff (forest : List (RoseTree α)) : ∀ parent : α,
    removeFirstFrom property forest = none ↔ firstOf property parent forest = none := by
  induction forest using forest_induction with
  | nil => exact fun _ ↦ iff_of_true rfl rfl
  | cons value children rest ihChildren ihRest =>
    intro parent
    rw [removeFirstFrom_cons, firstOf_cons]
    split_ifs
    · simp
    · cases hchildren : removeFirstFrom property children with
      | some changed =>
        have hfound : firstOf property value children ≠ none := fun hnone ↦ by
          rw [(ihChildren value).mpr hnone] at hchildren
          cases hchildren
        simp [hfound]
      | none => simp [(ihChildren value).mp hchildren, ihRest parent]

/-- The first node with a property is removed with everything below it: its edges are one block of
the edges, and what comes before and after the block is left as it was. -/
theorem removeFirstFrom_spec {found : α × RoseTree α} (forest : List (RoseTree α)) :
    ∀ {parent : α}, firstOf property parent forest = some found →
      ∃ changed front back, removeFirstFrom property forest = some changed ∧
        descendantsOf parent forest = front ++ found :: (found.2.descendants ++ back) ∧
        (∀ descendant ∈ front, property descendant.2.value = false) ∧
        (descendantsOf parent changed).map edge = front.map edge ++ back.map edge := by
  induction forest using forest_induction with
  | nil =>
    intro parent hfound
    cases hfound
  | cons value children rest ihChildren ihRest =>
    intro parent hfound
    rw [firstOf_cons] at hfound
    rw [removeFirstFrom_cons]
    split_ifs at hfound ⊢ with hvalue
    · cases hfound
      exact ⟨rest, [], descendantsOf parent rest, rfl, rfl, by simp, rfl⟩
    · have hhere : property (parent, node value children).2.value = false :=
        Bool.eq_false_iff.mpr hvalue
      rcases Option.or_eq_some_iff.mp hfound with hbelow | ⟨hnone, hbehind⟩
      · obtain ⟨changed, front, back, hremoved, hsplit, hfront, hedges⟩ := ihChildren hbelow
        refine ⟨node value changed :: rest, (parent, node value children) :: front,
          back ++ descendantsOf parent rest, by rw [hremoved], ?_, ?_, ?_⟩
        · rw [descendantsOf_cons, hsplit]
          simp
        · exact List.forall_mem_cons.mpr ⟨hhere, hfront⟩
        · rw [descendantsOf_cons, List.map_cons, List.map_append, hedges]
          simp [edge, RoseTree.value]
      · obtain ⟨changed, front, back, hremoved, hsplit, hfront, hedges⟩ := ihRest hbehind
        refine ⟨node value children :: changed,
          (parent, node value children) :: (descendantsOf value children ++ front), back, ?_, ?_,
          ?_, ?_⟩
        · rw [(removeFirstFrom_eq_none_iff property children value).mpr hnone, hremoved]
          rfl
        · rw [descendantsOf_cons, hsplit]
          simp
        · refine List.forall_mem_cons.mpr ⟨hhere, fun descendant hdescendant ↦ ?_⟩
          rcases List.mem_append.mp hdescendant with hchild | hmem
          · exact (firstOf_eq_none_iff property).mp hnone descendant hchild
          · exact hfront descendant hmem
        · rw [descendantsOf_cons, List.map_cons, List.map_append, hedges]
          simp

/-- The values that are left keep their order. -/
theorem valuesOf_sublist (forest : List (RoseTree α)) : ∀ {changed : List (RoseTree α)},
    removeFirstFrom property forest = some changed →
      (valuesOf changed).Sublist (valuesOf forest) := by
  induction forest using forest_induction with
  | nil =>
    intro changed hchanged
    cases hchanged
  | cons value children rest ihChildren ihRest =>
    intro changed hchanged
    rw [removeFirstFrom_cons] at hchanged
    rw [valuesOf_cons]
    split_ifs at hchanged
    · cases hchanged
      exact (List.sublist_append_right _ _).cons _
    · split at hchanged
      · next below hbelow =>
        cases hchanged
        exact ((ihChildren hbelow).append (List.Sublist.refl _)).cons_cons value
      · obtain ⟨behind, hbehind, rfl⟩ := Option.map_eq_some_iff.mp hchanged
        exact ((List.Sublist.refl _).append (ihRest hbehind)).cons_cons value

end Removal

end RoseTree

end NovaIde.Foundation
