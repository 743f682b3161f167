import Mathlib.Data.List.Nodup
import Mathlib.Logic.Function.Basic
import NovaIde.Client.FileTree
import NovaIde.Foundation.RoseTree

/-!
# Removal from the file tree

`RemoveFileFromTreeViewRecursive` works on objects: it enumerates the collection of an item, and in
the middle of this removes an item from it. Here a store holds for every item its header, its
collection of references and the number of modifications of that collection, which an enumerator
compares with the number it started from before every advance.

The loop finds the first item below the root in pre-order that has the file name as its header and
removes it from the collection of its parent (`removeFileFromItem_eq`); it returns as soon as it has
modified a collection, so no enumerator meets a modified one. `removal_exact` says what this does to
a tree of items, and `removeFromItems_toItems` that it is what the tree of `FileTree` makes of it.
-/

set_option autoImplicit false
set_option relaxedAutoImplicit false

namespace NovaIde.Client

open Foundation Foundation.RoseTree

/-! ### Items as objects -/

/-- An item: its header, the references in its collection, and the modifications of it so far. -/
structure ItemNode (Ref : Type*) where
  header : Text
  items : List Ref
  version : ℕ

/-- The items by their references. -/
abbrev ItemStore (Ref : Type*) := Ref → ItemNode Ref

/-- The ways the enumeration can end without a result. -/
inductive EnumerationFault
  /-- `InvalidOperationException` of `MoveNext`: the collection was modified -/
  | modified
  /-- more steps than were allowed -/
  | steps
deriving DecidableEq, Repr

section Store

variable {Ref : Type*} [DecidableEq Ref]

/-- `Items.Remove`: the first occurrence of the item goes, and a collection without it is not
modified. -/
def ItemStore.remove (store : ItemStore Ref) (parentItem item : Ref) : ItemStore Ref :=
  if item ∈ (store parentItem).items then
    Function.update store parentItem
      { store parentItem with
        items := (store parentItem).items.erase item
        version := (store parentItem).version + 1 }
  else store

/-- The loop of `RemoveFileFromTreeViewRecursive` from the next advance of its enumerator on, which
started at a version of the collection and stands at a position. -/
def removeFileLoop (fileName : Text) :
    ℕ → ItemStore Ref → Ref → ℕ → ℕ → Except EnumerationFault (Bool × ItemStore Ref)
  | 0, _, _, _, _ => .error .steps
  | steps + 1, store, parentItem, version, position =>
    if (store parentItem).version ≠ version then .error .modified
    else
      match (store parentItem).items[position]? with
      | none => .ok (false, store)
      | some item =>
        if (store item).header = fileName then .ok (true, store.remove parentItem item)
        else
          match removeFileLoop fileName steps store item (store item).version 0 with
          | .error fault => .error fault
          | .ok (true, store) => .ok (true, store)
          | .ok (false, store) =>
            removeFileLoop fileName steps store parentItem version (position + 1)

/-- `RemoveFileFromTreeViewRecursive` within a number of steps. -/
def removeFileFromItem (fileName : Text) (steps : ℕ) (store : ItemStore Ref) (parentItem : Ref) :
    Except EnumerationFault (Bool × ItemStore Ref) :=
  removeFileLoop fileName steps store parentItem (store parentItem).version 0

/-- The items with the file name as their header. -/
def ItemStore.named (store : ItemStore Ref) (fileName : Text) (item : Ref) : Bool :=
  (store item).header = fileName

omit [DecidableEq Ref] in
theorem named_iff {store : ItemStore Ref} {fileName : Text} {item : Ref} :
    store.named fileName item = true ↔ (store item).header = fileName := decide_eq_true_iff

/-! ### Trees of items -/

mutual

/-- The store holds a tree: the collections of its items are their children. -/
def ItemStore.Holds (store : ItemStore Ref) : RoseTree Ref → Prop
  | node item children =>
    (store item).items = children.map RoseTree.value ∧ store.HoldsAll children

/-- The store holds every tree of a forest. -/
def ItemStore.HoldsAll (store : ItemStore Ref) : List (RoseTree Ref) → Prop
  | [] => True
  | first :: rest => store.Holds first ∧ store.HoldsAll rest

end

/-- What the loop is to find below an item. -/
def ItemStore.outcome (store : ItemStore Ref) :
    Option (Ref × RoseTree Ref) → Bool × ItemStore Ref
  | none => (false, store)
  | some found => (true, store.remove found.1 found.2.value)

/-- From a position on the loop finds the first item among the remaining children and below them,
and removes it from the collection of its parent. Every enumerator on the way finds its collection
unmodified. -/
theorem removeFileLoop_eq (fileName : Text) (store : ItemStore Ref) (forest : List (RoseTree Ref)) :
    ∀ (steps : ℕ) (parentItem : Ref) (done : List Ref), (valuesOf forest).length < steps →
      (store parentItem).items = done ++ forest.map RoseTree.value → store.HoldsAll forest →
        removeFileLoop fileName steps store parentItem (store parentItem).version done.length =
          .ok (store.outcome (firstOf (store.named fileName) parentItem forest)) := by
  induction forest using forest_induction with
  | nil =>
    intro steps parentItem done hsteps hitems _
    obtain ⟨steps, rfl⟩ := Nat.exists_eq_add_of_lt hsteps
    have hend : (store parentItem).items[done.length]? = none := by
      simp [hitems]
    rw [removeFileLoop, if_neg (by simp), hend]
    rfl
  | cons item children rest ihChildren ihRest =>
    intro steps parentItem done hsteps hitems hholds
    obtain ⟨⟨hchildren, hbelow⟩, hrest⟩ := hholds
    rw [valuesOf_cons, List.length_cons, List.length_append] at hsteps
    obtain ⟨steps, rfl⟩ := Nat.exists_eq_succ_of_ne_zero (Nat.ne_zero_of_lt hsteps)
    have hcurrent : (store parentItem).items[done.length]? = some item := by
      simp [hitems, RoseTree.value]
    have hdone : (store parentItem).items = (done ++ [item]) ++ rest.map RoseTree.value := by
      simp [hitems, RoseTree.value]
    have hbehind := ihRest steps parentItem (done ++ [item]) (by omega) hdone hrest
    rw [List.length_append, List.length_singleton] at hbehind
    rw [removeFileLoop, if_neg (by simp), hcurrent, firstOf_cons]
    by_cases hheader : (store item).header = fileName
    · simp only [if_pos hheader, if_pos (named_iff.mpr hheader)]
      rfl
    · have hnamed : ¬ store.named fileName item = true := mt named_iff.mp hheader
      simp only [if_neg hheader, if_neg hnamed]
      have hchild := ihChildren steps item [] (by omega) (by simpa using hchildren) hbelow
      rw [List.length_nil] at hchild
      rw [hchild]
      cases hfound : firstOf (store.named fileName) item children with
      | none =>
        rw [Option.none_or]
        exact hbehind
      | some found => rfl

/-- Enough steps are one more than there are items below the parent. -/
theorem removeFileFromItem_eq (fileName : Text) {store : ItemStore Ref} {item : Ref}
    {children : List (RoseTree Ref)} (hholds : store.Holds (node item children)) {steps : ℕ}
    (hsteps : (valuesOf children).length < steps) :
    removeFileFromItem fileName steps store item =
      .ok (store.outcome (firstOf (store.named fileName) item children)) := by
  obtain ⟨hitems, hbelow⟩ := hholds
  exact removeFileLoop_eq fileName store children steps item [] hsteps (by simpa using hitems)
    hbelow

/-! ### The tree after a removal -/

omit [DecidableEq Ref] in
/-- Whether a store holds a forest depends on the collections of its items only. -/
theorem holdsAll_congr {store other : ItemStore Ref} (forest : List (RoseTree Ref)) :
    (∀ item ∈ valuesOf forest, (other item).items = (store item).items) →
      store.HoldsAll forest → other.HoldsAll forest := by
  induction forest using forest_induction with
  | nil => exact fun _ _ ↦ trivial
  | cons item children rest ihChildren ihRest =>
    rintro hsame ⟨⟨hitems, hbelow⟩, hrest⟩
    rw [valuesOf_cons] at hsame
    refine ⟨⟨?_, ihChildren (fun other hother ↦ hsame other ?_) hbelow⟩,
      ihRest (fun other hother ↦ hsame other ?_) hrest⟩
    · rw [hsame item List.mem_cons_self, hitems]
    · simp [hother]
    · simp [hother]

/-- Items other than the parent keep everything. -/
theorem remove_of_ne (store : ItemStore Ref) {parentItem item other : Ref}
    (hother : other ≠ parentItem) : store.remove parentItem item other = store other := by
  unfold ItemStore.remove
  split_ifs
  · exact Function.update_of_ne hother _ _
  · rfl

/-- The parent keeps the other items of its collection, in order. -/
theorem items_remove_self (store : ItemStore Ref) {parentItem item : Ref} {before after : List Ref}
    (hitems : (store parentItem).items = before ++ item :: after) (hfirst : item ∉ before) :
    (store.remove parentItem item parentItem).items = before ++ after := by
  unfold ItemStore.remove
  rw [if_pos (by simp [hitems]), Function.update_self]
  simp [hitems, List.erase_append_right _ hfirst]

/-- Every header stays. -/
theorem header_remove (store : ItemStore Ref) (parentItem item other : Ref) :
    (store.remove parentItem item other).header = (store other).header := by
  by_cases hother : other = parentItem
  · subst hother
    unfold ItemStore.remove
    split_ifs
    · rw [Function.update_self]
    · rfl
  · rw [remove_of_ne store hother]

/-- A forest without the parent is still held. -/
theorem holdsAll_remove_of_notMem (store : ItemStore Ref) {parentItem item : Ref}
    {forest : List (RoseTree Ref)} (hparent : parentItem ∉ valuesOf forest)
    (hholds : store.HoldsAll forest) : (store.remove parentItem item).HoldsAll forest := by
  refine holdsAll_congr forest (fun other hmem ↦ ?_) hholds
  rw [remove_of_ne store (ne_of_mem_of_not_mem hmem hparent)]

/-- The first item with a property, removed from the collection of its parent, is removed from the
forest that the store holds below an item, when no reference occurs twice. -/
theorem holdsAll_remove (property : Ref → Bool) (store : ItemStore Ref)
    {found : Ref × RoseTree Ref} (forest : List (RoseTree Ref)) :
    ∀ {changed : List (RoseTree Ref)} {parentItem : Ref} {done : List Ref},
      (parentItem :: (done ++ valuesOf forest)).Nodup →
        (store parentItem).items = done ++ forest.map RoseTree.value → store.HoldsAll forest →
          firstOf property parentItem forest = some found →
            removeFirstFrom property forest = some changed →
              (store.remove found.1 found.2.value).HoldsAll changed ∧
                (store.remove found.1 found.2.value parentItem).items =
                  done ++ changed.map RoseTree.value := by
  induction forest using forest_induction with
  | nil =>
    intro changed parentItem done _ _ _ hfound
    cases hfound
  | cons item children rest ihChildren ihRest =>
    rintro changed parentItem done hnodup hitems ⟨⟨hchildren, hbelow⟩, hrest⟩ hfound hchanged
    rw [valuesOf_cons] at hnodup
    rw [firstOf_cons] at hfound
    rw [removeFirstFrom_cons] at hchanged
    split_ifs at hfound hchanged with hvalue
    · cases hfound
      cases hchanged
      have hfirst : item ∉ done := by grind
      have hparent : parentItem ∉ valuesOf rest := by grind
      exact ⟨holdsAll_remove_of_notMem store hparent hrest,
        items_remove_self store hitems hfirst⟩
    · cases hremoved : removeFirstFrom property children with
      | some changedChildren =>
        have hfound : firstOf property item children = some found := by
          cases hchild : firstOf property item children with
          | none =>
            rw [(removeFirstFrom_eq_none_iff property children item).mpr hchild] at hremoved
            cases hremoved
          | some other => rwa [hchild, Option.some_or] at hfound
        rw [hremoved] at hchanged
        cases hchanged
        have hdistinct : (item :: ([] ++ valuesOf children)).Nodup := by grind
        obtain ⟨hheld, hkept⟩ :=
          ihChildren hdistinct (by simpa using hchildren) hbelow hfound hremoved
        -- the collection that changes is that of the item or of one below it
        have hparent : found.1 ∈ item :: valuesOf children :=
          parent_mem_of_mem_descendantsOf children (mem_of_firstOf property hfound)
        have hne : parentItem ≠ found.1 := by grind
        have hnotMem : found.1 ∉ valuesOf rest := by grind
        refine ⟨⟨⟨hkept, hheld⟩, holdsAll_remove_of_notMem store hnotMem hrest⟩, ?_⟩
        rw [remove_of_ne store hne, hitems]
        rfl
      | none =>
        rw [(removeFirstFrom_eq_none_iff property children item).mp hremoved, Option.none_or]
          at hfound
        rw [hremoved] at hchanged
        obtain ⟨changedRest, hrestChanged, rfl⟩ := Option.map_eq_some_iff.mp hchanged
        have hdistinct : (parentItem :: ((done ++ [item]) ++ valuesOf rest)).Nodup := by
          refine hnodup.sublist (List.Sublist.cons_cons parentItem ?_)
          rw [List.append_assoc]
          exact (List.Sublist.refl done).append ((List.sublist_append_right _ _).cons_cons item)
        obtain ⟨hheld, hkept⟩ :=
          ihRest hdistinct (by simpa [RoseTree.value] using hitems) hrest hfound hrestChanged
        have hparent : found.1 ∈ parentItem :: valuesOf rest :=
          parent_mem_of_mem_descendantsOf rest (mem_of_firstOf property hfound)
        have hnotMem : found.1 ∉ valuesOf [node item children] := by
          rw [valuesOf_cons, valuesOf_nil, List.append_nil]
          grind
        have hfirst : (store.remove found.1 found.2.value).HoldsAll [node item children] :=
          holdsAll_remove_of_notMem store hnotMem ⟨⟨hchildren, hbelow⟩, trivial⟩
        exact ⟨⟨hfirst.1, hheld⟩, by simpa [RoseTree.value] using hkept⟩

end Store

/-! ### What the explorer shows -/

section Views

variable {Ref : Type*}

mutual

/-- The tree of `FileTree` that a tree of items shows. -/
def ItemStore.toItem (store : ItemStore Ref) : RoseTree Ref → TreeViewItem
  | node item children => .item (store item).header (store.toItems children)

/-- The trees that a forest of items shows. -/
def ItemStore.toItems (store : ItemStore Ref) : List (RoseTree Ref) → List TreeViewItem
  | [] => []
  | first :: rest => store.toItem first :: store.toItems rest

end

/-- The loop over shown items removes what the first item with the file name shows. -/
theorem removeFromItems_toItems (fileName : Text) (store : ItemStore Ref)
    (forest : List (RoseTree Ref)) :
    removeFromItems fileName (store.toItems forest) =
      (removeFirstFrom (store.named fileName) forest).map store.toItems := by
  induction forest using forest_induction with
  | nil => rfl
  | cons item children rest ihChildren ihRest =>
    have hheader : (store.toItem (node item children)).header = (store item).header := rfl
    rw [ItemStore.toItems, removeFromItems, removeFirstFrom_cons, hheader, ihRest,
      ItemStore.toItem, removeFileFromTreeViewRecursive, ihChildren]
    by_cases hnamed : (store item).header = fileName
    · rw [if_pos hnamed, if_pos (named_iff.mpr hnamed)]
      rfl
    · rw [if_neg hnamed, if_neg (mt named_iff.mp hnamed)]
      cases removeFirstFrom (store.named fileName) children with
      | some changed => rfl
      | none => cases removeFirstFrom (store.named fileName) rest <;> rfl

/-- What a tree shows depends on the headers only. -/
theorem toItems_congr {store other : ItemStore Ref}
    (hheader : ∀ item, (other item).header = (store item).header) (forest : List (RoseTree Ref)) :
    other.toItems forest = store.toItems forest := by
  induction forest using forest_induction with
  | nil => rfl
  | cons item children rest ihChildren ihRest =>
    rw [ItemStore.toItems, ItemStore.toItems, ItemStore.toItem, ItemStore.toItem, hheader,
      ihChildren, ihRest]

end Views

/-! ### Exactness -/

/-- A tree of items in a store, no item of which is in two places. -/
structure TreeView (Ref : Type*) where
  store : ItemStore Ref
  tree : RoseTree Ref
  holds : store.Holds tree
  nodup : tree.values.Nodup

/-- What `FileTree` makes of the view. -/
def TreeView.shown {Ref : Type*} (view : TreeView Ref) : TreeViewItem := view.store.toItem view.tree

section Exactness

variable {Ref : Type*} [DecidableEq Ref]

/-- One view is another without its first item below the root in pre-order that has the file name
as its header, and without everything below that item; only the collection of its parent was
modified, and every other item has the parent and the place among the others that it had. -/
def TreeView.RemovesFirst (view after : TreeView Ref) (fileName : Text) : Prop :=
  after.tree.value = view.tree.value ∧
    ∃ front removed back,
      view.tree.descendants = front ++ removed :: (removed.2.descendants ++ back) ∧
        (view.store removed.2.value).header = fileName ∧
        (∀ item ∈ front, (view.store item.2.value).header ≠ fileName) ∧
        after.tree.edges = front.map edge ++ back.map edge ∧
        after.store = view.store.remove removed.1 removed.2.value ∧
        removeFileFromTreeViewRecursive fileName view.shown = some after.shown

/-- A view after the removal of the first item with the file name. -/
theorem exists_removesFirst (view : TreeView Ref) (fileName : Text) {found : Ref × RoseTree Ref}
    (hfound : firstOf (view.store.named fileName) view.tree.value view.tree.children =
      some found) :
    ∃ after : TreeView Ref, view.RemovesFirst after fileName ∧
      after.store = view.store.remove found.1 found.2.value := by
  obtain ⟨store, ⟨item, children⟩, ⟨hitems, hbelow⟩, hnodup⟩ := view
  replace hfound : firstOf (store.named fileName) item children = some found := hfound
  obtain ⟨changed, front, back, hchanged, hsplit, hfront, hedges⟩ :=
    removeFirstFrom_spec _ children hfound
  have hnodup : (item :: valuesOf children).Nodup := hnodup
  have hdistinct : (item :: ([] ++ valuesOf children)).Nodup := hnodup
  obtain ⟨hheld, hkept⟩ := holdsAll_remove (store.named fileName) store children
    hdistinct hitems hbelow hfound hchanged
  have hvalues := valuesOf_sublist _ children hchanged
  have hheader := named_iff.mp (property_of_firstOf _ hfound)
  let after : TreeView Ref := ⟨store.remove found.1 found.2.value, node item changed,
    ⟨hkept, hheld⟩, hnodup.sublist (hvalues.cons_cons item)⟩
  refine ⟨after, ⟨rfl, front, found, back, hsplit, hheader,
    fun other hother ↦ of_decide_eq_false (hfront other hother), hedges, rfl, ?_⟩, rfl⟩
  have hshown := toItems_congr (header_remove store found.1 found.2.value) changed
  simp only [TreeView.shown, ItemStore.toItem, removeFileFromTreeViewRecursive,
    removeFromItems_toItems, hchanged, Option.map_some, after, hshown, header_remove]

/-- `RemoveFileFromTreeViewRecursive` returns, and it answers true exactly when some item below the
root has the file name as its header. Then it has removed the first one in pre-order with
everything below it, and nothing else; otherwise nothing has changed. -/
theorem removal_exact (view : TreeView Ref) (fileName : Text) :
    ∃ (found : Bool) (after : TreeView Ref),
      (∀ steps, view.tree.values.length ≤ steps →
        removeFileFromItem fileName steps view.store view.tree.value = .ok (found, after.store)) ∧
      (found = true ↔
        ∃ item ∈ view.tree.descendants, (view.store item.2.value).header = fileName) ∧
      (found = true → view.RemovesFirst after fileName) ∧
      (found = false → after = view ∧
        removeFileFromTreeViewRecursive fileName view.shown = none) := by
  have hreturns : ∀ steps, view.tree.values.length ≤ steps →
      removeFileFromItem fileName steps view.store view.tree.value =
        .ok (view.store.outcome
          (firstOf (view.store.named fileName) view.tree.value view.tree.children)) := by
    obtain ⟨store, ⟨item, children⟩, hholds, hnodup⟩ := view
    exact fun steps hsteps ↦ removeFileFromItem_eq fileName hholds hsteps
  cases hfound : firstOf (view.store.named fileName) view.tree.value view.tree.children with
  | none =>
    rw [hfound] at hreturns
    refine ⟨false, view, hreturns, iff_of_false (by simp) ?_, by simp, fun _ ↦ ⟨rfl, ?_⟩⟩
    · rintro ⟨item, hitem, hheader⟩
      rw [descendants_eq] at hitem
      have hother := (firstOf_eq_none_iff _).mp hfound item hitem
      rw [named_iff.mpr hheader] at hother
      cases hother
    · have hkept := (removeFirstFrom_eq_none_iff _ _ _).mpr hfound
      obtain ⟨store, ⟨item, children⟩, hholds, hnodup⟩ := view
      rw [TreeView.shown, ItemStore.toItem, removeFileFromTreeViewRecursive,
        removeFromItems_toItems]
      exact congrArg (Option.map _ ∘ Option.map _) hkept
  | some found =>
    obtain ⟨after, hremoves, hafter⟩ := exists_removesFirst view fileName hfound
    rw [hfound] at hreturns
    refine ⟨true, after, ?_, iff_of_true rfl ?_, fun _ ↦ hremoves, by simp⟩
    · rw [hafter]
      exact hreturns
    · rw [descendants_eq]
      exact ⟨found, mem_of_firstOf _ hfound, named_iff.mp (property_of_firstOf _ hfound)⟩

end Exactness

/-- Below the root `0`, the category `1` with the file `3`, and the file `2` of the same name. -/
def sampleStore : ItemStore ℕ
  | 0 => ⟨filesHeader, [1, 2], 0⟩
  | 1 => ⟨cppHeader, [3], 0⟩
  | _ => ⟨str "a.cpp", [], 0⟩

/-- The items of the store as a tree. -/
def sampleView : TreeView ℕ where
  store := sampleStore
  tree := node 0 [node 1 [node 3 []], node 2 []]
  holds := by simp [ItemStore.Holds, ItemStore.HoldsAll, sampleStore, RoseTree.value]
  nodup := by decide

/-- The file below the category is removed, and the other one of its name stays. -/
theorem removal_exact_sample : ∃ after : TreeView ℕ,
    removeFileFromItem (str "a.cpp") 4 sampleStore 0 = .ok (true, after.store) ∧
      after.tree.edges = [(0, 1), (0, 2)] ∧ sampleView.RemovesFirst after (str "a.cpp") := by
  obtain ⟨found, after, hreturns, hfound, hremoves, -⟩ := removal_exact sampleView (str "a.cpp")
  have hdescendants : sampleView.tree.descendants =
      [(0, node 1 [node 3 []]), (1, node 3 []), (0, node 2 [])] := rfl
  have hnamed : found = true := hfound.mpr ⟨(1, node 3 []), by simp [hdescendants], by decide⟩
  have hreturned := hreturns 4 (by decide)
  rw [hnamed] at hreturned
  refine ⟨after, hreturned, ?_, hremoves hnamed⟩
  obtain ⟨-, front, removed, back, hsplit, hheader, hfront, hedges, -⟩ := hremoves hnamed
  rw [hdescendants] at hsplit
  rcases front with _ | ⟨first, _ | ⟨second, front⟩⟩
  · obtain ⟨rfl, -⟩ := List.cons.inj hsplit
    exact absurd hheader (by decide)
  · simp only [List.cons_append, List.nil_append, List.cons.injEq] at hsplit
    obtain ⟨rfl, rfl, hrest⟩ := hsplit
    obtain rfl : back = [(0, node 2 [])] := hrest.symm
    exact hedges
  · simp only [List.cons_append, List.cons.injEq] at hsplit
    obtain ⟨rfl, rfl, -⟩ := hsplit
    exact absurd rfl (hfront (1, node 3 []) (by simp))

-- the file below the category comes first in pre-order
example : (removeFileFromItem (str "a.cpp") 5 sampleStore 0).toOption.map
    (fun outcome ↦ (outcome.1, (outcome.2 0).items, (outcome.2 1).items)) =
      some (true, [1, 2], []) := by
  decide

end NovaIde.Client
