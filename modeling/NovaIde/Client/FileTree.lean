import Mathlib.Data.List.Perm.Basic
import NovaIde.Client.UpdateMessage

/-!
# The tree of the file explorer

The file explorer is a tree of items with headers. `AddFile` takes the item at index 0 below the
root for the category of the `.cpp` files and the one at index 1 for that of the `.h` files, and
appends every other file to the same list. `RemoveFileFromTreeView` removes the first item with a
header, whatever the item stands for.

`explorerTree` is the tree in the order in which this works: the categories stand first. Additions
keep it as long as the first header file comes before any other file (`addFile_header`,
`addFile_firstHeader`), and removals keep it for names that are not those of the categories
(`removeFileFromTreeView_explorerTree`).
-/

set_option autoImplicit false
set_option relaxedAutoImplicit false

namespace NovaIde.Client

/-! ### The tree -/

/-- An item of a tree view. -/
inductive TreeViewItem
  | item (header : Text) (items : List TreeViewItem)
deriving Repr

namespace TreeViewItem

def header : TreeViewItem → Text
  | item header _ => header

def items : TreeViewItem → List TreeViewItem
  | item _ items => items

/-- `Items.Add`. -/
def add (parent child : TreeViewItem) : TreeViewItem :=
  item parent.header (parent.items ++ [child])

end TreeViewItem

open TreeViewItem

/-- The item of a file. -/
def fileItem (fileName : Text) : TreeViewItem := item fileName []

def filesHeader : Text := str "Files"
def cppHeader : Text := str "CPP Files"
def headerHeader : Text := str "Header Files"

mutual

/-- `RemoveFileFromTreeViewRecursive`: the item without the first item below it that has the file
name as its header, when there is one. -/
def removeFileFromTreeViewRecursive (fileName : Text) : TreeViewItem → Option TreeViewItem
  | item header items => (removeFromItems fileName items).map (item header)

/-- The loop of `RemoveFileFromTreeViewRecursive` over the items. -/
def removeFromItems (fileName : Text) : List TreeViewItem → Option (List TreeViewItem)
  | [] => none
  | first :: rest =>
    if first.header = fileName then some rest
    else
      match removeFileFromTreeViewRecursive fileName first with
      | some changed => some (changed :: rest)
      | none => (removeFromItems fileName rest).map (first :: ·)

end

/-- `RemoveFileFromTreeView`. -/
def removeFileFromTreeView (fileExplorer : List TreeViewItem) (fileName : Text) :
    List TreeViewItem :=
  fileExplorer.map fun parentItem ↦
    (removeFileFromTreeViewRecursive fileName parentItem).getD parentItem

/-- What the explorer tells files apart by. -/
inductive FileKind
  | cpp
  | header
  | other
deriving DecidableEq, Repr

section Explorer

-- `String.EndsWith`, which compares by the culture
variable (endsWith : Text → Text → Bool)

/-- The kind of a file, by the tests of `AddFile`. -/
def fileKind (fileName : Text) : FileKind :=
  if endsWith fileName (str ".cpp") then .cpp
  else if endsWith fileName (str ".h") then .header
  else .other

/-- `AddFile` below the root. -/
def addToItems (fileName : Text) (items : List TreeViewItem) : List TreeViewItem :=
  match fileKind endsWith fileName with
  | .cpp =>
    match items with
    | cppItem :: rest => cppItem.add (fileItem fileName) :: rest
    | [] => [item cppHeader [fileItem fileName]]
  | .header =>
    match items with
    | first :: hItem :: rest => first :: hItem.add (fileItem fileName) :: rest
    | items => items ++ [item headerHeader [fileItem fileName]]
  | .other => items ++ [fileItem fileName]

/-- `AddFile`: the root is created when there is none. -/
def addFile (fileExplorer : List TreeViewItem) (fileName : Text) : List TreeViewItem :=
  match fileExplorer with
  | parentItem :: others =>
    item parentItem.header (addToItems endsWith fileName parentItem.items) :: others
  | [] => [item filesHeader (addToItems endsWith fileName [])]

/-! ### The order in which it works -/

/-- The tree with the category of the `.cpp` files first, that of the `.h` files second when it
exists, and all other files behind them. -/
def explorerTree (cpp : List Text) (headers : Option (List Text)) (others : List Text) :
    List TreeViewItem :=
  [item filesHeader (item cppHeader (cpp.map fileItem) ::
    ((headers.map fun names ↦ item headerHeader (names.map fileItem)).toList ++
      others.map fileItem))]

variable {endsWith} {fileName : Text} {cpp others : List Text} {headers : Option (List Text)}

/-- The first `.cpp` file of an empty tree. -/
theorem addFile_empty {fileExplorer : List TreeViewItem} (hkind : fileKind endsWith fileName = .cpp)
    (hempty : fileExplorer = [] ∨ fileExplorer = [item filesHeader []]) :
    addFile endsWith fileExplorer fileName = explorerTree [fileName] none [] := by
  rcases hempty with rfl | rfl <;> simp [addFile, addToItems, hkind, explorerTree, items, header]

theorem addFile_cpp (hkind : fileKind endsWith fileName = .cpp) :
    addFile endsWith (explorerTree cpp headers others) fileName =
      explorerTree (cpp ++ [fileName]) headers others := by
  simp [addFile, addToItems, hkind, explorerTree, items, header, add]

theorem addFile_header {names : List Text} (hkind : fileKind endsWith fileName = .header) :
    addFile endsWith (explorerTree cpp (some names) others) fileName =
      explorerTree cpp (some (names ++ [fileName])) others := by
  simp [addFile, addToItems, hkind, explorerTree, items, header, add]

/-- The category of the header files is created behind that of the `.cpp` files. -/
theorem addFile_firstHeader (hkind : fileKind endsWith fileName = .header) :
    addFile endsWith (explorerTree cpp none []) fileName =
      explorerTree cpp (some [fileName]) [] := by
  simp [addFile, addToItems, hkind, explorerTree, items, header]

theorem addFile_other (hkind : fileKind endsWith fileName = .other) :
    addFile endsWith (explorerTree cpp headers others) fileName =
      explorerTree cpp headers (others ++ [fileName]) := by
  simp [addFile, addToItems, hkind, explorerTree, items, header]

end Explorer

/-! ### Removals -/

section Removals

variable {fileName : Text}

/-- Removing a name from the items of files. -/
theorem removeFromItems_map_fileItem (names : List Text) :
    removeFromItems fileName (names.map fileItem) =
      if fileName ∈ names then some ((names.erase fileName).map fileItem) else none := by
  induction names with
  | nil => rfl
  | cons name names ih =>
    rw [List.map_cons, removeFromItems]
    by_cases hname : name = fileName
    · subst hname
      simp [fileItem, header]
    · have hnone : removeFileFromTreeViewRecursive fileName (fileItem name) = none := rfl
      have herase : (name :: names).erase fileName = name :: names.erase fileName := by
        simp [hname]
      rw [if_neg (by exact hname), hnone, ih, herase]
      simp only [List.mem_cons, Ne.symm hname, false_or]
      split_ifs <;> rfl

/-- Removing a name from the items below the root that a category leads. -/
theorem removeFromItems_category {title : Text} (htitle : fileName ≠ title) (names : List Text)
    (rest : List TreeViewItem) :
    removeFromItems fileName (item title (names.map fileItem) :: rest) =
      if fileName ∈ names then
        some (item title ((names.erase fileName).map fileItem) :: rest)
      else (removeFromItems fileName rest).map (item title (names.map fileItem) :: ·) := by
  rw [removeFromItems, if_neg (by exact Ne.symm htitle), removeFileFromTreeViewRecursive,
    removeFromItems_map_fileItem]
  split_ifs <;> rfl

/-- A name that is not that of a category is removed from the files it is among. -/
theorem removeFileFromTreeView_explorerTree (hcpp : fileName ≠ cppHeader)
    (hheader : fileName ≠ headerHeader) (cpp others : List Text) (headers : Option (List Text)) :
    removeFileFromTreeView (explorerTree cpp headers others) fileName =
      if fileName ∈ cpp then explorerTree (cpp.erase fileName) headers others
      else if fileName ∈ headers.getD [] then
        explorerTree cpp (headers.map (·.erase fileName)) others
      else explorerTree cpp headers (others.erase fileName) := by
  have hothers : fileName ∉ others → others.erase fileName = others := List.erase_of_not_mem
  simp only [removeFileFromTreeView, explorerTree, List.map_cons, List.map_nil,
    removeFileFromTreeViewRecursive, removeFromItems_category hcpp]
  cases headers with
  | none =>
    simp only [Option.map_none, Option.toList_none, List.nil_append, removeFromItems_map_fileItem,
      Option.getD_none, List.not_mem_nil, if_false]
    split_ifs with _ hmem
    · rfl
    · rfl
    · rw [hothers hmem]
      rfl
  | some names =>
    simp only [Option.map_some, Option.toList_some, List.singleton_append,
      removeFromItems_category hheader, removeFromItems_map_fileItem, Option.getD_some]
    split_ifs with _ _ hmem
    · rfl
    · rfl
    · rfl
    · rw [hothers hmem]
      rfl

end Removals

end NovaIde.Client
