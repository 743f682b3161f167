import Mathlib.Data.List.Pairwise
import NovaIde.Client.FileTree
import NovaIde.Client.RemovedFiles

/-!
# The file explorer and the project folder

The explorer is changed beside the folder: every operation that creates a file adds an item with the
name it was given, and every one that deletes a file removes the item with the name it was given.
The file system decides by other means which file a name denotes, and a save in between creates the
current file when it is gone.

`showsFiles_of_run` says when the explorer nevertheless shows the files of the folder, each once and
under its category: names are valid and not those of the categories, a file is removed by the name
it is listed under, received files differ in more than case, the current file exists when another
one is made, and a header file finds its category, or no item at all, at index 1 of the tree.
-/

set_option autoImplicit false
set_option relaxedAutoImplicit false

namespace NovaIde.Client

open Foundation Foundation.EventRun TreeViewItem

/-! ### The explorer beside the folder -/

/-- The files of a project with the explorer that shows them. -/
structure ProjectView where
  workspace : Workspace
  fileExplorer : List TreeViewItem

namespace ProjectView

variable (platform : Platform) (endsWith : Text → Text → Bool) (outcomes : Outcomes)

/-- `setProjectDetails`. -/
def setProjectDetails (view : ProjectView) (filesPath projectName : Text) : ProjectView where
  workspace := view.workspace.setProjectDetails filesPath projectName
  fileExplorer := addFile endsWith view.fileExplorer (projectName ++ str ".cpp")

/-- `setNewFileName`. -/
def setNewFileName (view : ProjectView) (fileName : Text) : ProjectView where
  workspace := view.workspace.setNewFileName platform outcomes fileName
  fileExplorer :=
    let filePath := pathCombine view.workspace.filesPath fileName
    if !platform.fileExists view.workspace.disk filePath &&
        view.workspace.succeeds platform outcomes (.create filePath) then
      addFile endsWith view.fileExplorer fileName
    else view.fileExplorer

/-- `removeFile`. -/
def removeFile (view : ProjectView) (fileName : Text) : ProjectView where
  workspace := view.workspace.removeFile platform outcomes fileName
  fileExplorer :=
    let filePath := pathCombine view.workspace.filesPath fileName
    if platform.fileExists view.workspace.disk filePath &&
        view.workspace.succeeds platform outcomes (.delete filePath) then
      removeFileFromTreeView view.fileExplorer fileName
    else view.fileExplorer

/-- The loop of `recieveFiles` over the names received. -/
def createReceived (view : ProjectView) : List Text → ProjectView
  | [] => view
  | file :: rest =>
    let currentFileName := getFileName file
    let currentFilePath := pathCombine view.workspace.filesPath currentFileName
    let created := view.workspace.access platform outcomes (.create currentFilePath)
    if view.workspace.succeeds platform outcomes (.create currentFilePath) then
      (ProjectView.mk created (addFile endsWith view.fileExplorer currentFileName)).createReceived
        rest
    else ⟨created, view.fileExplorer⟩

/-- `recieveFiles`. -/
def recieveFiles (view : ProjectView) (filesDict : Files) : ProjectView :=
  let files := platform.getFiles view.workspace.disk view.workspace.filesPath
  let view := files.foldl
    (fun view file ↦ view.removeFile platform outcomes (getFileName file)) view
  view.createReceived platform endsWith outcomes (filesDict.map Prod.fst)

end ProjectView

/-- What happens to the explorer of an open project. -/
inductive ViewEvent
  | setNewFileName (fileName : Text)
  | removeFile (fileName : Text)
  | recieveFiles (filesDict : Files)

section Views

variable (platform : Platform) (endsWith : Text → Text → Bool)

/-- A step of an open project while every operation on files is allowed. -/
def viewStep (view : ProjectView) (event : ViewEvent) : Option (ProjectView × Unit) :=
  if view.workspace.filesPath = [] then none
  else
    match event with
    | .setNewFileName fileName =>
      some (view.setNewFileName platform endsWith allAllowed fileName, ())
    | .removeFile fileName => some (view.removeFile platform allAllowed fileName, ())
    | .recieveFiles filesDict =>
      some (view.recieveFiles platform endsWith allAllowed filesDict, ())

/-- A step of a run of an open project. -/
abbrev ViewRecord := StepRecord ProjectView ViewEvent Unit

/-- The names of the files of a folder. -/
def folderNames (dir : Text) (disk : Disk) : List Text :=
  (platform.getFiles disk dir).map getFileName

/-- The names of the files of a project. -/
def ProjectView.names (view : ProjectView) : List Text :=
  folderNames platform view.workspace.filesPath view.workspace.disk

/-! ### What the explorer should show -/

/-- At most one item stands for a category, with the items of its files directly below it; when
there is none, the category has no files. -/
def CategoryItems (title : Text) (names : List Text) (items : List TreeViewItem) : Prop :=
  items = [item title (names.map fileItem)] ∨ names = [] ∧ items = []

/-- The explorer shows these files and nothing else: directly below the root there are, in any
order, the two categories with their files and the items of the other files, and no item of a file
has the header of a category. -/
def ShowsFiles (names : List Text) (fileExplorer : List TreeViewItem) : Prop :=
  ∃ (children cppItems headerItems : List TreeViewItem) (cpp headers others : List Text),
    fileExplorer = [item filesHeader children] ∧
      children.Perm (cppItems ++ headerItems ++ others.map fileItem) ∧
      CategoryItems cppHeader cpp cppItems ∧ CategoryItems headerHeader headers headerItems ∧
      cpp.Perm (names.filter (fileKind endsWith · = .cpp)) ∧
      headers.Perm (names.filter (fileKind endsWith · = .header)) ∧
      others.Perm (names.filter (fileKind endsWith · = .other)) ∧
      ∀ name ∈ names, name ≠ cppHeader ∧ name ≠ headerHeader

/-! ### When it does -/

/-- A valid name of a file that is not that of a category. -/
def ListableName (name : Text) : Prop :=
  ValidName name ∧ name ≠ cppHeader ∧ name ≠ headerHeader

/-- Names that the file system tells apart. -/
def DifferByMoreThanCase (names : List Text) : Prop :=
  names.Pairwise fun name other ↦ name.map platform.upCase ≠ other.map platform.upCase

/-- The header of the item at index 1 below the root. -/
def secondHeader (fileExplorer : List TreeViewItem) : Option Text :=
  (fileExplorer.head?.bind fun root ↦ root.items[1]?).map header

/-- A step that keeps the explorer and the folder together.
- A new file has a listable name, the current file exists or is the new one, and for a header file
  there is nothing at index 1 of the tree but its category.
- A removed file is given by the name it is listed under; other files of the folder are not denoted.
- Received files have listable names that differ in more than case, and there is a category of the
  header files already, or none is received, or the first file received that is not a `.cpp` file is
  one. -/
def KeepsListing (record : ViewRecord) : Prop :=
  let workspace := record.before.workspace
  let second := secondHeader record.before.fileExplorer
  match record.event with
  | .setNewFileName fileName =>
    let filePath := pathCombine workspace.filesPath fileName
    platform.fileExists workspace.disk filePath = true ∨
      ListableName fileName ∧
        (platform.fileExists workspace.disk workspace.currentFilePath = true ∨
          platform.identity workspace.currentFilePath = platform.identity filePath) ∧
        (fileKind endsWith fileName = .header → second = none ∨ second = some headerHeader)
  | .removeFile fileName =>
    fileName ∈ record.before.names platform ∨
      ∀ name ∈ record.before.names platform,
        platform.identity (pathCombine workspace.filesPath name) ≠
          platform.identity (pathCombine workspace.filesPath fileName)
  | .recieveFiles filesDict =>
    let names := filesDict.map fun file ↦ getFileName file.1
    (∀ name ∈ names, ListableName name) ∧ DifferByMoreThanCase platform names ∧
      (second = some headerHeader ∨ (∀ name ∈ names, fileKind endsWith name ≠ .header) ∨
        (names.find? (fileKind endsWith · ≠ .cpp)).any (fileKind endsWith · = .header))

instance (name : Text) : Decidable (ListableName name) := by
  unfold ListableName
  infer_instance

instance (names : List Text) : Decidable (DifferByMoreThanCase platform names) := by
  unfold DifferByMoreThanCase
  infer_instance

instance (record : ViewRecord) : Decidable (KeepsListing platform endsWith record) := by
  unfold KeepsListing
  dsimp only
  split <;> infer_instance

end Views

/-! ### The names in the folder -/

section Names

variable {platform : Platform} {dir name content path : Text} {disk : Disk}

/-- The name under which a folder lists a file. -/
def listedName (platform : Platform) (dir : Text) (file : StoredFile) : Option Text :=
  let path := pathCombine dir (getFileName file.path)
  if platform.denotes path file then some (getFileName path) else none

theorem folderNames_eq (platform : Platform) (dir : Text) (disk : Disk) :
    folderNames platform dir disk = disk.filterMap (listedName platform dir) := by
  rw [folderNames, Platform.getFiles, List.map_filterMap]
  refine List.filterMap_congr fun file _ ↦ ?_
  unfold listedName
  dsimp only
  split_ifs <;> rfl

/-- A file in the folder is listed under its name. -/
theorem listedName_stored (hlaws : FolderLaws platform dir) (hname : ValidName name)
    (content : Text) :
    listedName platform dir ⟨folderPrefix dir ++ name, content⟩ = some name := by
  obtain ⟨hfileName, hdenotes⟩ :=
    @FolderLaws.denotes_stored _ _ _ hlaws ⟨folderPrefix dir ++ name, content⟩ hname.plain rfl
  simp only [listedName, hfileName, hdenotes, if_true]
  rw [pathCombine_child hlaws.isFolder.ne_nil hname.plain.childName, hfileName]

theorem listedName_hidden {file : StoredFile} (hhidden : HiddenFile platform dir file) :
    listedName platform dir file = none := by
  simp [listedName, hhidden.notListed]

/-- A listed name is valid and names a file of the folder. -/
theorem stored_of_listedName (hlaws : FolderLaws platform dir) {file : StoredFile}
    (hfile : StoredIn dir file ∨ HiddenFile platform dir file)
    (hlisted : listedName platform dir file = some name) :
    ValidName name ∧ file.path = folderPrefix dir ++ name := by
  rcases hfile with ⟨other, hother, hpath⟩ | hhidden
  · obtain ⟨path, content⟩ := file
    obtain rfl : path = folderPrefix dir ++ other := hpath
    rw [listedName_stored hlaws hother, Option.some.injEq] at hlisted
    exact hlisted ▸ ⟨hother, rfl⟩
  · rw [listedName_hidden hhidden] at hlisted
    cases hlisted

/-- Listed names are valid. -/
theorem validName_of_mem (hlaws : FolderLaws platform dir) (hdisk : ListedDisk platform dir disk)
    (hname : name ∈ folderNames platform dir disk) : ValidName name := by
  rw [folderNames_eq] at hname
  obtain ⟨file, hfile, hlisted⟩ := List.mem_filterMap.mp hname
  exact (stored_of_listedName hlaws (hdisk file hfile) hlisted).1

/-- A plain name denotes a file when one is listed under that name or another case of it. -/
theorem fileExists_iff_listed (hlaws : FolderLaws platform dir)
    (hdisk : ListedDisk platform dir disk) (hname : PlainName name) :
    platform.fileExists disk (pathCombine dir name) = true ↔
      ∃ other ∈ folderNames platform dir disk,
        name.map platform.upCase = other.map platform.upCase := by
  rw [Platform.fileExists, List.any_eq_true, folderNames_eq]
  constructor
  · rintro ⟨file, hfile, hdenotes⟩
    rcases hdisk file hfile with ⟨other, hother, hpath⟩ | hhidden
    · obtain ⟨path, content⟩ := file
      obtain rfl : path = folderPrefix dir ++ other := hpath
      exact ⟨other, List.mem_filterMap.mpr ⟨_, hfile, listedName_stored hlaws hother content⟩,
        (hlaws.denotes_iff hname).mp hdenotes⟩
    · rw [hhidden.notReached name hname] at hdenotes
      cases hdenotes
  · rintro ⟨other, hother, hsame⟩
    obtain ⟨⟨path, content⟩, hfile, hlisted⟩ := List.mem_filterMap.mp hother
    obtain rfl : path = folderPrefix dir ++ other :=
      (stored_of_listedName hlaws (hdisk _ hfile) hlisted).2
    exact ⟨_, hfile, (hlaws.denotes_iff hname).mpr hsame⟩

/-- A new file is listed behind the others. -/
theorem folderNames_create (hlaws : FolderLaws platform dir)
    (hdisk : ListedDisk platform dir disk) (hname : ValidName name)
    (hnew : platform.fileExists disk (pathCombine dir name) = false) :
    folderNames platform dir (platform.writeFile disk (pathCombine dir name) []) =
        folderNames platform dir disk ++ [name] ∧
      ListedDisk platform dir (platform.writeFile disk (pathCombine dir name) []) := by
  have hwritten : platform.writeFile disk (pathCombine dir name) [] =
      disk ++ [⟨folderPrefix dir ++ name, []⟩] := by
    rw [Platform.writeFile, hnew, if_neg Bool.false_ne_true, hlaws.fullPath_eq hname.plain]
  rw [hwritten]
  refine ⟨?_, fun file hfile ↦ ?_⟩
  · rw [folderNames_eq, folderNames_eq, List.filterMap_append]
    simp [listedName_stored hlaws hname]
  · rcases List.mem_append.mp hfile with hold | hadded
    · exact hdisk file hold
    · rw [List.mem_singleton.mp hadded]
      exact .inl ⟨name, hname, rfl⟩

/-- Writing a file that exists changes no name. -/
theorem folderNames_save (hdisk : ListedDisk platform dir disk)
    (hexists : platform.fileExists disk path = true) (content : Text) :
    folderNames platform dir (platform.writeFile disk path content) =
        folderNames platform dir disk ∧
      ListedDisk platform dir (platform.writeFile disk path content) := by
  rw [Platform.writeFile, if_pos hexists]
  refine ⟨?_, fun file hfile ↦ ?_⟩
  · rw [folderNames_eq, folderNames_eq, List.filterMap_map]
    refine List.filterMap_congr fun file _ ↦ ?_
    simp only [Function.comp_apply]
    split_ifs <;> rfl
  · obtain ⟨old, hold, rfl⟩ := List.mem_map.mp hfile
    have hkept := hdisk old hold
    split_ifs
    · rcases hkept with ⟨name, hname, hpath⟩ | ⟨hlisted, hreached⟩
      · exact .inl ⟨name, hname, hpath⟩
      · exact .inr ⟨hlisted, hreached⟩
    · exact hkept

/-- `loadNewFile` writes to no file but the current one. -/
theorem folderNames_loadNewFile {workspace : Workspace}
    (hdisk : ListedDisk platform dir workspace.disk)
    (hexists : platform.fileExists workspace.disk workspace.currentFilePath = true) :
    let next := workspace.loadNewFile platform allAllowed name
    folderNames platform dir next.disk = folderNames platform dir workspace.disk ∧
      ListedDisk platform dir next.disk := by
  simp only [Workspace.loadNewFile, Workspace.saveContentToFile, Workspace.access]
  split_ifs
  · exact folderNames_save hdisk hexists _
  · exact ⟨rfl, hdisk⟩

/-- Deleting a file takes the names away that denote it. -/
theorem folderNames_delete (hlaws : FolderLaws platform dir)
    (hdisk : ListedDisk platform dir disk) (path : Text) :
    folderNames platform dir (platform.deleteFile disk path) =
        (folderNames platform dir disk).filter (fun name ↦
          platform.identity (pathCombine dir name) ≠ platform.identity path) ∧
      ListedDisk platform dir (platform.deleteFile disk path) := by
  refine ⟨?_, fun file hfile ↦ hdisk file (List.mem_of_mem_filter hfile)⟩
  rw [folderNames_eq, folderNames_eq, Platform.deleteFile, List.filterMap_filter,
    List.filter_filterMap]
  refine List.filterMap_congr fun file hfile ↦ ?_
  cases hlisted : listedName platform dir file with
  | none => simp
  | some name =>
    obtain ⟨hname, hpath⟩ := stored_of_listedName hlaws (hdisk file hfile) hlisted
    have hdenotes : platform.denotes path file =
        decide (platform.identity (pathCombine dir name) = platform.identity path) := by
      rw [Platform.denotes, hpath, hlaws.identity_eq hname.plain]
      exact decide_eq_decide.mpr eq_comm
    rw [Option.filter_some, hdenotes]
    by_cases hsame : platform.identity (pathCombine dir name) = platform.identity path
    · simp [hsame]
    · simp [hsame]

end Names

/-! ### Steps -/

/-- The explorer in the order in which it works, beside a folder of listable names: what a run keeps
when its steps keep the two together. -/
structure Listing (platform : Platform) (endsWith : Text → Text → Bool) (dir : Text)
    (cpp : List Text) (headers : Option (List Text)) (others : List Text) (view : ProjectView) :
    Prop where
  folder : view.workspace.filesPath = dir
  disk : ListedDisk platform dir view.workspace.disk
  tree : view.fileExplorer = explorerTree cpp headers others
  files : (cpp ++ headers.getD [] ++ others).Perm (folderNames platform dir view.workspace.disk)
  distinct : DifferByMoreThanCase platform (folderNames platform dir view.workspace.disk)
  listable : ∀ name ∈ folderNames platform dir view.workspace.disk, ListableName name
  cppFiles : ∀ name ∈ cpp, fileKind endsWith name = .cpp
  headerFiles : ∀ name ∈ headers.getD [], fileKind endsWith name = .header
  otherFiles : ∀ name ∈ others, fileKind endsWith name = .other

section Steps

variable {platform : Platform} {endsWith : Text → Text → Bool} {dir fileName : Text}
  {cpp others : List Text} {headers : Option (List Text)} {view next : ProjectView}

/-- Names that differ in more than case differ. -/
theorem DifferByMoreThanCase.nodup {names : List Text}
    (hdistinct : DifferByMoreThanCase platform names) : names.Nodup :=
  hdistinct.imp fun hdiffer heq ↦ hdiffer (congrArg _ heq)

/-- Among files of one kind, those of a kind are all or none. -/
theorem filter_of_kind {kind : FileKind} {names : List Text}
    (hkinds : ∀ name ∈ names, fileKind endsWith name = kind) (wanted : FileKind) :
    names.filter (fileKind endsWith · = wanted) = if kind = wanted then names else [] := by
  split_ifs with hwanted
  · exact List.filter_eq_self.mpr fun name hname ↦ by simp [hkinds name hname, hwanted]
  · exact List.filter_eq_nil_iff.mpr fun name hname ↦ by simp [hkinds name hname, hwanted]

/-- The explorer in its working order shows the files of the folder. -/
theorem Listing.showsFiles (hlisting : Listing platform endsWith dir cpp headers others view) :
    (view.names platform).Nodup ∧
      ShowsFiles endsWith (view.names platform) view.fileExplorer := by
  have hnames : view.names platform = folderNames platform dir view.workspace.disk := by
    rw [ProjectView.names, hlisting.folder]
  have hkinds : ∀ wanted, (cpp ++ headers.getD [] ++ others).filter
      (fileKind endsWith · = wanted) =
        (if .cpp = wanted then cpp else []) ++ (if .header = wanted then headers.getD [] else []) ++
          if .other = wanted then others else [] := by
    intro wanted
    rw [List.filter_append, List.filter_append, filter_of_kind hlisting.cppFiles,
      filter_of_kind hlisting.headerFiles, filter_of_kind hlisting.otherFiles]
  have hperm := fun wanted ↦
    (hkinds wanted ▸ hlisting.files.filter (fileKind endsWith · = wanted) :)
  rw [hnames]
  refine ⟨hlisting.distinct.nodup, _, [item cppHeader (cpp.map fileItem)],
    (headers.map fun names ↦ item headerHeader (names.map fileItem)).toList, cpp,
    headers.getD [], others, hlisting.tree, ?_, .inl rfl, ?_, ?_, ?_, ?_,
    fun name hname ↦ (hlisting.listable name hname).2⟩
  · rfl
  · cases headers with
    | none => exact .inr ⟨rfl, rfl⟩
    | some names => exact .inl rfl
  · simpa using hperm .cpp
  · simpa using hperm .header
  · simpa using hperm .other

/-- Where the explorer looks for the category of the header files. -/
theorem Listing.secondHeader_eq
    (hlisting : Listing platform endsWith dir cpp headers others view) :
    secondHeader view.fileExplorer =
      if headers.isSome then some headerHeader else others.head? := by
  rw [hlisting.tree]
  cases headers with
  | none => cases others <;> rfl
  | some names => rfl

/-- No file is listed under the name of a category. -/
theorem Listing.ne_headerHeader
    (hlisting : Listing platform endsWith dir cpp headers others view) :
    ∀ name ∈ others, name ≠ headerHeader :=
  fun name hname ↦ (hlisting.listable name
    (hlisting.files.subset (List.mem_append_right _ hname))).2.2

/-- The folder and the explorer may change as long as the names stay. -/
theorem Listing.congr (hlisting : Listing platform endsWith dir cpp headers others view)
    (hfolder : next.workspace.filesPath = dir) (htree : next.fileExplorer = view.fileExplorer)
    (hdisk : ListedDisk platform dir next.workspace.disk)
    (hnames : folderNames platform dir next.workspace.disk =
      folderNames platform dir view.workspace.disk) :
    Listing platform endsWith dir cpp headers others next where
  folder := hfolder
  disk := hdisk
  tree := htree.trans hlisting.tree
  files := hnames ▸ hlisting.files
  distinct := hnames ▸ hlisting.distinct
  listable := hnames ▸ hlisting.listable
  cppFiles := hlisting.cppFiles
  headerFiles := hlisting.headerFiles
  otherFiles := hlisting.otherFiles

/-- A name appended to one part of a list is appended to the list, up to order. -/
theorem perm_append_insert (name : Text) (front back : List Text) :
    (front ++ [name] ++ back).Perm (front ++ back ++ [name]) := by
  rw [List.append_assoc, List.append_assoc]
  exact ((List.perm_append_singleton name back).symm).append_left front

/-- A new file is created and added to the explorer. -/
theorem Listing.add (hlaws : FolderLaws platform dir)
    (hlisting : Listing platform endsWith dir cpp headers others view)
    (hname : ListableName fileName)
    (hnew : ∀ name ∈ folderNames platform dir view.workspace.disk,
      name.map platform.upCase ≠ fileName.map platform.upCase)
    (hplace : fileKind endsWith fileName = .header → headers.isSome ∨ others = [])
    (hfolder : next.workspace.filesPath = dir)
    (htree : next.fileExplorer = addFile endsWith view.fileExplorer fileName)
    (hdisk : next.workspace.disk =
      platform.writeFile view.workspace.disk (pathCombine dir fileName) []) :
    folderNames platform dir next.workspace.disk =
        folderNames platform dir view.workspace.disk ++ [fileName] ∧
      ∃ cpp' headers' others', Listing platform endsWith dir cpp' headers' others' next ∧
        (headers'.isSome ↔ headers.isSome ∨ fileKind endsWith fileName = .header) ∧
        (others' = [] ↔ others = [] ∧ fileKind endsWith fileName ≠ .other) := by
  have habsent : platform.fileExists view.workspace.disk (pathCombine dir fileName) = false := by
    rw [← Bool.not_eq_true, fileExists_iff_listed hlaws hlisting.disk hname.1.plain]
    rintro ⟨name, hmem, hsame⟩
    exact hnew name hmem hsame.symm
  obtain ⟨hnames, hlisted⟩ := folderNames_create hlaws hlisting.disk hname.1 habsent
  rw [← hdisk] at hnames hlisted
  refine ⟨hnames, ?_⟩
  have hdistinct : DifferByMoreThanCase platform
      (folderNames platform dir next.workspace.disk) := by
    rw [hnames]
    refine List.pairwise_append.mpr ⟨hlisting.distinct, List.pairwise_singleton .., ?_⟩
    intro name hmem other hother
    rw [List.mem_singleton.mp hother]
    exact hnew name hmem
  have hlistable : ∀ name ∈ folderNames platform dir next.workspace.disk, ListableName name := by
    rw [hnames]
    intro name hmem
    rcases List.mem_append.mp hmem with hold | hadded
    · exact hlisting.listable name hold
    · rw [List.mem_singleton.mp hadded]
      exact hname
  have hperm := hlisting.files.append_right [fileName]
  rw [← hnames] at hperm
  have hall : ∀ {names : List Text} {kind : FileKind},
      (∀ name ∈ names, fileKind endsWith name = kind) → fileKind endsWith fileName = kind →
        ∀ name ∈ names ++ [fileName], fileKind endsWith name = kind := by
    intro names kind hnames hkind name hmem
    rcases List.mem_append.mp hmem with hold | hadded
    · exact hnames name hold
    · rw [List.mem_singleton.mp hadded, hkind]
  rw [hlisting.tree] at htree
  cases hkind : fileKind endsWith fileName with
  | cpp =>
    rw [addFile_cpp hkind] at htree
    refine ⟨_, _, _, ⟨hfolder, hlisted, htree, ?_, hdistinct, hlistable,
      hall hlisting.cppFiles hkind, hlisting.headerFiles, hlisting.otherFiles⟩, by simp,
      by simp⟩
    refine List.Perm.trans ?_ hperm
    simpa using perm_append_insert fileName cpp (headers.getD [] ++ others)
  | header =>
    cases headers with
    | some names =>
      rw [addFile_header hkind] at htree
      refine ⟨_, _, _, ⟨hfolder, hlisted, htree, ?_, hdistinct, hlistable, hlisting.cppFiles,
        hall hlisting.headerFiles hkind, hlisting.otherFiles⟩, by simp, by simp⟩
      refine List.Perm.trans ?_ hperm
      simpa using perm_append_insert fileName (cpp ++ names) others
    | none =>
      obtain rfl : others = [] := by simpa using hplace hkind
      rw [addFile_firstHeader hkind] at htree
      refine ⟨_, _, _, ⟨hfolder, hlisted, htree, ?_, hdistinct, hlistable, hlisting.cppFiles,
        by simpa using hkind, hlisting.otherFiles⟩, by simp, by simp⟩
      simpa using hperm
  | other =>
    rw [addFile_other hkind] at htree
    refine ⟨_, _, _, ⟨hfolder, hlisted, htree, ?_, hdistinct, hlistable, hlisting.cppFiles,
      hlisting.headerFiles, hall hlisting.otherFiles hkind⟩, by simp, by simp⟩
    simpa using hperm

/-- Two listed names denote different files. -/
theorem Listing.identity_ne (hlaws : FolderLaws platform dir)
    (hlisting : Listing platform endsWith dir cpp headers others view) {name other : Text}
    (hname : name ∈ folderNames platform dir view.workspace.disk)
    (hother : other ∈ folderNames platform dir view.workspace.disk) :
    platform.identity (pathCombine dir name) ≠ platform.identity (pathCombine dir other) ↔
      name ≠ other := by
  refine not_congr ⟨fun hsame ↦ ?_, fun heq ↦ by rw [heq]⟩
  rw [hlaws.identity_eq (hlisting.listable other hother).1.plain,
    hlaws.identity_eq_iff (hlisting.listable name hname).1.plain] at hsame
  by_contra hne
  have hsymm : Std.Symm fun name other : Text ↦
      name.map platform.upCase ≠ other.map platform.upCase := ⟨fun _ _ hdiffer ↦ hdiffer.symm⟩
  exact hlisting.distinct.forall hname hother hne hsame

/-- A listed file is removed from the explorer with its item. -/
theorem Listing.erase (hlisting : Listing platform endsWith dir cpp headers others view)
    (hname : fileName ∈ folderNames platform dir view.workspace.disk)
    (hfolder : next.workspace.filesPath = dir)
    (htree : next.fileExplorer = removeFileFromTreeView view.fileExplorer fileName)
    (hdisk : ListedDisk platform dir next.workspace.disk)
    (hnames : folderNames platform dir next.workspace.disk =
      (folderNames platform dir view.workspace.disk).erase fileName) :
    ∃ cpp' headers' others', Listing platform endsWith dir cpp' headers' others' next ∧
      headers'.isSome = headers.isSome := by
  obtain ⟨-, hcpp, hheader⟩ := hlisting.listable fileName hname
  have hperm := hlisting.files.erase fileName
  rw [← hnames] at hperm
  have hdistinct : DifferByMoreThanCase platform
      (folderNames platform dir next.workspace.disk) := by
    rw [hnames]
    exact hlisting.distinct.sublist List.erase_sublist
  have hlistable : ∀ name ∈ folderNames platform dir next.workspace.disk, ListableName name := by
    rw [hnames]
    exact fun name hmem ↦ hlisting.listable name (List.mem_of_mem_erase hmem)
  rw [hlisting.tree, removeFileFromTreeView_explorerTree hcpp hheader] at htree
  split_ifs at htree with hinCpp hinHeaders
  · refine ⟨_, _, _, ⟨hfolder, hdisk, htree, ?_, hdistinct, hlistable,
      fun name hmem ↦ hlisting.cppFiles name (List.mem_of_mem_erase hmem),
      hlisting.headerFiles, hlisting.otherFiles⟩, rfl⟩
    rw [List.append_assoc, List.erase_append_left _ hinCpp, ← List.append_assoc] at hperm
    exact hperm
  · have hsame : (headers.map (·.erase fileName)).getD [] = (headers.getD []).erase fileName := by
      cases headers <;> rfl
    refine ⟨_, _, _, ⟨hfolder, hdisk, htree, ?_, hdistinct, hlistable, hlisting.cppFiles,
      fun name hmem ↦ hlisting.headerFiles name (List.mem_of_mem_erase (hsame ▸ hmem)),
      hlisting.otherFiles⟩, Option.isSome_map⟩
    rw [List.append_assoc, List.erase_append_right _ hinCpp, List.erase_append_left _ hinHeaders,
      ← List.append_assoc] at hperm
    rw [hsame]
    exact hperm
  · refine ⟨_, _, _, ⟨hfolder, hdisk, htree, ?_, hdistinct, hlistable, hlisting.cppFiles,
      hlisting.headerFiles, fun name hmem ↦ hlisting.otherFiles name
        (List.mem_of_mem_erase hmem)⟩, rfl⟩
    rw [List.append_assoc, List.erase_append_right _ hinCpp, List.erase_append_right _ hinHeaders,
      ← List.append_assoc] at hperm
    exact hperm

/-- `removeFile`, given a listed name or the path of no file of the folder. -/
theorem Listing.removeFile (hlaws : FolderLaws platform dir)
    (hlisting : Listing platform endsWith dir cpp headers others view)
    (hgiven : fileName ∈ folderNames platform dir view.workspace.disk ∨
      ∀ name ∈ folderNames platform dir view.workspace.disk,
        platform.identity (pathCombine dir name) ≠ platform.identity (pathCombine dir fileName)) :
    let next := view.removeFile platform allAllowed fileName
    folderNames platform dir next.workspace.disk =
        (folderNames platform dir view.workspace.disk).erase fileName ∧
      ∃ cpp' headers' others', Listing platform endsWith dir cpp' headers' others' next ∧
        headers'.isSome = headers.isSome := by
  intro next
  have hfolder : next.workspace.filesPath = dir :=
    (createsNothing_removeFile platform allAllowed view.workspace fileName).1.trans
      hlisting.folder
  have hdeleted : next.workspace.disk =
      platform.deleteFile view.workspace.disk (pathCombine dir fileName) := by
    rw [← hlisting.folder]
    exact disk_removeFile view.workspace fileName
  obtain ⟨hnames, hdisk⟩ := folderNames_delete hlaws hlisting.disk (pathCombine dir fileName)
  rw [← hdeleted] at hnames hdisk
  have htree : next.fileExplorer =
      if platform.fileExists view.workspace.disk (pathCombine dir fileName) then
        removeFileFromTreeView view.fileExplorer fileName
      else view.fileExplorer := by
    have hallowed : view.workspace.succeeds platform allAllowed
        (.delete (pathCombine dir fileName)) = true := rfl
    simp only [next, ProjectView.removeFile, hlisting.folder, hallowed, Bool.and_true]
  by_cases hlisted : fileName ∈ folderNames platform dir view.workspace.disk
  · have hexists : platform.fileExists view.workspace.disk (pathCombine dir fileName) = true :=
      (fileExists_iff_listed hlaws hlisting.disk
        (hlisting.listable fileName hlisted).1.plain).mpr ⟨fileName, hlisted, rfl⟩
    rw [if_pos hexists] at htree
    have herased : folderNames platform dir next.workspace.disk =
        (folderNames platform dir view.workspace.disk).erase fileName := by
      rw [hnames, hlisting.distinct.nodup.erase_eq_filter]
      refine List.filter_congr fun name hmem ↦ ?_
      by_cases heq : name = fileName
      · simp [heq]
      · simp [(hlisting.identity_ne hlaws hmem hlisted).mpr heq, heq]
    exact ⟨herased, hlisting.erase hlisted hfolder htree hdisk herased⟩
  · have hothers := hgiven.resolve_left hlisted
    have hsame : folderNames platform dir next.workspace.disk =
        folderNames platform dir view.workspace.disk := by
      rw [hnames]
      exact List.filter_eq_self.mpr fun name hmem ↦ by simpa using hothers name hmem
    rw [List.erase_of_not_mem hlisted]
    refine ⟨hsame, cpp, headers, others, hlisting.congr hfolder ?_ hdisk hsame, rfl⟩
    rw [htree]
    split_ifs with hexists
    · -- no item stands for the file, and no category has its name
      have hplain : ∀ title, ValidName title → fileName ≠ title := by
        rintro title htitle rfl
        obtain ⟨name, hmem, hcase⟩ :=
          (fileExists_iff_listed hlaws hlisting.disk htitle.plain).mp hexists
        refine hothers name hmem ?_
        rw [hlaws.identity_eq htitle.plain,
          hlaws.identity_eq_iff (hlisting.listable name hmem).1.plain]
        exact hcase.symm
      have habsent : fileName ∉ cpp ++ headers.getD [] ++ others :=
        fun hmem ↦ hlisted (hlisting.files.subset hmem)
      simp only [List.mem_append, not_or] at habsent
      rw [hlisting.tree, removeFileFromTreeView_explorerTree (hplain _ (by decide))
        (hplain _ (by decide)), if_neg habsent.1.1, if_neg habsent.1.2,
        List.erase_of_not_mem habsent.2]
    · rfl

/-- `setNewFileName`. -/
theorem Listing.setNewFileName (hlaws : FolderLaws platform dir)
    (hlisting : Listing platform endsWith dir cpp headers others view)
    (hgiven : platform.fileExists view.workspace.disk (pathCombine dir fileName) = true ∨
      ListableName fileName ∧
        (platform.fileExists view.workspace.disk view.workspace.currentFilePath = true ∨
          platform.identity view.workspace.currentFilePath =
            platform.identity (pathCombine dir fileName)) ∧
        (fileKind endsWith fileName = .header → headers.isSome ∨ others = [])) :
    ∃ cpp' headers' others', Listing platform endsWith dir cpp' headers' others'
      (view.setNewFileName platform endsWith allAllowed fileName) := by
  cases hexists : platform.fileExists view.workspace.disk (pathCombine dir fileName) with
  | true =>
    refine ⟨cpp, headers, others, hlisting.congr ?_ ?_ ?_ ?_⟩
    all_goals simp only [ProjectView.setNewFileName, Workspace.setNewFileName, hlisting.folder,
      hexists, Bool.not_true, Bool.false_and, Bool.false_eq_true, if_true, if_false]
    exact hlisting.disk
  | false =>
    obtain ⟨hname, hcurrent, hplace⟩ := hgiven.resolve_left (by simp [hexists])
    let created := view.workspace.access platform allAllowed (.create (pathCombine dir fileName))
    obtain ⟨hcreates, hdisk⟩ : _ ∧ created.disk = _ :=
      access_create hlaws.isFolder.ne_nil view.workspace fileName
    have hnew : ∀ name ∈ folderNames platform dir view.workspace.disk,
        name.map platform.upCase ≠ fileName.map platform.upCase := by
      intro name hmem hsame
      have hthere := (fileExists_iff_listed hlaws hlisting.disk hname.1.plain).mpr
        ⟨name, hmem, hsame.symm⟩
      simp [hexists] at hthere
    obtain ⟨-, cpp', headers', others', hadded, -, -⟩ :=
      @Listing.add platform endsWith dir fileName cpp others headers view
        ⟨created, addFile endsWith view.fileExplorer fileName⟩ hlaws hlisting hname hnew hplace
        hlisting.folder rfl hdisk
    have hkept : platform.fileExists created.disk view.workspace.currentFilePath = true := by
      rw [hdisk, fileExists_writeFile, Bool.or_eq_true, decide_eq_true_iff]
      exact hcurrent.symm
    obtain ⟨hnames, hlisted⟩ : folderNames platform dir
        (created.loadNewFile platform allAllowed fileName).disk = _ ∧ _ :=
      folderNames_loadNewFile hadded.disk hkept
    have hworkspace : (view.setNewFileName platform endsWith allAllowed fileName).workspace =
        created.loadNewFile platform allAllowed fileName := by
      simp only [ProjectView.setNewFileName, Workspace.setNewFileName, hlisting.folder, hexists,
        hcreates, Bool.false_eq_true, if_true, if_false]
      rfl
    rw [← hworkspace] at hnames hlisted
    refine ⟨cpp', headers', others', hadded.congr ?_ ?_ hlisted hnames⟩
    · rw [hworkspace]
      exact hlisting.folder
    · simp only [ProjectView.setNewFileName, hlisting.folder, hexists, hcreates, Bool.not_false,
        Bool.true_and, if_true]

/-- The part of `recieveFiles` that removes the old files. -/
theorem Listing.removeAll (hlaws : FolderLaws platform dir) (files : List Text) :
    ∀ {cpp others : List Text} {headers : Option (List Text)} {view : ProjectView},
      Listing platform endsWith dir cpp headers others view →
        folderNames platform dir view.workspace.disk = files.map getFileName →
          ∃ cpp' headers' others', headers'.isSome = headers.isSome ∧
            folderNames platform dir (files.foldl (fun view file ↦
              view.removeFile platform allAllowed (getFileName file)) view).workspace.disk = [] ∧
            Listing platform endsWith dir cpp' headers' others' (files.foldl (fun view file ↦
              view.removeFile platform allAllowed (getFileName file)) view) := by
  induction files with
  | nil => exact fun {cpp others headers _} hlisting hnames ↦
      ⟨cpp, headers, others, rfl, hnames, hlisting⟩
  | cons file files ih =>
    intro cpp others headers view hlisting hnames
    have hlisted : getFileName file ∈ folderNames platform dir view.workspace.disk := by
      simp [hnames]
    obtain ⟨herased, _, _, _, hremoved, hsome⟩ := hlisting.removeFile hlaws (.inl hlisted)
    rw [hnames, List.map_cons, List.erase_cons_head] at herased
    obtain ⟨cpp', headers', others', hsome', hrest⟩ := ih hremoved herased
    exact ⟨cpp', headers', others', hsome'.trans hsome, hrest⟩

/-- Received header files find their category at index 1 of the tree: it is there, or no header
file is received, or the first file received that is not a `.cpp` file is one. -/
def HeadersLead (endsWith : Text → Text → Bool) (headers : Option (List Text))
    (others names : List Text) : Prop :=
  headers.isSome ∨ (∀ name ∈ names, fileKind endsWith name ≠ .header) ∨
    others = [] ∧ (names.find? (fileKind endsWith · ≠ .cpp)).any (fileKind endsWith · = .header)

/-- The first received file finds its category. -/
theorem HeadersLead.head {name : Text} {names : List Text}
    (hlead : HeadersLead endsWith headers others (name :: names))
    (hkind : fileKind endsWith name = .header) : headers.isSome ∨ others = [] := by
  rcases hlead with hsome | hnone | hempty
  · exact .inl hsome
  · exact absurd hkind (hnone name (List.mem_cons_self ..))
  · exact .inr hempty.1

/-- The other received files find theirs after the first one. -/
theorem HeadersLead.tail {name : Text} {names others' : List Text} {headers' : Option (List Text)}
    (hlead : HeadersLead endsWith headers others (name :: names))
    (hheaders : headers'.isSome ↔ headers.isSome ∨ fileKind endsWith name = .header)
    (hothers : others' = [] ↔ others = [] ∧ fileKind endsWith name ≠ .other) :
    HeadersLead endsWith headers' others' names := by
  unfold HeadersLead at hlead ⊢
  cases hkind : fileKind endsWith name with
  | cpp =>
    simp only [hkind, reduceCtorEq, or_false, ne_eq, not_false_eq_true, and_true]
      at hheaders hothers
    rw [hheaders, hothers]
    simpa [hkind] using hlead
  | header => exact .inl (hheaders.mpr (.inr hkind))
  | other =>
    rcases hlead with hsome | hnone | ⟨-, hfirst⟩
    · exact .inl (hheaders.mpr (.inl hsome))
    · exact .inr (.inl fun other hother ↦ hnone other (List.mem_cons_of_mem _ hother))
    · simp [hkind] at hfirst

/-- The part of `recieveFiles` that creates the received files. -/
theorem Listing.createReceived (hlaws : FolderLaws platform dir) (files : List Text) :
    ∀ {cpp others : List Text} {headers : Option (List Text)} {view : ProjectView},
      Listing platform endsWith dir cpp headers others view →
        (∀ name ∈ files.map getFileName, ListableName name) →
        DifferByMoreThanCase platform
          (folderNames platform dir view.workspace.disk ++ files.map getFileName) →
        HeadersLead endsWith headers others (files.map getFileName) →
          ∃ cpp' headers' others', Listing platform endsWith dir cpp' headers' others'
            (view.createReceived platform endsWith allAllowed files) := by
  induction files with
  | nil => exact fun {cpp others headers _} hlisting _ _ _ ↦ ⟨cpp, headers, others, hlisting⟩
  | cons file files ih =>
    intro cpp others headers view hlisting hlistable hdistinct hlead
    obtain ⟨hcreates, hdisk⟩ :=
      access_create hlaws.isFolder.ne_nil view.workspace (getFileName file)
    let created := view.workspace.access platform allAllowed
      (.create (pathCombine dir (getFileName file)))
    rw [List.map_cons] at hlistable hdistinct hlead
    obtain ⟨hlisted, hreceived, hacross⟩ := List.pairwise_append.mp hdistinct
    obtain ⟨hnames, cpp', headers', others', hadded, hheaders, hothers⟩ :=
      @Listing.add platform endsWith dir (getFileName file) cpp others headers view
        ⟨created, addFile endsWith view.fileExplorer (getFileName file)⟩ hlaws hlisting
        (hlistable _ (List.mem_cons_self ..))
        (fun name hname ↦ hacross name hname _ (List.mem_cons_self ..)) hlead.head
        hlisting.folder rfl hdisk
    obtain ⟨_, _, _, hrest⟩ := ih hadded
      (fun name hname ↦ hlistable name (List.mem_cons_of_mem _ hname))
      (by rw [hnames, List.append_assoc]; exact hdistinct) (hlead.tail hheaders hothers)
    simp only [ProjectView.createReceived, hlisting.folder, hcreates, if_true]
    exact ⟨_, _, _, hrest⟩

/-- `recieveFiles`. -/
theorem Listing.recieveFiles (hlaws : FolderLaws platform dir)
    (hlisting : Listing platform endsWith dir cpp headers others view) {filesDict : Files}
    (hlistable : ∀ name ∈ filesDict.map fun file ↦ getFileName file.1, ListableName name)
    (hdistinct : DifferByMoreThanCase platform (filesDict.map fun file ↦ getFileName file.1))
    (hlead : HeadersLead endsWith headers [] (filesDict.map fun file ↦ getFileName file.1)) :
    ∃ cpp' headers' others', Listing platform endsWith dir cpp' headers' others'
      (view.recieveFiles platform endsWith allAllowed filesDict) := by
  have hmap : (filesDict.map Prod.fst).map getFileName =
      filesDict.map fun file ↦ getFileName file.1 := by
    rw [List.map_map]
    rfl
  rw [← hmap] at hlistable hdistinct hlead
  obtain ⟨cpp', headers', others', hsome, hempty, hremoved⟩ :=
    hlisting.removeAll hlaws (platform.getFiles view.workspace.disk dir) rfl
  have hothers : others' = [] := by
    have hnil := (hempty ▸ hremoved.files).eq_nil
    simp only [List.append_eq_nil_iff] at hnil
    exact hnil.2
  simp only [ProjectView.recieveFiles, hlisting.folder]
  refine hremoved.createReceived hlaws _ hlistable (by rw [hempty]; exact hdistinct) ?_
  unfold HeadersLead at hlead ⊢
  rw [hsome, hothers]
  exact hlead

/-- At index 1 of the tree there is the category of the header files exactly when it exists. -/
theorem Listing.isSome_of_secondHeader
    (hlisting : Listing platform endsWith dir cpp headers others view)
    (hsecond : secondHeader view.fileExplorer = some headerHeader) : headers.isSome = true := by
  rw [hlisting.secondHeader_eq] at hsecond
  by_contra hnone
  rw [if_neg hnone] at hsecond
  exact hlisting.ne_headerHeader _ (List.mem_of_mem_head? hsecond) rfl

/-- A step that keeps the explorer and the folder together. -/
theorem Listing.step (hlaws : FolderLaws platform dir)
    (hlisting : Listing platform endsWith dir cpp headers others view) {event : ViewEvent}
    (hkeeps : KeepsListing platform endsWith ⟨view, event, (), next⟩)
    (hstep : viewStep platform endsWith view event = some (next, ())) :
    ∃ cpp' headers' others', Listing platform endsWith dir cpp' headers' others' next := by
  unfold viewStep at hstep
  split_ifs at hstep
  unfold KeepsListing at hkeeps
  cases event with
  | setNewFileName fileName =>
    cases hstep
    dsimp only at hkeeps
    rw [hlisting.folder] at hkeeps
    refine hlisting.setNewFileName hlaws (hkeeps.imp_right fun ⟨hname, hcurrent, hplace⟩ ↦
      ⟨hname, hcurrent, fun hkind ↦ ?_⟩)
    rcases hplace hkind with hnone | hsecond
    · rw [hlisting.secondHeader_eq] at hnone
      split_ifs at hnone
      exact .inr (List.head?_eq_none_iff.mp hnone)
    · exact .inl (hlisting.isSome_of_secondHeader hsecond)
  | removeFile fileName =>
    cases hstep
    simp only [ProjectView.names, hlisting.folder] at hkeeps
    obtain ⟨-, cpp', headers', others', hremoved, -⟩ := hlisting.removeFile hlaws hkeeps
    exact ⟨cpp', headers', others', hremoved⟩
  | recieveFiles filesDict =>
    cases hstep
    obtain ⟨hlistable, hdistinct, hlead⟩ := hkeeps
    refine hlisting.recieveFiles hlaws hlistable hdistinct ?_
    exact hlead.imp hlisting.isSome_of_secondHeader (Or.imp_right fun hfirst ↦ ⟨rfl, hfirst⟩)

/-- Assumes: the laws of the folder, a folder that holds the source file of the project and no other
file, an explorer without files, and a run whose steps keep the explorer and the folder together.
The explorer shows the files of the folder, each once. -/
theorem showsFiles_of_run {workspace : Workspace} {fileExplorer : List TreeViewItem}
    {projectName : Text} {history : List ViewRecord} (hlaws : FolderLaws platform dir)
    (hdisk : ListedDisk platform dir workspace.disk)
    (hsource : folderNames platform dir workspace.disk = [projectName ++ str ".cpp"])
    (hkind : fileKind endsWith (projectName ++ str ".cpp") = .cpp)
    (hempty : fileExplorer = [] ∨ fileExplorer = [item filesHeader []])
    (hrun : Run (viewStep platform endsWith)
      (ProjectView.setProjectDetails endsWith ⟨workspace, fileExplorer⟩ dir projectName)
      history view)
    (hkeeps : EveryStep (fun _ record ↦ KeepsListing platform endsWith record) history) :
    (view.names platform).Nodup ∧
      ShowsFiles endsWith (view.names platform) view.fileExplorer := by
  have hnotCategory : ∀ title, ¬ str ".cpp" <:+ title → projectName ++ str ".cpp" ≠ title := by
    rintro title hends rfl
    exact hends (List.suffix_append ..)
  have hvalid : ValidName (projectName ++ str ".cpp") :=
    validName_of_mem hlaws hdisk (by rw [hsource]; exact List.mem_singleton_self _)
  have hopened : Listing platform endsWith dir [projectName ++ str ".cpp"] none []
      (ProjectView.setProjectDetails endsWith ⟨workspace, fileExplorer⟩ dir projectName) := by
    have hnames : folderNames platform dir (ProjectView.setProjectDetails endsWith
        ⟨workspace, fileExplorer⟩ dir projectName).workspace.disk =
          [projectName ++ str ".cpp"] := hsource
    refine ⟨rfl, hdisk, addFile_empty hkind hempty, ?_, ?_, ?_, by simpa using hkind, by simp,
      by simp⟩
    · rw [hnames]
      exact List.Perm.refl _
    · rw [hnames]
      exact List.pairwise_singleton ..
    · intro name hname
      rw [hnames, List.mem_singleton] at hname
      rw [hname]
      exact ⟨hvalid, hnotCategory _ (by decide), hnotCategory _ (by decide)⟩
  have hkept : ∃ cpp headers others,
      Listing platform endsWith dir cpp headers others view := by
    refine hrun.relation_of_everyStep
      (fun _ view ↦ ∃ cpp headers others, Listing platform endsWith dir cpp headers others view)
      ⟨_, _, _, hopened⟩ ?_ hkeeps
    rintro history view event next observation - ⟨cpp, headers, others, hlisting⟩ hkeeps hstep
    exact hlisting.step hlaws hkeeps hstep
  obtain ⟨cpp, headers, others, hlisting⟩ := hkept
  exact hlisting.showsFiles

end Steps

/-! ### A header file behind another file -/

/-- `String.EndsWith` for texts of which no culture ignores a character. -/
def endsWithOrdinal (text ending : Text) : Bool := ending.isSuffixOf text

/-- A folder with the source file of a new project. -/
def newProject : Workspace where
  disk := [⟨str "C:\\p\\a.cpp", []⟩]

theorem folderLaws_newProject : FolderLaws asciiPlatform (str "C:\\p") :=
  folderLaws_asciiPlatform _ (isFolderPath_drive (by decide) (str "p"))

theorem listedDisk_newProject :
    ListedDisk asciiPlatform (str "C:\\p") newProject.disk := by
  intro file hfile
  obtain rfl := List.mem_singleton.mp hfile
  exact .inl ⟨str "a.cpp", by decide, by decide⟩

/-- A header file, another file and files received after them are shown. -/
theorem showsFiles_of_run_header : ∃ history view,
    Run (viewStep asciiPlatform endsWithOrdinal)
      (ProjectView.setProjectDetails endsWithOrdinal ⟨newProject, [item filesHeader []]⟩
        (str "C:\\p") (str "a")) history view ∧
      view.names asciiPlatform = [str "c.h", str "notes.txt"] ∧
      (view.names asciiPlatform).Nodup ∧
        ShowsFiles endsWithOrdinal (view.names asciiPlatform) view.fileExplorer := by
  obtain ⟨history, view, hrun, -, hcheck⟩ := exists_run_of_execute
    (viewStep asciiPlatform endsWithOrdinal)
    (ProjectView.setProjectDetails endsWithOrdinal ⟨newProject, [item filesHeader []]⟩
      (str "C:\\p") (str "a"))
    [.setNewFileName (str "b.h"), .setNewFileName (str "notes.txt"), .removeFile (str "a.cpp"),
      .recieveFiles [(str "c.h", []), (str "notes.txt", [])]]
    (fun history view ↦ view.names asciiPlatform = [str "c.h", str "notes.txt"] ∧
      EveryStep (fun _ record ↦ KeepsListing asciiPlatform endsWithOrdinal record) history)
    (by decide +kernel)
  obtain ⟨hnames, hkeeps⟩ := of_decide_eq_true hcheck
  exact ⟨history, view, hrun, hnames, showsFiles_of_run folderLaws_newProject
    listedDisk_newProject (by decide +kernel) (by decide +kernel) (.inr rfl) hrun hkeeps⟩

/-- An explorer that shows files has items below those of the categories only. -/
theorem ShowsFiles.categories {endsWith : Text → Text → Bool} {names : List Text}
    {fileExplorer : List TreeViewItem} (hshows : ShowsFiles endsWith names fileExplorer) :
    ∀ root ∈ fileExplorer, ∀ child ∈ root.items,
      child.items = [] ∨ child.header = cppHeader ∨ child.header = headerHeader := by
  obtain ⟨children, cppItems, headerItems, cpp, headers, others, rfl, hperm, hcpp, hheader, -⟩ :=
    hshows
  intro root hroot child hchild
  rw [List.mem_singleton.mp hroot] at hchild
  have hmem := hperm.subset hchild
  simp only [List.mem_append, List.mem_map] at hmem
  rcases hmem with (hmem | hmem) | ⟨name, -, rfl⟩
  · rcases hcpp with rfl | ⟨-, rfl⟩
    · rw [List.mem_singleton.mp hmem]
      exact .inr (.inl rfl)
    · cases hmem
  · rcases hheader with rfl | ⟨-, rfl⟩
    · rw [List.mem_singleton.mp hmem]
      exact .inr (.inr rfl)
    · cases hmem
  · exact .inl rfl

/-- The first header file is added below another file. -/
theorem not_showsFiles_of_run :
    ¬ ∀ platform endsWith dir workspace fileExplorer projectName history view,
      FolderLaws platform dir → ListedDisk platform dir workspace.disk →
        folderNames platform dir workspace.disk = [projectName ++ str ".cpp"] →
          fileKind endsWith (projectName ++ str ".cpp") = .cpp →
            (fileExplorer = [] ∨ fileExplorer = [item filesHeader []]) →
              Run (viewStep platform endsWith)
                (ProjectView.setProjectDetails endsWith ⟨workspace, fileExplorer⟩ dir projectName)
                history view →
                  ShowsFiles endsWith (view.names platform) view.fileExplorer := by
  intro hall
  obtain ⟨history, view, hrun, -, hcheck⟩ := exists_run_of_execute
    (viewStep asciiPlatform endsWithOrdinal)
    (ProjectView.setProjectDetails endsWithOrdinal ⟨newProject, [item filesHeader []]⟩
      (str "C:\\p") (str "a"))
    [.setNewFileName (str "notes.txt"), .setNewFileName (str "b.h")]
    (fun _ view ↦ view.fileExplorer.any fun root ↦ root.items.any fun child ↦
      child.header = str "notes.txt" ∧ child.items.length = 1) (by decide +kernel)
  have hshows := hall _ _ _ _ _ _ history view folderLaws_newProject listedDisk_newProject
    (by decide +kernel) (by decide +kernel) (.inr rfl) hrun
  obtain ⟨root, hroot, hcheck⟩ := List.any_eq_true.mp hcheck
  obtain ⟨child, hchild, hcheck⟩ := List.any_eq_true.mp hcheck
  obtain ⟨hheader, hitems⟩ := of_decide_eq_true hcheck
  rcases hshows.categories root hroot child hchild with hnone | hcpp | hheaders
  · simp [hnone] at hitems
  · exact absurd (hheader.symm.trans hcpp) (by decide)
  · exact absurd (hheader.symm.trans hheaders) (by decide)

end NovaIde.Client
