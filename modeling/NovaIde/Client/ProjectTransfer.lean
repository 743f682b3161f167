import NovaIde.Client.EditorSteps
import NovaIde.Client.FileNames

/-!
# The transfer of a project

When a member joins, the host reads all files of its folder (`buildFiles_eq`) and sends them in one
message; the member removes the files of its own folder, creates the received ones and writes their
contents.

The transfer is exact for the folders that `Transferable` describes and for no others
(`transfersExactly_iff`): the message is read back with another encoding than it is written in,
nothing protects a separator inside a content or at its end, and an empty content is sent as the
digit zero.
-/

set_option autoImplicit false
set_option relaxedAutoImplicit false

namespace NovaIde.Client

open Foundation

/-! ### Folders -/

/-- The names and contents of the files of a folder, as they are stored. -/
def folderFiles (dir : Text) (disk : Disk) : Files :=
  disk.filterMap fun file ↦
    let name := file.path.drop (folderPrefix dir).length
    if folderPrefix dir <+: file.path ∧ HasNoSeparator name then some (name, file.content) else none

/-- What the file system does with the paths of a folder: full paths of plain names stay as they
are, and the characters that take part in the transfer differ from all others. -/
structure FolderLaws (platform : Platform) (dir : Text) : Prop where
  isFolder : IsFolderPath dir
  fullPath_plain : ∀ name, PlainName name →
    platform.fullPath (pathCombine dir name) = pathCombine dir name
  upCase_mark : ∀ char mark, mark = bar ∨ mark = unit '?' →
    platform.upCase char = platform.upCase mark → char = mark

/-- The files that a folder can hold: their names are valid and differ in more than case. -/
structure FolderNames (platform : Platform) (files : Files) : Prop where
  valid : ∀ file ∈ files, ValidName file.1
  distinct : files.Pairwise fun file other ↦
    file.1.map platform.upCase ≠ other.1.map platform.upCase

/-- A file in the folder, under a valid name. -/
def StoredIn (dir : Text) (file : StoredFile) : Prop :=
  ∃ name, ValidName name ∧ file.path = folderPrefix dir ++ name

/-- A file that is not in the folder, and that no name in the folder reaches. -/
structure StoredElsewhere (platform : Platform) (dir : Text) (file : StoredFile) : Prop where
  notReached : ∀ name, PlainName name → platform.denotes (pathCombine dir name) file = false
  notInside : ∀ name, HasNoSeparator name → file.path ≠ folderPrefix dir ++ name

/-- A disk on which every file is in the folder or elsewhere. -/
def FolderDisk (platform : Platform) (dir : Text) (disk : Disk) : Prop :=
  ∀ file ∈ disk, StoredIn dir file ∨ StoredElsewhere platform dir file

/-- A file that the folder does not list, and that no plain name reaches. -/
structure HiddenFile (platform : Platform) (dir : Text) (file : StoredFile) : Prop where
  notListed : platform.denotes (pathCombine dir (getFileName file.path)) file = false
  notReached : ∀ name, PlainName name → platform.denotes (pathCombine dir name) file = false

/-- A disk on which every file is in the folder under a valid name, or hidden from it. -/
def ListedDisk (platform : Platform) (dir : Text) (disk : Disk) : Prop :=
  ∀ file ∈ disk, StoredIn dir file ∨ HiddenFile platform dir file

/-! ### Exact transfers -/

/-- With all operations on files succeeding, the member gets the message that the host sends, and
its folder then holds the files that are stored in the host's folder, with their names and contents,
and nothing else. -/
def TransfersExactly (platform : Platform) (host member : Workspace) : Prop :=
  ∃ files filesDict, host.buildFiles platform allAllowed = some files ∧
    filesReceived (sendFiles files) = some filesDict ∧
    (folderFiles member.filesPath
      (member.receiveProject platform allAllowed filesDict).disk).Perm
        (folderFiles host.filesPath host.disk)

/-- Folders whose transfer is exact: everything is ASCII, no content is empty or holds the
separator, and no content but the last one ends with the character of the separator. -/
structure Transferable (files : Files) : Prop where
  ascii : ∀ file ∈ files, IsAscii file.1 ∧ IsAscii file.2
  content : ∀ file ∈ files, file.2 ≠ [] ∧ ¬ fileSeparator <:+: file.2
  ending : ∀ file ∈ files.dropLast, file.2.getLast? ≠ some bar

/-! ### What the member receives -/

/-- A separator cuts the text that arrives. -/
theorem asReceived_append_separator (text rest : Text) :
    asReceived (text ++ (fileSeparator ++ rest)) =
      asReceived text ++ (fileSeparator ++ asReceived rest) := by
  have hcut : fileSeparator ++ rest = bar :: (List.replicate 2 bar ++ rest) := rfl
  rw [hcut, asReceived_append_cons (by decide), asReceived_append_of_ascii (by decide)]
  rfl

/-- Names and contents arrive each on its own. -/
theorem asReceived_append_messageBody (text : Text) (entries : Files) :
    asReceived (text ++ messageBody entries) = asReceived text ++
      messageBody (entries.map fun entry ↦ (asReceived entry.1, asReceived entry.2)) := by
  induction entries generalizing text with
  | nil => simp [messageBody]
  | cons entry rest ih =>
    have hbody : text ++ messageBody (entry :: rest) =
        text ++
          (fileSeparator ++ (entry.1 ++ (fileSeparator ++ (entry.2 ++ messageBody rest)))) := by
      simp [messageBody]
    rw [hbody, asReceived_append_separator, asReceived_append_separator, ih]
    simp [messageBody]

/-- The names and contents of a message as they arrive. -/
def arrivingEntries (files : Files) : Files :=
  files.map fun file ↦ (asReceived file.1, asReceived (writtenContent file.2))

/-- The message as it arrives. -/
theorem asReceived_filesMessage (files : Files) :
    asReceived (filesMessage files) =
      FILES_IDENTIFIER :: messageBody (arrivingEntries files) := by
  have harrives := asReceived_append_messageBody [FILES_IDENTIFIER]
    (files.map fun file ↦ (file.1, writtenContent file.2))
  rw [List.singleton_append, ← filesMessage_eq, List.map_map] at harrives
  exact harrives

/-- What the member reads from the datagram. -/
theorem filesReceived_sendFiles (files : Files) :
    filesReceived (sendFiles files) =
      receiveAndParseMessage (FILES_IDENTIFIER :: messageBody (arrivingEntries files)) := by
  have hmessage : asciiGetString (sendFiles files) =
      FILES_IDENTIFIER :: messageBody (arrivingEntries files) := asReceived_filesMessage files
  rw [filesReceived, listenerAction, hmessage]
  rfl

/-- What is written for a content is not empty. -/
theorem writtenContent_ne_nil (content : Text) : writtenContent content ≠ [] := by
  unfold writtenContent
  split_ifs with hempty
  · decide
  · exact hempty

/-! ### What the operations do to the disk -/

section Disks

variable {platform : Platform} {disk : Disk} {dir path content : Text}

/-- A property of every file is kept by a write that keeps it where it writes. -/
theorem forall_mem_writeFile {property : StoredFile → Prop}
    (hall : ∀ file ∈ disk, property file)
    (hover : ∀ file ∈ disk, platform.denotes path file = true → property { file with content })
    (hnew : property ⟨platform.fullPath path, content⟩) :
    ∀ file ∈ platform.writeFile disk path content, property file := by
  intro file hfile
  unfold Platform.writeFile at hfile
  split_ifs at hfile
  · obtain ⟨old, hold, rfl⟩ := List.mem_map.mp hfile
    split_ifs with hpath
    · exact hover old hold hpath
    · exact hall old hold
  · rcases List.mem_append.mp hfile with hold | hadded
    · exact hall file hold
    · rw [List.mem_singleton.mp hadded]
      exact hnew

/-- A write to a path that no file has adds a file. -/
theorem writeFile_of_absent (habsent : ∀ file ∈ disk, platform.denotes path file = false) :
    platform.writeFile disk path content = disk ++ [⟨platform.fullPath path, content⟩] := by
  rw [Platform.writeFile, if_neg]
  simpa [Platform.fileExists] using habsent

/-- A write to the path of one file changes that file. -/
theorem writeFile_middle {front back : Disk} {file : StoredFile}
    (hfile : platform.denotes path file = true)
    (hfront : ∀ other ∈ front, platform.denotes path other = false)
    (hback : ∀ other ∈ back, platform.denotes path other = false) :
    platform.writeFile (front ++ file :: back) path content =
      front ++ { file with content } :: back := by
  have hkept : ∀ files : Disk, (∀ other ∈ files, platform.denotes path other = false) →
      files.map (fun file ↦ if platform.denotes path file then { file with content } else file) =
        files := by
    intro files hall
    refine (List.map_congr_left fun other hother ↦ ?_).trans (List.map_id files)
    rw [hall other hother]
    rfl
  have hexists : platform.fileExists (front ++ file :: back) path = true := by
    simp [Platform.fileExists, hfile]
  rw [Platform.writeFile, if_pos hexists, List.map_append, List.map_cons, hkept front hfront,
    hkept back hback, hfile, if_pos rfl]

variable {workspace : Workspace}

/-- With everything allowed, a file is deleted; one that is not there need not be. -/
theorem disk_afterDelete (workspace : Workspace) (filePath : Text) :
    (afterDelete platform allAllowed workspace filePath).disk =
      platform.deleteFile workspace.disk filePath := by
  unfold afterDelete
  split_ifs with hexists
  · rfl
  · refine (List.filter_eq_self.mpr fun file hfile ↦ ?_).symm
    have hother : platform.denotes filePath file = false := by
      simp only [Platform.fileExists, List.any_eq_true, not_exists, not_and,
        Bool.not_eq_true] at hexists
      exact hexists file hfile
    rw [hother]
    rfl

/-- Loading a file leaves the disk alone. -/
theorem disk_loadFileIntoIDE (workspace : Workspace) (fileName : Text) :
    (workspace.loadFileIntoIDE platform allAllowed fileName).disk = workspace.disk := by
  obtain ⟨_, -, -, hdisk, -⟩ := loadFileIntoIDE_cases platform allAllowed workspace fileName
  exact hdisk

/-- With everything allowed, a file can be created in a folder. -/
theorem access_create (hdir : dir ≠ []) (workspace : Workspace) (name : Text) :
    workspace.succeeds platform allAllowed (.create (pathCombine dir name)) = true ∧
      (workspace.access platform allAllowed (.create (pathCombine dir name))).disk =
        platform.writeFile workspace.disk (pathCombine dir name) [] := by
  have hsucceeds : workspace.succeeds platform allAllowed
      (.create (pathCombine dir name)) = true := by
    simp [Workspace.succeeds, allAllowed, pathCombine_ne_nil hdir]
  exact ⟨hsucceeds, by simp only [Workspace.access, hsucceeds, if_true]⟩

/-- With everything allowed, a file can be written in a folder. -/
theorem access_write (hdir : dir ≠ []) (workspace : Workspace) (name content : Text) :
    workspace.succeeds platform allAllowed (.write (pathCombine dir name) content) = true ∧
      (workspace.access platform allAllowed (.write (pathCombine dir name) content)).disk =
        platform.writeFile workspace.disk (pathCombine dir name) content := by
  have hsucceeds : workspace.succeeds platform allAllowed
      (.write (pathCombine dir name) content) = true := by
    simp [Workspace.succeeds, allAllowed, pathCombine_ne_nil hdir]
  exact ⟨hsucceeds, by simp only [Workspace.access, hsucceeds, if_true]⟩

/-- With everything allowed, removing a file deletes it, whatever is loaded instead. -/
theorem disk_removeFile (workspace : Workspace) (fileName : Text) :
    (workspace.removeFile platform allAllowed fileName).disk =
      platform.deleteFile workspace.disk (pathCombine workspace.filesPath fileName) := by
  have hleft := @disk_afterDelete platform workspace (pathCombine workspace.filesPath fileName)
  rcases removeFile_cases platform allAllowed workspace fileName with
    ⟨-, hnext⟩ | ⟨-, ⟨first, rest, -, hnext⟩ | ⟨-, hnext⟩⟩
  · rw [hnext, hleft]
  · rw [hnext, disk_loadFileIntoIDE, hleft]
  · rw [hnext, hleft]

/-- The files left after the removal of some: those that none of the paths denotes. -/
theorem mem_disk_foldl_removeFile {file : StoredFile} (names : List Text) :
    ∀ workspace : Workspace, file ∈ (names.foldl (fun workspace name ↦
        workspace.removeFile platform allAllowed (getFileName name)) workspace).disk ↔
      file ∈ workspace.disk ∧ ∀ name ∈ names,
        platform.denotes (pathCombine workspace.filesPath (getFileName name)) file = false := by
  induction names with
  | nil => simp
  | cons name names ih =>
    intro workspace
    have hfolder := (createsNothing_removeFile platform allAllowed workspace (getFileName name)).1
    rw [List.foldl_cons, ih, disk_removeFile, hfolder, Platform.deleteFile, List.mem_filter,
      Bool.not_eq_true', List.forall_mem_cons, and_assoc]

/-- With everything allowed, all received names are created. -/
theorem disk_createReceived (names : List Text) :
    ∀ workspace : Workspace, workspace.filesPath ≠ [] →
      (workspace.createReceived platform allAllowed names).1.disk =
        names.foldl (fun disk name ↦ platform.writeFile disk
          (pathCombine workspace.filesPath (getFileName name)) []) workspace.disk ∧
      (workspace.createReceived platform allAllowed names).1.filesPath = workspace.filesPath ∧
      (workspace.createReceived platform allAllowed names).2 = true := by
  induction names with
  | nil => exact fun _ _ ↦ ⟨rfl, rfl, rfl⟩
  | cons name names ih =>
    intro workspace hdir
    obtain ⟨hsucceeds, hcreated⟩ :=
      @access_create platform _ hdir workspace (getFileName name)
    obtain ⟨hdisk, hfolder, hends⟩ := ih (workspace.access platform allAllowed
      (.create (pathCombine workspace.filesPath (getFileName name)))) hdir
    simp only [Workspace.createReceived, hsucceeds, if_true]
    refine ⟨?_, hfolder, hends⟩
    rw [hdisk, hcreated, List.foldl_cons]
    rfl

/-- With everything allowed, all contents are written. -/
theorem disk_setConent (files : Files) :
    ∀ (workspace : Workspace) (isFirst : Bool), workspace.filesPath ≠ [] →
      (workspace.setConent platform allAllowed isFirst files).disk =
        files.foldl (fun disk file ↦ platform.writeFile disk
          (pathCombine workspace.filesPath file.1) file.2) workspace.disk := by
  induction files with
  | nil => exact fun _ _ _ ↦ rfl
  | cons file files ih =>
    intro workspace isFirst hdir
    obtain ⟨name, content⟩ := file
    obtain ⟨hsucceeds, hwritten⟩ := @access_write platform _ hdir workspace name content
    simp only [Workspace.setConent, hsucceeds, if_true]
    split_ifs
    · rw [ih _ _ (by rw [filesPath_loadFileIntoIDE]; exact hdir), disk_loadFileIntoIDE, hwritten,
        filesPath_loadFileIntoIDE]
      rfl
    · rw [ih _ _ (by exact hdir), hwritten]
      rfl

/-- A property of every file is kept by writes that keep it where they write. -/
theorem forall_mem_foldl_writeFile {Item : Type*} {property : StoredFile → Prop}
    {target content : Item → Text} (items : List Item)
    (hover : ∀ item ∈ items, ∀ file, property file → platform.denotes (target item) file = true →
      property { file with content := content item })
    (hnew : ∀ item ∈ items, property ⟨platform.fullPath (target item), content item⟩) :
    ∀ disk : Disk, (∀ file ∈ disk, property file) →
      ∀ file ∈ items.foldl (fun disk item ↦
        platform.writeFile disk (target item) (content item)) disk, property file := by
  induction items with
  | nil => exact fun _ hall ↦ hall
  | cons item items ih =>
    intro disk hall
    refine ih (fun other hother ↦ hover other (List.mem_cons_of_mem _ hother))
      (fun other hother ↦ hnew other (List.mem_cons_of_mem _ hother)) _ ?_
    exact forall_mem_writeFile hall
      (fun file hfile ↦ hover item (List.mem_cons_self ..) file (hall file hfile))
      (hnew item (List.mem_cons_self ..))

/-- The files of a folder, from the disk. -/
theorem mem_folderFiles {name : Text} :
    (name, content) ∈ folderFiles dir disk ↔
      HasNoSeparator name ∧ ⟨folderPrefix dir ++ name, content⟩ ∈ disk := by
  simp only [folderFiles, List.mem_filterMap, Option.ite_none_right_eq_some, Option.some.injEq,
    Prod.mk.injEq]
  constructor
  · rintro ⟨⟨path, stored⟩, hfile, ⟨⟨rest, rfl⟩, hname⟩, hdrop, rfl⟩
    rw [List.drop_left] at hdrop hname
    exact ⟨hdrop ▸ hname, hdrop ▸ hfile⟩
  · rintro ⟨hname, hfile⟩
    refine ⟨_, hfile, ⟨List.prefix_append _ _, ?_⟩, ?_, rfl⟩
    · rw [List.drop_left]
      exact hname
    · rw [List.drop_left]

end Disks

/-! ### The folder of the member -/

section Folder

variable {platform : Platform} {dir name other content : Text} {member : Workspace}

/-- The full path of a plain name in the folder. -/
theorem FolderLaws.fullPath_eq (hlaws : FolderLaws platform dir) (hname : PlainName name) :
    platform.fullPath (pathCombine dir name) = folderPrefix dir ++ name :=
  (hlaws.fullPath_plain name hname).trans
    (pathCombine_child hlaws.isFolder.ne_nil hname.childName)

theorem FolderLaws.identity_eq (hlaws : FolderLaws platform dir) (hname : PlainName name) :
    platform.identity (pathCombine dir name) = (folderPrefix dir ++ name).map platform.upCase := by
  rw [Platform.identity, hlaws.fullPath_eq hname]

/-- Two names in the folder denote one file when they differ in case only. -/
theorem FolderLaws.identity_eq_iff (hlaws : FolderLaws platform dir) (hname : PlainName name) :
    platform.identity (pathCombine dir name) = (folderPrefix dir ++ other).map platform.upCase ↔
      name.map platform.upCase = other.map platform.upCase := by
  rw [hlaws.identity_eq hname, List.map_append, List.map_append, List.append_cancel_left_eq]

theorem FolderLaws.denotes_iff (hlaws : FolderLaws platform dir) (hname : PlainName name) :
    platform.denotes (pathCombine dir name) ⟨folderPrefix dir ++ other, content⟩ = true ↔
      name.map platform.upCase = other.map platform.upCase :=
  Platform.denotes_iff.trans (hlaws.identity_eq_iff hname)

/-- A file stored in the folder is denoted by its name there. -/
theorem FolderLaws.denotes_stored (hlaws : FolderLaws platform dir) {file : StoredFile}
    (hname : PlainName name) (hpath : file.path = folderPrefix dir ++ name) :
    getFileName file.path = name ∧ platform.denotes (pathCombine dir name) file = true := by
  constructor
  · rw [hpath, getFileName_folderPrefix hlaws.isFolder hname.noSeparator]
  · rw [Platform.denotes_iff, hlaws.identity_eq hname, hpath]

/-- The disk of the member when the files of its folder are removed. -/
def emptiedDisk (platform : Platform) (member : Workspace) : Disk :=
  ((platform.getFiles member.disk member.filesPath).foldl (fun workspace file ↦
    workspace.removeFile platform allAllowed (getFileName file)) member).disk

/-- All files that are left are elsewhere. -/
theorem storedElsewhere_of_mem_emptiedDisk (hlaws : FolderLaws platform member.filesPath)
    (hdisk : FolderDisk platform member.filesPath member.disk) {file : StoredFile}
    (hfile : file ∈ emptiedDisk platform member) :
    StoredElsewhere platform member.filesPath file := by
  obtain ⟨hfile, hleft⟩ := (mem_disk_foldl_removeFile _ _).mp hfile
  refine (hdisk file hfile).resolve_left ?_
  rintro ⟨name, hname, hpath⟩
  have hfolder : IsFolderPath member.filesPath := hlaws.isFolder
  obtain ⟨hfileName, hdenotes⟩ := hlaws.denotes_stored hname.plain hpath
  have hlisted : pathCombine member.filesPath name ∈
      platform.getFiles member.disk member.filesPath := by
    refine List.mem_filterMap.mpr ⟨file, hfile, ?_⟩
    simp only [hfileName, hdenotes, if_true]
  have hremoved := hleft _ hlisted
  rw [pathCombine_child hfolder.ne_nil hname.plain.childName,
    getFileName_folderPrefix hfolder hname.plain.noSeparator, hdenotes] at hremoved
  cases hremoved

/-- The disk of the member in the end. -/
theorem disk_receiveProject (hlaws : FolderLaws platform member.filesPath) (filesDict : Files) :
    (member.receiveProject platform allAllowed filesDict).disk =
      filesDict.foldl (fun disk file ↦
          platform.writeFile disk (pathCombine member.filesPath file.1) file.2)
        ((filesDict.map Prod.fst).foldl (fun disk name ↦
            platform.writeFile disk (pathCombine member.filesPath (getFileName name)) [])
          (emptiedDisk platform member)) := by
  have hfolder := (createsNothing_foldl_removeFile platform allAllowed
    (platform.getFiles member.disk member.filesPath) member).1
  have hdir : member.filesPath ≠ [] := hlaws.isFolder.ne_nil
  obtain ⟨hdisk, hstays, hends⟩ := @disk_createReceived platform (filesDict.map Prod.fst)
    ((platform.getFiles member.disk member.filesPath).foldl (fun workspace file ↦
      workspace.removeFile platform allAllowed (getFileName file)) member)
    (hfolder.symm ▸ hdir)
  rw [hfolder] at hdisk hstays
  simp only [Workspace.receiveProject, Workspace.recieveFiles, hends, if_true]
  rw [disk_setConent filesDict _ true (hstays.symm ▸ hdir), hdisk, hstays]
  rfl

/-- The content of a file in the folder was received, with a name of the file, or it is empty. -/
theorem content_of_mem_folderFiles (hlaws : FolderLaws platform member.filesPath)
    (hdisk : FolderDisk platform member.filesPath member.disk) {filesDict : Files}
    (hname : PlainName name)
    (hfile : (name, content) ∈ folderFiles member.filesPath
      (member.receiveProject platform allAllowed filesDict).disk) :
    content = [] ∨ ∃ file ∈ filesDict, content = file.2 ∧
      platform.identity (pathCombine member.filesPath file.1) =
        (folderPrefix member.filesPath ++ name).map platform.upCase := by
  have hall : ∀ file ∈ (member.receiveProject platform allAllowed filesDict).disk,
      ∀ name, PlainName name → file.path = folderPrefix member.filesPath ++ name →
        file.content = [] ∨ ∃ received ∈ filesDict, file.content = received.2 ∧
          platform.identity (pathCombine member.filesPath received.1) =
            file.path.map platform.upCase := by
    rw [disk_receiveProject hlaws]
    refine forall_mem_foldl_writeFile filesDict (fun received hreceived file _ hdenotes _ _ _ ↦ ?_)
      (fun received hreceived _ _ _ ↦ ?_) _ ?_
    · exact .inr ⟨received, hreceived, rfl, Platform.denotes_iff.mp hdenotes⟩
    · exact .inr ⟨received, hreceived, rfl, rfl⟩
    · refine forall_mem_foldl_writeFile _ (fun _ _ _ _ _ _ _ _ ↦ .inl rfl)
        (fun _ _ _ _ _ ↦ .inl rfl) _ fun file hfile name hname hpath ↦ ?_
      exact absurd hpath
        ((storedElsewhere_of_mem_emptiedDisk hlaws hdisk hfile).notInside name hname.noSeparator)
  exact hall _ (mem_folderFiles.mp hfile).2 name hname rfl

/-- When the names received are plain, the names in the folder are among them. -/
theorem name_of_mem_folderFiles (hlaws : FolderLaws platform member.filesPath)
    (hdisk : FolderDisk platform member.filesPath member.disk) {filesDict : Files}
    (hplain : ∀ file ∈ filesDict, PlainName file.1) (hname : PlainName name)
    (hfile : (name, content) ∈ folderFiles member.filesPath
      (member.receiveProject platform allAllowed filesDict).disk) :
    name ∈ filesDict.map Prod.fst := by
  have hall : ∀ file ∈ (member.receiveProject platform allAllowed filesDict).disk,
      ∀ name, PlainName name → file.path = folderPrefix member.filesPath ++ name →
        name ∈ filesDict.map Prod.fst := by
    rw [disk_receiveProject hlaws]
    refine forall_mem_foldl_writeFile filesDict (fun received hreceived file hkept _ ↦ hkept)
      (fun received hreceived name hname hpath ↦ ?_) _ ?_
    · rw [hlaws.fullPath_eq (hplain received hreceived), List.append_cancel_left_eq] at hpath
      exact hpath ▸ List.mem_map_of_mem hreceived
    · refine forall_mem_foldl_writeFile _ (fun received hreceived file hkept _ ↦ hkept)
        (fun received hreceived name hname hpath ↦ ?_) _ fun file hfile name hname hpath ↦ ?_
      · obtain ⟨file, hfile, rfl⟩ := List.mem_map.mp hreceived
        have hfileName := hplain file hfile
        simp only [hfileName.getFileName_eq, hlaws.fullPath_eq hfileName,
          List.append_cancel_left_eq] at hpath
        exact hpath ▸ hreceived
      · exact absurd hpath
          ((storedElsewhere_of_mem_emptiedDisk hlaws hdisk hfile).notInside name hname.noSeparator)
  exact hall _ (mem_folderFiles.mp hfile).2 name hname rfl

/-- A file of the folder as it is stored. -/
def storedFile (dir : Text) (file : Text × Text) : StoredFile :=
  ⟨folderPrefix dir ++ file.1, file.2⟩

/-- Names that differ in more than case denote different files. -/
theorem FolderLaws.not_denotes (hlaws : FolderLaws platform dir) (hname : PlainName name)
    (hother : name.map platform.upCase ≠ other.map platform.upCase) :
    platform.denotes (pathCombine dir name) ⟨folderPrefix dir ++ other, content⟩ = false := by
  rw [← Bool.not_eq_true, hlaws.denotes_iff hname]
  exact hother

/-- Creating new files one after the other. -/
theorem foldl_create (hlaws : FolderLaws platform dir) (files : Files)
    (hplain : ∀ file ∈ files, PlainName file.1)
    (hdistinct : files.Pairwise fun file other ↦
      file.1.map platform.upCase ≠ other.1.map platform.upCase) :
    ∀ disk : Disk, (∀ file ∈ files, ∀ stored ∈ disk,
        platform.denotes (pathCombine dir file.1) stored = false) →
      (files.map Prod.fst).foldl (fun disk name ↦
          platform.writeFile disk (pathCombine dir (getFileName name)) []) disk =
        disk ++ files.map fun file ↦ storedFile dir (file.1, []) := by
  induction files with
  | nil => simp
  | cons file files ih =>
    intro disk habsent
    have hfile := hplain file (List.mem_cons_self ..)
    have hrest := List.pairwise_cons.mp hdistinct
    rw [List.map_cons, List.foldl_cons, hfile.getFileName_eq,
      writeFile_of_absent (habsent file (List.mem_cons_self ..)), hlaws.fullPath_eq hfile,
      ih (fun other hother ↦ hplain other (List.mem_cons_of_mem _ hother)) hrest.2]
    · rw [List.map_cons, List.append_assoc]
      rfl
    · intro other hother stored hstored
      rcases List.mem_append.mp hstored with hold | hnew
      · exact habsent other (List.mem_cons_of_mem _ hother) stored hold
      · rw [List.mem_singleton.mp hnew]
        exact hlaws.not_denotes (hplain other (List.mem_cons_of_mem _ hother))
          (hrest.1 other hother).symm

/-- Writing the created files one after the other: some are written already, the others are still
empty. -/
theorem foldl_write (hlaws : FolderLaws platform dir) {disk : Disk} (todo : Files) :
    ∀ written : Files, (∀ file ∈ written ++ todo, PlainName file.1) →
      (written ++ todo).Pairwise (fun file other ↦
        file.1.map platform.upCase ≠ other.1.map platform.upCase) →
      (∀ file ∈ todo, ∀ stored ∈ disk,
        platform.denotes (pathCombine dir file.1) stored = false) →
      todo.foldl (fun disk file ↦ platform.writeFile disk (pathCombine dir file.1) file.2)
          (disk ++ written.map (storedFile dir) ++
            todo.map fun file ↦ storedFile dir (file.1, [])) =
        disk ++ (written ++ todo).map (storedFile dir) := by
  induction todo with
  | nil => simp
  | cons file todo ih =>
    intro written hplain hdistinct habsent
    have hfile := hplain file (by simp)
    obtain ⟨-, hlater, hearlier⟩ := List.pairwise_append.mp hdistinct
    have hstep : platform.writeFile (disk ++ written.map (storedFile dir) ++
        storedFile dir (file.1, []) :: todo.map fun file ↦ storedFile dir (file.1, []))
          (pathCombine dir file.1) file.2 =
        disk ++ (written ++ [file]).map (storedFile dir) ++
          todo.map fun file ↦ storedFile dir (file.1, []) := by
      rw [writeFile_middle]
      · simp [storedFile]
      · exact (hlaws.denotes_iff hfile).mpr rfl
      · intro stored hstored
        rcases List.mem_append.mp hstored with hold | hnew
        · exact habsent file (List.mem_cons_self ..) stored hold
        · obtain ⟨other, hother, rfl⟩ := List.mem_map.mp hnew
          exact hlaws.not_denotes hfile
            (hearlier other hother file (List.mem_cons_self ..)).symm
      · intro stored hstored
        obtain ⟨other, hother, rfl⟩ := List.mem_map.mp hstored
        exact hlaws.not_denotes hfile ((List.pairwise_cons.mp hlater).1 other hother)
    have hassoc : written ++ file :: todo = written ++ [file] ++ todo := by simp
    rw [List.map_cons, List.foldl_cons, hstep, hassoc]
    exact ih (written ++ [file]) (hassoc ▸ hplain) (hassoc ▸ hdistinct)
      fun other hother ↦ habsent other (List.mem_cons_of_mem _ hother)

/-- Files with plain names that differ in more than case are all that the folder holds in the
end. -/
theorem folderFiles_receiveProject (hlaws : FolderLaws platform member.filesPath)
    (hdisk : FolderDisk platform member.filesPath member.disk) {filesDict : Files}
    (hplain : ∀ file ∈ filesDict, PlainName file.1)
    (hdistinct : filesDict.Pairwise fun file other ↦
      file.1.map platform.upCase ≠ other.1.map platform.upCase) :
    folderFiles member.filesPath (member.receiveProject platform allAllowed filesDict).disk =
      filesDict := by
  have habsent : ∀ file ∈ filesDict, ∀ stored ∈ emptiedDisk platform member,
      platform.denotes (pathCombine member.filesPath file.1) stored = false :=
    fun file hfile stored hstored ↦ (storedElsewhere_of_mem_emptiedDisk hlaws hdisk
      hstored).notReached file.1 (hplain file hfile)
  have hwritten := foldl_write hlaws filesDict [] hplain hdistinct habsent
  rw [List.map_nil, List.append_nil, List.nil_append] at hwritten
  rw [disk_receiveProject hlaws, foldl_create hlaws filesDict hplain hdistinct _ habsent, hwritten,
    folderFiles, List.filterMap_append]
  have helsewhere : (emptiedDisk platform member).filterMap (fun file ↦
      let name := file.path.drop (folderPrefix member.filesPath).length
      if folderPrefix member.filesPath <+: file.path ∧ HasNoSeparator name then
        some (name, file.content)
      else none) = [] := by
    refine List.filterMap_eq_nil_iff.mpr fun file hfile ↦ if_neg ?_
    rintro ⟨⟨name, hpath⟩, hname⟩
    rw [← hpath, List.drop_left] at hname
    exact (storedElsewhere_of_mem_emptiedDisk hlaws hdisk hfile).notInside name hname hpath.symm
  have hinside : (filesDict.map (storedFile member.filesPath)).filterMap (fun file ↦
      let name := file.path.drop (folderPrefix member.filesPath).length
      if folderPrefix member.filesPath <+: file.path ∧ HasNoSeparator name then
        some (name, file.content)
      else none) = filesDict := by
    rw [List.filterMap_map]
    refine (List.filterMap_congr fun file hfile ↦ ?_).trans List.filterMap_some
    simp only [Function.comp_apply, storedFile, List.drop_left]
    rw [if_pos ⟨List.prefix_append _ _, (hplain file hfile).noSeparator⟩]
  rw [helsewhere, hinside, List.nil_append]

/-! ### The folder of the host -/

/-- A folder lists its files. -/
theorem getFiles_eq (hlaws : FolderLaws platform dir) {disk : Disk}
    (hdisk : FolderDisk platform dir disk) (hlisted : ListedDisk platform dir disk) :
    platform.getFiles disk dir =
      (folderFiles dir disk).map fun file ↦ pathCombine dir file.1 := by
  rw [Platform.getFiles, folderFiles, List.map_filterMap]
  refine List.filterMap_congr fun file hfile ↦ ?_
  rcases hdisk file hfile with ⟨name, hname, hpath⟩ | helsewhere
  · obtain ⟨hfileName, hdenotes⟩ := hlaws.denotes_stored hname.plain hpath
    have hinside : folderPrefix dir <+: file.path := hpath ▸ List.prefix_append ..
    have hdrop : file.path.drop (folderPrefix dir).length = name := by
      rw [hpath, List.drop_left]
    simp only [hfileName, hdenotes, if_true, hdrop]
    rw [if_pos ⟨hinside, hname.plain.noSeparator⟩]
    rfl
  · have houtside : ¬ (folderPrefix dir <+: file.path ∧
        HasNoSeparator (file.path.drop (folderPrefix dir).length)) := by
      rintro ⟨⟨name, hpath⟩, hname⟩
      rw [← hpath, List.drop_left] at hname
      exact helsewhere.notInside name hname hpath.symm
    have hunlisted : platform.denotes (pathCombine dir (getFileName file.path)) file = false := by
      rcases hlisted file hfile with ⟨name, hname, hpath⟩ | hhidden
      · exact absurd hpath (helsewhere.notInside name hname.plain.noSeparator)
      · exact hhidden.notListed
    simp only [hunlisted, Bool.false_eq_true, if_false]
    rw [if_neg houtside]
    rfl

/-- A file of the folder is read by its name. -/
theorem fileText_of_mem_folderFiles (hlaws : FolderLaws platform dir) {disk : Disk}
    (hdisk : FolderDisk platform dir disk) (hnames : FolderNames platform (folderFiles dir disk))
    (hfile : (name, content) ∈ folderFiles dir disk) :
    platform.fileText disk (pathCombine dir name) = some content := by
  have hplain : PlainName name := (hnames.valid _ hfile).plain
  have hexists : platform.fileExists disk (pathCombine dir name) = true :=
    List.any_eq_true.mpr ⟨_, (mem_folderFiles.mp hfile).2, (hlaws.denotes_iff hplain).mpr rfl⟩
  rw [← Platform.isSome_fileText, Platform.fileText, Option.isSome_map,
    Option.isSome_iff_exists] at hexists
  obtain ⟨found, hfound⟩ := hexists
  have hdenotes := List.find?_some hfound
  rw [Platform.fileText, hfound, Option.map_some, Option.some.injEq]
  rcases hdisk found (List.mem_of_find?_eq_some hfound) with ⟨other, hother, hpath⟩ | helsewhere
  · obtain ⟨path, stored⟩ := found
    obtain rfl : path = folderPrefix dir ++ other := hpath
    have hmem : (other, stored) ∈ folderFiles dir disk :=
      mem_folderFiles.mpr ⟨hother.plain.noSeparator, List.mem_of_find?_eq_some hfound⟩
    have hsame := (hlaws.denotes_iff hplain).mp hdenotes
    -- names that differ in case only belong to one file
    have hdiffer : ((folderFiles dir disk).map fun file ↦ file.1.map platform.upCase).Nodup :=
      List.pairwise_map.mpr hnames.distinct
    exact congrArg Prod.snd (List.inj_on_of_nodup_map hdiffer hmem hfile hsame.symm)
  · rw [helsewhere.notReached name hplain] at hdenotes
    cases hdenotes

/-- Reads that all return what they are asked for return the list. -/
theorem mapM_eq_some_of_forall {Item : Type*} {read : Item → Option Item} {items : List Item}
    (hread : ∀ item ∈ items, read item = some item) : items.mapM read = some items := by
  induction items with
  | nil => rfl
  | cons item items ih =>
    rw [List.mapM_cons, hread item (List.mem_cons_self ..),
      ih fun other hother ↦ hread other (List.mem_cons_of_mem _ hother)]
    rfl

/-- The host reads the files of its folder, all of them and with their contents. -/
theorem buildFiles_eq {host : Workspace} (hlaws : FolderLaws platform host.filesPath)
    (hdisk : FolderDisk platform host.filesPath host.disk)
    (hlisted : ListedDisk platform host.filesPath host.disk)
    (hnames : FolderNames platform (folderFiles host.filesPath host.disk)) :
    host.buildFiles platform allAllowed = some (folderFiles host.filesPath host.disk) := by
  rw [Workspace.buildFiles, getFiles_eq hlaws hdisk hlisted, List.mapM_map]
  refine mapM_eq_some_of_forall fun file hfile ↦ ?_
  have hread := fileText_of_mem_folderFiles hlaws hdisk hnames hfile
  have hexists : platform.fileExists host.disk (pathCombine host.filesPath file.1) = true := by
    rw [← Platform.isSome_fileText, hread]
    rfl
  have hplain : PlainName file.1 := (hnames.valid file hfile).plain
  have hfileName : getFileName (pathCombine host.filesPath file.1) = file.1 := by
    rw [pathCombine_child hlaws.isFolder.ne_nil hplain.childName,
      getFileName_folderPrefix hlaws.isFolder hplain.noSeparator]
  simp [Workspace.succeeds, allAllowed, hexists, hread, hfileName]

end Folder

/-! ### When the transfer is exact -/

section Transfer

variable {platform : Platform} {host member : Workspace} {files filesDict : Files}

/-- The arriving names have none of the characters of the separator and are not empty. -/
theorem arriving_name {name : Text} (hname : ValidName name) :
    asReceived name ≠ [] ∧ bar ∉ asReceived name := by
  refine ⟨(garbled_asReceived name).ne_nil hname.ne_nil, fun hmem ↦ ?_⟩
  rcases (garbled_asReceived name).mem hmem with hmem | hmark
  · exact hname.notMem (by decide) hmem
  · exact absurd hmark (by decide)

/-- A transferable folder arrives as it is. -/
theorem arrivingEntries_of_transferable (htransferable : Transferable files) :
    arrivingEntries files = files := by
  refine (List.map_congr_left fun file hfile ↦ ?_).trans (List.map_id files)
  obtain ⟨hname, hcontent⟩ := htransferable.ascii file hfile
  have hwritten : writtenContent file.2 = file.2 := if_neg (htransferable.content file hfile).1
  rw [hwritten, asReceived_of_ascii hname, asReceived_of_ascii hcontent]
  rfl

/-- Names that differ in more than case differ. -/
theorem FolderNames.nodup (hnames : FolderNames platform files) :
    (files.map Prod.fst).Nodup :=
  List.pairwise_map.mpr (hnames.distinct.imp fun hother heq ↦ hother (congrArg _ heq))

/-- The transfer of a transferable folder is exact. -/
theorem transfersExactly_of_transferable (hhost : host.buildFiles platform allAllowed = some files)
    (hfiles : folderFiles host.filesPath host.disk = files) (hnames : FolderNames platform files)
    (hlaws : FolderLaws platform member.filesPath)
    (hdisk : FolderDisk platform member.filesPath member.disk)
    (htransferable : Transferable files) : TransfersExactly platform host member := by
  have hclean : CleanEntries files :=
    ⟨fun file hfile ↦ ⟨(hnames.valid file hfile).ne_nil,
      (hnames.valid file hfile).notMem (by decide)⟩, htransferable.content, htransferable.ending⟩
  refine ⟨files, files, hhost, ?_, ?_⟩
  · rw [filesReceived_sendFiles, arrivingEntries_of_transferable htransferable,
      receiveAndParseMessage_eq_some, pairs_of_clean hclean]
    exact ⟨hnames.nodup, rfl⟩
  · rw [folderFiles_receiveProject hlaws hdisk (fun file hfile ↦ (hnames.valid file hfile).plain)
      hnames.distinct, hfiles]

/-- The contents read from the datagram are ASCII, are not empty and do not hold the separator. -/
theorem content_of_filesReceived (hreceived : filesReceived (sendFiles files) = some filesDict)
    {received : Text × Text} (hmem : received ∈ filesDict) :
    IsAscii received.2 ∧ received.2 ≠ [] ∧ ¬ fileSeparator <:+: received.2 := by
  rw [filesReceived_sendFiles] at hreceived
  obtain ⟨hcontains, hne, hseparator⟩ := content_of_receiveAndParseMessage hreceived hmem
  refine ⟨fun char hchar ↦ isAscii_asReceived (filesMessage files) char ?_, hne, hseparator⟩
  rw [asReceived_filesMessage]
  exact hcontains.subset hchar

/-- What is written for a content that arrives is ASCII and does not hold the separator. -/
theorem writtenContent_of_content {content : Text} (hascii : IsAscii content)
    (hseparator : ¬ fileSeparator <:+: content) :
    asReceived (writtenContent content) = writtenContent content ∧
      ¬ fileSeparator <:+: writtenContent content := by
  unfold writtenContent
  split_ifs
  · exact ⟨by decide, by decide⟩
  · exact ⟨asReceived_of_ascii hascii, hseparator⟩

/-- A name that is in the folder under characters of the separator and in another case than it
arrives is the name itself. -/
theorem FolderLaws.eq_of_marks (hlaws : FolderLaws platform member.filesPath)
    {name last marks : Text} (hname : ValidName name) (hmarks : ∀ char ∈ marks, char = bar)
    (hsame : (marks ++ asReceived last).map platform.upCase = name.map platform.upCase) :
    last.map platform.upCase = name.map platform.upCase := by
  have hclean : ∀ char, char = bar ∨ char = unit '?' → char ∉ marks ++ asReceived last := by
    intro mark hmark hmem
    have hupper : platform.upCase mark ∈ name.map platform.upCase :=
      hsame ▸ List.mem_map_of_mem hmem
    obtain ⟨char, hchar, hequal⟩ := List.mem_map.mp hupper
    rw [hlaws.upCase_mark char mark hmark hequal] at hchar
    rcases hmark with rfl | rfl
    · exact hname.notMem (by decide) hchar
    · exact hname.notMem (by decide) hchar
  have hempty : marks = [] := by
    refine List.eq_nil_iff_forall_not_mem.mpr fun char hchar ↦ ?_
    exact hclean char (.inl (hmarks char hchar)) (List.mem_append_left _ hchar)
  rw [hempty, List.nil_append] at hsame hclean
  have harrived := (garbled_asReceived last).eq_of_notMem (hclean _ (.inr rfl))
  rwa [harrived.2] at hsame

/-- A content of the folder that ends with the character of the separator, in an exact transfer, is
that of the last file: otherwise it would have been read with the name of the last one. -/
theorem not_ending_of_transfer (hnames : FolderNames platform files)
    (hlaws : FolderLaws platform member.filesPath)
    (hreceived : filesReceived (sendFiles files) = some filesDict)
    (hcontents : ∀ file ∈ files, IsAscii file.2 ∧ ¬ fileSeparator <:+: file.2)
    (hwritten : ∀ file ∈ files, file.2 = [] ∨ ∃ received ∈ filesDict, file.2 = received.2 ∧
      platform.identity (pathCombine member.filesPath received.1) =
        (folderPrefix member.filesPath ++ file.1).map platform.upCase) :
    ∀ file ∈ files.dropLast, file.2.getLast? ≠ some bar := by
  intro file hfile hending
  have hmem : file ∈ files := List.dropLast_subset _ hfile
  rcases List.eq_nil_or_concat files with rfl | ⟨front, last, rfl⟩
  · simp at hmem
  rw [List.concat_eq_append] at *
  rw [List.dropLast_concat] at hfile
  have hlast : last ∈ front ++ [last] := by simp
  obtain ⟨received, hread, hcontent, hplace⟩ := (hwritten file hmem).resolve_left
    (by rintro hempty; simp [hempty] at hending)
  rw [filesReceived_sendFiles, receiveAndParseMessage_eq_some] at hreceived
  rw [hreceived.2, arrivingEntries, List.map_append] at hread
  obtain ⟨hascii, hseparator⟩ := hcontents last hlast
  have hlastContent := writtenContent_of_content hascii hseparator
  obtain ⟨marks, hmarks, hname⟩ := name_of_ending_entry (arriving_name (hnames.valid last hlast))
    ⟨by rw [hlastContent.1]; exact writtenContent_ne_nil _, by rw [hlastContent.1]; exact
      hlastContent.2⟩ hread (hcontent ▸ hending)
  rw [hname, hlaws.identity_eq_iff
    (plainName_append_asReceived (hnames.valid last hlast) hmarks)] at hplace
  have hsame := hlaws.eq_of_marks (hnames.valid file hmem) hmarks hplace
  have hother := (List.pairwise_append.mp hnames.distinct).2.2 file hfile last
    (List.mem_singleton_self _)
  exact hother hsame.symm

/-- Contents that leave the separators alone are read with the names they were written with. -/
theorem filesDict_of_clean (hnames : FolderNames platform files)
    (hreceived : filesReceived (sendFiles files) = some filesDict)
    (hcontents : ∀ file ∈ files, IsAscii file.2 ∧ ¬ fileSeparator <:+: file.2)
    (hending : ∀ file ∈ files.dropLast, file.2.getLast? ≠ some bar) :
    filesDict = arrivingEntries files := by
  have hwritten : ∀ file ∈ files, asReceived (writtenContent file.2) = writtenContent file.2 ∧
      ¬ fileSeparator <:+: writtenContent file.2 := fun file hfile ↦
    writtenContent_of_content (hcontents file hfile).1 (hcontents file hfile).2
  have hclean : CleanEntries (arrivingEntries files) := by
    refine ⟨fun entry hentry ↦ ?_, fun entry hentry ↦ ?_, fun entry hentry ↦ ?_⟩
    · obtain ⟨file, hfile, rfl⟩ := List.mem_map.mp hentry
      exact arriving_name (hnames.valid file hfile)
    · obtain ⟨file, hfile, rfl⟩ := List.mem_map.mp hentry
      rw [(hwritten file hfile).1]
      exact ⟨writtenContent_ne_nil file.2, (hwritten file hfile).2⟩
    · rw [arrivingEntries, ← List.map_dropLast] at hentry
      obtain ⟨file, hfile, rfl⟩ := List.mem_map.mp hentry
      rw [(hwritten file (List.dropLast_subset _ hfile)).1]
      change (writtenContent file.2).getLast? ≠ some bar
      unfold writtenContent
      split_ifs
      · decide
      · exact hending file hfile
  rw [filesReceived_sendFiles, receiveAndParseMessage_eq_some, pairs_of_clean hclean] at hreceived
  exact hreceived.2

/-- Only the transfers of transferable folders are exact. -/
theorem transferable_of_transfersExactly
    (hhost : host.buildFiles platform allAllowed = some files)
    (hfiles : folderFiles host.filesPath host.disk = files) (hnames : FolderNames platform files)
    (hlaws : FolderLaws platform member.filesPath)
    (hdisk : FolderDisk platform member.filesPath member.disk)
    (htransfer : TransfersExactly platform host member) : Transferable files := by
  obtain ⟨_, filesDict, hsent, hreceived, hperm⟩ := htransfer
  obtain rfl := Option.some_injective _ (hhost.symm.trans hsent)
  rw [hfiles] at hperm
  have hwritten : ∀ file ∈ files, file.2 = [] ∨ ∃ received ∈ filesDict, file.2 = received.2 ∧
      platform.identity (pathCombine member.filesPath received.1) =
        (folderPrefix member.filesPath ++ file.1).map platform.upCase :=
    fun file hfile ↦ content_of_mem_folderFiles hlaws hdisk (hnames.valid file hfile).plain
      (hperm.mem_iff.mpr hfile)
  have hcontents : ∀ file ∈ files, IsAscii file.2 ∧ ¬ fileSeparator <:+: file.2 := by
    intro file hfile
    rcases hwritten file hfile with hempty | ⟨received, hmem, hcontent, -⟩
    · rw [hempty]
      exact ⟨by simp [IsAscii], by decide⟩
    · obtain ⟨hascii, -, hseparator⟩ := content_of_filesReceived hreceived hmem
      exact hcontent ▸ ⟨hascii, hseparator⟩
  have hending := not_ending_of_transfer hnames hlaws hreceived hcontents hwritten
  have hread := filesDict_of_clean hnames hreceived hcontents hending
  have hplain : ∀ received ∈ filesDict, PlainName received.1 := by
    rw [hread]
    intro received hmem
    obtain ⟨file, hfile, rfl⟩ := List.mem_map.mp hmem
    exact plainName_asReceived (hnames.valid file hfile)
  have hnamesAscii : ∀ file ∈ files, IsAscii file.1 := by
    intro file hfile
    have hmem := name_of_mem_folderFiles hlaws hdisk hplain (hnames.valid file hfile).plain
      (hperm.mem_iff.mpr hfile)
    rw [hread, arrivingEntries, List.map_map] at hmem
    obtain ⟨other, -, hother⟩ := List.mem_map.mp hmem
    exact hother ▸ isAscii_asReceived other.1
  have harriving : arrivingEntries files = files.map fun file ↦ (file.1, writtenContent file.2) :=
    List.map_congr_left fun file hfile ↦ by
      obtain ⟨hascii, hseparator⟩ := hcontents file hfile
      rw [asReceived_of_ascii (hnamesAscii file hfile),
        (writtenContent_of_content hascii hseparator).1]
  rw [harriving] at hread
  have hdistinct : filesDict.Pairwise fun file other ↦
      file.1.map platform.upCase ≠ other.1.map platform.upCase := by
    rw [hread, List.pairwise_map]
    exact hnames.distinct
  rw [folderFiles_receiveProject hlaws hdisk hplain hdistinct] at hperm
  refine ⟨fun file hfile ↦ ⟨hnamesAscii file hfile, (hcontents file hfile).1⟩,
    fun file hfile ↦ ⟨?_, (hcontents file hfile).2⟩, hending⟩
  have hmem := hperm.mem_iff.mpr hfile
  rw [hread] at hmem
  obtain ⟨other, -, rfl⟩ := List.mem_map.mp hmem
  exact writtenContent_ne_nil other.2

/-- The initial transfer of a project is exact for the transferable folders and for no others,
whatever the folder of the member held before. -/
theorem transfersExactly_iff (platform : Platform) (host member : Workspace)
    (hhost : FolderLaws platform host.filesPath)
    (hhostDisk : FolderDisk platform host.filesPath host.disk)
    (hlisted : ListedDisk platform host.filesPath host.disk)
    (hnames : FolderNames platform (folderFiles host.filesPath host.disk))
    (hlaws : FolderLaws platform member.filesPath)
    (hdisk : FolderDisk platform member.filesPath member.disk) :
    TransfersExactly platform host member ↔
      Transferable (folderFiles host.filesPath host.disk) := by
  have hsent := buildFiles_eq hhost hhostDisk hlisted hnames
  exact ⟨transferable_of_transfersExactly hsent rfl hnames hlaws hdisk,
    transfersExactly_of_transferable hsent rfl hnames hlaws hdisk⟩

end Transfer

/-! ### Two transfers -/

/-- The laws hold for folders on a drive when full paths are left alone and letters have their
upper case. -/
theorem folderLaws_asciiPlatform (dir : Text) (hdir : IsFolderPath dir) :
    FolderLaws asciiPlatform dir where
  isFolder := hdir
  fullPath_plain := fun _ _ ↦ rfl
  upCase_mark := by
    intro char mark hmark hsame
    have hfixed : upCaseAscii mark = mark ∧ (mark < unit 'A' ∨ unit 'Z' < mark) := by
      rcases hmark with rfl | rfl <;> decide
    change upCaseAscii char = upCaseAscii mark at hsame
    rw [hfixed.1] at hsame
    unfold upCaseAscii at hsame
    split_ifs at hsame with hletter
    · -- the upper case of a letter is a letter
      have hlower : (unit 'a').toNat = 97 := by decide
      have hupper : (unit 'z').toNat = 122 := by decide
      have hfirst : (unit 'A').toNat = 65 := by decide
      have hlast : (unit 'Z').toNat = 90 := by decide
      have hmark := hfixed.2
      rw [← hsame, UInt16.lt_iff_toNat_lt, UInt16.lt_iff_toNat_lt] at hmark
      rw [UInt16.le_iff_toNat_le, UInt16.le_iff_toNat_le] at hletter
      have hblank : (32 : UInt16).toNat = 32 := rfl
      have hshift : (char - 32).toNat = char.toNat - 32 := by
        rw [UInt16.toNat_sub_of_le char 32 (by rw [UInt16.le_iff_toNat_le]; omega), hblank]
      omega
    · exact hsame

/-- The member of the transfers below, with an old file in its folder. -/
def joiningMember : Workspace where
  disk := [⟨str "C:\\m\\old.cpp", str "y"⟩]
  filesPath := str "C:\\m"

/-- A host with two files. -/
def hostOfSources : Workspace where
  disk := [⟨str "C:\\h\\main.cpp", str "int x;"⟩, ⟨str "C:\\h\\util.h", str "a||b|"⟩]
  filesPath := str "C:\\h"

/-- A host with a new file. -/
def hostOfNewFile : Workspace where
  disk := [⟨str "C:\\h\\main.cpp", []⟩]
  filesPath := str "C:\\h"

theorem folderLaws_joiningMember : FolderLaws asciiPlatform joiningMember.filesPath :=
  folderLaws_asciiPlatform _ (isFolderPath_drive (by decide) (str "m"))

theorem folderDisk_joiningMember :
    FolderDisk asciiPlatform joiningMember.filesPath joiningMember.disk := by
  intro file hfile
  obtain rfl := List.mem_singleton.mp hfile
  exact .inl ⟨str "old.cpp", by decide, by decide⟩

/-- A host whose files are all in its folder, on a drive. -/
theorem folderDisk_of_storedIn {dir : Text} {disk : Disk}
    (hstored : ∀ file ∈ disk, StoredIn dir file) :
    FolderDisk asciiPlatform dir disk ∧ ListedDisk asciiPlatform dir disk :=
  ⟨fun file hfile ↦ .inl (hstored file hfile), fun file hfile ↦ .inl (hstored file hfile)⟩

theorem folderLaws_host : FolderLaws asciiPlatform (str "C:\\h") :=
  folderLaws_asciiPlatform _ (isFolderPath_drive (by decide) (str "h"))

/-- Two sources, the last one full of bars, arrive as they are. -/
theorem transfersExactly_sources : TransfersExactly asciiPlatform hostOfSources joiningMember := by
  have hfiles : folderFiles hostOfSources.filesPath hostOfSources.disk =
      [(str "main.cpp", str "int x;"), (str "util.h", str "a||b|")] := by decide +kernel
  have hstored : ∀ file ∈ hostOfSources.disk, StoredIn hostOfSources.filesPath file := by
    intro file hfile
    rcases List.mem_pair.mp hfile with rfl | rfl
    · exact ⟨str "main.cpp", by decide, by decide⟩
    · exact ⟨str "util.h", by decide, by decide⟩
  obtain ⟨hdisk, hlisted⟩ := folderDisk_of_storedIn hstored
  refine (transfersExactly_iff asciiPlatform hostOfSources joiningMember folderLaws_host hdisk
    hlisted ?_ folderLaws_joiningMember folderDisk_joiningMember).mpr ?_
  · rw [hfiles]
    refine ⟨fun file hfile ↦ ?_, by decide⟩
    rcases List.mem_pair.mp hfile with rfl | rfl
    · decide
    · decide
  · rw [hfiles]
    exact ⟨by decide, by decide, by decide⟩

/-- A file that is new and empty on the host, as every new project has it, gets a content on the
member. -/
theorem not_transfersExactly_newFile :
    folderFiles hostOfNewFile.filesPath hostOfNewFile.disk = [(str "main.cpp", [])] ∧
      FolderLaws asciiPlatform hostOfNewFile.filesPath ∧
      FolderDisk asciiPlatform hostOfNewFile.filesPath hostOfNewFile.disk ∧
      ListedDisk asciiPlatform hostOfNewFile.filesPath hostOfNewFile.disk ∧
      FolderNames asciiPlatform [(str "main.cpp", [])] ∧
      FolderLaws asciiPlatform joiningMember.filesPath ∧
      FolderDisk asciiPlatform joiningMember.filesPath joiningMember.disk ∧
      ¬ TransfersExactly asciiPlatform hostOfNewFile joiningMember := by
  have hfiles : folderFiles hostOfNewFile.filesPath hostOfNewFile.disk =
      [(str "main.cpp", [])] := by decide +kernel
  have hstored : ∀ file ∈ hostOfNewFile.disk, StoredIn hostOfNewFile.filesPath file := by
    intro file hfile
    rw [List.mem_singleton.mp hfile]
    exact ⟨str "main.cpp", by decide, by decide⟩
  obtain ⟨hdisk, hlisted⟩ := folderDisk_of_storedIn hstored
  refine ⟨hfiles, folderLaws_host, hdisk, hlisted, ⟨fun file hfile ↦ ?_, by simp⟩,
    folderLaws_joiningMember, folderDisk_joiningMember, ?_⟩
  · rw [List.mem_singleton.mp hfile]
    decide
  · rintro ⟨files, filesDict, hsent, hreceived, hperm⟩
    have hread : hostOfNewFile.buildFiles asciiPlatform allAllowed =
        some [(str "main.cpp", [])] := by decide +kernel
    cases hread.symm.trans hsent
    have harrives : filesReceived (sendFiles [(str "main.cpp", [])]) =
        some [(str "main.cpp", str "0")] := by decide +kernel
    cases harrives.symm.trans hreceived
    have hholds : folderFiles joiningMember.filesPath
        (joiningMember.receiveProject asciiPlatform allAllowed
          [(str "main.cpp", str "0")]).disk = [(str "main.cpp", str "0")] := by decide +kernel
    rw [hholds, hfiles, List.singleton_perm_singleton] at hperm
    exact absurd hperm (by decide)

end NovaIde.Client
