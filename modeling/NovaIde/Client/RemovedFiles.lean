import NovaIde.Client.ProjectTransfer

/-!
# Files that were removed

The editor saves the text box to the path of its current file before almost everything it does, so
a removed file comes back when that path still is the removed file's. `removeFile` gives the current
path up only when the two paths agree in lower case and another file is left in the folder; the
message "No files!" leaves it where it was. Switching to a removed file makes it the current one
again, since only the loading fails, and so does a transfer without files, which removes all files
of the folder and loads none.

`removedFiles` keeps account of the files that were removed and not named since, and
`staysRemoved_of_run` says that none of them is written to in the runs that avoid these steps.
-/

set_option autoImplicit false
set_option relaxedAutoImplicit false

namespace NovaIde.Client

open Foundation Foundation.EventRun

/-! ### Runs over a project -/

/-- What happens to the files of a project: the operations of the editor, and the transfer with
which a session begins. -/
inductive WorkspaceEvent
  | setProjectDetails (filesPath projectName : Text)
  | userEdit (edit : Edit)
  | switchFile (fileName : Text)
  | setNewFileName (fileName : Text)
  | removeFile (fileName : Text)
  | saveFiles
  | receiveProject (filesDict : Files)

/-- The events that need an open project: `Path.Combine` throws without a folder. -/
def WorkspaceEvent.needsProject : WorkspaceEvent → Bool
  | .switchFile _ | .setNewFileName _ | .removeFile _ | .receiveProject _ => true
  | _ => false

namespace Workspace

variable (platform : Platform)

/-- What an event does to the workspace while every operation on files is allowed. -/
def handleProject (workspace : Workspace) : WorkspaceEvent → Workspace
  | .setProjectDetails filesPath projectName => workspace.setProjectDetails filesPath projectName
  | .userEdit edit => { workspace with ide := workspace.ide.userEdit edit }
  | .switchFile fileName => workspace.switchFile platform allAllowed fileName
  | .setNewFileName fileName => workspace.setNewFileName platform allAllowed fileName
  | .removeFile fileName => workspace.removeFile platform allAllowed fileName
  | .saveFiles => workspace.saveFiles platform allAllowed
  | .receiveProject filesDict => workspace.receiveProject platform allAllowed filesDict

/-- A step over a project, with the operations on files that it tries. -/
def projectStep (workspace : Workspace) (event : WorkspaceEvent) :
    Option (Workspace × List FileAccess) :=
  if event.needsProject && workspace.filesPath = [] then none
  else
    let next := workspace.handleProject platform event
    some (next, accessesSince workspace next)

end Workspace

/-- A step of a run over a project. -/
abbrev WorkspaceRecord := StepRecord Workspace WorkspaceEvent (List FileAccess)

/-! ### Removed and named files -/

/-- The path of an operation that deleted a file. -/
def deletedPath (access : FileAccess) : Option Text :=
  match access with
  | ⟨.delete path, true, true⟩ => some path
  | _ => none

/-- The path of an operation that created or wrote a file. -/
def filledPath (access : FileAccess) : Option Text :=
  match access with
  | ⟨.create path, _, true⟩ => some path
  | ⟨.write path _, _, true⟩ => some path
  | _ => none

/-- The paths an event names for files: that of a new project's source file, of a new file, and of
the files of a transfer. -/
def WorkspaceEvent.names (dir : Text) : WorkspaceEvent → List Text
  | .setProjectDetails filesPath projectName => [pathCombine filesPath (projectName ++ str ".cpp")]
  | .setNewFileName fileName => [pathCombine dir fileName]
  | .receiveProject filesDict =>
    (filesDict.map fun file ↦ pathCombine dir (getFileName file.1)) ++
      filesDict.map fun file ↦ pathCombine dir file.1
  | _ => []

section Removed

variable (platform : Platform)

/-- The files a step deletes. -/
def removedIn (record : WorkspaceRecord) : List Text :=
  (record.observation.filterMap deletedPath).map platform.identity

/-- The files a step names. -/
def namedIn (record : WorkspaceRecord) : List Text :=
  (record.event.names record.before.filesPath).map platform.identity

/-- The files that were removed and not named since. A transfer first removes and then names. -/
def removedFiles (history : List WorkspaceRecord) : List Text :=
  history.foldl (fun removed record ↦
    (removed ++ removedIn platform record).filter (· ∉ namedIn platform record)) []

/-- A step writes to no file that was removed, in the step or before it, unless it names it. -/
def StaysRemoved (earlier : List WorkspaceRecord) (record : WorkspaceRecord) : Prop :=
  ∀ path ∈ record.observation.filterMap filledPath,
    platform.identity path ∈ removedFiles platform earlier ++ removedIn platform record →
      platform.identity path ∈ namedIn platform record

instance (earlier : List WorkspaceRecord) (record : WorkspaceRecord) :
    Decidable (StaysRemoved platform earlier record) := by
  unfold StaysRemoved
  infer_instance

/-- The current file is not the one that is removed. -/
def NotCurrent (workspace : Workspace) (filePath : Text) : Prop :=
  platform.fileExists workspace.disk filePath = true →
    platform.identity workspace.currentFilePath ≠ platform.identity filePath

instance (workspace : Workspace) (filePath : Text) :
    Decidable (NotCurrent platform workspace filePath) := by
  unfold NotCurrent
  infer_instance

/-- `removeFile` does not leave the current path at the removed file: another file is current, or
the paths agree in lower case and the first of the files left in the folder is there under its
name. -/
def Releases (workspace : Workspace) (fileName : Text) : Prop :=
  let filePath := pathCombine workspace.filesPath fileName
  let left := platform.deleteFile workspace.disk filePath
  if platform.toLower filePath = platform.toLower workspace.currentFilePath then
    match platform.getFiles left workspace.filesPath with
    | first :: _ =>
      platform.fileExists left (pathCombine workspace.filesPath (getFileName first)) = true
    | [] => NotCurrent platform workspace filePath
  else NotCurrent platform workspace filePath

instance (workspace : Workspace) (fileName : Text) :
    Decidable (Releases platform workspace fileName) := by
  unfold Releases
  dsimp only
  split_ifs
  · split <;> infer_instance
  · infer_instance

/-- A step that does not leave the current path at a removed file.
- What is switched to was not removed.
- A removed file is not the current one, or gives way to another file of the folder.
- A transfer has a file and the folder is a rooted path, or there is nothing in the folder to
  remove. -/
def GivesUp (earlier : List WorkspaceRecord) (record : WorkspaceRecord) : Prop :=
  let workspace := record.before
  match record.event with
  | .switchFile fileName =>
    platform.identity (pathCombine workspace.filesPath fileName) ∉ removedFiles platform earlier
  | .removeFile fileName => Releases platform workspace fileName
  | .receiveProject filesDict =>
    filesDict ≠ [] ∧ isPathRooted workspace.filesPath = true ∨
      platform.getFiles workspace.disk workspace.filesPath = []
  | _ => True

instance (earlier : List WorkspaceRecord) (record : WorkspaceRecord) :
    Decidable (GivesUp platform earlier record) := by
  unfold GivesUp
  dsimp only
  split <;> infer_instance

end Removed

/-! ### What operations do to the existing files -/

/-- What was tried between two workspaces deleted these paths and filled only those, and no file
exists afterwards but the ones that did before and were not deleted, and the filled ones. -/
structure Effect (platform : Platform) (deleted filled : List Text) (before after : Workspace) :
    Prop where
  tried : ∃ tried, after.accesses = before.accesses ++ tried ∧
    tried.filterMap deletedPath = deleted ∧ tried.filterMap filledPath ⊆ filled
  existing : ∀ path, platform.fileExists after.disk path = true →
    platform.fileExists before.disk path = true ∧
        platform.identity path ∉ deleted.map platform.identity ∨
      platform.identity path ∈ filled.map platform.identity

section Effects

variable {platform : Platform} {deleted filled others targets : List Text}
  {before middle after workspace : Workspace} {path : Text}

theorem Effect.refl (platform : Platform) (workspace : Workspace) :
    Effect platform [] [] workspace workspace :=
  ⟨⟨[], by simp, rfl, by simp⟩, fun _ hexists ↦ .inl ⟨hexists, by simp⟩⟩

theorem Effect.trans (hfirst : Effect platform deleted filled before middle)
    (hsecond : Effect platform others targets middle after) :
    Effect platform (deleted ++ others) (filled ++ targets) before after := by
  obtain ⟨tried, htried, hdeleted, hfilled⟩ := hfirst.tried
  obtain ⟨tried', htried', hdeleted', hfilled'⟩ := hsecond.tried
  refine ⟨⟨tried ++ tried', ?_, ?_, ?_⟩, fun path hexists ↦ ?_⟩
  · rw [htried', htried, List.append_assoc]
  · rw [List.filterMap_append, hdeleted, hdeleted']
  · rw [List.filterMap_append]
    exact List.append_subset.mpr ⟨List.Subset.trans hfilled (List.subset_append_left ..),
      List.Subset.trans hfilled' (List.subset_append_right ..)⟩
  · simp only [List.map_append, List.mem_append, not_or]
    rcases hsecond.existing path hexists with ⟨hmiddle, hkept⟩ | hnew
    · rcases hfirst.existing path hmiddle with ⟨hbefore, hkept'⟩ | hnew
      · exact .inl ⟨hbefore, hkept', hkept⟩
      · exact .inr (.inl hnew)
    · exact .inr (.inr hnew)

/-- Only the log and the disk matter. -/
theorem Effect.congr (heffect : Effect platform deleted filled before middle)
    (haccesses : after.accesses = middle.accesses) (hdisk : after.disk = middle.disk) :
    Effect platform deleted filled before after := by
  refine ⟨?_, ?_⟩
  · rw [haccesses]
    exact heffect.tried
  · rw [hdisk]
    exact heffect.existing

/-- Which files exist after a write. -/
theorem fileExists_writeFile (platform : Platform) (disk : Disk) (path content other : Text) :
    platform.fileExists (platform.writeFile disk path content) other =
      (decide (platform.identity other = platform.identity path) ||
        platform.fileExists disk other) := by
  rw [← Platform.isSome_fileText, Platform.fileText_writeFile, ← Platform.isSome_fileText]
  split_ifs with hsame <;> simp [hsame]

/-- Which files exist after a deletion. -/
theorem fileExists_deleteFile (platform : Platform) (disk : Disk) (path other : Text) :
    platform.fileExists (platform.deleteFile disk path) other = true ↔
      platform.fileExists disk other = true ∧ platform.identity other ≠ platform.identity path := by
  simp only [Platform.fileExists, Platform.deleteFile, List.any_eq_true, List.mem_filter,
    Bool.not_eq_true', ← Bool.not_eq_true]
  constructor
  · rintro ⟨file, ⟨hfile, hkept⟩, hother⟩
    refine ⟨⟨file, hfile, hother⟩, fun hsame ↦ hkept ?_⟩
    rwa [← Platform.denotes_congr hsame]
  · rintro ⟨⟨file, hfile, hother⟩, hne⟩
    exact ⟨file, ⟨hfile, fun hpath ↦ hne (Platform.identity_eq_of_denotes hother hpath)⟩, hother⟩

/-- A single operation that writes at most one file. -/
theorem effect_of_write {access : FileAccess}
    (haccesses : after.accesses = before.accesses ++ [access])
    (hdeleted : deletedPath access = none)
    (hfilled : filledPath access = none ∨ filledPath access = some path)
    (hdisk : after.disk = before.disk ∨
      ∃ content, after.disk = platform.writeFile before.disk path content) :
    Effect platform [] [path] before after := by
  refine ⟨⟨[access], haccesses, by simp [hdeleted], ?_⟩, fun other hexists ↦ ?_⟩
  · rcases hfilled with hfilled | hfilled <;> simp [hfilled]
  · rcases hdisk with hdisk | ⟨content, hdisk⟩
    · rw [hdisk] at hexists
      exact .inl ⟨hexists, by simp⟩
    · rw [hdisk, fileExists_writeFile, Bool.or_eq_true, decide_eq_true_eq] at hexists
      rcases hexists with hsame | hexists
      · exact .inr (by simp [hsame])
      · exact .inl ⟨hexists, by simp⟩

theorem effect_create (outcomes : Outcomes) (workspace : Workspace) (path : Text) :
    Effect platform [] [path] workspace
      (workspace.access platform outcomes (.create path)) := by
  refine effect_of_write rfl rfl ?_ ?_
  · cases workspace.succeeds platform outcomes (.create path) <;> simp [filledPath]
  · simp only [Workspace.access]
    split_ifs
    · exact .inr ⟨[], rfl⟩
    · exact .inl rfl

theorem effect_write (outcomes : Outcomes) (workspace : Workspace) (path content : Text) :
    Effect platform [] [path] workspace
      (workspace.access platform outcomes (.write path content)) := by
  refine effect_of_write rfl rfl ?_ ?_
  · cases workspace.succeeds platform outcomes (.write path content) <;> simp [filledPath]
  · simp only [Workspace.access]
    split_ifs
    · exact .inr ⟨content, rfl⟩
    · exact .inl rfl

/-- Loading a file neither deletes nor fills one. -/
theorem effect_loadFileIntoIDE (outcomes : Outcomes) (workspace : Workspace) (fileName : Text) :
    Effect platform [] [] workspace (workspace.loadFileIntoIDE platform outcomes fileName) := by
  obtain ⟨access, haction, haccesses, hdisk, -⟩ :=
    loadFileIntoIDE_cases platform outcomes workspace fileName
  refine ⟨⟨[access], haccesses, ?_, ?_⟩, fun other hexists ↦ ?_⟩
  · obtain ⟨action, existed, succeeded⟩ := access
    cases haction
    rfl
  · obtain ⟨action, existed, succeeded⟩ := access
    cases haction
    simp [filledPath]
  · rw [hdisk] at hexists
    exact .inl ⟨hexists, by simp⟩

/-- More paths may be filled. -/
theorem Effect.mono (heffect : Effect platform deleted filled before after)
    (hsubset : filled ⊆ targets) : Effect platform deleted targets before after := by
  obtain ⟨tried, htried, hdeleted, hfilled⟩ := heffect.tried
  refine ⟨⟨tried, htried, hdeleted, List.Subset.trans hfilled hsubset⟩, fun path hexists ↦ ?_⟩
  exact (heffect.existing path hexists).imp_right fun hnew ↦ List.map_subset _ hsubset hnew

/-- Removing a file deletes it when it is there. -/
theorem effect_removeFile (workspace : Workspace) (fileName : Text) :
    let filePath := pathCombine workspace.filesPath fileName
    Effect platform (if platform.fileExists workspace.disk filePath then [filePath] else []) []
      workspace (workspace.removeFile platform allAllowed fileName) := by
  intro filePath
  have hdelete : Effect platform
      (if platform.fileExists workspace.disk filePath then [filePath] else []) [] workspace
        (afterDelete platform allAllowed workspace filePath) := by
    unfold afterDelete
    split_ifs with hexists
    · have hlog : (workspace.access platform allAllowed (.delete filePath)).accesses =
          workspace.accesses ++ [⟨.delete filePath, true, true⟩] := by
        simp [Workspace.access, Workspace.succeeds, allAllowed, FileAction.path, hexists]
      refine ⟨⟨_, hlog, rfl, by simp [filledPath]⟩, fun other hother ↦ .inl ?_⟩
      have hkept := (fileExists_deleteFile platform workspace.disk filePath other).mp hother
      exact ⟨hkept.1, by simpa using hkept.2⟩
    · exact .refl platform workspace
  rcases removeFile_cases platform allAllowed workspace fileName with
    ⟨-, hnext⟩ | ⟨-, ⟨first, rest, -, hnext⟩ | ⟨-, hnext⟩⟩
  · rw [hnext]
    exact hdelete
  · let moved := { afterDelete platform allAllowed workspace filePath with
      currentFilePath := pathCombine workspace.filesPath (getFileName first) }
    have hmoved : Effect platform
        (if platform.fileExists workspace.disk filePath then [filePath] else []) [] workspace
          moved := hdelete.congr rfl rfl
    have hloaded := hmoved.trans (effect_loadFileIntoIDE allAllowed moved (getFileName first))
    simp only [List.append_nil] at hloaded
    rw [hnext]
    exact hloaded
  · rw [hnext]
    exact hdelete.congr rfl rfl

/-- Removing files fills none. -/
theorem effect_foldl_removeFile (files : List Text) : ∀ workspace : Workspace,
    ∃ deleted, (files = [] → deleted = []) ∧
      Effect platform deleted [] workspace (files.foldl (fun workspace file ↦
        workspace.removeFile platform allAllowed (getFileName file)) workspace) := by
  induction files with
  | nil => exact fun workspace ↦ ⟨[], fun _ ↦ rfl, .refl platform workspace⟩
  | cons file files ih =>
    intro workspace
    obtain ⟨deleted, -, hrest⟩ := ih (workspace.removeFile platform allAllowed (getFileName file))
    exact ⟨_, by simp, (effect_removeFile workspace (getFileName file)).trans hrest⟩

/-- Received files are created under their file names. -/
theorem effect_createReceived (names : List Text) : ∀ workspace : Workspace,
    Effect platform [] (names.map fun name ↦ pathCombine workspace.filesPath (getFileName name))
      workspace (workspace.createReceived platform allAllowed names).1 := by
  induction names with
  | nil => exact fun workspace ↦ .refl platform workspace
  | cons name names ih =>
    intro workspace
    have hcreate := @effect_create platform allAllowed workspace
      (pathCombine workspace.filesPath (getFileName name))
    simp only [Workspace.createReceived]
    split_ifs
    · exact hcreate.trans (ih (workspace.access platform allAllowed
        (.create (pathCombine workspace.filesPath (getFileName name)))))
    · exact hcreate.mono (by simp)

/-- Their contents are written under their names. -/
theorem effect_setConent (files : Files) : ∀ (workspace : Workspace) (isFirst : Bool),
    Effect platform [] (files.map fun file ↦ pathCombine workspace.filesPath file.1) workspace
      (workspace.setConent platform allAllowed isFirst files) := by
  induction files with
  | nil => exact fun workspace _ ↦ .refl platform workspace
  | cons file files ih =>
    intro workspace isFirst
    obtain ⟨name, content⟩ := file
    have hwrite := @effect_write platform allAllowed workspace
      (pathCombine workspace.filesPath name) content
    have hwritten := fun isFirst ↦ hwrite.trans (ih (workspace.access platform allAllowed
      (.write (pathCombine workspace.filesPath name) content)) isFirst)
    simp only [Workspace.setConent]
    split_ifs
    · have hload := hwrite.trans (effect_loadFileIntoIDE allAllowed _
        (pathCombine workspace.filesPath name))
      have hrest := ih ((workspace.access platform allAllowed
        (.write (pathCombine workspace.filesPath name) content)).loadFileIntoIDE platform allAllowed
          (pathCombine workspace.filesPath name)) false
      rw [filesPath_loadFileIntoIDE] at hrest
      exact hload.trans hrest
    · exact hwritten false
    · exact hwritten isFirst

/-- A transfer deletes files of the folder and fills those it names. -/
theorem effect_receiveProject (workspace : Workspace) (filesDict : Files) :
    ∃ deleted, (platform.getFiles workspace.disk workspace.filesPath = [] → deleted = []) ∧
      Effect platform deleted
        ((WorkspaceEvent.receiveProject filesDict).names workspace.filesPath) workspace
          (workspace.receiveProject platform allAllowed filesDict) := by
  have hfolder := (createsNothing_foldl_removeFile platform allAllowed
    (platform.getFiles workspace.disk workspace.filesPath) workspace).1
  obtain ⟨deleted, hnone, hremoved⟩ := @effect_foldl_removeFile platform
    (platform.getFiles workspace.disk workspace.filesPath) workspace
  have hcreated := @effect_createReceived platform (filesDict.map Prod.fst)
    ((platform.getFiles workspace.disk workspace.filesPath).foldl (fun workspace file ↦
      workspace.removeFile platform allAllowed (getFileName file)) workspace)
  rw [hfolder, List.map_map] at hcreated
  have hreceived := hremoved.trans hcreated
  rw [List.append_nil] at hreceived
  refine ⟨deleted, hnone, ?_⟩
  have hcreatedFolder := (created_recieveFiles platform allAllowed workspace filesDict).1
  have hfilled := @effect_setConent platform filesDict
    (workspace.recieveFiles platform allAllowed filesDict).1 true
  rw [hcreatedFolder] at hfilled
  simp only [Workspace.receiveProject]
  split_ifs
  · have hwritten := hreceived.trans hfilled
    rw [List.append_nil] at hwritten
    exact hwritten
  · exact hreceived.mono (List.subset_append_left ..)

/-- Switching saves the current file. -/
theorem effect_switchFile (workspace : Workspace) (fileName : Text) :
    Effect platform [] [workspace.currentFilePath] workspace
      (workspace.switchFile platform allAllowed fileName) := by
  let updating := { workspace with ide := { workspace.ide with updatingFiles := true } }
  let saved := updating.saveContentToFile platform allAllowed workspace.currentFilePath
    workspace.ide.text
  let moved := { saved with currentFilePath := pathCombine workspace.filesPath fileName }
  have hupdating : Effect platform [] [] workspace updating :=
    (Effect.refl platform workspace).congr rfl rfl
  have hsaved : Effect platform [] [workspace.currentFilePath] workspace moved :=
    (hupdating.trans (effect_write allAllowed updating _ _)).congr rfl rfl
  exact (hsaved.trans (effect_loadFileIntoIDE allAllowed moved fileName)).congr rfl rfl

/-- A new file is created, and the current one saved. -/
theorem effect_setNewFileName (workspace : Workspace) (fileName : Text) :
    Effect platform [] [pathCombine workspace.filesPath fileName, workspace.currentFilePath]
      workspace (workspace.setNewFileName platform allAllowed fileName) := by
  let created := workspace.access platform allAllowed
    (.create (pathCombine workspace.filesPath fileName))
  have hcreated : Effect platform [] [pathCombine workspace.filesPath fileName] workspace created :=
    effect_create allAllowed workspace _
  simp only [Workspace.setNewFileName]
  split_ifs
  · exact (Effect.refl platform workspace).mono (by simp)
  · exact (hcreated.trans (effect_write allAllowed created workspace.currentFilePath
      workspace.ide.text)).congr rfl rfl
  · exact hcreated.mono (by simp)

end Effects

/-! ### Where the current path ends up -/

section Current

variable {platform : Platform} {workspace : Workspace}

/-- Loading a file makes it the current one when it is there. -/
theorem currentFilePath_loadFileIntoIDE (workspace : Workspace) (fileName : Text) :
    let filePath := pathCombine workspace.filesPath fileName
    (workspace.loadFileIntoIDE platform allAllowed fileName).currentFilePath =
      if platform.fileExists workspace.disk filePath then filePath
      else workspace.currentFilePath := by
  intro filePath
  have hsucceeds : workspace.succeeds platform allAllowed (.read filePath) =
      platform.fileExists workspace.disk filePath := rfl
  simp only [Workspace.loadFileIntoIDE, ← Platform.isSome_fileText] at hsucceeds ⊢
  rw [show pathCombine workspace.filesPath fileName = filePath from rfl, hsucceeds]
  cases htext : platform.fileText workspace.disk filePath with
  | none => rfl
  | some content => rfl

/-- A write removes no file. -/
theorem fileExists_access_write {path : Text} (workspace : Workspace) (target content : Text)
    (hexists : platform.fileExists workspace.disk path = true) :
    platform.fileExists (workspace.access platform allAllowed (.write target content)).disk path =
      true := by
  simp only [Workspace.access]
  split_ifs
  · simp [fileExists_writeFile, hexists]
  · exact hexists

/-- `setConent` removes no file. -/
theorem fileExists_setConent {path : Text} (files : Files) :
    ∀ (workspace : Workspace) (isFirst : Bool),
      platform.fileExists workspace.disk path = true →
        platform.fileExists (workspace.setConent platform allAllowed isFirst files).disk path =
          true := by
  induction files with
  | nil => exact fun _ _ hexists ↦ hexists
  | cons file files ih =>
    intro workspace isFirst hexists
    obtain ⟨name, content⟩ := file
    have hwritten := fileExists_access_write workspace
      (pathCombine workspace.filesPath name) content hexists
    simp only [Workspace.setConent]
    split_ifs
    · refine ih _ false ?_
      rw [disk_loadFileIntoIDE]
      exact hwritten
    · exact ih _ false hwritten
    · exact ih _ isFirst hwritten

/-- Only the first written file is loaded. -/
theorem currentFilePath_setConent_false (files : Files) : ∀ workspace : Workspace,
    (workspace.setConent platform allAllowed false files).currentFilePath =
      workspace.currentFilePath := by
  induction files with
  | nil => exact fun _ ↦ rfl
  | cons file files ih =>
    intro workspace
    simp only [Workspace.setConent, Bool.false_eq_true, if_false, ite_self]
    exact ih _

/-- `setConent` leaves the current path alone or at a file that exists. -/
theorem currentFilePath_setConent (files : Files) (workspace : Workspace) (isFirst : Bool) :
    let next := workspace.setConent platform allAllowed isFirst files
    next.currentFilePath = workspace.currentFilePath ∨
      platform.fileExists next.disk next.currentFilePath = true := by
  induction files generalizing workspace isFirst with
  | nil => exact .inl rfl
  | cons file files ih =>
    obtain ⟨name, content⟩ := file
    simp only [Workspace.setConent]
    split_ifs
    · rw [currentFilePath_setConent_false, currentFilePath_loadFileIntoIDE]
      split_ifs with hexists
      · refine .inr (fileExists_setConent files _ false ?_)
        rw [disk_loadFileIntoIDE]
        exact hexists
      · exact .inl rfl
    · exact ih (workspace.access platform allAllowed
        (.write (pathCombine workspace.filesPath name) content)) false
    · exact ih (workspace.access platform allAllowed
        (.write (pathCombine workspace.filesPath name) content)) isFirst

/-- In a folder with a rooted path, `setConent` makes a file that exists the current one. -/
theorem fileExists_currentFilePath_setConent {files : Files} (hfiles : files ≠ [])
    (hrooted : isPathRooted workspace.filesPath = true) :
    let next := workspace.setConent platform allAllowed true files
    platform.fileExists next.disk next.currentFilePath = true := by
  have hdir := ne_nil_of_isPathRooted hrooted
  match files with
  | [] => exact absurd rfl hfiles
  | (name, content) :: files =>
    obtain ⟨hsucceeds, hwritten⟩ := @access_write platform _ hdir workspace name content
    have hpath := isPathRooted_pathCombine hrooted name
    have hexists : platform.fileExists (workspace.access platform allAllowed
        (.write (pathCombine workspace.filesPath name) content)).disk
          (pathCombine workspace.filesPath name) = true := by
      simp [hwritten, fileExists_writeFile]
    simp only [Workspace.setConent, hsucceeds, if_true, currentFilePath_setConent_false,
      currentFilePath_loadFileIntoIDE, filesPath_access, pathCombine_of_rooted hdir hpath, hexists]
    refine fileExists_setConent files _ false ?_
    rw [disk_loadFileIntoIDE]
    exact hexists

/-- `createReceived` leaves the current path alone. -/
theorem currentFilePath_createReceived (names : List Text) : ∀ workspace : Workspace,
    (workspace.createReceived platform allAllowed names).1.currentFilePath =
      workspace.currentFilePath := by
  induction names with
  | nil => exact fun _ ↦ rfl
  | cons name names ih =>
    intro workspace
    simp only [Workspace.createReceived]
    split_ifs
    · exact ih (workspace.access platform allAllowed
        (.create (pathCombine workspace.filesPath (getFileName name))))
    · rfl

end Current

/-! ### What a step keeps -/

/-- The removed files are gone, and the current path is at none of them. -/
structure OnTrack (platform : Platform) (removed : List Text) (workspace : Workspace) : Prop where
  gone : ∀ path, platform.identity path ∈ removed →
    platform.fileExists workspace.disk path = false
  current : platform.identity workspace.currentFilePath ∉ removed

section Steps

variable {platform : Platform} {earlier : List WorkspaceRecord} {workspace next : Workspace}
  {event : WorkspaceEvent}

/-- The account of the removed files, step by step. -/
theorem removedFiles_append_singleton (record : WorkspaceRecord) :
    removedFiles platform (earlier ++ [record]) =
      (removedFiles platform earlier ++ removedIn platform record).filter
        (· ∉ namedIn platform record) := by
  simp [removedFiles]

/-- A step that fills only named files and files that were not removed, and leaves the current path
at a file that exists, is named, or was not removed. -/
theorem onTrack_of_effect {deleted filled : List Text}
    (heffect : Effect platform deleted filled workspace next)
    (htrack : OnTrack platform (removedFiles platform earlier) workspace)
    (hfilled : ∀ target ∈ filled, target ∈ event.names workspace.filesPath ∨
      platform.identity target ∉
        removedFiles platform earlier ++ deleted.map platform.identity)
    (hcurrent : platform.fileExists next.disk next.currentFilePath = true ∨
      next.currentFilePath ∈ event.names workspace.filesPath ∨
        platform.identity next.currentFilePath ∉
          removedFiles platform earlier ++ deleted.map platform.identity) :
    let record : WorkspaceRecord := ⟨workspace, event, accessesSince workspace next, next⟩
    StaysRemoved platform earlier record ∧
      OnTrack platform (removedFiles platform (earlier ++ [record])) next := by
  intro record
  obtain ⟨tried, htried, hdeleted, hsubset⟩ := heffect.tried
  have hobserved : record.observation = tried := accessesSince_eq htried
  have hremoved : removedIn platform record = deleted.map platform.identity := by
    rw [removedIn, hobserved, hdeleted]
  have hnamed : ∀ path ∈ event.names workspace.filesPath,
      platform.identity path ∈ namedIn platform record :=
    fun path hpath ↦ List.mem_map_of_mem hpath
  have hgone : ∀ path,
      platform.identity path ∈ removedFiles platform (earlier ++ [record]) →
        platform.fileExists next.disk path = false := by
    intro path hpath
    rw [removedFiles_append_singleton, hremoved, List.mem_filter, decide_eq_true_eq] at hpath
    rw [← Bool.not_eq_true]
    intro hexists
    rcases heffect.existing path hexists with ⟨hbefore, hkept⟩ | hnew
    · rcases List.mem_append.mp hpath.1 with hold | hnow
      · simp [htrack.gone path hold] at hbefore
      · exact hkept hnow
    · obtain ⟨target, htarget, hsame⟩ := List.mem_map.mp hnew
      rw [← hsame] at hpath
      rcases hfilled target htarget with hname | hother
      · exact hpath.2 (hnamed target hname)
      · exact hother hpath.1
  refine ⟨fun path hpath hremovedPath ↦ ?_, hgone, fun hpath ↦ ?_⟩
  · rw [hobserved] at hpath
    rw [hremoved] at hremovedPath
    rcases hfilled path (hsubset hpath) with hname | hother
    · exact hnamed path hname
    · exact absurd hremovedPath hother
  · rcases hcurrent with hexists | hname | hother
    · simp [hgone _ hpath] at hexists
    · rw [removedFiles_append_singleton, List.mem_filter, decide_eq_true_eq] at hpath
      exact hpath.2 (hnamed _ hname)
    · rw [removedFiles_append_singleton, hremoved, List.mem_filter] at hpath
      exact hother hpath.1

/-- A removal that gives the current path up. -/
theorem currentFilePath_removeFile {fileName : Text}
    (hgives : Releases platform workspace fileName) :
    let filePath := pathCombine workspace.filesPath fileName
    let after := workspace.removeFile platform allAllowed fileName
    platform.fileExists after.disk after.currentFilePath = true ∨
      after.currentFilePath = workspace.currentFilePath ∧
        NotCurrent platform workspace filePath := by
  intro filePath after
  have hdisk := @disk_afterDelete platform workspace filePath
  simp only [Releases] at hgives
  rcases removeFile_cases platform allAllowed workspace fileName with
    ⟨hother, hnext⟩ | ⟨hsame, ⟨first, rest, hfiles, hnext⟩ | ⟨hfiles, hnext⟩⟩
  · rw [if_neg hother] at hgives
    exact .inr ⟨(congrArg Workspace.currentFilePath hnext).trans (currentFilePath_afterDelete _),
      hgives⟩
  · rw [if_pos hsame] at hgives
    rw [hdisk] at hfiles
    rw [hfiles, ← hdisk] at hgives
    refine .inl ?_
    simp only [after, hnext, currentFilePath_loadFileIntoIDE, disk_loadFileIntoIDE,
      filesPath_afterDelete, ite_self]
    exact hgives
  · rw [if_pos hsame] at hgives
    rw [hdisk] at hfiles
    rw [hfiles] at hgives
    exact .inr ⟨(congrArg Workspace.currentFilePath hnext).trans (currentFilePath_afterDelete _),
      hgives⟩

/-- A transfer that gives the current path up. -/
theorem currentFilePath_receiveProject {filesDict : Files}
    (hgives : filesDict ≠ [] ∧ isPathRooted workspace.filesPath = true ∨
      platform.getFiles workspace.disk workspace.filesPath = []) :
    let after := workspace.receiveProject platform allAllowed filesDict
    platform.fileExists after.disk after.currentFilePath = true ∨
      after.currentFilePath = workspace.currentFilePath ∧
        platform.getFiles workspace.disk workspace.filesPath = [] := by
  intro after
  obtain ⟨hfolder, -, -⟩ := created_recieveFiles platform allAllowed workspace filesDict
  rcases hgives with ⟨hfiles, hrooted⟩ | hnone
  · have hends : (workspace.recieveFiles platform allAllowed filesDict).2 = true := by
      refine createReceived_ends platform _ _ ?_
      rw [(createsNothing_foldl_removeFile platform _ _ workspace).1]
      exact ne_nil_of_isPathRooted hrooted
    simp only [after, Workspace.receiveProject, hends, if_true]
    refine .inl (fileExists_currentFilePath_setConent hfiles ?_)
    rw [hfolder]
    exact hrooted
  · have hcurrent : (workspace.recieveFiles platform allAllowed filesDict).1.currentFilePath =
        workspace.currentFilePath := by
      simp only [Workspace.recieveFiles, hnone, List.foldl_nil, currentFilePath_createReceived]
    simp only [after, Workspace.receiveProject]
    split_ifs
    · rcases currentFilePath_setConent filesDict
        (workspace.recieveFiles platform allAllowed filesDict).1 true with hkept | hexists
      · exact .inr ⟨hkept.trans hcurrent, hnone⟩
      · exact .inl hexists
    · exact .inr ⟨hcurrent, hnone⟩

/-- A step that gives up the paths of removed files writes to none, and leaves the current path at
none. -/
theorem onTrack_of_step (htrack : OnTrack platform (removedFiles platform earlier) workspace)
    (hgives : GivesUp platform earlier
      ⟨workspace, event, accessesSince workspace (workspace.handleProject platform event),
        workspace.handleProject platform event⟩) :
    let record : WorkspaceRecord :=
      ⟨workspace, event, accessesSince workspace (workspace.handleProject platform event),
        workspace.handleProject platform event⟩
    StaysRemoved platform earlier record ∧
      OnTrack platform (removedFiles platform (earlier ++ [record])) record.after := by
  have hcurrent : platform.identity workspace.currentFilePath ∉
      removedFiles platform earlier ++ ([] : List Text).map platform.identity := by
    simpa using htrack.current
  cases event with
  | setProjectDetails filesPath projectName =>
    have heffect : Effect platform [] [] workspace
        (workspace.setProjectDetails filesPath projectName) :=
      (Effect.refl platform workspace).congr rfl rfl
    exact onTrack_of_effect heffect htrack (by simp) (.inr (.inl (List.mem_singleton_self _)))
  | userEdit edit =>
    have heffect : Effect platform [] [] workspace
        { workspace with ide := workspace.ide.userEdit edit } :=
      (Effect.refl platform workspace).congr rfl rfl
    exact onTrack_of_effect heffect htrack (by simp) (.inr (.inr hcurrent))
  | switchFile fileName =>
    have hmoved : (workspace.switchFile platform allAllowed fileName).currentFilePath =
        pathCombine workspace.filesPath fileName := by
      obtain ⟨_, _, -, -, -, -, hmoved, -⟩ :=
        switchFile_cases platform allAllowed workspace fileName
      exact hmoved
    refine onTrack_of_effect (effect_switchFile workspace fileName) htrack ?_ (.inr (.inr ?_))
    · simpa using Or.inr htrack.current
    · rw [show (workspace.handleProject platform (.switchFile fileName)).currentFilePath = _
        from hmoved, List.map_nil, List.append_nil]
      exact hgives
  | setNewFileName fileName =>
    refine onTrack_of_effect (effect_setNewFileName workspace fileName) htrack ?_ ?_
    · intro target htarget
      rcases List.mem_pair.mp htarget with rfl | rfl
      · exact .inl (List.mem_singleton_self _)
      · exact .inr hcurrent
    · simp only [Workspace.handleProject, Workspace.setNewFileName]
      split_ifs
      · exact .inr (.inr hcurrent)
      · exact .inr (.inl (List.mem_singleton_self _))
      · exact .inr (.inr hcurrent)
  | removeFile fileName =>
    refine onTrack_of_effect (effect_removeFile workspace fileName) htrack (by simp) ?_
    rcases currentFilePath_removeFile hgives with hexists | ⟨hkept, hother⟩
    · exact .inl hexists
    · refine .inr (.inr ?_)
      rw [show (workspace.handleProject platform (.removeFile fileName)).currentFilePath = _
        from hkept, List.mem_append, not_or]
      refine ⟨htrack.current, ?_⟩
      split_ifs with hexists
      · simpa using hother hexists
      · simp
  | saveFiles =>
    refine onTrack_of_effect
      (effect_write allAllowed workspace workspace.currentFilePath workspace.ide.text) htrack ?_
      (.inr (.inr hcurrent))
    simpa using Or.inr htrack.current
  | receiveProject filesDict =>
    obtain ⟨deleted, hnone, heffect⟩ := effect_receiveProject workspace filesDict
    refine onTrack_of_effect heffect htrack (fun target htarget ↦ .inl htarget) ?_
    rcases currentFilePath_receiveProject hgives with hexists | ⟨hkept, hempty⟩
    · exact .inl hexists
    · refine .inr (.inr ?_)
      rw [show (workspace.handleProject platform (.receiveProject filesDict)).currentFilePath = _
        from hkept, hnone hempty]
      exact hcurrent

/-- Assumes: a run over a project in which every operation on files is allowed, whose steps all
give up the paths of removed files. No removed file is written to before it is named again. -/
theorem staysRemoved_of_run {initial : Workspace} {history : List WorkspaceRecord}
    (hrun : Run (Workspace.projectStep platform) initial history workspace)
    (hgives : EveryStep (GivesUp platform) history) :
    EveryStep (StaysRemoved platform) history := by
  have hkept : EveryStep (StaysRemoved platform) history ∧
      OnTrack platform (removedFiles platform history) workspace := by
    refine hrun.relation_of_everyStep
      (fun history workspace ↦ EveryStep (StaysRemoved platform) history ∧
        OnTrack platform (removedFiles platform history) workspace)
      ⟨by simp, by simp [removedFiles], by simp [removedFiles]⟩ ?_ hgives
    rintro history workspace event next observation - ⟨hstays, htrack⟩ hgives hstep
    simp only [Workspace.projectStep] at hstep
    split_ifs at hstep
    cases hstep
    obtain ⟨hlast, htrack⟩ := onTrack_of_step htrack hgives
    exact ⟨everyStep_append_singleton.mpr ⟨hstays, hlast⟩, htrack⟩
  exact hkept.1

/-- Two files are made, and the first of them is removed while it is the current one. -/
theorem staysRemoved_of_run_two : ∃ history workspace,
    Run (Workspace.projectStep asciiPlatform) {} history workspace ∧
      removedFiles asciiPlatform history = [(str "C:\\p\\a.cpp").map upCaseAscii] ∧
        EveryStep (StaysRemoved asciiPlatform) history := by
  obtain ⟨history, workspace, hrun, -, hcheck⟩ := exists_run_of_execute
    (Workspace.projectStep asciiPlatform) {}
    [.setProjectDetails (str "C:\\p") (str "a"), .saveFiles, .setNewFileName (str "b.h"),
      .switchFile (str "a.cpp"), .removeFile (str "A.CPP"), .saveFiles]
    (fun history _ ↦ removedFiles asciiPlatform history =
        [(str "C:\\p\\a.cpp").map upCaseAscii] ∧
      EveryStep (GivesUp asciiPlatform) history) (by decide +kernel)
  obtain ⟨hremoved, hgives⟩ := of_decide_eq_true hcheck
  exact ⟨history, workspace, hrun, hremoved, staysRemoved_of_run hrun hgives⟩

/-- The only file is removed and then saved. -/
theorem not_staysRemoved_of_run :
    ¬ ∀ platform initial history workspace,
      Run (Workspace.projectStep platform) initial history workspace →
        EveryStep (StaysRemoved platform) history := by
  intro hall
  obtain ⟨history, workspace, hrun, -, hcheck⟩ := exists_run_of_execute
    (Workspace.projectStep asciiPlatform) {}
    [.setProjectDetails (str "C:\\p") (str "a"), .saveFiles, .removeFile (str "a.cpp"),
      .saveFiles]
    (fun history _ ↦ ¬ EveryStep (StaysRemoved asciiPlatform) history) (by decide +kernel)
  exact of_decide_eq_true hcheck (hall asciiPlatform {} history workspace hrun)

end Steps

end NovaIde.Client
