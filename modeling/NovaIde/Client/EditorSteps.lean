import NovaIde.Foundation.EventRun
import NovaIde.Client.ReceivedFiles

/-!
# The editor step by step

What happens in the editor while it works on the files of a project: a project is opened, the user
edits, switches files, adds and removes files, and saves (`Workspace.editorStep`). For each of these
there is a lemma that says which operations on files it tries and what it leaves behind, whichever
of them fail (`loadFileIntoIDE_cases`, `projectDetailsDone_cases`, `switchFile_cases`,
`removeFile_cases`), and one that says that all of them save only the text box, and only over the
current file (`onlySaves_handleEvent`).
-/

set_option autoImplicit false
set_option relaxedAutoImplicit false

namespace NovaIde.Client

open Foundation Foundation.EventRun

/-! ### Runs of the editor -/

/-- What happens in the editor while nobody else takes part. -/
inductive EditorEvent
  | projectDetails (folderPath projectName : Text) (outcomes : Outcomes)
  | userEdit (edit : Edit)
  | switchFile (fileName : Text) (outcomes : Outcomes)
  | setNewFileName (fileName : Text) (outcomes : Outcomes)
  | removeFile (fileName : Text) (outcomes : Outcomes)
  | saveFiles (outcomes : Outcomes)

/-- The events that need an open project: `Path.Combine` throws without a folder. -/
def EditorEvent.needsProject : EditorEvent → Bool
  | .switchFile .. | .setNewFileName .. | .removeFile .. => true
  | _ => false

namespace Workspace

variable (platform : Platform)

/-- What an event does to the workspace. -/
def handleEvent (workspace : Workspace) : EditorEvent → Workspace
  | .projectDetails folderPath projectName outcomes =>
    workspace.projectDetailsDone platform outcomes folderPath projectName
  | .userEdit edit => { workspace with ide := workspace.ide.userEdit edit }
  | .switchFile fileName outcomes => workspace.switchFile platform outcomes fileName
  | .setNewFileName fileName outcomes => workspace.setNewFileName platform outcomes fileName
  | .removeFile fileName outcomes => workspace.removeFile platform outcomes fileName
  | .saveFiles outcomes => workspace.saveFiles platform outcomes

/-- A step of the editor, with the operations on files that it tries. -/
def editorStep (workspace : Workspace) (event : EditorEvent) :
    Option (Workspace × List FileAccess) :=
  if event.needsProject && workspace.filesPath = [] then none
  else
    let next := workspace.handleEvent platform event
    some (next, accessesSince workspace next)

end Workspace

/-- A step of a run of the editor. -/
abbrev EditorRecord := StepRecord Workspace EditorEvent (List FileAccess)

section Operations

variable (platform : Platform)

/-- The content of a file; a file that does not exist counts as empty. -/
def contentOf (disk : Disk) (path : Text) : Text := (platform.fileText disk path).getD []

/-- The path and the content of an operation that put a content over an existing file. -/
def overwritten (access : FileAccess) : Option (Text × Text) :=
  match access with
  | ⟨.write path content, true, true⟩ => some (path, content)
  | _ => none

/-- The workspace once `removeFile` has tried to delete the file. -/
def afterDelete (outcomes : Outcomes) (workspace : Workspace) (filePath : Text) : Workspace :=
  if platform.fileExists workspace.disk filePath then
    workspace.access platform outcomes (.delete filePath)
  else workspace

/-- The path of the source file that a new project starts with. -/
def sourceFilePath (folderPath projectName : Text) : Text :=
  pathCombine (folderPath ++ str "\\" ++ projectName) (projectName ++ str ".cpp")

/-- Every operation is allowed. -/
def allAllowed : Outcomes := ⟨fun _ ↦ true, true⟩

/-! ### What the operations try and leave behind -/

variable {platform} {outcomes : Outcomes} {workspace : Workspace}

/-- The operations tried, from the log. -/
theorem accessesSince_eq {before after : Workspace} {tried : List FileAccess}
    (hafter : after.accesses = before.accesses ++ tried) : accessesSince before after = tried := by
  rw [accessesSince, hafter, List.drop_left]

/-- Loading a file: it is read, and its content becomes the text, or nothing but the log
changes. -/
theorem loadFileIntoIDE_cases (platform : Platform) (outcomes : Outcomes) (workspace : Workspace)
    (fileName : Text) :
    let filePath := pathCombine workspace.filesPath fileName
    let next := workspace.loadFileIntoIDE platform outcomes fileName
    ∃ access : FileAccess, access.action = .read filePath ∧
      next.accesses = workspace.accesses ++ [access] ∧ next.disk = workspace.disk ∧
      (access.succeeded = true ∧ next.currentFilePath = filePath ∧
          next.ide.text = contentOf platform workspace.disk filePath ∨
        access.succeeded = false ∧ workspace.succeeds platform outcomes (.read filePath) = false ∧
          next.currentFilePath = workspace.currentFilePath ∧ next.ide = workspace.ide) := by
  intro filePath next
  cases hsucceeds : workspace.succeeds platform outcomes (.read filePath) with
  | true =>
    have hsome : (platform.fileText workspace.disk filePath).isSome = true := by
      rw [Platform.isSome_fileText]
      simp only [Workspace.succeeds, Bool.and_eq_true] at hsucceeds
      exact hsucceeds.2
    obtain ⟨content, hcontent⟩ := Option.isSome_iff_exists.mp hsome
    have hnext : next =
        { workspace.access platform outcomes (.read filePath) with
          ide := workspace.ide.loadFileIntoIDE (some content)
          currentFilePath := filePath } := by
      simp only [next, Workspace.loadFileIntoIDE]
      rw [if_pos hsucceeds, hcontent]
      rfl
    rw [hnext]
    refine ⟨_, rfl, rfl, ?_, .inl ⟨hsucceeds, rfl, ?_⟩⟩
    · simp [Workspace.access]
    · simp [Ide.loadFileIntoIDE, contentOf, hcontent]
  | false =>
    have hnext : next = workspace.access platform outcomes (.read filePath) := by
      simp only [next, Workspace.loadFileIntoIDE]
      rw [if_neg (by simpa [filePath] using hsucceeds)]
    rw [hnext]
    refine ⟨_, rfl, rfl, ?_, .inr ⟨hsucceeds, rfl, rfl, rfl⟩⟩
    simp [Workspace.access]

/-- The operations tried between two workspaces put at most one content over an existing file:
that of the first one's text box, over its current file. -/
def OnlySaves (saved : Text × Text) (before after : Workspace) : Prop :=
  ∃ tried, after.accesses = before.accesses ++ tried ∧
    ∀ save ∈ tried.filterMap overwritten, save = saved ∧ save.1 ≠ []

variable {saved : Text × Text}

theorem OnlySaves.refl (workspace : Workspace) : OnlySaves saved workspace workspace :=
  ⟨[], by simp, by simp⟩

theorem OnlySaves.trans {first second third : Workspace} (hfirst : OnlySaves saved first second)
    (hsecond : OnlySaves saved second third) : OnlySaves saved first third := by
  obtain ⟨tried, htried, hsaves⟩ := hfirst
  obtain ⟨others, hothers, hsaves'⟩ := hsecond
  refine ⟨tried ++ others, by rw [hothers, htried, List.append_assoc], fun save hsave ↦ ?_⟩
  rw [List.filterMap_append] at hsave
  exact (List.mem_append.mp hsave).elim (hsaves save) (hsaves' save)

/-- Only the log of the second workspace matters. -/
theorem OnlySaves.congr {before after other : Workspace} (hsaves : OnlySaves saved before after)
    (haccesses : other.accesses = after.accesses) : OnlySaves saved before other := by
  obtain ⟨tried, htried, hall⟩ := hsaves
  exact ⟨tried, haccesses.trans htried, hall⟩

/-- A single operation that does not write. -/
theorem onlySaves_of_not_write {before after : Workspace} {access : FileAccess}
    (hafter : after.accesses = before.accesses ++ [access])
    (haction : ∀ path content, access.action ≠ .write path content) :
    OnlySaves saved before after := by
  refine ⟨[access], hafter, fun save hsave ↦ ?_⟩
  obtain ⟨other, hother, hsave⟩ := List.mem_filterMap.mp hsave
  rw [List.mem_singleton.mp hother] at hsave
  unfold overwritten at hsave
  split at hsave
  · exact absurd rfl (haction _ _)
  · cases hsave

/-- A save. -/
theorem onlySaves_saveContentToFile (workspace : Workspace) :
    OnlySaves saved workspace
      (workspace.saveContentToFile platform outcomes saved.1 saved.2) := by
  refine ⟨_, rfl, fun save hsave ↦ ?_⟩
  obtain ⟨access, haccess, hsave⟩ := List.mem_filterMap.mp hsave
  rw [List.mem_singleton.mp haccess] at hsave
  unfold overwritten at hsave
  split at hsave
  · next path content haccess =>
    simp only [FileAccess.mk.injEq, FileAction.write.injEq] at haccess
    obtain ⟨⟨rfl, rfl⟩, -, hsucceeds⟩ := haccess
    cases hsave
    simp only [Workspace.succeeds, Bool.and_eq_true, decide_eq_true_eq] at hsucceeds
    exact ⟨rfl, hsucceeds.2⟩
  · cases hsave

/-- Loading saves nothing. -/
theorem onlySaves_loadFileIntoIDE (workspace : Workspace) (fileName : Text) :
    OnlySaves saved workspace (workspace.loadFileIntoIDE platform outcomes fileName) := by
  obtain ⟨access, haction, haccesses, -⟩ :=
    loadFileIntoIDE_cases platform outcomes workspace fileName
  exact onlySaves_of_not_write haccesses (by simp [haction])

@[simp] theorem filesPath_afterDelete (filePath : Text) :
    (afterDelete platform outcomes workspace filePath).filesPath = workspace.filesPath := by
  unfold afterDelete
  split_ifs <;> rfl

@[simp] theorem currentFilePath_afterDelete (filePath : Text) :
    (afterDelete platform outcomes workspace filePath).currentFilePath =
      workspace.currentFilePath := by
  unfold afterDelete
  split_ifs <;> rfl

@[simp] theorem ide_afterDelete (filePath : Text) :
    (afterDelete platform outcomes workspace filePath).ide = workspace.ide := by
  unfold afterDelete
  split_ifs <;> rfl

/-- Deleting is all that is tried before another file takes the place of the current one. -/
theorem accesses_afterDelete (filePath : Text) : ∃ tried : List FileAccess,
    (afterDelete platform outcomes workspace filePath).accesses = workspace.accesses ++ tried ∧
      ∀ access ∈ tried, access.action = .delete filePath := by
  unfold afterDelete
  split_ifs
  · exact ⟨_, rfl, by simp⟩
  · exact ⟨[], by simp, by simp⟩

/-- A failure leaves the disk alone. -/
theorem disk_access_of_failed {action : FileAction}
    (hfailed : workspace.succeeds platform outcomes action = false) :
    (workspace.access platform outcomes action).disk = workspace.disk := by
  simp only [Workspace.access, hfailed, if_neg Bool.false_ne_true]

/-- The files after a save. -/
theorem fileText_saveContentToFile (workspace : Workspace) (path content other : Text) :
    platform.fileText
        (workspace.saveContentToFile platform outcomes path content).disk other =
      if workspace.succeeds platform outcomes (.write path content) = true ∧
          platform.identity other = platform.identity path then some content
      else platform.fileText workspace.disk other := by
  simp only [Workspace.saveContentToFile, Workspace.access]
  cases workspace.succeeds platform outcomes (.write path content)
  · simp
  · simp [Platform.fileText_writeFile]

/-- Which files exist after a save. -/
theorem fileExists_saveContentToFile (workspace : Workspace) (path content other : Text) :
    platform.fileExists
        (workspace.saveContentToFile platform outcomes path content).disk other =
      ((workspace.succeeds platform outcomes (.write path content) &&
          decide (platform.identity other = platform.identity path)) ||
        platform.fileExists workspace.disk other) := by
  rw [← Platform.isSome_fileText, fileText_saveContentToFile, ← Platform.isSome_fileText]
  split_ifs with hwritten
  · simp [hwritten]
  · simp only [not_and_or, Bool.not_eq_true] at hwritten
    rcases hwritten with hwritten | hwritten <;> simp [hwritten]

/-- A file just created is empty. -/
theorem fileText_access_create {filePath : Text}
    (hcreated : workspace.succeeds platform outcomes (.create filePath) = true) (other : Text) :
    platform.fileText (workspace.access platform outcomes (.create filePath)).disk other =
      if platform.identity other = platform.identity filePath then some []
      else platform.fileText workspace.disk other := by
  simp only [Workspace.access, hcreated, if_true]
  exact Platform.fileText_writeFile ..

/-- Opening a project: its source file is created, or the disk stays as it is, because the file is
there or cannot be created. -/
theorem projectDetailsDone_cases (platform : Platform) (outcomes : Outcomes)
    (workspace : Workspace) (folderPath projectName : Text) :
    let filePath := sourceFilePath folderPath projectName
    let next := workspace.projectDetailsDone platform outcomes folderPath projectName
    let creates := outcomes.folderReady && workspace.succeeds platform outcomes (.create filePath)
    next.disk = workspace.disk ∧
        (∃ tried : List FileAccess, next.accesses = workspace.accesses ++ tried ∧
          ∀ access ∈ tried, access.succeeded = false) ∨
      platform.fileExists workspace.disk filePath = false ∧ creates = true ∧
        platform.fileText next.disk filePath = some [] ∧
        ∃ created other : FileAccess, created.action = .create filePath ∧
          created.succeeded = true ∧ next.accesses = workspace.accesses ++ [created, other] := by
  intro filePath next creates
  have hnext : next =
      (if outcomes.folderReady && !platform.fileExists workspace.disk filePath then
        if workspace.succeeds platform outcomes (.create filePath) then
          (workspace.access platform outcomes (.create filePath)).access platform outcomes
            (.create (pathCombine folderPath (projectName ++ str ".nova")))
        else workspace.access platform outcomes (.create filePath)
      else workspace).setProjectDetails (folderPath ++ str "\\" ++ projectName) projectName := rfl
  split_ifs at hnext with hready hcreated
  · rw [Bool.and_eq_true, Bool.not_eq_true'] at hready
    refine .inr ⟨hready.2, ?_, ?_, ?_⟩
    · simp [creates, hready.1, hcreated]
    · rw [hnext]
      change platform.fileText (Workspace.access platform outcomes _ _).disk filePath = _
      have hempty := fileText_access_create hcreated filePath
      rw [if_pos rfl] at hempty
      cases hother : (workspace.access platform outcomes (.create filePath)).succeeds platform
          outcomes (.create (pathCombine folderPath (projectName ++ str ".nova"))) with
      | true =>
        rw [fileText_access_create hother, hempty, ite_self]
      | false => rw [disk_access_of_failed hother, hempty]
    · rw [hnext, ← hcreated]
      exact ⟨_, _, rfl, rfl, List.append_assoc ..⟩
  · rw [Bool.not_eq_true] at hcreated
    refine .inl ⟨?_, ?_⟩
    · rw [hnext]
      exact disk_access_of_failed hcreated
    · rw [hnext]
      exact ⟨_, rfl, by simp [hcreated]⟩
  · refine .inl ⟨?_, ?_⟩
    · rw [hnext]
      rfl
    · rw [hnext]
      exact ⟨[], (List.append_nil _).symm, by simp⟩

/-- Switching: the text is saved and the target becomes current, whether or not it can be
loaded. -/
theorem switchFile_cases (platform : Platform) (outcomes : Outcomes) (workspace : Workspace)
    (fileName : Text) :
    let filePath := pathCombine workspace.filesPath fileName
    let next := workspace.switchFile platform outcomes fileName
    ∃ write read : FileAccess,
      write.action = .write workspace.currentFilePath workspace.ide.text ∧
      read.action = .read filePath ∧ next.accesses = workspace.accesses ++ [write, read] ∧
      next.filesPath = workspace.filesPath ∧ next.currentFilePath = filePath ∧
      (∀ other, platform.fileExists next.disk other =
        ((workspace.succeeds platform outcomes
              (.write workspace.currentFilePath workspace.ide.text) &&
            decide (platform.identity other = platform.identity workspace.currentFilePath)) ||
          platform.fileExists workspace.disk other)) ∧
      (read.succeeded = true ∧ next.ide.text = contentOf platform next.disk filePath ∨
        read.succeeded = false ∧ workspace.succeeds platform outcomes (.read filePath) = false ∧
          next.ide.text = workspace.ide.text) := by
  intro filePath next
  set saved := { workspace with
    ide := { workspace.ide with updatingFiles := true } }.saveContentToFile platform outcomes
      workspace.currentFilePath workspace.ide.text with hsaved
  have hexists := fun other ↦ @fileExists_saveContentToFile platform outcomes
    { workspace with ide := { workspace.ide with updatingFiles := true } }
    workspace.currentFilePath workspace.ide.text other
  rw [← hsaved] at hexists
  obtain ⟨read, hread, haccesses, hdisk, hloaded⟩ := loadFileIntoIDE_cases platform outcomes
    { saved with currentFilePath := filePath } fileName
  obtain ⟨write, hwrite, hwritten⟩ : ∃ write : FileAccess,
      write.action = .write workspace.currentFilePath workspace.ide.text ∧
        saved.accesses = workspace.accesses ++ [write] := accesses_access _
  refine ⟨write, read, hwrite, hread, ?_, ?_, ?_, fun other ↦ ?_, ?_⟩
  · refine haccesses.trans ?_
    rw [hwritten, List.append_assoc, List.singleton_append]
  · exact filesPath_loadFileIntoIDE fileName
  · exact hloaded.elim (·.2.1) (·.2.2.1)
  · exact (congrArg (platform.fileExists · other) hdisk).trans (hexists other)
  · rcases hloaded with ⟨hsucceeded, -, htext⟩ | ⟨hfailed, hsucceeds, -, hide⟩
    · exact .inl ⟨hsucceeded, htext.trans (congrArg (contentOf platform · filePath) hdisk.symm)⟩
    · have htext := congrArg Ide.text hide
      refine .inr ⟨hfailed, ?_, htext⟩
      -- the save creates at most the current file, and removes none
      rw [← Bool.not_eq_true] at hsucceeds ⊢
      intro hbefore
      refine hsucceeds ?_
      simp only [Workspace.succeeds, Bool.and_eq_true] at hbefore ⊢
      exact ⟨hbefore.1, (hexists filePath).trans (by simp [filePath, hbefore.2])⟩

/-- Removing a file: another file was current, or the first file left is loaded, or the text box is
emptied. -/
theorem removeFile_cases (platform : Platform) (outcomes : Outcomes) (workspace : Workspace)
    (fileName : Text) :
    let filePath := pathCombine workspace.filesPath fileName
    let left := afterDelete platform outcomes workspace filePath
    let next := workspace.removeFile platform outcomes fileName
    platform.toLower filePath ≠ platform.toLower workspace.currentFilePath ∧ next = left ∨
      platform.toLower filePath = platform.toLower workspace.currentFilePath ∧
        ((∃ first rest, platform.getFiles left.disk workspace.filesPath = first :: rest ∧
            next = { left with
              currentFilePath := pathCombine workspace.filesPath (getFileName first)
              }.loadFileIntoIDE platform outcomes (getFileName first)) ∨
          platform.getFiles left.disk workspace.filesPath = [] ∧
            next = { left with ide := workspace.ide.assignText [] }) := by
  intro filePath left next
  have hleft :
      (if platform.fileExists workspace.disk (pathCombine workspace.filesPath fileName) then
        workspace.access platform outcomes (.delete (pathCombine workspace.filesPath fileName))
      else workspace) = left := rfl
  have hnext : next = workspace.removeFile platform outcomes fileName := rfl
  simp only [Workspace.removeFile, hleft] at hnext
  simp only [left, filesPath_afterDelete, currentFilePath_afterDelete, ide_afterDelete] at hnext
  rw [hnext]
  split_ifs with hcurrent
  · refine .inr ⟨hcurrent, ?_⟩
    split
    · next first rest hfiles => exact .inl ⟨first, rest, hfiles, by simp [left]⟩
    · next hfiles => exact .inr ⟨hfiles, by simp [left]⟩
  · exact .inl ⟨hcurrent, rfl⟩

/-- Whatever happens in the editor, only the text box is saved, and over the current file. -/
theorem onlySaves_handleEvent (workspace : Workspace) (event : EditorEvent) :
    OnlySaves (workspace.currentFilePath, workspace.ide.text) workspace
      (workspace.handleEvent platform event) := by
  have hcreate : ∀ (workspace : Workspace) (outcomes : Outcomes) (path : Text)
      (saved : Text × Text),
      OnlySaves saved workspace (workspace.access platform outcomes (.create path)) :=
    fun workspace outcomes path saved ↦ onlySaves_of_not_write rfl (by simp)
  cases event with
  | projectDetails folderPath projectName outcomes =>
    simp only [Workspace.handleEvent, Workspace.projectDetailsDone, Workspace.setProjectDetails]
    split_ifs
    · exact ((hcreate workspace ..).trans (hcreate ..)).congr rfl
    · exact (hcreate workspace ..).congr rfl
    · exact .refl _
  | userEdit edit => exact .refl _
  | switchFile fileName outcomes =>
    have hsave := @onlySaves_saveContentToFile platform outcomes
      (workspace.currentFilePath, workspace.ide.text)
      { workspace with ide := { workspace.ide with updatingFiles := true } }
    refine OnlySaves.trans (hsave.congr rfl) (onlySaves_loadFileIntoIDE
      { Workspace.saveContentToFile platform outcomes
          { workspace with ide := { workspace.ide with updatingFiles := true } }
          workspace.currentFilePath workspace.ide.text with
        currentFilePath := pathCombine workspace.filesPath fileName } fileName) |>.congr rfl
  | setNewFileName fileName outcomes =>
    simp only [Workspace.handleEvent, Workspace.setNewFileName]
    split_ifs
    · exact .refl _
    · exact ((hcreate workspace ..).trans (@onlySaves_saveContentToFile platform outcomes
        (workspace.currentFilePath, workspace.ide.text) _)).congr rfl
    · exact hcreate ..
  | removeFile fileName outcomes =>
    have hleft : OnlySaves (workspace.currentFilePath, workspace.ide.text) workspace
        (afterDelete platform outcomes workspace (pathCombine workspace.filesPath fileName)) := by
      unfold afterDelete
      split_ifs
      · exact onlySaves_of_not_write rfl (by simp)
      · exact .refl _
    rcases removeFile_cases platform outcomes workspace fileName with
      ⟨-, hnext⟩ | ⟨-, ⟨first, rest, -, hnext⟩ | ⟨-, hnext⟩⟩
    · rw [Workspace.handleEvent, hnext]
      exact hleft
    · rw [Workspace.handleEvent, hnext]
      exact OnlySaves.trans (hleft.congr rfl) (onlySaves_loadFileIntoIDE _ _)
    · rw [Workspace.handleEvent, hnext]
      exact hleft
  | saveFiles outcomes => exact onlySaves_saveContentToFile workspace

end Operations

end NovaIde.Client
