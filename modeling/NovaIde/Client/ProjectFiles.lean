import NovaIde.Client.Editor
import NovaIde.Client.FileTransfer
import NovaIde.Client.ProjectPaths

/-!
# The files of a project

`Ide` keeps the folder of the project, the path of the current file and the text box, and works on
the files through `System.IO.File`. Which file a path denotes is decided by the file system
(`Platform`), and whether an operation succeeds is decided from outside (`Outcomes`). Every
operation is recorded, with whether its file existed and whether it succeeded.

The operations that catch their exceptions go on after a failure; `File.Create` is called outside
any `try`, so a failure ends the operation it is part of.
-/

set_option autoImplicit false
set_option relaxedAutoImplicit false

namespace NovaIde.Client

/-! ### The file system -/

/-- How Windows and the runtime treat paths. -/
structure Platform where
  /-- The full path of a path: relative segments and trailing periods and blanks are gone. -/
  fullPath : Text → Text
  /-- The upper-case table of the file system, which compares full paths by it. -/
  upCase : UInt16 → UInt16
  /-- `String.ToLower` -/
  toLower : Text → Text

/-- A file, by its full path. -/
structure StoredFile where
  path : Text
  content : Text
deriving DecidableEq, Repr

/-- The files of a file system. The content of a file is the text that `File.ReadAllText` reads. -/
abbrev Disk := List StoredFile

namespace Platform

variable (platform : Platform)

/-- What the file system compares to tell files apart. -/
def identity (path : Text) : Text := (platform.fullPath path).map platform.upCase

/-- Whether a path denotes a file. -/
def denotes (path : Text) (file : StoredFile) : Bool :=
  platform.identity path = file.path.map platform.upCase

/-- `File.Exists`. -/
def fileExists (disk : Disk) (path : Text) : Bool := disk.any (platform.denotes path)

/-- The text of a file. -/
def fileText (disk : Disk) (path : Text) : Option Text :=
  (disk.find? (platform.denotes path)).map StoredFile.content

/-- `File.WriteAllText`, when it succeeds. -/
def writeFile (disk : Disk) (path content : Text) : Disk :=
  if platform.fileExists disk path then
    disk.map fun file ↦ if platform.denotes path file then { file with content } else file
  else disk ++ [⟨platform.fullPath path, content⟩]

/-- `File.Delete`, when it succeeds. -/
def deleteFile (disk : Disk) (path : Text) : Disk :=
  disk.filter fun file ↦ !platform.denotes path file

/-- `Directory.GetFiles`: the paths of the files of a folder. -/
def getFiles (disk : Disk) (dir : Text) : List Text :=
  disk.filterMap fun file ↦
    let path := pathCombine dir (getFileName file.path)
    if platform.denotes path file then some path else none

end Platform

/-- ASCII letters in upper case. -/
def upCaseAscii (char : UInt16) : UInt16 :=
  if unit 'a' ≤ char ∧ char ≤ unit 'z' then char - 32 else char

/-- ASCII letters in lower case. -/
def toLowerAscii (char : UInt16) : UInt16 :=
  if unit 'A' ≤ char ∧ char ≤ unit 'Z' then char + 32 else char

/-- A platform for full paths of ASCII characters. -/
def asciiPlatform : Platform where
  fullPath := id
  upCase := upCaseAscii
  toLower := List.map toLowerAscii

/-- An operation on a file. -/
inductive FileAction
  | create (path : Text)
  | write (path content : Text)
  | read (path : Text)
  | delete (path : Text)
deriving DecidableEq, Repr

/-- The path of an operation. -/
def FileAction.path : FileAction → Text
  | .create path | .write path _ | .read path | .delete path => path

/-- An operation that was tried: whether its file existed and whether it succeeded. -/
structure FileAccess where
  action : FileAction
  existed : Bool
  succeeded : Bool
deriving DecidableEq, Repr

/-- What is decided outside while an operation of the editor runs. -/
structure Outcomes where
  /-- Whether the system lets an operation succeed that is possible. -/
  allows : FileAction → Bool
  /-- Whether the folder of a new project exists or can be created. -/
  folderReady : Bool := true

/-! ### The workspace -/

/-- The part of `Ide` that working on files reads and writes, with the file system. -/
structure Workspace where
  disk : Disk := []
  /-- The folder of the project; the null reference before a project is opened is empty here. -/
  filesPath : Text := []
  currentFilePath : Text := []
  /-- The text box and its flags. -/
  ide : Ide := {}
  /-- The operations tried so far. -/
  accesses : List FileAccess := []

namespace Workspace

variable (platform : Platform) (outcomes : Outcomes)

/-- Whether an operation succeeds: a file that is read must exist, one that is written needs a
path. -/
def succeeds (workspace : Workspace) (action : FileAction) : Bool :=
  outcomes.allows action &&
    match action with
    | .create path | .write path _ => path ≠ []
    | .read path => platform.fileExists workspace.disk path
    | .delete _ => true

/-- Tries an operation on a file. -/
def access (workspace : Workspace) (action : FileAction) : Workspace :=
  let succeeded := workspace.succeeds platform outcomes action
  { workspace with
    disk :=
      if succeeded then
        match action with
        | .create path => platform.writeFile workspace.disk path []
        | .write path content => platform.writeFile workspace.disk path content
        | .read _ => workspace.disk
        | .delete path => platform.deleteFile workspace.disk path
      else workspace.disk
    accesses := workspace.accesses ++
      [⟨action, platform.fileExists workspace.disk action.path, succeeded⟩] }

/-- `SaveContentToFile`: a failure is reported and otherwise ignored. -/
def saveContentToFile (workspace : Workspace) (filePath content : Text) : Workspace :=
  workspace.access platform outcomes (.write filePath content)

/-- `LoadFileIntoIDE`: a file that cannot be read leaves the text and the current file alone. -/
def loadFileIntoIDE (workspace : Workspace) (fileName : Text) : Workspace :=
  let filePath := pathCombine workspace.filesPath fileName
  let fileContent :=
    if workspace.succeeds platform outcomes (.read filePath) then
      platform.fileText workspace.disk filePath
    else none
  let workspace := workspace.access platform outcomes (.read filePath)
  match fileContent with
  | some content =>
    { workspace with
      ide := workspace.ide.loadFileIntoIDE (some content)
      currentFilePath := filePath }
  | none => workspace

/-- `loadNewFile`. -/
def loadNewFile (workspace : Workspace) (fileName : Text) : Workspace :=
  let workspace :=
    workspace.saveContentToFile platform outcomes workspace.currentFilePath workspace.ide.text
  { workspace with
    currentFilePath := pathCombine workspace.filesPath fileName
    ide := workspace.ide.assignText [] }

/-- `switchFile`. -/
def switchFile (workspace : Workspace) (fileName : Text) : Workspace :=
  let workspace := { workspace with ide := { workspace.ide with updatingFiles := true } }
  let workspace :=
    workspace.saveContentToFile platform outcomes workspace.currentFilePath workspace.ide.text
  let workspace :=
    { workspace with currentFilePath := pathCombine workspace.filesPath fileName }
  let workspace := workspace.loadFileIntoIDE platform outcomes fileName
  { workspace with ide := { workspace.ide with updatingFiles := false } }

/-- `setProjectDetails`: the new current file is not loaded. -/
def setProjectDetails (workspace : Workspace) (filesPath projectName : Text) : Workspace :=
  { workspace with
    filesPath
    currentFilePath := pathCombine filesPath (projectName ++ str ".cpp") }

/-- `ProjectDetails.done` for a chosen folder: the files of a new project are created, unless the
source file is there already, and the project becomes the one of the editor in any case. -/
def projectDetailsDone (workspace : Workspace) (folderPath projectName : Text) : Workspace :=
  let filesPath := folderPath ++ str "\\" ++ projectName
  let filePath := pathCombine filesPath (projectName ++ str ".cpp")
  let newProjectPath := pathCombine folderPath (projectName ++ str ".nova")
  let workspace :=
    if outcomes.folderReady && !platform.fileExists workspace.disk filePath then
      let created := workspace.access platform outcomes (.create filePath)
      if workspace.succeeds platform outcomes (.create filePath) then
        created.access platform outcomes (.create newProjectPath)
      else created
    else workspace
  workspace.setProjectDetails filesPath projectName

/-- `setNewFileName`. -/
def setNewFileName (workspace : Workspace) (fileName : Text) : Workspace :=
  let filePath := pathCombine workspace.filesPath fileName
  if platform.fileExists workspace.disk filePath then workspace
  else
    let created := workspace.access platform outcomes (.create filePath)
    if workspace.succeeds platform outcomes (.create filePath) then
      created.loadNewFile platform outcomes fileName
    else created

/-- `removeFile`: when the current file goes, the first of the remaining ones takes its place. -/
def removeFile (workspace : Workspace) (fileName : Text) : Workspace :=
  let filePath := pathCombine workspace.filesPath fileName
  let workspace :=
    if platform.fileExists workspace.disk filePath then
      workspace.access platform outcomes (.delete filePath)
    else workspace
  if platform.toLower filePath = platform.toLower workspace.currentFilePath then
    match platform.getFiles workspace.disk workspace.filesPath with
    | first :: _ =>
      let transferFileName := getFileName first
      let workspace :=
        { workspace with
          currentFilePath := pathCombine workspace.filesPath transferFileName }
      workspace.loadFileIntoIDE platform outcomes transferFileName
    | [] => { workspace with ide := workspace.ide.assignText [] }
  else workspace

/-- The menu item that saves. -/
def saveFiles (workspace : Workspace) : Workspace :=
  workspace.saveContentToFile platform outcomes workspace.currentFilePath workspace.ide.text

/-- `buildFiles`: nothing when a file cannot be read. -/
def buildFiles (workspace : Workspace) : Option Files :=
  (platform.getFiles workspace.disk workspace.filesPath).mapM fun file ↦
    if workspace.succeeds platform outcomes (.read file) then
      (platform.fileText workspace.disk file).map (getFileName file, ·)
    else none

/-- The loop of `recieveFiles` over the names received, and whether it ends: a file that cannot be
created throws. -/
def createReceived (workspace : Workspace) : List Text → Workspace × Bool
  | [] => (workspace, true)
  | file :: rest =>
    let currentFilePath := pathCombine workspace.filesPath (getFileName file)
    let created := workspace.access platform outcomes (.create currentFilePath)
    if workspace.succeeds platform outcomes (.create currentFilePath) then
      created.createReceived rest
    else (created, false)

/-- `recieveFiles`: the files of the folder are removed, and the received ones are created. -/
def recieveFiles (workspace : Workspace) (filesDict : Files) : Workspace × Bool :=
  let files := platform.getFiles workspace.disk workspace.filesPath
  let workspace := files.foldl
    (fun workspace file ↦ workspace.removeFile platform outcomes (getFileName file)) workspace
  workspace.createReceived platform outcomes (filesDict.map Prod.fst)

/-- `setConent`, with whether the next file that can be written is the first one. -/
def setConent (workspace : Workspace) (isFirst : Bool) : Files → Workspace
  | [] => workspace
  | (file, currentFileText) :: rest =>
    let filePath := pathCombine workspace.filesPath file
    let written := workspace.access platform outcomes (.write filePath currentFileText)
    if workspace.succeeds platform outcomes (.write filePath currentFileText) then
      if isFirst then (written.loadFileIntoIDE platform outcomes filePath).setConent false rest
      else written.setConent false rest
    else written.setConent isFirst rest

/-- What the member does in `setOtherUser` with the files it got. -/
def receiveProject (workspace : Workspace) (filesDict : Files) : Workspace :=
  let (workspace, created) := workspace.recieveFiles platform outcomes filesDict
  if created then workspace.setConent platform outcomes true filesDict else workspace

end Workspace

/-! ### What the operations do to the files -/

namespace Platform

variable {platform : Platform} {disk : Disk} {path other content : Text}

theorem denotes_iff {file : StoredFile} :
    platform.denotes path file = true ↔
      platform.identity path = file.path.map platform.upCase := by
  rw [denotes, decide_eq_true_eq]

/-- Paths of one file are the same to every test. -/
theorem denotes_congr (hsame : platform.identity path = platform.identity other) :
    platform.denotes path = platform.denotes other := by
  funext file
  rw [denotes, denotes, hsame]

/-- Two paths that denote one file have one identity. -/
theorem identity_eq_of_denotes {file : StoredFile} (hpath : platform.denotes path file = true)
    (hother : platform.denotes other file = true) :
    platform.identity path = platform.identity other :=
  (denotes_iff.mp hpath).trans (denotes_iff.mp hother).symm

/-- A file that exists has a text, and only it has. -/
theorem isSome_fileText (platform : Platform) (disk : Disk) (path : Text) :
    (platform.fileText disk path).isSome = platform.fileExists disk path := by
  rw [fileText, Option.isSome_map, fileExists, List.isSome_find?]

theorem fileText_eq_none (hexists : platform.fileExists disk path = false) :
    platform.fileText disk path = none := by
  rw [← Option.not_isSome_iff_eq_none, isSome_fileText, hexists]
  exact Bool.false_ne_true

/-- The files after a write: the file written has the content, and every other file what it had. -/
theorem fileText_writeFile (platform : Platform) (disk : Disk) (path content other : Text) :
    platform.fileText (platform.writeFile disk path content) other =
      if platform.identity other = platform.identity path then some content
      else platform.fileText disk other := by
  cases hexists : platform.fileExists disk path with
  | true =>
    have hkept : platform.denotes other ∘ (fun file : StoredFile ↦
        if platform.denotes path file then { file with content } else file) =
          platform.denotes other := by
      funext file
      simp only [Function.comp_apply]
      split_ifs <;> rfl
    rw [writeFile, if_pos hexists, fileText, List.find?_map, hkept, Option.map_map, fileText]
    split_ifs with hsame
    · have hsome : (disk.find? (platform.denotes path)).isSome = true := by
        rw [List.isSome_find?]
        exact hexists
      rw [denotes_congr hsame]
      obtain ⟨file, hfile⟩ := Option.isSome_iff_exists.mp hsome
      simp [hfile, List.find?_some hfile]
    · cases hfile : disk.find? (platform.denotes other) with
      | none => rfl
      | some file =>
        have hother : platform.denotes path file = false := by
          rw [← Bool.not_eq_true]
          exact fun hpath ↦ hsame (identity_eq_of_denotes (List.find?_some hfile) hpath)
        simp [hother]
  | false =>
    rw [writeFile, hexists, if_neg Bool.false_ne_true, fileText, List.find?_append]
    split_ifs with hsame
    · have hnone : disk.find? (platform.denotes other) = none := by
        rw [denotes_congr hsame, List.find?_eq_none]
        exact fun file hfile hpath ↦ by
          simp only [fileExists, List.any_eq_false] at hexists
          exact hexists file hfile hpath
      have hnew : platform.denotes other ⟨platform.fullPath path, content⟩ = true :=
        denotes_iff.mpr hsame
      simp [hnone, hnew]
    · have hnew : platform.denotes other ⟨platform.fullPath path, content⟩ = false := by
        rw [← Bool.not_eq_true]
        exact fun hother ↦ hsame (denotes_iff.mp hother)
      simp [hnew, fileText]

end Platform

end NovaIde.Client
