import NovaIde.Client.EditorSteps

/-!
# The file that the text box belongs to

The editor keeps the current file and the text in two places, and each operation on files changes
both. A text belongs to a file when it was obtained from it, by reading or by creating the file,
and edited since only while the file was the current one (`belonging`). A save is sound when the
text it puts over an existing file belongs to that file (`SavesOwn`).

The operations keep the two places together only under a condition on the state they start in
(`KeepsTogether`): opening a project makes its source file current without loading it, and a file
becomes current before the attempt to load it, which may fail. In the runs whose steps all meet the
condition every save is sound (`savesOwn_of_keepsTogether`).
-/

set_option autoImplicit false
set_option relaxedAutoImplicit false

namespace NovaIde.Client

open Foundation Foundation.EventRun

/-! ### The texts that belong to a file -/

section Belonging

variable (platform : Platform)

/-- An operation that determines the text of a file for the editor: it read the file or created
it. -/
def obtains (path : Text) (access : FileAccess) : Bool :=
  access.succeeded && platform.identity access.action.path = platform.identity path &&
    match access.action with
    | .create _ | .read _ => true
    | .write .. | .delete _ => false

/-- The texts of a file after a step that did not obtain it: an edit made while the file is current
edits them. -/
def editedTexts (path : Text) (texts : List Text) (record : EditorRecord) : List Text :=
  match record.event with
  | .userEdit edit =>
    if platform.identity record.before.currentFilePath = platform.identity path then
      texts.map edit.apply
    else texts
  | _ => texts

/-- The texts that belong to a file after a step. To a file that does not exist the empty text
belongs besides. -/
def belongingAfter (path : Text) (texts : List Text) (record : EditorRecord) : List Text :=
  if record.observation.any (obtains platform path) then [contentOf platform record.after.disk path]
  else
    (if platform.fileExists record.after.disk path then [] else [[]]) ++
      editedTexts platform path texts record

/-- The texts that belong to a file after a history: what was last obtained from it, with the edits
made since while it was the current file. -/
def belonging (history : List EditorRecord) (path : Text) : List Text :=
  history.foldl (belongingAfter platform path) []

/-- Everything a step puts over an existing file belongs to that file. -/
def SavesOwn (earlier : List EditorRecord) (record : EditorRecord) : Prop :=
  ∀ save ∈ record.observation.filterMap overwritten, save.2 ∈ belonging platform earlier save.1

instance (earlier : List EditorRecord) (record : EditorRecord) :
    Decidable (SavesOwn platform earlier record) :=
  List.decidableBAll _ _

/-! ### The condition of a step -/

/-- Whether the path is another name of the current file. -/
def IsCurrent (workspace : Workspace) (filePath : Text) : Prop :=
  platform.identity filePath = platform.identity workspace.currentFilePath

instance (workspace : Workspace) (filePath : Text) :
    Decidable (IsCurrent platform workspace filePath) :=
  inferInstanceAs (Decidable (_ = _))

/-- The condition of `removeFile` when the current file goes, by the files left in the folder: the
first one can be read or is the current one, or nothing is left. -/
def ReplacementKeeps (outcomes : Outcomes) (workspace left : Workspace) : List Text → Prop
  | first :: _ =>
    let transferPath := pathCombine workspace.filesPath (getFileName first)
    left.succeeds platform outcomes (.read transferPath) = true ∨
      IsCurrent platform workspace transferPath
  | [] => platform.fileExists left.disk workspace.currentFilePath = false ∨ workspace.ide.text = []

instance (outcomes : Outcomes) (workspace left : Workspace) :
    ∀ files, Decidable (ReplacementKeeps platform outcomes workspace left files)
  | _ :: _ => inferInstanceAs (Decidable (_ ∨ _))
  | [] => inferInstanceAs (Decidable (_ ∨ _))

/-- When an event keeps the text box and the current file together.

A project is opened over nothing and with an empty text box, or is the one that is open already. A
switch finds a file it can read, or stays at the current file, or takes an empty text box to a file
that does not exist. A new file is not the current one under another state of the disk, unless
nothing is lost by emptying the text box. When the current file is removed, the file that takes its
place can be read, and if there is none the current file is gone. -/
def KeepsTogether (workspace : Workspace) : EditorEvent → Prop
  | .projectDetails folderPath projectName outcomes =>
    let filePath := sourceFilePath folderPath projectName
    if platform.fileExists workspace.disk filePath then
      workspace.filesPath ≠ [] ∧ IsCurrent platform workspace filePath
    else
      workspace.ide.text = [] ∨
        workspace.filesPath ≠ [] ∧ IsCurrent platform workspace filePath ∧
          (outcomes.folderReady && workspace.succeeds platform outcomes (.create filePath)) = false
  | .userEdit _ => True
  | .switchFile fileName outcomes =>
    let filePath := pathCombine workspace.filesPath fileName
    workspace.succeeds platform outcomes (.read filePath) = true ∨
      IsCurrent platform workspace filePath ∨
      platform.fileExists workspace.disk filePath = false ∧ workspace.ide.text = []
  | .setNewFileName fileName outcomes =>
    let filePath := pathCombine workspace.filesPath fileName
    platform.fileExists workspace.disk filePath = true ∨
      workspace.succeeds platform outcomes (.create filePath) = false ∨
      ¬ IsCurrent platform workspace filePath ∨
      workspace.ide.text = [] ∨
      workspace.succeeds platform outcomes
        (.write workspace.currentFilePath workspace.ide.text) = false
  | .removeFile fileName outcomes =>
    let filePath := pathCombine workspace.filesPath fileName
    let left := afterDelete platform outcomes workspace filePath
    platform.toLower filePath = platform.toLower workspace.currentFilePath →
      ReplacementKeeps platform outcomes workspace left
        (platform.getFiles left.disk workspace.filesPath)
  | .saveFiles _ => True

instance (workspace : Workspace) :
    ∀ event, Decidable (KeepsTogether platform workspace event)
  | .projectDetails .. => inferInstanceAs (Decidable (@ite Prop _ _ _ _))
  | .userEdit _ => inferInstanceAs (Decidable True)
  | .switchFile .. => inferInstanceAs (Decidable (_ ∨ _))
  | .setNewFileName .. => inferInstanceAs (Decidable (_ ∨ _))
  | .removeFile .. => inferInstanceAs (Decidable (_ → _))
  | .saveFiles _ => inferInstanceAs (Decidable True)

/-! ### What belongs to a file after a step -/

variable {platform : Platform} {history : List EditorRecord} {record : EditorRecord}
  {path other text : Text}

@[simp] theorem belonging_append_singleton :
    belonging platform (history ++ [record]) path =
      belongingAfter platform path (belonging platform history path) record := by
  simp [belonging]

/-- What belongs to a file does not depend on the path it is called by. -/
theorem belonging_congr (hsame : platform.identity path = platform.identity other)
    (history : List EditorRecord) :
    belonging platform history path = belonging platform history other := by
  have hafter : belongingAfter platform path = belongingAfter platform other := by
    have hobtains : obtains platform path = obtains platform other := by
      funext access
      rw [obtains, obtains, hsame]
    funext texts record
    have hcontent : contentOf platform record.after.disk path =
        contentOf platform record.after.disk other := by
      rw [contentOf, contentOf, Platform.fileText, Platform.fileText, Platform.denotes_congr hsame]
    have hexists : platform.fileExists record.after.disk path =
        platform.fileExists record.after.disk other := by
      rw [Platform.fileExists, Platform.fileExists, Platform.denotes_congr hsame]
    have hedited : editedTexts platform path texts record =
        editedTexts platform other texts record := by
      simp only [editedTexts, hsame]
    rw [belongingAfter, belongingAfter, hobtains, hcontent, hexists, hedited]
  rw [belonging, belonging, hafter]

/-- The content of a file that the step obtained belongs to it. -/
theorem mem_belongingAfter_of_obtained {texts : List Text}
    (hobtained : record.observation.any (obtains platform path) = true)
    (htext : text = contentOf platform record.after.disk path) :
    text ∈ belongingAfter platform path texts record := by
  rw [belongingAfter, if_pos hobtained, htext]
  exact List.mem_singleton_self _

/-- The empty text belongs to a file that does not exist. -/
theorem nil_mem_belongingAfter {texts : List Text}
    (habsent : platform.fileExists record.after.disk path = false) :
    [] ∈ belongingAfter platform path texts record := by
  unfold belongingAfter
  split_ifs with hobtained hexists
  · simp [contentOf, Platform.fileText_eq_none habsent]
  · exact absurd hexists (by simp [habsent])
  · simp

/-- What belonged to a file still does after a step that neither obtained it nor edited. -/
theorem mem_belongingAfter_of_mem {texts : List Text}
    (hobtained : record.observation.any (obtains platform path) = false)
    (hevent : ∀ edit, record.event ≠ .userEdit edit) (htext : text ∈ texts) :
    text ∈ belongingAfter platform path texts record := by
  rw [belongingAfter, hobtained, if_neg Bool.false_ne_true]
  refine List.mem_append_right _ ?_
  unfold editedTexts
  split
  · next edit hedit => exact absurd hedit (hevent edit)
  · exact htext

end Belonging

/-! ### The invariant -/

/-- The text box and the current file belong together: before a project is opened there is no
current file, and afterwards the text belongs to it. -/
structure Together (platform : Platform) (history : List EditorRecord) (workspace : Workspace) :
    Prop where
  closed : workspace.filesPath = [] → workspace.currentFilePath = []
  owned : workspace.filesPath ≠ [] →
    workspace.ide.text ∈ belonging platform history workspace.currentFilePath

section Steps

variable {platform : Platform} {outcomes : Outcomes} {history : List EditorRecord}
  {workspace : Workspace} {fileName : Text}

/-- The record of an event. -/
def eventRecord (platform : Platform) (workspace : Workspace) (event : EditorEvent) :
    EditorRecord :=
  let next := workspace.handleEvent platform event
  ⟨workspace, event, accessesSince workspace next, next⟩

/-- A step in an open project keeps it open, and its text belongs to the new current file. -/
theorem Together.of_mem {event : EditorEvent}
    (hopen : (workspace.handleEvent platform event).filesPath ≠ [])
    (howned : (workspace.handleEvent platform event).ide.text ∈
      belongingAfter platform (workspace.handleEvent platform event).currentFilePath
        (belonging platform history (workspace.handleEvent platform event).currentFilePath)
        (eventRecord platform workspace event)) :
    Together platform (history ++ [eventRecord platform workspace event])
      (workspace.handleEvent platform event) :=
  ⟨fun hclosed ↦ absurd hclosed hopen, fun _ ↦ by rwa [belonging_append_singleton]⟩

section Outcome

variable {event : EditorEvent}
  (hopen : (workspace.handleEvent platform event).filesPath ≠ [])
include hopen

/-- The two belong together after a step that obtained the current file as the text. -/
theorem Together.of_obtained
    (hobtained : (eventRecord platform workspace event).observation.any
      (obtains platform (workspace.handleEvent platform event).currentFilePath) = true)
    (htext : (workspace.handleEvent platform event).ide.text =
      contentOf platform (workspace.handleEvent platform event).disk
        (workspace.handleEvent platform event).currentFilePath) :
    Together platform (history ++ [eventRecord platform workspace event])
      (workspace.handleEvent platform event) :=
  .of_mem hopen (mem_belongingAfter_of_obtained hobtained htext)

/-- The two belong together after a step that leaves no text and no current file. -/
theorem Together.of_absent
    (habsent : platform.fileExists (workspace.handleEvent platform event).disk
      (workspace.handleEvent platform event).currentFilePath = false)
    (htext : (workspace.handleEvent platform event).ide.text = []) :
    Together platform (history ++ [eventRecord platform workspace event])
      (workspace.handleEvent platform event) :=
  .of_mem hopen (htext ▸ nil_mem_belongingAfter habsent)

/-- The two stay together in a step that keeps both, and neither obtains the file nor edits. -/
theorem Together.of_kept (htogether : Together platform history workspace)
    (hproject : workspace.filesPath ≠ [])
    (hcurrent : IsCurrent platform workspace
      (workspace.handleEvent platform event).currentFilePath)
    (htext : (workspace.handleEvent platform event).ide.text = workspace.ide.text)
    (hobtained : (eventRecord platform workspace event).observation.any
      (obtains platform (workspace.handleEvent platform event).currentFilePath) = false)
    (hevent : ∀ edit, event ≠ .userEdit edit) :
    Together platform (history ++ [eventRecord platform workspace event])
      (workspace.handleEvent platform event) := by
  refine .of_mem hopen ?_
  rw [belonging_congr hcurrent, htext]
  exact mem_belongingAfter_of_mem hobtained hevent (htogether.owned hproject)

end Outcome

/-- An edit edits what belongs to the current file. -/
theorem together_userEdit (htogether : Together platform history workspace) (edit : Edit) :
    Together platform (history ++ [eventRecord platform workspace (.userEdit edit)])
      (workspace.handleEvent platform (.userEdit edit)) := by
  refine ⟨htogether.closed, fun hopen ↦ ?_⟩
  have htried : (eventRecord platform workspace (.userEdit edit)).observation = [] :=
    accessesSince_eq (List.append_nil _).symm
  rw [belonging_append_singleton, belongingAfter, htried]
  refine List.mem_append_right _ ?_
  have hedited : editedTexts platform workspace.currentFilePath
      (belonging platform history workspace.currentFilePath)
      (eventRecord platform workspace (.userEdit edit)) =
        (belonging platform history workspace.currentFilePath).map edit.apply :=
    if_pos rfl
  change (workspace.ide.userEdit edit).text ∈ _
  rw [text_userEdit]
  exact hedited ▸ List.mem_map_of_mem (htogether.owned hopen)

/-- A save keeps everything but the disk. -/
theorem together_saveFiles (htogether : Together platform history workspace)
    (outcomes : Outcomes) :
    Together platform (history ++ [eventRecord platform workspace (.saveFiles outcomes)])
      (workspace.handleEvent platform (.saveFiles outcomes)) := by
  by_cases hopen : workspace.filesPath = []
  · exact ⟨htogether.closed, fun hproject ↦ absurd hopen hproject⟩
  · have htried : (eventRecord platform workspace (.saveFiles outcomes)).observation =
        [_] := accessesSince_eq rfl
    refine .of_kept hopen htogether hopen rfl rfl ?_ (by simp)
    rw [htried]
    simp [obtains]

/-- A switch keeps the two together when it can read the file or stays at it, or takes nothing to
nothing. -/
theorem together_switchFile (htogether : Together platform history workspace)
    (hopen : workspace.filesPath ≠ [])
    (hkeeps : KeepsTogether platform workspace (.switchFile fileName outcomes)) :
    Together platform (history ++ [eventRecord platform workspace (.switchFile fileName outcomes)])
      (workspace.handleEvent platform (.switchFile fileName outcomes)) := by
  obtain ⟨write, read, hwrite, hread, haccesses, hfolder, hcurrent, hexists, hloaded⟩ :=
    switchFile_cases platform outcomes workspace fileName
  have htried : (eventRecord platform workspace (.switchFile fileName outcomes)).observation =
      [write, read] := accessesSince_eq haccesses
  have hnext : workspace.handleEvent platform (.switchFile fileName outcomes) =
      workspace.switchFile platform outcomes fileName := rfl
  have hstays : (workspace.handleEvent platform (.switchFile fileName outcomes)).filesPath ≠ [] :=
    hfolder.trans_ne hopen
  rcases hloaded with ⟨hsucceeded, htext⟩ | ⟨hfailed, hsucceeds, htext⟩
  · refine .of_obtained hstays ?_ (by rw [hnext, hcurrent, htext])
    rw [htried, hnext, hcurrent]
    simp [obtains, hread, hsucceeded, FileAction.path]
  · have hkept (hsame : IsCurrent platform workspace (pathCombine workspace.filesPath fileName)) :
        Together platform
          (history ++ [eventRecord platform workspace (.switchFile fileName outcomes)])
          (workspace.handleEvent platform (.switchFile fileName outcomes)) := by
      refine .of_kept hstays htogether hopen (by rwa [hnext, hcurrent]) htext ?_ (by simp)
      rw [htried]
      simp [obtains, hwrite, hfailed]
    rcases hkeeps with hreads | hsame | ⟨habsent, hempty⟩
    · rw [hreads] at hsucceeds
      cases hsucceeds
    · exact hkept hsame
    · by_cases hsame : IsCurrent platform workspace (pathCombine workspace.filesPath fileName)
      · exact hkept hsame
      · refine .of_absent hstays ?_ (htext.trans hempty)
        have hother : platform.identity (pathCombine workspace.filesPath fileName) ≠
            platform.identity workspace.currentFilePath := hsame
        rw [hnext, hcurrent, hexists]
        simp [habsent, hother]

/-- A new file keeps the two together unless the file created is the current one and the text
saved into it is emptied out of the text box. -/
theorem together_setNewFileName (htogether : Together platform history workspace)
    (hopen : workspace.filesPath ≠ [])
    (hkeeps : KeepsTogether platform workspace (.setNewFileName fileName outcomes)) :
    Together platform
      (history ++ [eventRecord platform workspace (.setNewFileName fileName outcomes)])
      (workspace.handleEvent platform (.setNewFileName fileName outcomes)) := by
  have hnext : workspace.handleEvent platform (.setNewFileName fileName outcomes) =
      workspace.setNewFileName platform outcomes fileName := rfl
  simp only [KeepsTogether] at hkeeps
  generalize hfilePath : pathCombine workspace.filesPath fileName = filePath at hkeeps
  simp only [Workspace.setNewFileName, hfilePath] at hnext
  cases hexists : platform.fileExists workspace.disk filePath with
  | true =>
    rw [hexists, if_pos rfl] at hnext
    have htried : (eventRecord platform workspace (.setNewFileName fileName outcomes)).observation =
        [] := accessesSince_eq (by rw [hnext, List.append_nil])
    refine .of_kept (by rwa [hnext]) htogether hopen (by rw [hnext]; rfl) (by rw [hnext]) ?_
      (by simp)
    rw [htried, List.any_nil]
  | false =>
    rw [hexists, if_neg Bool.false_ne_true] at hnext
    cases hcreated : workspace.succeeds platform outcomes (.create filePath) with
    | false =>
      rw [hcreated, if_neg Bool.false_ne_true] at hnext
      have htried :
          (eventRecord platform workspace (.setNewFileName fileName outcomes)).observation =
            [⟨.create filePath, _, false⟩] :=
        accessesSince_eq (by rw [hnext, ← hcreated]; rfl)
      refine .of_kept (by rw [hnext]; exact hopen) htogether hopen (by rw [hnext]; rfl)
        (by rw [hnext]; rfl) ?_ (by simp)
      rw [htried]
      simp [obtains]
    | true =>
      rw [hcreated, if_pos rfl] at hnext
      set created := workspace.access platform outcomes (.create filePath) with hcreation
      have hcurrent : (workspace.handleEvent platform
          (.setNewFileName fileName outcomes)).currentFilePath = filePath := by
        rw [hnext]
        exact hfilePath
      have htext : (workspace.handleEvent platform
          (.setNewFileName fileName outcomes)).ide.text = [] := by
        rw [hnext]
        exact text_assignText ..
      have htried :
          (eventRecord platform workspace (.setNewFileName fileName outcomes)).observation =
            [⟨.create filePath, _, true⟩, _] :=
        accessesSince_eq (by rw [hnext, ← hcreated]; exact List.append_assoc ..)
      refine .of_obtained (by rw [hnext]; exact hopen)
        (by rw [htried, hcurrent]; simp [obtains, FileAction.path]) ?_
      rw [hcurrent, htext]
      -- the save after the creation may only put the empty text into the file
      have hcontent : platform.fileText (created.saveContentToFile platform outcomes
          workspace.currentFilePath workspace.ide.text).disk filePath = some [] := by
        rw [fileText_saveContentToFile, fileText_access_create hcreated, if_pos rfl]
        split_ifs with hsaved
        · rcases hkeeps with hold | hfailed | hother | hempty | hunsaved
          · exact absurd hold (by simp [hexists])
          · exact absurd hfailed (by simp [hcreated])
          · exact absurd hsaved.2 hother
          · rw [hempty]
          · exact absurd hsaved.1 (by rw [Bool.not_eq_true]; exact hunsaved)
        · rfl
      have hdisk : (workspace.handleEvent platform (.setNewFileName fileName outcomes)).disk =
          (created.saveContentToFile platform outcomes workspace.currentFilePath
            workspace.ide.text).disk := by
        rw [hnext]
        rfl
      rw [contentOf, hdisk, hcontent]
      rfl

/-- Deletions and operations that fail obtain no file. -/
theorem any_obtains_eq_false {tried : List FileAccess} {deleted : Text}
    (htried : ∀ access ∈ tried, access.succeeded = false ∨ access.action = .delete deleted)
    (path : Text) : tried.any (obtains platform path) = false := by
  rw [List.any_eq_false]
  intro access haccess
  rcases htried access haccess with hfailed | hdelete
  · simp [obtains, hfailed]
  · simp [obtains, hdelete]

/-- A removal keeps the two together when the file that takes the place of the current one can be
read, or is the current one. -/
theorem together_replaced (htogether : Together platform history workspace)
    (hopen : workspace.filesPath ≠ []) {left : Workspace} {transferFileName : Text}
    (hfolder : left.filesPath = workspace.filesPath) (hide : left.ide = workspace.ide)
    {deletes : List FileAccess} (hdeletes : left.accesses = workspace.accesses ++ deletes)
    (hobtains : ∀ path, deletes.any (obtains platform path) = false)
    (hnext : workspace.handleEvent platform (.removeFile fileName outcomes) =
      { left with currentFilePath := pathCombine workspace.filesPath transferFileName
        }.loadFileIntoIDE platform outcomes transferFileName)
    (htransfer : left.succeeds platform outcomes
        (.read (pathCombine workspace.filesPath transferFileName)) = true ∨
      IsCurrent platform workspace (pathCombine workspace.filesPath transferFileName)) :
    Together platform (history ++ [eventRecord platform workspace (.removeFile fileName outcomes)])
      (workspace.handleEvent platform (.removeFile fileName outcomes)) := by
  obtain ⟨read, hread, haccesses, hdisk, hloaded⟩ := loadFileIntoIDE_cases platform outcomes
    { left with currentFilePath := pathCombine workspace.filesPath transferFileName }
    transferFileName
  rw [← hnext] at haccesses hdisk hloaded
  simp only [hfolder] at hread hloaded
  have htried : (eventRecord platform workspace (.removeFile fileName outcomes)).observation =
      deletes ++ [read] := accessesSince_eq (by
    rw [haccesses, ← List.append_assoc]
    exact congrArg (· ++ [read]) hdeletes)
  have hstays :
      (workspace.handleEvent platform (.removeFile fileName outcomes)).filesPath ≠ [] := by
    rw [hnext, filesPath_loadFileIntoIDE]
    exact hfolder.trans_ne hopen
  rcases hloaded with ⟨hsucceeded, hpath, htext⟩ | ⟨hfailed, hsucceeds, hpath, htext⟩
  · refine .of_obtained hstays ?_ ?_
    · rw [htried, hpath]
      simp [obtains, hread, hsucceeded, FileAction.path]
    · rw [htext, hpath, hdisk]
  · rcases htransfer with hreads | hsame
    · exact absurd hreads (by
        rw [Bool.not_eq_true]
        exact hsucceeds)
    · refine .of_kept hstays htogether hopen (hpath ▸ hsame) (by rw [htext, hide]) ?_ (by simp)
      rw [htried, List.any_append, hobtains]
      simp [obtains, hfailed]

/-- Removing a file keeps the two together when the file that takes its place can be read, and
emptying the text box is right when the current file is gone. -/
theorem together_removeFile (htogether : Together platform history workspace)
    (hopen : workspace.filesPath ≠ [])
    (hkeeps : KeepsTogether platform workspace (.removeFile fileName outcomes)) :
    Together platform (history ++ [eventRecord platform workspace (.removeFile fileName outcomes)])
      (workspace.handleEvent platform (.removeFile fileName outcomes)) := by
  have hnext : workspace.handleEvent platform (.removeFile fileName outcomes) =
      workspace.removeFile platform outcomes fileName := rfl
  set filePath := pathCombine workspace.filesPath fileName with hfilePath
  set left := afterDelete platform outcomes workspace filePath with hleft
  have hfolder : left.filesPath = workspace.filesPath := filesPath_afterDelete filePath
  have hcurrent : left.currentFilePath = workspace.currentFilePath :=
    currentFilePath_afterDelete filePath
  have hide : left.ide = workspace.ide := ide_afterDelete filePath
  obtain ⟨deletes, hdeletes, hdelete⟩ : ∃ tried : List FileAccess,
      left.accesses = workspace.accesses ++ tried ∧
        ∀ access ∈ tried, access.action = .delete filePath := accesses_afterDelete filePath
  have hobtains : ∀ path, deletes.any (obtains platform path) = false :=
    any_obtains_eq_false fun access haccess ↦ .inr (hdelete access haccess)
  rcases removeFile_cases platform outcomes workspace fileName with
    ⟨-, hremoved⟩ | ⟨hlower, ⟨first, rest, hfiles, hremoved⟩ | ⟨hfiles, hremoved⟩⟩
  · rw [hremoved] at hnext
    have htried : (eventRecord platform workspace (.removeFile fileName outcomes)).observation =
        deletes := accessesSince_eq (by rw [hnext]; exact hdeletes)
    refine .of_kept (by rw [hnext]; exact hfolder.trans_ne hopen) htogether hopen
      (by rw [hnext]; exact congrArg platform.identity hcurrent)
      (by rw [hnext]; exact congrArg Ide.text hide) (by rw [htried, hobtains]) (by simp)
  · have htransfer := hkeeps hlower
    rw [← hfilePath, ← hleft, hfiles] at htransfer
    exact together_replaced htogether hopen hfolder hide hdeletes hobtains
      (hnext.trans hremoved) htransfer
  · have hempties := hkeeps hlower
    rw [← hfilePath, ← hleft, hfiles] at hempties
    rw [hremoved] at hnext
    have hstays :
        (workspace.handleEvent platform (.removeFile fileName outcomes)).filesPath ≠ [] := by
      rw [hnext]
      exact hfolder.trans_ne hopen
    have hpath : (workspace.handleEvent platform (.removeFile fileName outcomes)).currentFilePath =
        workspace.currentFilePath := by
      rw [hnext]
      exact hcurrent
    have htext :
        (workspace.handleEvent platform (.removeFile fileName outcomes)).ide.text = [] := by
      rw [hnext]
      exact text_assignText ..
    rcases hempties with habsent | hempty
    · refine .of_absent hstays ?_ htext
      rw [hpath, hnext]
      exact habsent
    · have htried : (eventRecord platform workspace (.removeFile fileName outcomes)).observation =
          deletes := accessesSince_eq (by rw [hnext]; exact hdeletes)
      exact .of_kept hstays htogether hopen (congrArg platform.identity hpath)
        (htext.trans hempty.symm) (by rw [htried, hobtains]) (by simp)

/-- The current file of a project that was just opened. -/
theorem currentFilePath_projectDetails (folderPath projectName : Text) :
    (workspace.handleEvent platform
      (.projectDetails folderPath projectName outcomes)).currentFilePath =
        sourceFilePath folderPath projectName := rfl

/-- Opening a project keeps the two together when the source file is new and the text box empty,
or when the project is the one that is open. -/
theorem together_projectDetails (htogether : Together platform history workspace)
    {folderPath projectName : Text}
    (hkeeps : KeepsTogether platform workspace (.projectDetails folderPath projectName outcomes)) :
    Together platform
      (history ++
        [eventRecord platform workspace (.projectDetails folderPath projectName outcomes)])
      (workspace.handleEvent platform (.projectDetails folderPath projectName outcomes)) := by
  have hopens : (workspace.handleEvent platform
      (.projectDetails folderPath projectName outcomes)).filesPath ≠ [] := by
    change folderPath ++ str "\\" ++ projectName ≠ []
    simp [str]
  have hide : (workspace.handleEvent platform
      (.projectDetails folderPath projectName outcomes)).ide = workspace.ide := by
    simp only [Workspace.handleEvent, Workspace.projectDetailsDone, Workspace.setProjectDetails]
    split_ifs <;> rfl
  simp only [KeepsTogether] at hkeeps
  rcases projectDetailsDone_cases platform outcomes workspace folderPath projectName with
    ⟨hdisk, tried, haccesses, hfailed⟩ |
      ⟨habsent, hcreates, hempty, created, other, hcreated, hsucceeded, haccesses⟩
  · have htried : (eventRecord platform workspace
        (.projectDetails folderPath projectName outcomes)).observation = tried :=
      accessesSince_eq haccesses
    have hkept (hopen : workspace.filesPath ≠ [])
        (hsame : IsCurrent platform workspace (sourceFilePath folderPath projectName)) :
        Together platform
          (history ++
            [eventRecord platform workspace (.projectDetails folderPath projectName outcomes)])
          (workspace.handleEvent platform (.projectDetails folderPath projectName outcomes)) := by
      refine .of_kept hopens htogether hopen hsame (congrArg Ide.text hide) ?_ (by simp)
      rw [htried, any_obtains_eq_false fun access haccess ↦ .inl (hfailed access haccess)]
      exact []
    split_ifs at hkeeps with hexists
    · exact hkept hkeeps.1 hkeeps.2
    · rcases hkeeps with hnothing | ⟨hopen, hsame, -⟩
      · refine .of_absent hopens ?_ (by rw [hide, hnothing])
        rw [← hdisk, Bool.not_eq_true] at hexists
        exact hexists
      · exact hkept hopen hsame
  · have htried : (eventRecord platform workspace
        (.projectDetails folderPath projectName outcomes)).observation = [created, other] :=
      accessesSince_eq haccesses
    rw [habsent, if_neg Bool.false_ne_true] at hkeeps
    rcases hkeeps with hnothing | ⟨-, -, hcreates'⟩
    · refine .of_obtained hopens ?_ ?_
      · rw [htried, currentFilePath_projectDetails]
        simp [obtains, hcreated, hsucceeded, FileAction.path]
      · rw [hide, hnothing]
        exact (congrArg (·.getD []) hempty).symm
    · rw [hcreates'] at hcreates
      cases hcreates

/-- A step that meets its condition keeps the text box and the current file together. -/
theorem Together.step (htogether : Together platform history workspace) {event : EditorEvent}
    {next : Workspace} {tried : List FileAccess} (hkeeps : KeepsTogether platform workspace event)
    (hstep : workspace.editorStep platform event = some (next, tried)) :
    Together platform (history ++ [⟨workspace, event, tried, next⟩]) next := by
  simp only [Workspace.editorStep, Option.ite_none_left_eq_some, Option.some.injEq,
    Prod.mk.injEq] at hstep
  obtain ⟨hproject, rfl, rfl⟩ := hstep
  have hopen : event.needsProject = true → workspace.filesPath ≠ [] := by
    intro hneeds hclosed
    exact hproject (by simp [hneeds, hclosed])
  cases event with
  | projectDetails folderPath projectName outcomes =>
    exact together_projectDetails htogether hkeeps
  | userEdit edit => exact together_userEdit htogether edit
  | switchFile fileName outcomes => exact together_switchFile htogether (hopen rfl) hkeeps
  | setNewFileName fileName outcomes => exact together_setNewFileName htogether (hopen rfl) hkeeps
  | removeFile fileName outcomes => exact together_removeFile htogether (hopen rfl) hkeeps
  | saveFiles outcomes => exact together_saveFiles htogether outcomes

/-- While the two belong together, every save of a step is sound. -/
theorem Together.savesOwn (htogether : Together platform history workspace) {event : EditorEvent}
    {next : Workspace} {tried : List FileAccess}
    (hstep : workspace.editorStep platform event = some (next, tried)) :
    SavesOwn platform history ⟨workspace, event, tried, next⟩ := by
  simp only [Workspace.editorStep, Option.ite_none_left_eq_some, Option.some.injEq,
    Prod.mk.injEq] at hstep
  obtain ⟨-, rfl, rfl⟩ := hstep
  obtain ⟨tried, htried, hsaves⟩ := @onlySaves_handleEvent platform workspace event
  intro save hsave
  rw [accessesSince_eq htried] at hsave
  obtain ⟨rfl, hpath⟩ := hsaves save hsave
  exact htogether.owned fun hclosed ↦ hpath (htogether.closed hclosed)

end Steps

/-! ### Sound saves -/

/-- In every run whose steps all meet the condition, from every content of the disk, nothing is
saved over a file but text that belongs to it. -/
theorem savesOwn_of_keepsTogether (platform : Platform) (disk : Disk)
    {history : List EditorRecord} {workspace : Workspace}
    (hrun : Run (Workspace.editorStep platform) { disk } history workspace)
    (hkeeps : EveryStep (fun _ record ↦ KeepsTogether platform record.before record.event)
      history) :
    EveryStep (SavesOwn platform) history := by
  refine Run.everyStep_of_everyStep (fun earlier record hearlier hbefore _ hstep ↦ ?_) hrun hkeeps
  refine Together.savesOwn ?_ hstep
  refine Run.relation_of_everyStep (Together platform) ⟨fun _ ↦ rfl, fun hopen ↦ absurd rfl hopen⟩
    ?_ hearlier hbefore
  exact fun _ _ _ _ _ _ htogether hcondition hstep ↦ htogether.step hcondition hstep

/-- A new project with two files: edits in either, switches between them, and the removal of the
current one. -/
theorem savesOwn_newProject :
    ∃ history workspace, Run (Workspace.editorStep asciiPlatform) { disk := [] } history workspace ∧
      EveryStep (SavesOwn asciiPlatform) history ∧
      workspace.ide.text = str "yz" ∧ workspace.currentFilePath = str "C:\\d\\p\\b.h" := by
  obtain ⟨history, workspace, hrun, -, hcheck⟩ :=
    exists_run_of_execute (Workspace.editorStep asciiPlatform) { disk := [] }
      [.projectDetails (str "C:\\d") (str "p") allAllowed, .userEdit ⟨0, 0, str "x"⟩,
        .setNewFileName (str "b.h") allAllowed, .userEdit ⟨0, 0, str "y"⟩,
        .switchFile (str "p.cpp") allAllowed, .userEdit ⟨1, 0, str "z"⟩,
        .switchFile (str "b.h") allAllowed, .userEdit ⟨1, 0, str "z"⟩, .saveFiles allAllowed,
        .switchFile (str "p.cpp") allAllowed, .removeFile (str "P.CPP") allAllowed]
      (fun history workspace ↦
        decide (EveryStep (fun _ record ↦
          KeepsTogether asciiPlatform record.before record.event) history) &&
        decide (workspace.ide.text = str "yz") &&
        decide (workspace.currentFilePath = str "C:\\d\\p\\b.h")) (by decide +kernel)
  simp only [Bool.and_eq_true, decide_eq_true_eq] at hcheck
  exact ⟨history, workspace, hrun, savesOwn_of_keepsTogether asciiPlatform [] hrun hcheck.1.1,
    hcheck.1.2, hcheck.2⟩

/-- Opening a project that is there already and saving empties its source file. -/
theorem not_savesOwn_openProject :
    ¬ ∀ (platform : Platform) (disk : Disk) (history : List EditorRecord) (workspace : Workspace),
      Run (Workspace.editorStep platform) { disk } history workspace →
        EveryStep (SavesOwn platform) history := by
  intro hall
  obtain ⟨history, workspace, hrun, -, hcheck⟩ :=
    exists_run_of_execute (Workspace.editorStep asciiPlatform)
      { disk := [⟨str "C:\\d\\p\\p.cpp", str "int x;"⟩] }
      [.projectDetails (str "C:\\d") (str "p") allAllowed, .saveFiles allAllowed]
      (fun history workspace ↦ !decide (EveryStep (SavesOwn asciiPlatform) history) &&
        decide (workspace.disk = [⟨str "C:\\d\\p\\p.cpp", []⟩])) (by decide +kernel)
  have hbad : ¬ EveryStep (SavesOwn asciiPlatform) history := by
    simp only [Bool.and_eq_true, Bool.not_eq_true', decide_eq_false_iff_not] at hcheck
    exact hcheck.1
  exact hbad (hall asciiPlatform _ history workspace hrun)

/-- A switch to a file that cannot be read, and a save puts the text of the other file over it. -/
example :
    (match execute (Workspace.editorStep asciiPlatform) [] { disk := [] }
        [.projectDetails (str "C:\\d") (str "p") allAllowed,
          .setNewFileName (str "b.h") allAllowed, .userEdit ⟨0, 0, str "y"⟩,
          .switchFile (str "p.cpp") ⟨(· ≠ .read (str "C:\\d\\p\\p.cpp")), true⟩,
          .saveFiles allAllowed] with
      | some (history, workspace) =>
        !decide (EveryStep (SavesOwn asciiPlatform) history) &&
          asciiPlatform.fileText workspace.disk (str "C:\\d\\p\\p.cpp") = some (str "y")
      | none => false) = true := by
  decide +kernel

end NovaIde.Client
