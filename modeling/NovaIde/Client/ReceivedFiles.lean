import NovaIde.Client.ProjectFiles

/-!
# Where received files are put

The names in a file-transfer message are those its sender chose. `recieveFiles` creates the file
name of each below the project folder, and `setConent` writes at the name itself put below the
folder. Both stay in the folder, and agree, exactly for the names that are the name of a file in the
folder or its path (`messageStaysInside_iff`).
-/

set_option autoImplicit false
set_option relaxedAutoImplicit false

namespace NovaIde.Client

/-- The operations that were tried between two states of a workspace. -/
def accessesSince (before after : Workspace) : List FileAccess :=
  after.accesses.drop before.accesses.length

/-- The path of an operation that creates a file. -/
def createdPath (access : FileAccess) : Option Text :=
  match access.action with
  | .create path => some path
  | _ => none

/-- The path of an operation that writes a file. -/
def writtenPath (access : FileAccess) : Option Text :=
  match access.action with
  | .write path _ => some path
  | _ => none

/-- A transfer stays in the folder: whatever operations fail, the paths that `recieveFiles` creates
and those that `setConent` writes or loads are direct children of the folder, and the paths written
are the paths created. -/
def ReceivesInside (platform : Platform) (workspace : Workspace) (filesDict : Files) : Prop :=
  ∀ outcomes : Outcomes,
    let received := workspace.recieveFiles platform outcomes filesDict
    let filled := received.1.setConent platform outcomes true filesDict
    (∀ path ∈ (accessesSince workspace received.1).filterMap createdPath,
      DirectChild workspace.filesPath path) ∧
    (received.2 = true →
      (∀ access ∈ accessesSince received.1 filled,
        DirectChild workspace.filesPath access.action.path) ∧
      (accessesSince workspace received.1).filterMap createdPath =
        (accessesSince received.1 filled).filterMap writtenPath)

/-- Every transfer that the datagram makes stays in the folder. -/
def MessageStaysInside (platform : Platform) (workspace : Workspace) (receiveBytes : Datagram) :
    Prop :=
  ∀ filesDict, filesReceived receiveBytes = some filesDict →
    ReceivesInside platform workspace filesDict

/-- A received name that both functions put at the same place in the folder. -/
def StaysInFolder (dir name : Text) : Prop :=
  ChildName (getFileName name) ∧
    (name = getFileName name ∨ name = pathCombine dir (getFileName name))

section Accesses

variable {platform : Platform} {outcomes : Outcomes} {workspace : Workspace}

@[simp] theorem filesPath_access (action : FileAction) :
    (workspace.access platform outcomes action).filesPath = workspace.filesPath := rfl

@[simp] theorem filesPath_loadFileIntoIDE (fileName : Text) :
    (workspace.loadFileIntoIDE platform outcomes fileName).filesPath = workspace.filesPath := by
  simp only [Workspace.loadFileIntoIDE]
  split <;> rfl

/-- An operation is recorded. -/
theorem accesses_access (action : FileAction) :
    ∃ access : FileAccess, access.action = action ∧
      (workspace.access platform outcomes action).accesses = workspace.accesses ++ [access] :=
  ⟨_, rfl, rfl⟩

/-- Loading a file reads it. -/
theorem accesses_loadFileIntoIDE (fileName : Text) :
    ∃ access : FileAccess,
      access.action = .read (pathCombine workspace.filesPath fileName) ∧
      (workspace.loadFileIntoIDE platform outcomes fileName).accesses =
        workspace.accesses ++ [access] := by
  simp only [Workspace.loadFileIntoIDE]
  split <;> exact ⟨_, rfl, rfl⟩

/-- A workspace reached without creating files: it has the same folder, and what was tried since
created none. -/
def CreatesNothing (before after : Workspace) : Prop :=
  after.filesPath = before.filesPath ∧
    ∃ tried, after.accesses = before.accesses ++ tried ∧ tried.filterMap createdPath = []

theorem CreatesNothing.refl (workspace : Workspace) : CreatesNothing workspace workspace :=
  ⟨rfl, [], by simp, rfl⟩

theorem CreatesNothing.trans {first second third : Workspace} (hfirst : CreatesNothing first second)
    (hsecond : CreatesNothing second third) : CreatesNothing first third := by
  obtain ⟨hpath, tried, htried, hnone⟩ := hfirst
  obtain ⟨hpath', others, hothers, hnones⟩ := hsecond
  refine ⟨hpath'.trans hpath, tried ++ others, ?_, ?_⟩
  · rw [hothers, htried, List.append_assoc]
  · rw [List.filterMap_append, hnone, hnones, List.append_nil]

/-- Removing a file creates none. -/
theorem createsNothing_removeFile (platform : Platform) (outcomes : Outcomes)
    (workspace : Workspace) (fileName : Text) :
    CreatesNothing workspace (workspace.removeFile platform outcomes fileName) := by
  have hload : ∀ (workspace : Workspace) (fileName : Text),
      CreatesNothing workspace (workspace.loadFileIntoIDE platform outcomes fileName) := by
    intro workspace fileName
    obtain ⟨access, haction, haccesses⟩ :=
      @accesses_loadFileIntoIDE platform outcomes workspace fileName
    exact ⟨filesPath_loadFileIntoIDE fileName, _, haccesses, by simp [createdPath, haction]⟩
  have hdelete : CreatesNothing workspace
      (if platform.fileExists workspace.disk (pathCombine workspace.filesPath fileName) then
        workspace.access platform outcomes (.delete (pathCombine workspace.filesPath fileName))
      else workspace) := by
    split_ifs
    · exact ⟨rfl, _, rfl, rfl⟩
    · exact .refl workspace
  refine hdelete.trans ?_
  simp only [Workspace.removeFile]
  generalize (if platform.fileExists workspace.disk (pathCombine workspace.filesPath fileName) then
      workspace.access platform outcomes (.delete (pathCombine workspace.filesPath fileName))
    else workspace) = removed
  split_ifs
  · split
    · exact hload { removed with currentFilePath := _ } _
    · exact ⟨rfl, [], by simp, rfl⟩
  · exact .refl removed

/-- The part of `recieveFiles` that removes the old files creates none. -/
theorem createsNothing_foldl_removeFile (platform : Platform) (outcomes : Outcomes)
    (files : List Text) : ∀ workspace : Workspace,
      CreatesNothing workspace (files.foldl (fun workspace file ↦
        workspace.removeFile platform outcomes (getFileName file)) workspace) := by
  induction files with
  | nil => exact CreatesNothing.refl
  | cons file files ih =>
    intro workspace
    exact (createsNothing_removeFile platform outcomes workspace (getFileName file)).trans (ih _)

/-- The names that `createReceived` creates before it ends or throws: each path is that of the file
name below the folder. -/
theorem accesses_createReceived (platform : Platform) (outcomes : Outcomes) (names : List Text) :
    ∀ workspace : Workspace, ∃ tried,
      (workspace.createReceived platform outcomes names).1.accesses = workspace.accesses ++ tried ∧
      (workspace.createReceived platform outcomes names).1.filesPath = workspace.filesPath ∧
      (tried.filterMap createdPath <+:
        names.map fun name ↦ pathCombine workspace.filesPath (getFileName name)) ∧
      ((workspace.createReceived platform outcomes names).2 = true →
        tried.filterMap createdPath =
          names.map fun name ↦ pathCombine workspace.filesPath (getFileName name)) := by
  induction names with
  | nil => exact fun workspace ↦ ⟨[], by simp [Workspace.createReceived]⟩
  | cons name names ih =>
    intro workspace
    obtain ⟨access, haction, haccess⟩ := @accesses_access platform outcomes workspace
      (.create (pathCombine workspace.filesPath (getFileName name)))
    obtain ⟨tried, htried, hpath, hleads, hall⟩ := ih (workspace.access platform outcomes
      (.create (pathCombine workspace.filesPath (getFileName name))))
    have hcreated : createdPath access =
        some (pathCombine workspace.filesPath (getFileName name)) := by
      rw [createdPath, haction]
    simp only [Workspace.createReceived]
    split_ifs
    · refine ⟨access :: tried, ?_, hpath, ?_, fun hend ↦ ?_⟩
      · rw [htried, haccess, List.append_assoc, List.singleton_append]
      · rw [List.filterMap_cons_some hcreated, List.map_cons, List.prefix_cons_inj]
        exact hleads
      · rw [List.filterMap_cons_some hcreated, List.map_cons, hall hend, filesPath_access]
    · refine ⟨[access], haccess, rfl, ?_, by simp⟩
      rw [List.filterMap_cons_some hcreated, List.filterMap_nil, List.map_cons]
      exact ⟨_, rfl⟩

/-- A workspace reached by writing these names below the folder, in this order, and loading some of
what was written. -/
def WritesNames (names : List Text) (before after : Workspace) : Prop :=
  after.filesPath = before.filesPath ∧
    ∃ tried, after.accesses = before.accesses ++ tried ∧
      tried.filterMap writtenPath = names.map (pathCombine before.filesPath) ∧
      ∀ access ∈ tried, ∃ name ∈ names,
        access.action.path = pathCombine before.filesPath name ∨
        access.action.path = pathCombine before.filesPath (pathCombine before.filesPath name)

theorem WritesNames.trans {names others : List Text} {first second third : Workspace}
    (hfirst : WritesNames names first second) (hsecond : WritesNames others second third) :
    WritesNames (names ++ others) first third := by
  obtain ⟨hpath, tried, htried, hwrites, hplaces⟩ := hfirst
  obtain ⟨hpath', tried', htried', hwrites', hplaces'⟩ := hsecond
  rw [hpath] at hwrites' hplaces'
  refine ⟨hpath'.trans hpath, tried ++ tried', ?_, ?_, fun access haccess ↦ ?_⟩
  · rw [htried', htried, List.append_assoc]
  · rw [List.filterMap_append, hwrites, hwrites', List.map_append]
  · rcases List.mem_append.mp haccess with haccess | haccess
    · obtain ⟨name, hname, hplace⟩ := hplaces access haccess
      exact ⟨name, List.mem_append_left _ hname, hplace⟩
    · obtain ⟨name, hname, hplace⟩ := hplaces' access haccess
      exact ⟨name, List.mem_append_right _ hname, hplace⟩

/-- One file is written. -/
theorem writesNames_access (platform : Platform) (outcomes : Outcomes) (workspace : Workspace)
    (name content : Text) :
    WritesNames [name] workspace (workspace.access platform outcomes
      (.write (pathCombine workspace.filesPath name) content)) := by
  obtain ⟨access, haction, haccess⟩ := @accesses_access platform outcomes workspace
    (.write (pathCombine workspace.filesPath name) content)
  refine ⟨filesPath_access _, [access], haccess, ?_, fun other hother ↦ ?_⟩
  · simp [writtenPath, haction]
  · rw [List.mem_singleton.mp hother, haction]
    exact ⟨name, List.mem_singleton_self name, .inl rfl⟩

/-- A file that was written is loaded, by the path it was written to. -/
theorem WritesNames.load {name : Text} {before after : Workspace}
    (hwrites : WritesNames [name] before after) (platform : Platform) (outcomes : Outcomes) :
    WritesNames [name] before
      (after.loadFileIntoIDE platform outcomes (pathCombine before.filesPath name)) := by
  obtain ⟨hpath, tried, htried, hwritten, hplaces⟩ := hwrites
  obtain ⟨read, hread, hload⟩ := @accesses_loadFileIntoIDE platform outcomes after
    (pathCombine before.filesPath name)
  refine ⟨(filesPath_loadFileIntoIDE _).trans hpath, tried ++ [read], ?_, ?_,
    fun access haccess ↦ ?_⟩
  · rw [hload, htried, List.append_assoc]
  · rw [List.filterMap_append, hwritten]
    simp [writtenPath, hread]
  · rcases List.mem_append.mp haccess with haccess | haccess
    · exact hplaces access haccess
    · rw [List.mem_singleton.mp haccess, hread, hpath]
      exact ⟨name, List.mem_singleton_self name, .inr rfl⟩

/-- What `setConent` tries: it writes every name below the folder, and loads what it wrote. -/
theorem writesNames_setConent (platform : Platform) (outcomes : Outcomes) (files : Files) :
    ∀ (workspace : Workspace) (isFirst : Bool), WritesNames (files.map Prod.fst) workspace
      (workspace.setConent platform outcomes isFirst files) := by
  induction files with
  | nil => exact fun workspace isFirst ↦ ⟨rfl, [], by simp [Workspace.setConent]⟩
  | cons file files ih =>
    intro workspace isFirst
    obtain ⟨name, content⟩ := file
    have hwritten := writesNames_access platform outcomes workspace name content
    simp only [Workspace.setConent]
    split_ifs
    · exact (hwritten.load platform outcomes).trans (ih _ false)
    · exact hwritten.trans (ih _ false)
    · exact hwritten.trans (ih _ isFirst)

/-- With every operation allowed, `createReceived` ends. -/
theorem createReceived_ends (platform : Platform) (names : List Text) :
    ∀ workspace : Workspace, workspace.filesPath ≠ [] →
      (workspace.createReceived platform ⟨fun _ ↦ true, true⟩ names).2 = true := by
  induction names with
  | nil => exact fun _ _ ↦ rfl
  | cons name names ih =>
    intro workspace hdir
    have hsucceeds : workspace.succeeds platform ⟨fun _ ↦ true, true⟩
        (.create (pathCombine workspace.filesPath (getFileName name))) = true := by
      simp [Workspace.succeeds, pathCombine_ne_nil hdir]
    simp only [Workspace.createReceived, hsucceeds, if_true]
    exact ih _ hdir

/-- What `recieveFiles` creates: a part of the names, in their order, and all of them when it
ends. -/
theorem created_recieveFiles (platform : Platform) (outcomes : Outcomes) (workspace : Workspace)
    (filesDict : Files) :
    (workspace.recieveFiles platform outcomes filesDict).1.filesPath = workspace.filesPath ∧
      ((accessesSince workspace
          (workspace.recieveFiles platform outcomes filesDict).1).filterMap createdPath <+:
        (filesDict.map Prod.fst).map
          fun name ↦ pathCombine workspace.filesPath (getFileName name)) ∧
      ((workspace.recieveFiles platform outcomes filesDict).2 = true →
        (accessesSince workspace
            (workspace.recieveFiles platform outcomes filesDict).1).filterMap createdPath =
          (filesDict.map Prod.fst).map
            fun name ↦ pathCombine workspace.filesPath (getFileName name)) := by
  obtain ⟨hfolder, removals, hremoved, hnone⟩ := createsNothing_foldl_removeFile platform outcomes
    (platform.getFiles workspace.disk workspace.filesPath) workspace
  obtain ⟨tried, htried, hpath, hleads, hall⟩ := accesses_createReceived platform outcomes
    (filesDict.map Prod.fst) ((platform.getFiles workspace.disk workspace.filesPath).foldl
      (fun workspace file ↦ workspace.removeFile platform outcomes (getFileName file)) workspace)
  rw [hfolder] at hpath hleads hall
  have hsince : accessesSince workspace (workspace.recieveFiles platform outcomes filesDict).1 =
      removals ++ tried := by
    rw [accessesSince, Workspace.recieveFiles, htried, hremoved, List.append_assoc, List.drop_left]
  rw [hsince, List.filterMap_append, hnone, List.nil_append]
  exact ⟨hpath, hleads, hall⟩

end Accesses

/-! ### The names that stay in the folder -/

/-- Where a name that stays in the folder is written. -/
theorem StaysInFolder.pathCombine_eq {dir name : Text} (hdir : IsFolderPath dir)
    (hname : StaysInFolder dir name) :
    pathCombine dir name = folderPrefix dir ++ getFileName name := by
  obtain ⟨hchild, hself | hfull⟩ := hname
  · exact (congrArg (pathCombine dir) hself).trans (pathCombine_child hdir.ne_nil hchild)
  · have hpath := pathCombine_child hdir.ne_nil hchild
    have hrooted : isPathRooted name = true := by
      rw [hfull, hpath]
      exact isPathRooted_folderPrefix hdir _
    rw [pathCombine_of_rooted hdir.ne_nil hrooted]
    exact hfull.trans hpath

/-- A name that is written where its file name is created, in the folder, stays there. -/
theorem staysInFolder_of_eq {dir name : Text} (hdir : IsFolderPath dir)
    (hchild : ChildName (getFileName name))
    (hsame : pathCombine dir (getFileName name) = pathCombine dir name) :
    StaysInFolder dir name := by
  refine ⟨hchild, ?_⟩
  by_cases hempty : name = []
  · subst hempty
    exact absurd rfl hchild.ne_nil
  · cases hrooted : isPathRooted name with
    | true =>
      rw [pathCombine_of_rooted hdir.ne_nil hrooted] at hsame
      exact .inr hsame.symm
    | false =>
      rw [pathCombine_child hdir.ne_nil hchild,
        pathCombine_of_not_rooted hdir.ne_nil hempty hrooted, List.append_cancel_left_eq] at hsame
      exact .inl hsame.symm

/-- A transfer of names that stay in the folder stays in the folder. -/
theorem receivesInside_of_stays {platform : Platform} {workspace : Workspace} {filesDict : Files}
    (hdir : IsFolderPath workspace.filesPath)
    (hstays : ∀ name ∈ filesDict.map Prod.fst, StaysInFolder workspace.filesPath name) :
    ReceivesInside platform workspace filesDict := by
  intro outcomes
  obtain ⟨hpath, hleads, hall⟩ := created_recieveFiles platform outcomes workspace filesDict
  obtain ⟨-, tried, htried, hwritten, hplaces⟩ := writesNames_setConent platform outcomes filesDict
    (workspace.recieveFiles platform outcomes filesDict).1 true
  rw [hpath] at hwritten hplaces
  have hsince : accessesSince (workspace.recieveFiles platform outcomes filesDict).1
      ((workspace.recieveFiles platform outcomes filesDict).1.setConent platform outcomes true
        filesDict) = tried := by
    rw [accessesSince, htried, List.drop_left]
  refine ⟨fun path hcreated ↦ ?_, fun hends ↦ ⟨fun access haccess ↦ ?_, ?_⟩⟩
  · obtain ⟨name, hname, rfl⟩ := List.mem_map.mp (hleads.subset hcreated)
    exact ⟨_, (hstays name hname).1, pathCombine_child hdir.ne_nil (hstays name hname).1⟩
  · rw [hsince] at haccess
    obtain ⟨name, hname, hplace⟩ := hplaces access haccess
    have hwhere := (hstays name hname).pathCombine_eq hdir
    refine ⟨_, (hstays name hname).1, ?_⟩
    rcases hplace with hplace | hplace
    · rw [hplace, hwhere]
    · rw [hplace, hwhere, pathCombine_of_rooted hdir.ne_nil (isPathRooted_folderPrefix hdir _)]
  · rw [hsince, hwritten, hall hends]
    refine List.map_congr_left fun name hname ↦ ?_
    rw [(hstays name hname).pathCombine_eq hdir,
      pathCombine_child hdir.ne_nil (hstays name hname).1]

/-- The names of a transfer that stays in the folder stay there. -/
theorem stays_of_receivesInside {platform : Platform} {workspace : Workspace} {filesDict : Files}
    (hdir : IsFolderPath workspace.filesPath)
    (hinside : ReceivesInside platform workspace filesDict) :
    ∀ name ∈ filesDict.map Prod.fst, StaysInFolder workspace.filesPath name := by
  -- when every operation is allowed, every name is created and written
  obtain ⟨hchildren, hfilled⟩ := hinside ⟨fun _ ↦ true, true⟩
  obtain ⟨hpath, -, hall⟩ := created_recieveFiles platform ⟨fun _ ↦ true, true⟩ workspace filesDict
  have hends : (workspace.recieveFiles platform ⟨fun _ ↦ true, true⟩ filesDict).2 = true := by
    refine createReceived_ends platform _ _ ?_
    rw [(createsNothing_foldl_removeFile platform _ _ workspace).1]
    exact hdir.ne_nil
  obtain ⟨-, tried, htried, hwritten, -⟩ := writesNames_setConent platform ⟨fun _ ↦ true, true⟩
    filesDict (workspace.recieveFiles platform ⟨fun _ ↦ true, true⟩ filesDict).1 true
  have hsince : accessesSince (workspace.recieveFiles platform ⟨fun _ ↦ true, true⟩ filesDict).1
      ((workspace.recieveFiles platform ⟨fun _ ↦ true, true⟩ filesDict).1.setConent platform
        ⟨fun _ ↦ true, true⟩ true filesDict) = tried := by
    rw [accessesSince, htried, List.drop_left]
  have hsame := (hfilled hends).2
  rw [hall hends, hsince, hwritten, hpath] at hsame
  rw [hall hends] at hchildren
  intro name hname
  have hchild := (directChild_pathCombine_iff hdir.ne_nil (hasNoSeparator_getFileName name)).mp
    (hchildren _ (List.mem_map_of_mem hname))
  exact staysInFolder_of_eq hdir hchild (List.map_inj_left.mp hsame name hname)

/-- The transfers of a datagram stay in the project folder exactly when every received name is the
name of a file in the folder or the path of one. -/
theorem messageStaysInside_iff (platform : Platform) (workspace : Workspace)
    (receiveBytes : Datagram) (hdir : IsFolderPath workspace.filesPath) :
    MessageStaysInside platform workspace receiveBytes ↔
      ∀ filesDict, filesReceived receiveBytes = some filesDict →
        ∀ name ∈ filesDict.map Prod.fst, StaysInFolder workspace.filesPath name :=
  forall₂_congr fun _ _ ↦ ⟨stays_of_receivesInside hdir, receivesInside_of_stays hdir⟩

/-- A source file and its path both stay in the folder. -/
theorem messageStaysInside_sources :
    MessageStaysInside asciiPlatform { filesPath := str "C:\\p" }
      (sendFiles [(str "a.cpp", str "x"), (str "C:\\p\\b.cpp", str "y")]) := by
  refine (messageStaysInside_iff _ _ _ (isFolderPath_drive (by decide) (str "p"))).mpr ?_
  have hreceived : filesReceived
      (sendFiles [(str "a.cpp", str "x"), (str "C:\\p\\b.cpp", str "y")]) =
        some [(str "a.cpp", str "x"), (str "C:\\p\\b.cpp", str "y")] := by decide +kernel
  intro filesDict hfiles name hname
  cases hreceived.symm.trans hfiles
  rcases List.mem_pair.mp hname with rfl | rfl
  · exact ⟨⟨by decide, by decide, unit 'a', by decide, by decide⟩, .inl (by decide)⟩
  · exact ⟨⟨by decide, by decide, unit 'b', by decide, by decide⟩, .inr (by decide)⟩

/-- The path of a file elsewhere is created in the folder, and written where it says. -/
theorem not_messageStaysInside_rooted :
    ¬ MessageStaysInside asciiPlatform { filesPath := str "C:\\p" }
      (sendFiles [(str "C:\\evil.txt", str "x")]) := by
  intro hinside
  obtain ⟨-, hsame⟩ := (hinside [(str "C:\\evil.txt", str "x")] (by decide +kernel)
    ⟨fun _ ↦ true, true⟩).2 (by decide +kernel)
  have hpaths : (accessesSince { filesPath := str "C:\\p" }
      (Workspace.recieveFiles asciiPlatform ⟨fun _ ↦ true, true⟩ { filesPath := str "C:\\p" }
        [(str "C:\\evil.txt", str "x")]).1).filterMap createdPath = [str "C:\\p\\evil.txt"] := by
    decide +kernel
  rw [hpaths] at hsame
  exact absurd hsame (by decide +kernel)

end NovaIde.Client
