import NovaIde.Client.Transport
import NovaIde.Foundation.Delimited

/-!
# The file-transfer message

`SendFiles` writes the files of the host one after the other, name and content each behind a
separator, and `0` in place of an empty content. `ReceiveAndParseMessage` splits the message at the
separators, drops the empty entries and the first one, and takes the others in pairs
(`receiveAndParseMessage_eq_some`).

The pairs of a message are the ones written when no content but the last ends with the character of
the separator and none holds the separator (`pairs_of_clean`). A pair whose content ends with that
character can only come from the end of the message (`name_of_content_ending`).
-/

set_option autoImplicit false
set_option relaxedAutoImplicit false

namespace NovaIde.Client

open Foundation

/-- A dictionary of files, from names to contents, in the order in which it enumerates them. -/
abbrev Files := List (Text × Text)

def FILES_IDENTIFIER : UInt16 := unit 'F'
def INFO_IDENTIFIER : UInt16 := unit 'I'

/-- The character the separator consists of. -/
def bar : UInt16 := unit '|'

/-- The separator of the file-transfer message. -/
def fileSeparator : Text := List.replicate 3 bar

/-- What is written for a content. -/
def writtenContent (content : Text) : Text := if content = [] then str "0" else content

/-- The message `SendFiles` builds. -/
def filesMessage (files : Files) : Text :=
  files.foldl (fun message file ↦
    message ++ fileSeparator ++ file.1 ++ fileSeparator ++ writtenContent file.2)
    [FILES_IDENTIFIER]

/-- `SessionHost.SendFiles`: the datagram for the first endpoint. -/
def sendFiles (files : Files) : Datagram := utf8GetBytes (filesMessage files)

/-! ### Receiving -/

/-- The variables of the loop of `ReceiveAndParseMessage`. -/
structure EntriesRead where
  receivedFiles : Files := []
  filesCounter : ℕ := 0
  fileName : Text := []
  fileContent : Text := []
deriving DecidableEq, Repr

/-- The body of the loop of `ReceiveAndParseMessage`. `Dictionary.Add` throws at a key that is
there already. -/
def readEntry (state : EntriesRead) (entry : Text) : Option EntriesRead :=
  let state :=
    if state.filesCounter = 0 then { state with fileName := entry }
    else if state.filesCounter = 1 then { state with fileContent := entry }
    else state
  let filesCounter := state.filesCounter + 1
  if filesCounter = 2 then
    if state.fileName ∈ state.receivedFiles.map Prod.fst then none
    else
      some { state with
        receivedFiles := state.receivedFiles ++ [(state.fileName, state.fileContent)]
        filesCounter := 0 }
  else some { state with filesCounter }

/-- The entries of a message: `Split` with `RemoveEmptyEntries`. -/
def fileEntries (receivedMessage : Text) : List Text :=
  (splitSeparator fileSeparator receivedMessage).filter (· ≠ [])

/-- `SessionMember.ReceiveAndParseMessage`, which does nothing with the entry before the names. -/
def receiveAndParseMessage (receivedMessage : Text) : Option Files :=
  (((fileEntries receivedMessage).drop 1).foldlM readEntry {}).map EntriesRead.receivedFiles

/-- What `P2PListener` does with a message, by its first character. -/
inductive ListenerAction
  | update (receivedMessage : Text)
  | configure (receivedMessage : Text)
  | parseFiles (receivedMessage : Text)
  | ignore
deriving DecidableEq, Repr

/-- The dispatch of `P2PListener`. -/
def listenerAction (receiveBytes : Datagram) : ListenerAction :=
  let receivedMessage := asciiGetString receiveBytes
  match receivedMessage with
  | [] => .ignore
  | char :: _ =>
    if char = unit '+' ∨ char = unit '-' ∨ char = unit '=' then .update receivedMessage
    else if char = INFO_IDENTIFIER then .configure receivedMessage
    else if char = FILES_IDENTIFIER then .parseFiles receivedMessage
    else .ignore

/-- The files a datagram leaves in `P2PCommunicator.files`: none when it is no file transfer, or
when its names repeat. -/
def filesReceived (receiveBytes : Datagram) : Option Files :=
  match listenerAction receiveBytes with
  | .parseFiles receivedMessage => receiveAndParseMessage receivedMessage
  | _ => none

/-! ### Reading entries in pairs -/

/-- The entries two by two; a last one without a partner is left out. -/
def pairs : List Text → Files
  | name :: content :: rest => (name, content) :: pairs rest
  | _ => []

/-- Reading entries from a state between two pairs: the loop ends when no name repeats, and then it
has read the pairs. -/
theorem foldlM_readEntry_eq_some {files : Files} (entries : List Text) :
    ∀ {receivedFiles : Files} {fileName fileContent : Text},
      (receivedFiles.map Prod.fst).Nodup →
        ((entries.foldlM readEntry ⟨receivedFiles, 0, fileName, fileContent⟩).map
            EntriesRead.receivedFiles = some files ↔
          ((receivedFiles ++ pairs entries).map Prod.fst).Nodup ∧
            files = receivedFiles ++ pairs entries) := by
  induction entries using pairs.induct with
  | case1 name content rest ih =>
    intro receivedFiles fileName fileContent hnodup
    have hfirst : readEntry ⟨receivedFiles, 0, fileName, fileContent⟩ name =
        some ⟨receivedFiles, 1, name, fileContent⟩ := by
      simp [readEntry]
    rw [List.foldlM_cons, hfirst, Option.bind_eq_bind, Option.bind_some, List.foldlM_cons, pairs]
    by_cases hname : name ∈ receivedFiles.map Prod.fst
    · have hthrows : readEntry ⟨receivedFiles, 1, name, fileContent⟩ content = none := by
        simp only [readEntry]
        exact if_pos hname
      have hrepeated : ¬ ((receivedFiles ++ (name, content) :: pairs rest).map Prod.fst).Nodup := by
        rw [List.map_append, List.map_cons, List.nodup_middle, List.nodup_cons]
        exact fun h ↦ h.1 (List.mem_append_left _ hname)
      rw [hthrows]
      exact iff_of_false (by simp) fun h ↦ hrepeated h.1
    · have hadds : readEntry ⟨receivedFiles, 1, name, fileContent⟩ content =
          some ⟨receivedFiles ++ [(name, content)], 0, name, content⟩ := by
        simp only [readEntry]
        exact if_neg hname
      have hkept : ((receivedFiles ++ [(name, content)]).map Prod.fst).Nodup := by
        rw [List.map_append, List.map_singleton, List.nodup_append]
        refine ⟨hnodup, List.nodup_singleton name, fun other hother new hnew heq ↦ hname ?_⟩
        rw [heq, List.mem_singleton.mp hnew] at hother
        exact hother
      rw [hadds, Option.bind_eq_bind, Option.bind_some, ih hkept, List.append_assoc,
        List.singleton_append]
  | case2 entries hshort =>
    intro receivedFiles fileName fileContent hnodup
    rcases entries with _ | ⟨entry, _ | ⟨next, rest⟩⟩
    · simp [pairs, hnodup, eq_comm]
    · simp [pairs, readEntry, hnodup, eq_comm]
    · exact absurd rfl (hshort entry next rest)

/-- `ReceiveAndParseMessage` returns when no name repeats, and then the entries after the first one
in pairs. -/
theorem receiveAndParseMessage_eq_some {receivedMessage : Text} {files : Files} :
    receiveAndParseMessage receivedMessage = some files ↔
      ((pairs ((fileEntries receivedMessage).drop 1)).map Prod.fst).Nodup ∧
        files = pairs ((fileEntries receivedMessage).drop 1) := by
  have hread := @foldlM_readEntry_eq_some files ((fileEntries receivedMessage).drop 1) [] [] []
    List.nodup_nil
  exact hread

/-- The names and contents of the pairs are among the entries. -/
theorem mem_of_mem_pairs {pair : Text × Text} {entries : List Text} (hpair : pair ∈ pairs entries) :
    pair.1 ∈ entries ∧ pair.2 ∈ entries := by
  induction entries using pairs.induct with
  | case1 name content rest ih =>
    rw [pairs] at hpair
    rcases List.mem_cons.mp hpair with rfl | hpair
    · simp
    · obtain ⟨hname, hcontent⟩ := ih hpair
      exact ⟨by simp [hname], by simp [hcontent]⟩
  | case2 entries hshort =>
    rw [pairs] at hpair
    · simp at hpair
    · exact hshort

theorem fileSeparator_ne_nil : fileSeparator ≠ [] := by decide

/-- The contents read from a message are parts of it, are not empty and do not hold the
separator. -/
theorem content_of_receiveAndParseMessage {receivedMessage : Text} {files : Files}
    (hfiles : receiveAndParseMessage receivedMessage = some files) {file : Text × Text}
    (hfile : file ∈ files) :
    file.2 <:+: receivedMessage ∧ file.2 ≠ [] ∧ ¬ fileSeparator <:+: file.2 := by
  rw [(receiveAndParseMessage_eq_some.mp hfiles).2] at hfile
  have hentry := List.mem_of_mem_drop (mem_of_mem_pairs hfile).2
  obtain ⟨hpiece, hne⟩ := List.mem_filter.mp hentry
  obtain ⟨hcontains, hseparator⟩ := infix_of_mem_splitSeparator fileSeparator_ne_nil hpiece
  exact ⟨hcontains, by simpa using hne, hseparator⟩

/-! ### Messages whose entries are found as they were written -/

/-- The part of a message that the names and contents make up. -/
def messageBody (entries : Files) : Text :=
  entries.flatMap fun entry ↦ fileSeparator ++ entry.1 ++ fileSeparator ++ entry.2

/-- The message of a dictionary: its identifier, then the body of what is written. -/
theorem filesMessage_eq (files : Files) :
    filesMessage files = FILES_IDENTIFIER ::
      messageBody (files.map fun file ↦ (file.1, writtenContent file.2)) := by
  have hfold : ∀ message : Text, files.foldl (fun message file ↦
      message ++ fileSeparator ++ file.1 ++ fileSeparator ++ writtenContent file.2) message =
        message ++ messageBody (files.map fun file ↦ (file.1, writtenContent file.2)) := by
    induction files with
    | nil => simp [messageBody]
    | cons file files ih =>
      intro message
      rw [List.foldl_cons, ih]
      simp [messageBody]
  exact hfold [FILES_IDENTIFIER]

/-- A text is a fresh piece when it neither holds the separator nor ends with its character. -/
theorem fresh_fileSeparator_iff {piece : Text} :
    Fresh fileSeparator piece ↔ ¬ fileSeparator <:+: piece ∧ piece.getLast? ≠ some bar :=
  fresh_replicate_iff (by decide)

/-- A text without the character of the separator is a fresh piece. -/
theorem fresh_of_notMem {piece : Text} (hpiece : bar ∉ piece) : Fresh fileSeparator piece := by
  refine fresh_fileSeparator_iff.mpr
    ⟨fun hcontains ↦ hpiece (hcontains.subset (by decide)), fun hlast ↦ ?_⟩
  exact hpiece (List.mem_of_getLast? hlast)

/-- Names without the character of the separator and contents that leave the separators alone. -/
structure CleanEntries (entries : Files) : Prop where
  name : ∀ entry ∈ entries, entry.1 ≠ [] ∧ bar ∉ entry.1
  content : ∀ entry ∈ entries, entry.2 ≠ [] ∧ ¬ fileSeparator <:+: entry.2
  ending : ∀ entry ∈ entries.dropLast, entry.2.getLast? ≠ some bar

/-- The pieces of a clean body behind a piece of their own. -/
theorem splitSeparator_messageBody {entries : Files} (hclean : CleanEntries entries) :
    ∀ {first : Text}, ¬ fileSeparator <:+: first →
      (entries ≠ [] → first.getLast? ≠ some bar) →
        splitSeparator fileSeparator (first ++ messageBody entries) =
          first :: entries.flatMap fun entry ↦ [entry.1, entry.2] := by
  induction entries with
  | nil =>
    intro first hfirst _
    simpa [messageBody] using splitSeparator_of_notContained hfirst
  | cons entry rest ih =>
    intro first hfirst hending
    have hname := hclean.name entry (by simp)
    have hcontent := hclean.content entry (by simp)
    have hrest : CleanEntries rest := by
      refine ⟨fun other hother ↦ hclean.name other (by simp [hother]),
        fun other hother ↦ hclean.content other (by simp [hother]), fun other hother ↦ ?_⟩
      refine hclean.ending other ?_
      rw [List.dropLast_cons_of_ne_nil (List.ne_nil_of_mem (List.dropLast_subset _ hother))]
      exact List.mem_cons_of_mem _ hother
    have hlast : rest ≠ [] → entry.2.getLast? ≠ some bar := fun hne ↦
      hclean.ending entry (by simp [List.dropLast_cons_of_ne_nil hne])
    have hbody : first ++ messageBody (entry :: rest) = first ++ fileSeparator ++
        (entry.1 ++ fileSeparator ++ (entry.2 ++ messageBody rest)) := by
      simp [messageBody]
    rw [hbody, splitSeparator_of_fresh fileSeparator_ne_nil
        (fresh_fileSeparator_iff.mpr ⟨hfirst, hending (by simp)⟩),
      splitSeparator_of_fresh fileSeparator_ne_nil (fresh_of_notMem hname.2),
      ih hrest hcontent.2 hlast]
    simp

/-- The entries two by two of names and contents one after the other. -/
theorem pairs_flatMap (entries : Files) :
    pairs (entries.flatMap fun entry ↦ [entry.1, entry.2]) = entries := by
  induction entries with
  | nil => rfl
  | cons entry rest ih =>
    rw [List.flatMap_cons, List.cons_append, List.cons_append, List.nil_append, pairs, ih]

/-- The pairs of a message whose entries are clean are the ones written. -/
theorem pairs_of_clean {entries : Files} (hclean : CleanEntries entries) :
    pairs ((fileEntries (FILES_IDENTIFIER :: messageBody entries)).drop 1) = entries := by
  have hsplit := @splitSeparator_messageBody entries hclean [FILES_IDENTIFIER] (by decide)
    (fun _ ↦ by decide)
  rw [List.singleton_append] at hsplit
  have hfull : ∀ piece ∈ [FILES_IDENTIFIER] :: entries.flatMap fun entry ↦ [entry.1, entry.2],
      piece ≠ [] := by
    intro piece hpiece
    rcases List.mem_cons.mp hpiece with rfl | hpiece
    · simp
    · obtain ⟨entry, hentry, hmem⟩ := List.mem_flatMap.mp hpiece
      rcases List.mem_pair.mp hmem with rfl | rfl
      · exact (hclean.name entry hentry).1
      · exact (hclean.content entry hentry).1
  rw [fileEntries, hsplit, List.filter_eq_self.mpr (by simpa using hfull), List.drop_one,
    List.tail_cons, pairs_flatMap]

/-! ### Contents that end with the character of the separator -/

/-- In a list that ends with two entries, a pair whose second entry occurs nowhere before the end
is the last one. -/
theorem fst_of_mem_pairs {name last : Text} {pair : Text × Text} (entries : List Text) :
    pair ∈ pairs (entries ++ [name, last]) → pair.2 ∉ entries ++ [name] → pair.1 = name := by
  induction entries using pairs.induct with
  | case1 first second rest ih =>
    intro hpair hlast
    simp only [List.cons_append, pairs, List.mem_cons] at hpair
    rcases hpair with rfl | hpair
    · exact absurd (by simp) hlast
    · exact ih hpair fun hmem ↦ hlast (List.mem_cons_of_mem _ (List.mem_cons_of_mem _ hmem))
  | case2 entries hshort =>
    intro hpair hlast
    rcases entries with _ | ⟨entry, _ | ⟨next, rest⟩⟩
    · simp only [List.nil_append, pairs, List.mem_singleton] at hpair
      rw [hpair]
    · simp only [List.cons_append, List.nil_append, pairs, List.mem_singleton] at hpair
      exact absurd (by simp [hpair]) hlast
    · exact absurd rfl (hshort entry next rest)

/-- Behind a separator, fewer than three characters of the next one come before a text without
them, and they are fresh together with it. -/
theorem fresh_append_of_notMem {marks name : Text} (hmarks : ¬ fileSeparator <:+: marks)
    (hall : ∀ char ∈ marks, char = bar) (hname : bar ∉ name) (hne : name ≠ []) :
    Fresh fileSeparator (marks ++ name) := by
  refine fresh_fileSeparator_iff.mpr ⟨fun hcontains ↦ hmarks ?_, fun hlast ↦ hname ?_⟩
  · have hreplicate : marks = List.replicate marks.length bar := List.eq_replicate_of_mem hall
    have hcount := hcontains.sublist.count_le bar
    rw [List.count_append, List.count_eq_zero_of_not_mem hname, hreplicate, fileSeparator,
      List.count_replicate_self, List.count_replicate_self] at hcount
    rw [hreplicate, fileSeparator]
    obtain ⟨extra, hextra⟩ := Nat.exists_eq_add_of_le hcount
    rw [Nat.add_zero] at hextra
    rw [hextra, List.replicate_add]
    exact (List.prefix_append _ _).isInfix
  · rw [List.getLast?_append_of_ne_nil _ hne] at hlast
    exact List.mem_of_getLast? hlast

/-- A content that ends with the character of the separator is read at the end of the message only:
its name is then the last one written, perhaps behind characters of the separator. -/
theorem name_of_content_ending {front name content : Text} (hname : bar ∉ name) (hne : name ≠ [])
    (hcontent : content ≠ [] ∧ ¬ fileSeparator <:+: content) {pair : Text × Text}
    (hpair : pair ∈ pairs ((fileEntries
      (front ++ fileSeparator ++ name ++ fileSeparator ++ content)).drop 1))
    (hending : pair.2.getLast? = some bar) :
    ∃ marks, (∀ char ∈ marks, char = bar) ∧ pair.1 = marks ++ name := by
  obtain ⟨pieces, marks, hpieces, hfresh, hmarks⟩ :=
    exists_pieces fileSeparator_ne_nil (front ++ fileSeparator)
  -- what follows the last separator of the front is part of a separator that was not seen as one
  have hall : ∀ char ∈ marks, char = bar := by
    have hmarked : marks <:+ front ++ fileSeparator := ⟨_, hpieces.symm⟩
    have hseparator : fileSeparator <:+ front ++ fileSeparator := List.suffix_append _ _
    rcases Nat.lt_or_ge marks.length fileSeparator.length with hshort | hlong
    · have htrails := List.suffix_of_suffix_length_le hmarked hseparator hshort.le
      exact fun char hchar ↦ List.eq_of_mem_replicate (htrails.subset hchar)
    · exact absurd (List.suffix_of_suffix_length_le hseparator hmarked hlong).isInfix hmarks
  have hbefore := fresh_append_of_notMem hmarks hall hname hne
  have hmessage : front ++ fileSeparator ++ name ++ fileSeparator ++ content =
      (pieces ++ [marks ++ name]).flatMap (· ++ fileSeparator) ++ content := by
    rw [hpieces]
    simp
  have hsplit : splitSeparator fileSeparator
      (front ++ fileSeparator ++ name ++ fileSeparator ++ content) =
        pieces ++ [marks ++ name] ++ [content] := by
    rw [hmessage]
    refine splitSeparator_join fileSeparator_ne_nil hcontent.2 fun piece hpiece ↦ ?_
    rcases List.mem_append.mp hpiece with hold | hnew
    · exact hfresh piece hold
    · rw [List.mem_singleton.mp hnew]
      exact hbefore
  have hkept : fileEntries (front ++ fileSeparator ++ name ++ fileSeparator ++ content) =
      pieces.filter (· ≠ []) ++ [marks ++ name, content] := by
    rw [fileEntries, hsplit, List.append_assoc, List.filter_append]
    simp [hne, hcontent.1]
  have hold : ∀ piece ∈ pieces.filter (· ≠ []) ++ [marks ++ name], piece.getLast? ≠ some bar := by
    intro piece hpiece
    rcases List.mem_append.mp hpiece with hpiece | hpiece
    · exact (fresh_fileSeparator_iff.mp (hfresh piece (List.mem_of_mem_filter hpiece))).2
    · rw [List.mem_singleton.mp hpiece]
      exact (fresh_fileSeparator_iff.mp hbefore).2
  refine ⟨marks, hall, ?_⟩
  rw [hkept] at hpair
  cases hfilter : pieces.filter (· ≠ []) with
  | nil =>
    rw [hfilter] at hpair
    simp [pairs] at hpair
  | cons first others =>
    rw [hfilter] at hpair hold
    refine fst_of_mem_pairs others hpair fun hmem ↦ ?_
    exact hold pair.2 (List.mem_cons_of_mem _ hmem) hending

/-- In a message of entries, that name is the one of the last entry. -/
theorem name_of_ending_entry {front : Files} {name content : Text} (hname : name ≠ [] ∧ bar ∉ name)
    (hcontent : content ≠ [] ∧ ¬ fileSeparator <:+: content) {pair : Text × Text}
    (hpair : pair ∈ pairs ((fileEntries
      (FILES_IDENTIFIER :: messageBody (front ++ [(name, content)]))).drop 1))
    (hending : pair.2.getLast? = some bar) :
    ∃ marks, (∀ char ∈ marks, char = bar) ∧ pair.1 = marks ++ name := by
  have hmessage : FILES_IDENTIFIER :: messageBody (front ++ [(name, content)]) =
      FILES_IDENTIFIER :: messageBody front ++ fileSeparator ++ name ++ fileSeparator ++
        content := by
    simp [messageBody]
  rw [hmessage] at hpair
  exact name_of_content_ending hname.2 hname.1 hcontent hpair hending

end NovaIde.Client
