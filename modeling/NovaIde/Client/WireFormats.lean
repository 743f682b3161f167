import NovaIde.Client.FileTransfer

/-!
# What the two message formats keep

An update goes out as UTF-8 and is read as ASCII. Its action and its two numbers are ASCII and come
before the text, so they arrive and are read back whatever the text is. What arrives is always
ASCII, so the text is read back only when it was ASCII before (`read_of_updateMessage`).

The file-transfer message, delivered as it was built, gives back the dictionary it was built from
exactly when its contents leave the separators alone (`received_perm_iff`). Contents that do are
found where they were written. A content that was received is not empty and does not hold the
separator, and one that ends with a bar is read with the name of the last file, which no other file
has (`not_ending_of_received`).
-/

set_option autoImplicit false
set_option relaxedAutoImplicit false

namespace NovaIde.Client

open Foundation

/-! ### Updates -/

/-- The actions of an update. -/
def IsAction (action : Text) : Prop :=
  action = ADDITION_IDENTIFIER ∨ action = DELETION_IDENTIFIER ∨ action = MULTIPLE_ACTION_IDENTIFIER

instance (action : Text) : Decidable (IsAction action) :=
  inferInstanceAs (Decidable (_ ∨ _ ∨ _))

section Updates

variable {action : Text}

/-- An action is one ASCII character, which is not the separator. -/
theorem IsAction.isAscii (haction : IsAction action) : IsAscii action ∧ colon ∉ action := by
  rcases haction with rfl | rfl | rfl <;> decide

/-- Only the text of an update is changed on its way. -/
theorem asReceived_updateMessage (haction : IsAscii action) (length offset : ℕ) (text : Text) :
    asReceived (updateMessage action length offset text) =
      updateMessage action length offset (asReceived text) := by
  have hmessage : ∀ rest, updateMessage action length offset rest =
      updateMessage action length offset [] ++ rest := by
    simp [updateMessage]
  rw [hmessage, asReceived_append_of_ascii (isAscii_updateMessage haction (by simp [IsAscii])),
    ← hmessage]

/-- What arrives is taken for an update. -/
theorem listenerAction_updateMessage (haction : IsAction action) (length offset : ℕ) (text : Text) :
    listenerAction (utf8GetBytes (updateMessage action length offset text)) =
      .update (updateMessage action length offset (asReceived text)) := by
  have harrives := asReceived_updateMessage haction.isAscii.1 length offset text
  rw [asReceived] at harrives
  rw [listenerAction, harrives]
  rcases haction with rfl | rfl | rfl <;> rfl

/-- A text arrives as it was sent exactly when it is ASCII. -/
theorem asReceived_eq_iff {text : Text} : asReceived text = text ↔ IsAscii text :=
  ⟨fun heq ↦ heq ▸ isAscii_asReceived text, asReceived_of_ascii⟩

/-- Assumes: one of the three actions, and numbers that `int.Parse` can read. The update is received
as one, its action, length and offset are read back, and its text is read back exactly when it is
ASCII. -/
theorem read_of_updateMessage (haction : IsAction action) {length offset : ℕ}
    (hlength : length ≤ int32Max) (hoffset : offset ≤ int32Max) (text : Text) :
    ∃ receivedMessage,
      listenerAction (utf8GetBytes (updateMessage action length offset text)) =
        .update receivedMessage ∧
      (parseFields receivedMessage).action = action ∧
      parseInt (parseFields receivedMessage).strLength = .ok length ∧
      parseInt (parseFields receivedMessage).strOffset = .ok offset ∧
      ((parseFields receivedMessage).text = text ↔ IsAscii text) := by
  refine ⟨_, listenerAction_updateMessage haction length offset text, ?_⟩
  rw [parseFields_updateMessage haction.isAscii.2]
  exact ⟨rfl, parseInt_decimal hlength, parseInt_decimal hoffset, asReceived_eq_iff⟩

/-- A replacement whose text is made of separators and labels. -/
theorem read_of_updateMessage_labels :
    ∃ receivedMessage,
      listenerAction (utf8GetBytes (updateMessage MULTIPLE_ACTION_IDENTIFIER 3 2147483647
        (str "::text:\n:length:7"))) = .update receivedMessage ∧
      (parseFields receivedMessage).action = MULTIPLE_ACTION_IDENTIFIER ∧
      parseInt (parseFields receivedMessage).strLength = .ok 3 ∧
      parseInt (parseFields receivedMessage).strOffset = .ok 2147483647 ∧
      ((parseFields receivedMessage).text = str "::text:\n:length:7" ↔
        IsAscii (str "::text:\n:length:7")) :=
  read_of_updateMessage (by decide) (by decide) (by decide) _

end Updates

/-! ### Files -/

/-- A dictionary in which every name is read back: the names differ, are not empty and hold no
bar. -/
structure PlainFiles (files : Files) : Prop where
  distinct : (files.map Prod.fst).Nodup
  name : ∀ file ∈ files, file.1 ≠ [] ∧ bar ∉ file.1

/-- Contents that leave the separators alone. -/
structure PlainContents (files : Files) : Prop where
  full : ∀ file ∈ files, file.2 ≠ []
  separator : ∀ file ∈ files, ¬ fileSeparator <:+: file.2
  ending : ∀ file ∈ files.dropLast, file.2.getLast? ≠ some bar

section Files

variable {files received : Files}

/-- Contents that are not empty are written as they are. -/
theorem map_writtenContent (hfull : ∀ file ∈ files, file.2 ≠ []) :
    (files.map fun file ↦ (file.1, writtenContent file.2)) = files := by
  refine (List.map_congr_left fun file hfile ↦ ?_).trans (List.map_id files)
  rw [writtenContent, if_neg (hfull file hfile)]
  rfl

/-- Assumes: plain names and contents. The message gives back the dictionary, in its order. -/
theorem receiveAndParseMessage_of_plain (hfiles : PlainFiles files)
    (hcontents : PlainContents files) :
    receiveAndParseMessage (filesMessage files) = some files := by
  have hclean : CleanEntries files :=
    { name := hfiles.name
      content := fun file hfile ↦ ⟨hcontents.full file hfile, hcontents.separator file hfile⟩
      ending := hcontents.ending }
  rw [receiveAndParseMessage_eq_some, filesMessage_eq, map_writtenContent hcontents.full,
    pairs_of_clean hclean]
  exact ⟨hfiles.distinct, rfl⟩

/-- Assumes: every file is among those received. No content but the last ends with a bar, because
it would have been read with the last name. -/
theorem not_ending_of_received (hfiles : PlainFiles files) (hfull : ∀ file ∈ files, file.2 ≠ [])
    (hseparator : ∀ file ∈ files, ¬ fileSeparator <:+: file.2)
    (hreceived : receiveAndParseMessage (filesMessage files) = some received)
    (hkept : ∀ file ∈ files, file ∈ received) :
    ∀ file ∈ files.dropLast, file.2.getLast? ≠ some bar := by
  intro file hfile hending
  have hmem : file ∈ files := List.dropLast_subset _ hfile
  rcases List.eq_nil_or_concat files with rfl | ⟨front, last, rfl⟩
  · cases hmem
  rw [List.concat_eq_append] at *
  rw [List.dropLast_concat] at hfile
  have hlast : last ∈ front ++ [last] := by simp
  have hread := hkept file hmem
  rw [(receiveAndParseMessage_eq_some.mp hreceived).2, filesMessage_eq,
    map_writtenContent hfull] at hread
  obtain ⟨marks, hmarks, hname⟩ := name_of_ending_entry (hfiles.name last hlast)
    ⟨hfull last hlast, hseparator last hlast⟩ hread hending
  -- a name without bars has none of them in front
  have hnone : marks = [] := by
    refine List.eq_nil_iff_forall_not_mem.mpr fun char hchar ↦ (hfiles.name file hmem).2 ?_
    rw [hname, ← hmarks char hchar]
    exact List.mem_append_left _ hchar
  rw [hnone, List.nil_append] at hname
  have hdistinct := hfiles.distinct
  rw [List.map_append, List.nodup_append] at hdistinct
  exact hdistinct.2.2 file.1 (List.mem_map_of_mem hfile) last.1 (by simp) hname

/-- Assumes: plain names. The message is read without an exception as the dictionary it was built
from, whatever the order, exactly when the contents leave the separators alone. -/
theorem received_perm_iff (hfiles : PlainFiles files) :
    (∃ received, receiveAndParseMessage (filesMessage files) = some received ∧
      received.Perm files) ↔ PlainContents files := by
  constructor
  · rintro ⟨received, hreceived, hperm⟩
    have hkept : ∀ file ∈ files, file ∈ received := fun file hfile ↦ hperm.mem_iff.mpr hfile
    have hcontent := fun file hfile ↦
      content_of_receiveAndParseMessage hreceived (hkept file hfile)
    exact
      { full := fun file hfile ↦ (hcontent file hfile).2.1
        separator := fun file hfile ↦ (hcontent file hfile).2.2
        ending := not_ending_of_received hfiles (fun file hfile ↦ (hcontent file hfile).2.1)
          (fun file hfile ↦ (hcontent file hfile).2.2) hreceived hkept }
  · intro hcontents
    exact ⟨files, receiveAndParseMessage_of_plain hfiles hcontents, .refl files⟩

/-- Two files whose contents hold bars but no separator. -/
theorem received_perm_iff_bars :
    (∃ received, receiveAndParseMessage (filesMessage
        [(str "a.h", str "||x"), (str "main.cpp", str "y||")]) = some received ∧
      received.Perm [(str "a.h", str "||x"), (str "main.cpp", str "y||")]) ↔
        PlainContents [(str "a.h", str "||x"), (str "main.cpp", str "y||")] :=
  received_perm_iff ⟨by decide, by decide⟩

end Files

end NovaIde.Client
