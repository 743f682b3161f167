import NovaIde.Client.ProjectFiles

/-!
# Names of files

The names that Windows allows for the files of a folder, and the larger class of names that stay as
they are behind the path of a folder (`PlainName`): a full path loses periods and blanks at its end,
separators and colons have a meaning of their own, and the names of devices denote these wherever
they stand. A valid name stays plain when it is sent and read with another encoding
(`plainName_append_asReceived`).
-/

set_option autoImplicit false
set_option relaxedAutoImplicit false

namespace NovaIde.Client

open Foundation

/-- The names of devices. -/
def deviceNames : List Text :=
  [str "CON", str "PRN", str "AUX", str "NUL"] ++
    -- the ports are numbered by digits and by the superscript digits one to three
    (str "123456789" ++ [0xB9, 0xB2, 0xB3]).flatMap fun port ↦
      [str "COM" ++ [port], str "LPT" ++ [port]]

/-- What decides whether a name is that of a device: the part before the first period, without
blanks at its end and in upper case. -/
def deviceStem (name : Text) : Text :=
  ((name.takeWhile (· ≠ unit '.')).rdropWhile (· = unit ' ')).map upCaseAscii

/-- A name that the path of a folder in front of it leaves as it is. -/
structure PlainName (name : Text) : Prop where
  ne_nil : name ≠ []
  noSeparator : HasNoSeparator name
  noColon : colon ∉ name
  ending : name.getLast? ≠ some (unit '.') ∧ name.getLast? ≠ some (unit ' ')
  noDevice : deviceStem name ∉ deviceNames

/-- A valid name of a file. -/
structure ValidName (name : Text) : Prop where
  ne_nil : name ≠ []
  allowed : ∀ char ∈ name, unit ' ' ≤ char ∧ char ∉ str "<>:\"/\\|?*"
  ending : name.getLast? ≠ some (unit '.') ∧ name.getLast? ≠ some (unit ' ')
  noDevice : deviceStem name ∉ deviceNames

instance (name : Text) : Decidable (ValidName name) :=
  haveI : Decidable (∀ char ∈ name, unit ' ' ≤ char ∧ char ∉ str "<>:\"/\\|?*") :=
    List.decidableBAll _ name
  decidable_of_iff
    (name ≠ [] ∧ (∀ char ∈ name, unit ' ' ≤ char ∧ char ∉ str "<>:\"/\\|?*") ∧
      (name.getLast? ≠ some (unit '.') ∧ name.getLast? ≠ some (unit ' ')) ∧
      deviceStem name ∉ deviceNames)
    ⟨fun ⟨hne, hallowed, hending, hdevice⟩ ↦ ⟨hne, hallowed, hending, hdevice⟩,
      fun ⟨hne, hallowed, hending, hdevice⟩ ↦ ⟨hne, hallowed, hending, hdevice⟩⟩

section Names

variable {name : Text}

/-- A valid name has none of the characters that are not allowed. -/
theorem ValidName.notMem (hname : ValidName name) {char : UInt16}
    (hchar : char ∈ str "<>:\"/\\|?*") : char ∉ name :=
  fun hmem ↦ (hname.allowed char hmem).2 hchar

theorem ValidName.plain (hname : ValidName name) : PlainName name where
  ne_nil := hname.ne_nil
  noSeparator := by
    intro char hchar
    have hback : char ≠ backslash := fun heq ↦ hname.notMem (heq ▸ by decide) hchar
    have hslash : char ≠ slash := fun heq ↦ hname.notMem (heq ▸ by decide) hchar
    simp [isDirectorySeparator, hback, hslash]
  noColon := hname.notMem (by decide)
  ending := hname.ending
  noDevice := hname.noDevice

/-- A plain name denotes a file in the folder itself. -/
theorem PlainName.childName (hname : PlainName name) : ChildName name where
  noSeparator := hname.noSeparator
  noColon := hname.noColon
  visible := by
    have hlast := List.getLast?_eq_some_getLast hname.ne_nil
    refine ⟨name.getLast hname.ne_nil, List.getLast_mem hname.ne_nil, fun heq ↦ ?_, fun heq ↦ ?_⟩
    · exact hname.ending.1 (heq ▸ hlast)
    · exact hname.ending.2 (heq ▸ hlast)

/-- A plain name is the file name of its path. -/
theorem PlainName.getFileName_eq (hname : PlainName name) : getFileName name = name :=
  getFileName_eq_self hname.noSeparator hname.noColon

/-! ### Names that arrive -/

/-- The characters before the first period of a device's name, apart from blanks, are those of a
device. -/
theorem mem_device_of_deviceStem (hdevice : deviceStem name ∈ deviceNames) {char : UInt16}
    (hchar : char ∈ name.takeWhile (· ≠ unit '.')) (hblank : char ≠ unit ' ') :
    ∃ device ∈ deviceNames, upCaseAscii char ∈ device := by
  refine ⟨deviceStem name, hdevice, List.mem_map_of_mem ?_⟩
  rw [← @List.rdropWhile_append_rtakeWhile _ (· = unit ' ') (name.takeWhile (· ≠ unit '.'))]
    at hchar
  refine (List.mem_append.mp hchar).resolve_right fun hend ↦ hblank ?_
  simpa using List.mem_rtakeWhile_imp hend

/-- The stem of a name with the character of the separator, or with a question mark, in front of
its first period is not that of a device. -/
theorem notMem_deviceNames {char : UInt16} (hmark : char = bar ∨ char = unit '?')
    (hchar : char ∈ name.takeWhile (· ≠ unit '.')) : deviceStem name ∉ deviceNames := by
  intro hdevice
  have hnone : ∀ device ∈ deviceNames, upCaseAscii char ∉ device := by
    rcases hmark with rfl | rfl <;> decide
  have hblank : char ≠ unit ' ' := by
    rcases hmark with rfl | rfl <;> decide
  obtain ⟨device, hmem, hstem⟩ := mem_device_of_deviceStem hdevice hchar hblank
  exact hnone device hmem hstem

/-- The part of a name before its first period arrives as the part before the first period. -/
theorem takeWhile_asReceived (name : Text) :
    (asReceived name).takeWhile (· ≠ unit '.') = asReceived (name.takeWhile (· ≠ unit '.')) := by
  have hstem : ∀ char ∈ asReceived (name.takeWhile (· ≠ unit '.')), char ≠ unit '.' := by
    intro char hchar
    rcases (garbled_asReceived _).mem hchar with hmem | rfl
    · simpa using List.mem_takeWhile_imp hmem
    · decide
  have hall : ∀ char ∈ asReceived (name.takeWhile (· ≠ unit '.')),
      decide (char ≠ unit '.') = true := fun char hchar ↦ by simpa using hstem char hchar
  have hsplit : name.takeWhile (· ≠ unit '.') ++ name.dropWhile (· ≠ unit '.') = name :=
    List.takeWhile_append_dropWhile
  cases hrest : name.dropWhile (· ≠ unit '.') with
  | nil =>
    rw [hrest, List.append_nil] at hsplit
    rw [hsplit] at hall ⊢
    exact List.takeWhile_eq_self_iff.mpr hall
  | cons char rest =>
    have hperiod : char = unit '.' := by
      have hhead := List.head?_dropWhile_not (fun char ↦ decide (char ≠ unit '.')) name
      rw [hrest] at hhead
      simpa using hhead
    rw [hrest, hperiod] at hsplit
    calc (asReceived name).takeWhile (· ≠ unit '.')
        = (asReceived (name.takeWhile (· ≠ unit '.')) ++ unit '.' :: asReceived rest).takeWhile
            (· ≠ unit '.') := by
          rw [← asReceived_append_cons (by decide), hsplit]
      _ = asReceived (name.takeWhile (· ≠ unit '.')) := by
          rw [List.takeWhile_append_of_pos hall, List.takeWhile_cons_of_neg (by simp),
            List.append_nil]

/-- A name of no device does not arrive as that of one. -/
theorem deviceStem_asReceived (hname : deviceStem name ∉ deviceNames) :
    deviceStem (asReceived name) ∉ deviceNames := by
  by_cases hmark : unit '?' ∈ (asReceived name).takeWhile (· ≠ unit '.')
  · exact notMem_deviceNames (.inr rfl) hmark
  · rw [takeWhile_asReceived] at hmark
    have hsame := ((garbled_asReceived _).eq_of_notMem hmark).2
    rw [deviceStem, takeWhile_asReceived, hsame]
    exact hname

/-- The last character that arrives is the last one sent, or a question mark. -/
theorem Garbled.getLast? {text received : Text} (hgarbled : Garbled text received) {char : UInt16}
    (hlast : received.getLast? = some char) (hchar : char ≠ unit '?') :
    text.getLast? = some char := by
  induction hgarbled with
  | nil => simp at hlast
  | @kept first text received hascii hrest ih =>
    by_cases hempty : received = []
    · subst hempty
      have htext : text = [] := by
        by_contra hne
        exact hrest.ne_nil hne rfl
      rw [htext]
      exact hlast
    · rw [List.getLast?_cons_of_ne_nil hempty] at hlast
      have htext := ih hlast
      rw [List.getLast?_cons_of_ne_nil (by rintro rfl; simp at htext)]
      exact htext
  | @replaced chars marks text received hchars hsome hmarks hmarked hrest ih =>
    by_cases hempty : received = []
    · subst hempty
      rw [List.append_nil] at hlast
      exact absurd (hmarks char (List.mem_of_getLast? hlast)) hchar
    · rw [List.getLast?_append_of_ne_nil _ hempty] at hlast
      have htext := ih hlast
      rw [List.getLast?_append_of_ne_nil _ (by rintro rfl; simp at htext)]
      exact htext

/-- A valid name arrives as a plain one, also when characters of the separator are left in front
of it. -/
theorem plainName_append_asReceived (hname : ValidName name) {marks : Text}
    (hmarks : ∀ char ∈ marks, char = bar) : PlainName (marks ++ asReceived name) := by
  have harrives := garbled_asReceived name
  have hne := harrives.ne_nil hname.ne_nil
  have hchars : ∀ char ∈ marks ++ asReceived name, char = bar ∨ char = unit '?' ∨ char ∈ name := by
    intro char hchar
    rcases List.mem_append.mp hchar with hchar | hchar
    · exact .inl (hmarks char hchar)
    · exact .inr (harrives.mem hchar).symm
  have hlast : (marks ++ asReceived name).getLast? = (asReceived name).getLast? :=
    List.getLast?_append_of_ne_nil _ hne
  refine ⟨by simp [hne], fun char hchar ↦ ?_, fun hchar ↦ ?_, ⟨fun hend ↦ ?_, fun hend ↦ ?_⟩, ?_⟩
  · rcases hchars char hchar with rfl | rfl | hmem
    · decide
    · decide
    · exact hname.plain.noSeparator char hmem
  · rcases hchars colon hchar with hbar | hquestion | hmem
    · exact absurd hbar (by decide)
    · exact absurd hquestion (by decide)
    · exact hname.plain.noColon hmem
  · exact hname.ending.1 (harrives.getLast? (hlast.symm.trans hend) (by decide))
  · exact hname.ending.2 (harrives.getLast? (hlast.symm.trans hend) (by decide))
  · cases marks with
    | nil => exact deviceStem_asReceived hname.noDevice
    | cons mark marks =>
      have hmark : mark = bar := hmarks mark (by simp)
      refine notMem_deviceNames (.inl rfl) ?_
      rw [hmark, List.cons_append, List.takeWhile_cons_of_pos (by decide)]
      exact List.mem_cons_self ..

/-- A valid name arrives as a plain one. -/
theorem plainName_asReceived (hname : ValidName name) : PlainName (asReceived name) :=
  @plainName_append_asReceived name hname [] (by simp)

end Names

end NovaIde.Client
