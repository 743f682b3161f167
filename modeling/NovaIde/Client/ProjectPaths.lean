import Mathlib.Data.List.DropRight
import NovaIde.Client.UpdateMessage

/-!
# Paths

The two functions of `System.IO.Path` that the client computes paths with, on Windows, where both
slashes separate directories. `Path.Combine` puts a name behind a folder, and gives back its second
argument alone when that has a root of its own, a drive or a leading separator.
`Path.GetFileName` takes what follows the last separator, or the root when that ends later.

Below a folder whose root ends within it, `GetFileName` undoes `Combine` for every name without a
separator (`getFileName_folderPrefix`).
-/

set_option autoImplicit false
set_option relaxedAutoImplicit false

namespace NovaIde.Client

def backslash : UInt16 := unit '\\'
def slash : UInt16 := unit '/'

/-- `PathInternal.IsDirectorySeparator`. -/
def isDirectorySeparator (char : UInt16) : Bool := char = backslash || char = slash

/-- `PathInternal.IsValidDriveChar`. -/
def isValidDriveChar (char : UInt16) : Bool :=
  (unit 'A' ≤ char && char ≤ unit 'Z') || (unit 'a' ≤ char && char ≤ unit 'z')

/-- `Path.IsPathRooted`: the path starts with a separator or a drive. -/
def isPathRooted : Text → Bool
  | [] => false
  | [first] => isDirectorySeparator first
  | first :: second :: _ =>
    isDirectorySeparator first || (isValidDriveChar first && second = colon)

/-- `Path.Combine`. -/
def pathCombine (path1 path2 : Text) : Text :=
  if path1 = [] then path2
  else if path2 = [] then path1
  else if isPathRooted path2 then path2
  else if path1.getLast?.any isDirectorySeparator || path2.head?.any isDirectorySeparator then
    path1 ++ path2
  else path1 ++ backslash :: path2

/-- `PathInternal.IsDevice`: a prefix such as `\\?\` or `\\.\`. -/
def isDevice : Text → Bool
  | first :: second :: third :: fourth :: _ =>
    (first = backslash && (second = backslash || second = unit '?') && third = unit '?' &&
        fourth = backslash) ||
      (isDirectorySeparator first && isDirectorySeparator second &&
        (third = unit '.' || third = unit '?') && isDirectorySeparator fourth)
  | _ => false

/-- `PathInternal.IsDeviceUNC`, of a path with a device prefix. -/
def isDeviceUNC (path : Text) : Bool :=
  match path.drop 4 with
  | first :: second :: third :: fourth :: _ =>
    first = unit 'U' && second = unit 'N' && third = unit 'C' && isDirectorySeparator fourth
  | _ => false

/-- The length of a server and a share, up to the given separator behind them. -/
def shareLength : ℕ → Text → ℕ
  | _, [] => 0
  | separators, char :: rest =>
    if isDirectorySeparator char then
      if separators ≤ 1 then 0 else 1 + shareLength (separators - 1) rest
    else 1 + shareLength separators rest

/-- `PathInternal.GetRootLength`. -/
def rootLength (path : Text) : ℕ :=
  if isDevice path then
    if isDeviceUNC path then 8 + shareLength 2 (path.drop 8)
    else
      let scanned := ((path.drop 4).takeWhile (!isDirectorySeparator ·)).length
      if 0 < scanned ∧ 4 + scanned < path.length then 4 + scanned + 1 else 4 + scanned
  else
    match path with
    | [] => 0
    | [first] => if isDirectorySeparator first then 1 else 0
    | first :: second :: rest =>
      if isDirectorySeparator first then
        if isDirectorySeparator second then 2 + shareLength 2 rest else 1
      else if second = colon && isValidDriveChar first then
        if rest.head?.any isDirectorySeparator then 3 else 2
      else 0

/-- What follows the last separator of a path. -/
def lastSegment (path : Text) : Text := path.rtakeWhile (!isDirectorySeparator ·)

/-- `Path.GetFileName`. -/
def getFileName (path : Text) : Text :=
  path.drop (max (rootLength path) (path.length - (lastSegment path).length))

/-! ### Names below a folder -/

/-- A text without directory separators. -/
def HasNoSeparator (name : Text) : Prop := ∀ char ∈ name, isDirectorySeparator char = false

instance (name : Text) : Decidable (HasNoSeparator name) := List.decidableBAll _ name

/-- A folder path: it has a root, and the root of every path that continues it ends within it. -/
structure IsFolderPath (dir : Text) : Prop where
  rooted : isPathRooted dir = true
  root_le : ∀ rest, rootLength (dir ++ rest) ≤ dir.length

/-- What comes before the names in the paths of the files of a folder. -/
def folderPrefix (dir : Text) : Text :=
  if dir.getLast?.any isDirectorySeparator then dir else dir ++ [backslash]

section Paths

variable {dir name path : Text}

theorem isDirectorySeparator_backslash : isDirectorySeparator backslash = true := by decide

/-- The last segment of a path is its end. -/
theorem lastSegment_endOf (path : Text) : lastSegment path <:+ path :=
  List.rtakeWhile_suffix ..

theorem hasNoSeparator_lastSegment (path : Text) : HasNoSeparator (lastSegment path) := by
  intro char hchar
  simpa using List.mem_rtakeWhile_imp hchar

/-- A file name is the end of the last segment. -/
theorem getFileName_endOf (path : Text) : getFileName path <:+ lastSegment path := by
  have hlength := (lastSegment_endOf path).length_le
  refine List.suffix_of_suffix_length_le (List.drop_suffix _ _) (lastSegment_endOf path) ?_
  rw [getFileName, List.length_drop]
  omega

/-- A file name holds no separator. -/
theorem hasNoSeparator_getFileName (path : Text) : HasNoSeparator (getFileName path) :=
  fun char hchar ↦ hasNoSeparator_lastSegment path char ((getFileName_endOf path).subset hchar)

/-- Behind a separator, the last segment is a text without separators. -/
theorem lastSegment_append (hend : path.getLast?.any isDirectorySeparator = true)
    (hname : HasNoSeparator name) : lastSegment (path ++ name) = name := by
  cases hlast : path.getLast? with
  | none => simp [hlast] at hend
  | some last =>
    have hseparator : isDirectorySeparator last = true := by simpa [hlast] using hend
    obtain ⟨front, rfl⟩ : ∃ front, path = front ++ [last] :=
      ⟨path.dropLast, (List.dropLast_append_getLast? last hlast).symm⟩
    have hkept : ∀ char ∈ name.reverse, (!isDirectorySeparator char) = true := by
      intro char hchar
      rw [hname char (List.mem_reverse.mp hchar), Bool.not_false]
    simp only [lastSegment, List.rtakeWhile, List.reverse_append, List.reverse_cons,
      List.reverse_nil, List.nil_append, List.cons_append]
    rw [List.takeWhile_append_of_pos hkept, List.takeWhile_cons_of_neg (by simp [hseparator]),
      List.append_nil, List.reverse_reverse]

/-- The paths of the files of a folder have their names behind a separator. -/
theorem getLast_folderPrefix (dir : Text) :
    (folderPrefix dir).getLast?.any isDirectorySeparator = true := by
  unfold folderPrefix
  split_ifs with hend
  · exact hend
  · simp [isDirectorySeparator_backslash]

theorem length_le_folderPrefix (dir : Text) : dir.length ≤ (folderPrefix dir).length := by
  unfold folderPrefix
  split_ifs
  · exact le_rfl
  · simp

/-- The file name of a path below a folder is the name. -/
theorem getFileName_folderPrefix (hdir : IsFolderPath dir) (hname : HasNoSeparator name) :
    getFileName (folderPrefix dir ++ name) = name := by
  have hroot : rootLength (folderPrefix dir ++ name) ≤ (folderPrefix dir).length := by
    refine le_trans ?_ (length_le_folderPrefix dir)
    unfold folderPrefix
    split_ifs
    · exact hdir.root_le name
    · rw [List.append_assoc]
      exact hdir.root_le _
  rw [getFileName, lastSegment_append (getLast_folderPrefix dir) hname, List.length_append,
    Nat.add_sub_cancel, max_eq_right hroot, List.drop_left]

/-- A text without separators and without a colon has no root. -/
theorem isPathRooted_eq_false (hname : HasNoSeparator name) (hcolon : colon ∉ name) :
    isPathRooted name = false := by
  match name with
  | [] => rfl
  | [first] => exact hname first (by simp)
  | first :: second :: rest =>
    have hsecond : second ≠ colon := fun h ↦ hcolon (by simp [h])
    simp [isPathRooted, hname first (by simp), hsecond]

/-- A path that starts with a separator has a root. -/
theorem head_of_not_rooted (hrooted : isPathRooted path = false) :
    path.head?.any isDirectorySeparator = false := by
  match path with
  | [] => rfl
  | [first] => simpa [isPathRooted] using hrooted
  | first :: second :: rest =>
    simp only [isPathRooted, Bool.or_eq_false_iff] at hrooted
    simpa using hrooted.1

/-- The empty path is not rooted. -/
theorem ne_nil_of_isPathRooted (hrooted : isPathRooted path = true) : path ≠ [] := by
  rintro rfl
  cases hrooted

/-- What continues a rooted path is rooted. -/
theorem isPathRooted_append (hrooted : isPathRooted dir = true) (rest : Text) :
    isPathRooted (dir ++ rest) = true := by
  match dir with
  | [] => exact absurd rfl (ne_nil_of_isPathRooted hrooted)
  | [first] =>
    have hfirst : isDirectorySeparator first = true := hrooted
    cases rest with
    | nil => exact hfirst
    | cons second rest => simp [isPathRooted, hfirst]
  | first :: second :: others => simpa [isPathRooted] using hrooted

/-- What is put below a rooted folder is rooted. -/
theorem isPathRooted_pathCombine (hrooted : isPathRooted dir = true) (name : Text) :
    isPathRooted (pathCombine dir name) = true := by
  unfold pathCombine
  split_ifs with hdir _ hname _
  · exact absurd hdir (ne_nil_of_isPathRooted hrooted)
  · exact hrooted
  · exact hname
  · exact isPathRooted_append hrooted name
  · exact isPathRooted_append hrooted _

theorem IsFolderPath.ne_nil (hdir : IsFolderPath dir) : dir ≠ [] :=
  ne_nil_of_isPathRooted hdir.rooted

/-- A path in a folder is not empty. -/
theorem pathCombine_ne_nil (hdir : dir ≠ []) (name : Text) : pathCombine dir name ≠ [] := by
  rw [pathCombine, if_neg hdir]
  split_ifs <;> simp_all

/-- The path of a name without a root lies behind the separator of the folder. -/
theorem pathCombine_of_not_rooted (hdir : dir ≠ []) (hname : name ≠ [])
    (hrooted : isPathRooted name = false) : pathCombine dir name = folderPrefix dir ++ name := by
  rw [pathCombine, if_neg hdir, if_neg hname, hrooted, head_of_not_rooted hrooted, Bool.or_false,
    folderPrefix]
  split_ifs <;> simp_all

/-- A rooted path is not put below the folder. -/
theorem pathCombine_of_rooted (hdir : dir ≠ []) (hrooted : isPathRooted path = true) :
    pathCombine dir path = path := by
  rw [pathCombine, if_neg hdir, if_neg (ne_nil_of_isPathRooted hrooted), if_pos hrooted]

/-- What lies below a folder is rooted. -/
theorem isPathRooted_folderPrefix (hdir : IsFolderPath dir) (rest : Text) :
    isPathRooted (folderPrefix dir ++ rest) = true := by
  unfold folderPrefix
  split_ifs
  · exact isPathRooted_append hdir.rooted rest
  · exact isPathRooted_append (isPathRooted_append hdir.rooted [backslash]) rest

/-- A path that does not start with a separator has no device prefix. -/
theorem isDevice_eq_false {first : UInt16} (hfirst : isDirectorySeparator first = false)
    (rest : Text) : isDevice (first :: rest) = false := by
  have hbackslash : first ≠ backslash := by
    rintro rfl
    simp [isDirectorySeparator_backslash] at hfirst
  match rest with
  | [] | [_] | [_, _] => rfl
  | second :: third :: fourth :: rest => simp [isDevice, hfirst, hbackslash]

/-- A text without separators and without a colon is its own file name. -/
theorem getFileName_eq_self (hname : HasNoSeparator name) (hcolon : colon ∉ name) :
    getFileName name = name := by
  have hsegment : lastSegment name = name := by
    rw [lastSegment, List.rtakeWhile, List.takeWhile_eq_self_iff.mpr, List.reverse_reverse]
    intro char hchar
    rw [hname char (List.mem_reverse.mp hchar), Bool.not_false]
  have hroot : rootLength name = 0 := by
    match name with
    | [] => rfl
    | [first] =>
      have hfirst := hname first (by simp)
      simp [rootLength, isDevice_eq_false hfirst, hfirst]
    | first :: second :: rest =>
      have hfirst := hname first (by simp)
      have hsecond : second ≠ colon := fun h ↦ hcolon (by simp [h])
      simp [rootLength, isDevice_eq_false hfirst, hfirst, hsecond]
  rw [getFileName, hsegment, hroot, Nat.sub_self, Nat.max_self, List.drop_zero]

/-- A path on a drive is a folder path. -/
theorem isFolderPath_drive {drive : UInt16} (hdrive : isValidDriveChar drive = true)
    (rest : Text) : IsFolderPath (drive :: colon :: backslash :: rest) := by
  have hfirst : isDirectorySeparator drive = false := by
    rw [isDirectorySeparator, Bool.or_eq_false_iff, decide_eq_false_iff_not,
      decide_eq_false_iff_not]
    constructor
    · rintro rfl
      revert hdrive
      decide
    · rintro rfl
      revert hdrive
      decide
  refine ⟨by simp [isPathRooted, hdrive], fun other ↦ ?_⟩
  have hroot : rootLength (drive :: colon :: backslash :: (rest ++ other)) = 3 := by
    simp [rootLength, isDevice_eq_false hfirst, hfirst, hdrive, isDirectorySeparator_backslash]
  rw [List.cons_append, List.cons_append, List.cons_append, hroot]
  simp

/-- A text without separators is part of the server or the share. -/
theorem shareLength_append (hname : HasNoSeparator name) (separators : ℕ) (rest : Text) :
    shareLength separators (name ++ rest) = name.length + shareLength separators rest := by
  induction name with
  | nil => simp
  | cons char name ih =>
    have hchar := hname char (by simp)
    rw [List.cons_append, shareLength, if_neg (by simp [hchar]),
      ih fun other hother ↦ hname other (by simp [hother]), List.length_cons]
    omega

/-- A path on a share of a server is a folder path. -/
theorem isFolderPath_share {server share : Text} (hserver : HasNoSeparator server)
    (hshare : HasNoSeparator share) (hne : server ≠ []) (hdot : server ≠ [unit '.'])
    (hmark : server ≠ [unit '?']) (rest : Text) :
    IsFolderPath
      (backslash :: backslash :: (server ++ backslash :: (share ++ backslash :: rest))) := by
  have hseparator := isDirectorySeparator_backslash
  refine ⟨by simp [isPathRooted, hseparator], fun other ↦ ?_⟩
  have hdevice : isDevice (backslash :: backslash ::
      (server ++ backslash :: (share ++ backslash :: (rest ++ other)))) = false := by
    match server with
    | [first] =>
      have hfirst : first ≠ unit '.' ∧ first ≠ unit '?' :=
        ⟨fun h ↦ hdot (by rw [h]), fun h ↦ hmark (by rw [h])⟩
      simp [isDevice, hfirst]
    | first :: second :: server =>
      have hsecond := hserver second (by simp)
      have hbackslash : second ≠ backslash := by
        rintro rfl
        simp [hseparator] at hsecond
      simp [isDevice, hsecond, hbackslash]
  have hroot : rootLength (backslash :: backslash ::
      (server ++ backslash :: (share ++ backslash :: (rest ++ other)))) =
        2 + (server.length + (1 + share.length)) := by
    simp only [rootLength, hdevice, hseparator, if_true, Bool.false_eq_true, if_false,
      shareLength_append hserver, shareLength_append hshare, shareLength]
    simp
  simp only [List.cons_append, List.append_assoc, hroot]
  simp only [List.length_cons, List.length_append]
  omega

/-! ### Children of a folder -/

/-- A name that denotes a file in a folder itself: it has no separator and no colon, and does not
consist of periods and blanks, which Windows takes away from the end of a name. -/
structure ChildName (name : Text) : Prop where
  noSeparator : HasNoSeparator name
  noColon : colon ∉ name
  visible : ∃ char ∈ name, char ≠ unit '.' ∧ char ≠ unit ' '

/-- A path that puts such a name behind a folder. -/
def DirectChild (dir path : Text) : Prop :=
  ∃ name, ChildName name ∧ path = folderPrefix dir ++ name

theorem ChildName.ne_nil (hname : ChildName name) : name ≠ [] := by
  obtain ⟨char, hchar, -⟩ := hname.visible
  exact List.ne_nil_of_mem hchar

theorem ChildName.not_rooted (hname : ChildName name) : isPathRooted name = false :=
  isPathRooted_eq_false hname.noSeparator hname.noColon

/-- The path of a child. -/
theorem pathCombine_child (hdir : dir ≠ []) (hname : ChildName name) :
    pathCombine dir name = folderPrefix dir ++ name :=
  pathCombine_of_not_rooted hdir hname.ne_nil hname.not_rooted

/-- A name without separators is put below the folder exactly when it denotes a child of it. -/
theorem directChild_pathCombine_iff (hdir : dir ≠ []) (hname : HasNoSeparator name) :
    DirectChild dir (pathCombine dir name) ↔ ChildName name := by
  constructor
  · rintro ⟨child, hchild, hpath⟩
    have hlonger : dir ≠ folderPrefix dir ++ child := by
      intro heq
      have hlength := congrArg List.length heq
      have hleads := length_le_folderPrefix dir
      have hchildLength := List.length_pos_of_ne_nil hchild.ne_nil
      rw [List.length_append] at hlength
      omega
    by_cases hempty : name = []
    · rw [hempty, pathCombine, if_neg hdir, if_pos rfl] at hpath
      exact absurd hpath hlonger
    · cases hrooted : isPathRooted name with
      | true =>
        -- a rooted name would be the whole path, which has separators
        rw [pathCombine_of_rooted hdir hrooted] at hpath
        obtain ⟨last, hlast, hseparator⟩ := Option.any_eq_true .. |>.mp (getLast_folderPrefix dir)
        have hmem : last ∈ name := by
          rw [hpath]
          exact List.mem_append_left _ (List.mem_of_getLast? hlast)
        rw [hname last hmem] at hseparator
        cases hseparator
      | false =>
        rw [pathCombine_of_not_rooted hdir hempty hrooted, List.append_cancel_left_eq] at hpath
        rwa [hpath]
  · intro hchild
    exact ⟨name, hchild, pathCombine_child hdir hchild⟩

end Paths

end NovaIde.Client
