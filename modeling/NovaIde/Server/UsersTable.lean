import NovaIde.Server.RequestFields
import Mathlib.Data.List.Nodup

/-!
# The Users table

`DBCommunicator` keeps one table and runs six fixed statements on it, each built from parsed
fields. A table is the list of its rows in insertion order, which is the order in which an
unindexed `select` visits them; the autoincremented `id` is read by no statement and is left out.
Whether a statement succeeds is decided outside the program, so every operation takes the outcome
of its statement. A failed statement visits no row and changes nothing.

The lemmas say what each operation does when its statement succeeds, and that no operation ever
changes the username or mail columns of a row.
-/

set_option autoImplicit false
set_option relaxedAutoImplicit false

namespace NovaIde.Server

/-- A row of `Users`. -/
@[ext] structure Row where
  username : Bytes
  password : Bytes
  mail : Bytes
deriving DecidableEq, Repr

/-- The statements of `DBCommunicator`, each named after the function that runs it. -/
inductive Statement
  | doesUserExist
  | doesEmailExist
  | doesPasswordMatch
  | doesEmailMatch
  | addNewUser
  | changePassword
deriving DecidableEq, Repr

/-- Which statements succeed while one request is handled. -/
abbrev SqlOutcome := Statement → Bool

/-- `DBCommunicator::doesUserExist`. The callback sets the flag at every visited row. -/
def doesUserExist (sql : SqlOutcome) (users : List Row) (username : Bytes) : Bool :=
  sql .doesUserExist && users.any fun row ↦ row.username = username

/-- `DBCommunicator::doesEmailExist`. -/
def doesEmailExist (sql : SqlOutcome) (users : List Row) (email : Bytes) : Bool :=
  sql .doesEmailExist && users.any fun row ↦ row.mail = email

/-- The string `callbackGetValueByUsername` leaves behind: it overwrites its result at every
visited row, so the last row of the username wins, and it stays empty when there is none. -/
def valueByUsername (column : Row → Bytes) (users : List Row) (username : Bytes) : Bytes :=
  users.foldl (fun value row ↦ if row.username = username then column row else value) []

/-- `DBCommunicator::doesPasswordMatch`. -/
def doesPasswordMatch (sql : SqlOutcome) (users : List Row) (username password : Bytes) : Bool :=
  let dbPassword :=
    if sql .doesPasswordMatch then valueByUsername Row.password users username else []
  dbPassword = password

/-- `DBCommunicator::doesEmailMatch`. -/
def doesEmailMatch (sql : SqlOutcome) (users : List Row) (username email : Bytes) : Bool :=
  let dbValue := if sql .doesEmailMatch then valueByUsername Row.mail users username else []
  dbValue = email

/-- `DBCommunicator::addNewUser`: the status it returns and the table afterwards. -/
def addNewUser (sql : SqlOutcome) (users : List Row) (username password mail : Bytes) :
    Bool × List Row :=
  if sql .addNewUser then (true, users ++ [⟨username, password, mail⟩]) else (false, users)

/-- `DBCommunicator::changePassword`: the status it returns and the table afterwards. Every row of
the username is updated. -/
def changePassword (sql : SqlOutcome) (users : List Row) (username password : Bytes) :
    Bool × List Row :=
  if sql .changePassword then
    (true, users.map fun row ↦
      if row.username = username then { row with password := password } else row)
  else (false, users)

variable {sql : SqlOutcome} {users : List Row} {username password mail : Bytes}

@[simp] theorem doesUserExist_eq_true :
    doesUserExist sql users username = true ↔
      sql .doesUserExist = true ∧ ∃ row ∈ users, row.username = username := by
  simp [doesUserExist]

@[simp] theorem doesEmailExist_eq_true :
    doesEmailExist sql users mail = true ↔
      sql .doesEmailExist = true ∧ ∃ row ∈ users, row.mail = mail := by
  simp [doesEmailExist]

/-- An insertion changes the table exactly when its statement succeeds. -/
theorem addNewUser_ne_iff :
    (addNewUser sql users username password mail).2 ≠ users ↔ sql .addNewUser = true := by
  unfold addNewUser
  split_ifs with hsql <;> simp [hsql]

/-- An update changes the table exactly when its statement succeeds and some row of the username
holds another password. -/
theorem changePassword_ne_iff :
    (changePassword sql users username password).2 ≠ users ↔
      sql .changePassword = true ∧
        ∃ row ∈ users, row.username = username ∧ row.password ≠ password := by
  unfold changePassword
  split_ifs with hsql
  · nth_rewrite 2 [← List.map_id users]
    rw [ne_eq, List.map_inj_left]
    push Not
    simp only [hsql, true_and, id_eq]
    refine exists_congr fun row ↦ and_congr_right fun _ ↦ ?_
    split_ifs with husername
    · have hfields : (⟨username, password, row.mail⟩ : Row) = row ↔ row.password = password := by
        simp [Row.ext_iff, husername, eq_comm]
      simp [husername, hfields]
    · simp [husername]
  · simp [hsql]

/-- An update keeps the number of rows. -/
@[simp] theorem length_changePassword :
    (changePassword sql users username password).2.length = users.length := by
  unfold changePassword
  split_ifs <;> simp

/-- What an update does to the row at a position: its username and mail stay, and its password
changes only when the row has the username, and then to the new one. -/
theorem getElem?_changePassword {index : ℕ} {row updated : Row} (hrow : users[index]? = some row)
    (hupdated : (changePassword sql users username password).2[index]? = some updated) :
    updated.username = row.username ∧ updated.mail = row.mail ∧
      (updated.password = row.password ∨
        sql .changePassword = true ∧ row.username = username ∧ updated.password = password) := by
  unfold changePassword at hupdated
  split_ifs at hupdated with hsql
  · simp only [List.getElem?_map, hrow, Option.map_some, Option.some.injEq] at hupdated
    subst hupdated
    split_ifs with husername <;> simp [hsql, husername]
  · rw [hrow, Option.some.injEq] at hupdated
    subst hupdated
    simp

/-- A successful update writes the new password into every row of the username. -/
theorem getElem?_changePassword_of_username {index : ℕ} {row : Row}
    (hrow : users[index]? = some row) (hsql : sql .changePassword = true)
    (husername : row.username = username) :
    (changePassword sql users username password).2[index]? =
      some { row with password := password } := by
  simp [changePassword, hsql, hrow, husername]

/-- An update keeps the username column. -/
theorem map_username_changePassword :
    (changePassword sql users username password).2.map Row.username = users.map Row.username := by
  unfold changePassword
  split_ifs
  · rw [List.map_map]
    refine List.map_congr_left fun row _ ↦ ?_
    simp only [Function.comp_apply]
    split_ifs <;> rfl
  · rfl

/-- An update keeps the mail column. -/
theorem map_mail_changePassword :
    (changePassword sql users username password).2.map Row.mail = users.map Row.mail := by
  unfold changePassword
  split_ifs
  · rw [List.map_map]
    refine List.map_congr_left fun row _ ↦ ?_
    simp only [Function.comp_apply]
    split_ifs <;> rfl
  · rfl

end NovaIde.Server
