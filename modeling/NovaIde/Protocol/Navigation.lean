import NovaIde.Protocol.ReplyClassification

/-!
# The pages of the client

`MainWindow` shows one page at a time. The buttons of a page open other pages, show messages, or
send a request to the server, and then the window waits until an answer arrives. What a page keeps
between visits, the texts that its boxes show apart, is part of the window. An answer that a page
does not survive, such as the empty one, ends the program and is no step.

The requests of a whole life of the window follow a conversation: the answers accepted so far decide
which requests can still be sent, and what they carry (`sent_allowed`). And the pages of the editor
are behind the one that opens the project, which is never left twice (`project_opened_once`). Both
hold whatever the answers are.
-/

set_option autoImplicit false
set_option relaxedAutoImplicit false

namespace NovaIde.Protocol

open Foundation Foundation.EventRun Client Server

/-! ### The window -/

/-- The pages `MainContent` can show. -/
inductive Page
  | first
  | login
  | signup
  | verification
  | recovery
  | newPassword
  | menu
  | language
  | underWork
  | projectDetails
  | ide
  | startSession
  | newFile
  | deleteFile
deriving DecidableEq, Repr

/-- A button, with the texts that its handler reads from the page. -/
inductive Press
  /-- `FirstPage.Login` -/
  | login
  /-- `FirstPage.Signup` -/
  | signup
  | homeButton
  | backButton
  | forgotPassword
  | loginDone (username password : Text)
  | signupDone (username password email : Text)
  | verificationDone (codeText : Text)
  | recoveryDone (username email : Text)
  | newPasswordDone (password1 password2 : Text)
  | newProject
  | openFolder
  | cpp
  | c
  | py
  | goBack
  /-- `SelectDirectoryButton_Click`, once a directory was selected -/
  | selectDirectory (selectedDirectory : Text)
  | projectDone (textInput : Text)
  /-- `Ide.startSession` -/
  | startSession
  /-- `Ide.MenuItem_Click` for `New File` -/
  | newFileItem
  /-- `Ide.MenuItem_Click` for `Remove File` -/
  | removeFileItem
  | sessionDone (username : Text)
  /-- no extension is selected when the page opens -/
  | newFileDone (filename : Text) (selectedExtension : Option Text)
  | deleteFileDone (filename : Text)
deriving DecidableEq, Repr

/-- A call of a page into the editor. -/
inductive EditorCall
  | setProjectDetails (projectPath : Option Text) (filesPath projectName : Text)
  | setNewFileName (fileName : Text)
  | removeFile (fileName : Text)
  | setOtherUser (username : Text)
deriving DecidableEq, Repr

/-- `MainWindow`, with what its pages keep between visits. The text `PathUi` shows before a
directory is selected is not fixed. A window that waits holds the request it sent. -/
structure Window where
  content : Page := .first
  pages : Pages := {}
  sessionToken : Text := []
  folderPath : Option Text := none
  pathUi : Text
  communicator : P2PCommunicator := {}
  waiting : Option ClientRequest := none
deriving DecidableEq, Repr

/-- What a step of the window shows, sends and calls. -/
structure WindowOutput where
  shown : List Text := []
  sent : Option ClientRequest := none
  calls : List EditorCall := []
deriving DecidableEq, Repr

namespace Window

variable (window : Window)

/-- A page is opened. -/
def opens (page : Page) : Window × WindowOutput := ({ window with content := page }, {})

/-- Messages are shown. -/
def shows (messages : List Text) : Window × WindowOutput := (window, { shown := messages })

/-- A request is sent, and the window waits for the answer. -/
def sends (request : ClientRequest) : Window × WindowOutput :=
  ({ window with waiting := some request }, { sent := some request })

/-- The editor is called, and opened. -/
def callsEditor (call : EditorCall) : Window × WindowOutput :=
  ({ window with content := .ide }, { calls := [call] })

end Window

/-! ### The buttons -/

section Buttons

variable (classes : CharClasses) (endsWith : Text → Text → Bool)

/-- The messages of the checks of a password, in `Signup.done` and in `NewPassword.done`. -/
def passwordMessages (password : Text) : List Text :=
  (if password.length < 8 then [str "Password should be at least 8 characters long"] else []) ++
  (if !password.any classes.isUpper then
    [str "Password should contain at least one uppercase letter"] else []) ++
  (if !password.any classes.isLower then
    [str "Password should contain at least one lowercase letter"] else []) ++
  (if !password.any classes.isDigit then
    [str "Password should contain at least one digit"] else [])

/-- The messages of the checks of `Signup.done`. -/
def signupMessages (username password email : Text) : List Text :=
  (if username.length < 3 then
    [str "Username should be at least 3 characters long"] else []) ++
  (if 8 < username.length then
    [str "Username can't be longer than 8 characters"] else []) ++
  passwordMessages classes password ++
  (if !email.contains (unit '@') || !email.contains (unit '.') then
    [str "Email invalid"] else [])

variable {classes} in
/-- The checks of a password show nothing exactly when it is accepted. -/
theorem passwordMessages_eq_nil {password : Text} :
    passwordMessages classes password = [] ↔ passwordAccepted classes password = true := by
  simp only [passwordMessages, passwordAccepted, List.append_eq_nil_iff, Bool.and_eq_true,
    decide_eq_true_eq, ite_eq_right_iff, List.cons_ne_self, imp_false,
    Bool.not_eq_true', Bool.not_eq_false, not_lt]

variable {classes} in
/-- The checks of `Signup.done` show nothing exactly when it sends the request. -/
theorem signupMessages_eq_nil {username password email : Text} :
    signupMessages classes username password email = [] ↔
      signupAccepted classes username password email = true := by
  simp only [signupMessages, signupAccepted, List.append_eq_nil_iff, passwordMessages_eq_nil,
    Bool.and_eq_true, decide_eq_true_eq, ite_eq_right_iff, List.cons_ne_self,
    imp_false, Bool.or_eq_true, not_or, Bool.not_eq_true', Bool.not_eq_false, not_lt, and_assoc]

namespace Window

variable (window : Window)

/-- The buttons of `FirstPage`. -/
def firstPage : Press → Option (Window × WindowOutput)
  | .login => some (window.opens .login)
  | .signup => some (window.opens .signup)
  | _ => none

/-- The buttons of `Login`: the request does not carry what was typed. -/
def loginPage : Press → Option (Window × WindowOutput)
  | .loginDone username password =>
    if username.length = 0 ∨ password.length = 0 then
      some (window.shows [str "Fields can't be empty!"])
    else some (window.sends (.sendLogin (str "Hammer") (str "Hammer1234")))
  | .forgotPassword => some (window.opens .recovery)
  | .homeButton | .backButton => some (window.opens .first)
  | _ => none

/-- The buttons of `Signup`. -/
def signupPage : Press → Option (Window × WindowOutput)
  | .signupDone username password email =>
    match signupMessages classes username password email with
    | [] => some (window.sends (.sendSignup username password email))
    | messages => some (window.shows messages)
  | .homeButton | .backButton => some (window.opens .first)
  | _ => none

/-- The buttons of `EmailVerfication`. -/
def verificationPage : Press → Option (Window × WindowOutput)
  | .verificationDone codeText =>
    some (window.sends (.checkCode window.pages.verificationUsername
      window.pages.verificationPassword window.pages.verificationEmail codeText))
  | .homeButton => some (window.opens .first)
  | .backButton =>
    if window.pages.verificationAction = str "signup" then some (window.opens .signup)
    else if window.pages.verificationAction = str "recovery" then some (window.opens .recovery)
    else some (window, {})
  | _ => none

/-- The buttons of `PasswordRecovery`. -/
def recoveryPage : Press → Option (Window × WindowOutput)
  | .recoveryDone username email => some (window.sends (.checkEmail username email))
  | .homeButton => some (window.opens .first)
  | .backButton => some (window.opens .login)
  | _ => none

/-- The button of `NewPassword`. -/
def newPasswordPage : Press → Option (Window × WindowOutput)
  | .newPasswordDone password1 password2 =>
    if password1 ≠ password2 then some (window.shows [str "Passwords don't match!"])
    else
      match passwordMessages classes password1 with
      | [] =>
        some (window.sends (.sendNewPassword window.pages.newPasswordUsername password1
          window.pages.newPasswordEmail window.pages.newPasswordCode))
      | messages => some (window.shows messages)
  | _ => none

/-- The buttons of `MenuPage`. -/
def menuPage : Press → Option (Window × WindowOutput)
  | .newProject => some (window.opens .language)
  | .openFolder => some (window, {})
  | _ => none

/-- The buttons of `LanguagePage`. -/
def languagePage : Press → Option (Window × WindowOutput)
  | .cpp => some (window.opens .projectDetails)
  | .c | .py => some (window.opens .underWork)
  | .homeButton | .backButton => some (window.opens .menu)
  | _ => none

/-- The button of `UnderWork`. -/
def underWorkPage : Press → Option (Window × WindowOutput)
  | .goBack => some (window.opens .language)
  | _ => none

/-- The buttons of `ProjectDetails`. What `done` does to the disk is left to the workspace. -/
def projectDetailsPage : Press → Option (Window × WindowOutput)
  | .homeButton => some (window.opens .menu)
  | .backButton => some ({ window with content := .language, pathUi := [] }, {})
  | .selectDirectory selectedDirectory =>
    some ({ window with folderPath := some selectedDirectory, pathUi := selectedDirectory }, {})
  | .projectDone textInput =>
    if window.pathUi.length = 0 then some (window.shows [str "Path cannot be empty!"])
    else
      let filesPath := window.folderPath.getD [] ++ str "\\" ++ textInput
      some (window.callsEditor (.setProjectDetails window.folderPath filesPath textInput))
  | _ => none

/-- The buttons of `Ide` that leave it. -/
def idePage : Press → Option (Window × WindowOutput)
  | .startSession => some (window.opens .startSession)
  | .newFileItem => some (window.opens .newFile)
  | .removeFileItem => some (window.opens .deleteFile)
  | _ => none

/-- The buttons of `StartSession`. -/
def startSessionPage : Press → Option (Window × WindowOutput)
  | .sessionDone username =>
    if username ≠ [] then some (window.sends (.sendInvite window.sessionToken username))
    else some (window.shows [str "Please put in a username"])
  | .homeButton | .backButton => some (window.opens .ide)
  | _ => none

/-- The button of `NewFile`. Without a selected extension there is no text to append. -/
def newFilePage : Press → Option (Window × WindowOutput)
  | .newFileDone filename selectedExtension =>
    if filename = [] then some (window.shows [str "File name cant be empty!"])
    else
      selectedExtension.map fun extension ↦
        window.callsEditor (.setNewFileName (filename ++ extension))
  | _ => none

/-- The button of `DeleteFile`. -/
def deleteFilePage : Press → Option (Window × WindowOutput)
  | .deleteFileDone filename =>
    if filename = [] then some (window.shows [str "File name cant be empty!"])
    else if !endsWith filename (str ".cpp") && !endsWith filename (str ".h") then
      some (window.shows [str "File type isn't correct"])
    else some (window.callsEditor (.removeFile filename))
  | _ => none

/-- A button is pressed. A window that waits for an answer does not react, and a button that is not
on the page cannot be pressed. -/
def press (button : Press) : Option (Window × WindowOutput) :=
  if window.waiting.isSome then none
  else
    match window.content with
    | .first => window.firstPage button
    | .login => window.loginPage button
    | .signup => window.signupPage classes button
    | .verification => window.verificationPage button
    | .recovery => window.recoveryPage button
    | .newPassword => window.newPasswordPage classes button
    | .menu => window.menuPage button
    | .language => window.languagePage button
    | .underWork => window.underWorkPage button
    | .projectDetails => window.projectDetailsPage button
    | .ide => window.idePage button
    | .startSession => window.startSessionPage button
    | .newFile => window.newFilePage button
    | .deleteFile => window.deleteFilePage endsWith button

end Window

end Buttons

/-! ### The answers -/

namespace Window

variable (window : Window)

/-- What `Signup.done` leaves in the verification page. -/
def signedUp (username password email : Text) : Window :=
  { window with
    content := .verification
    pages := { window.pages with
      verificationAction := str "signup"
      verificationEmail := email
      verificationUsername := username
      verificationPassword := password } }

/-- What `PasswordRecovery.done` leaves in the pages that follow it. -/
def mailed (username email : Text) : Window :=
  { window with
    content := .verification
    pages := { window.pages with
      newPasswordUsername := username
      verificationAction := str "recovery"
      verificationEmail := email
      newPasswordEmail := email } }

/-- `EmailVerfication.done` once the code was accepted. -/
def verified (codeText : Text) : Window × WindowOutput :=
  if window.pages.verificationAction = str "signup" then
    ({ window with content := .login }, { shown := [str "Signed up succrefully!"] })
  else if window.pages.verificationAction = str "recovery" then
    ({ window with
        content := .newPassword
        pages := { window.pages with newPasswordCode := codeText } }, {})
  else (window, {})

/-- A handler goes on with the answer to its request, by the branch that it takes. -/
def follow (request : ClientRequest) (message : Text) :
    Branch → Option (Window × WindowOutput)
  | .shows text => some (window.shows [text])
  | .ignores => some (window, {})
  | .logsIn =>
    some ({ window with content := .menu, sessionToken := message.drop 2 },
      { shown := [str "Logged in"] })
  | .opensVerification =>
    match request with
    | .sendSignup username password email => some (window.signedUp username password email, {})
    | .checkEmail username email => some (window.mailed username email, {})
    | _ => none
  | .acceptsCode =>
    match request with
    | .checkCode _ _ _ codeText => some (window.verified codeText)
    | _ => none
  | .changesPassword =>
    some ({ window with content := .login }, { shown := [str "Password changed successfully"] })
  | .connects =>
    match request with
    | .sendInvite _ username =>
      (window.communicator.connectP2P message).toOption.map fun communicator ↦
        ({ window with communicator }.callsEditor (.setOtherUser username))
    | _ => none

/-- The window reads the answer it waits for. -/
def answer (message : Text) : Option (Window × WindowOutput) := do
  let request ← window.waiting
  let branch ← pageDone request.kind message
  { window with waiting := none }.follow request message branch

end Window

/-- What happens to a window. -/
inductive WindowEvent
  | press (button : Press)
  | answer (message : Text)
deriving DecidableEq, Repr

/-- One step of a window. -/
def Window.step (classes : CharClasses) (endsWith : Text → Text → Bool) (window : Window) :
    WindowEvent → Option (Window × WindowOutput)
  | .press button => window.press classes endsWith button
  | .answer message => window.answer message

/-- A step of a run of a window. -/
abbrev WindowRecord := StepRecord Window WindowEvent WindowOutput

/-- The runs of a window from the start of the program. -/
abbrev WindowRun (classes : CharClasses) (endsWith : Text → Text → Bool) (pathUi : Text) :
    List WindowRecord → Window → Prop :=
  Run (Window.step classes endsWith) { pathUi }

/-! ### The conversation -/

/-- How far the requests of a window have got, by the answers accepted so far. -/
inductive Phase
  /-- nothing is under way -/
  | idle
  /-- a signup waits for its code -/
  | signingUp (username password email : Text)
  /-- a recovery waits for its code -/
  | recovering (username email : Text)
  /-- a recovery waits for the new password -/
  | changing (username email code : Text)
  /-- the login was accepted -/
  | loggedIn (token : Text)
deriving DecidableEq, Repr

/-- A conversation: its phase, and the username and the password of the signup accepted last, which
stay in the verification page. -/
structure Conversation where
  lastSignup : Text × Text := ([], [])
  phase : Phase := .idle
deriving DecidableEq, Repr

/-- The conversation after an accepted answer. -/
def Conversation.accept (conversation : Conversation) (request : ClientRequest) (message : Text) :
    Conversation :=
  match request with
  | .sendSignup username password email =>
    ⟨(username, password), .signingUp username password email⟩
  | .sendLogin _ _ => { conversation with phase := .loggedIn (message.drop 2) }
  | .checkEmail username email => { conversation with phase := .recovering username email }
  | .checkCode _ _ _ code =>
    match conversation.phase with
    | .recovering username email => { conversation with phase := .changing username email code }
    | _ => { conversation with phase := .idle }
  | .sendNewPassword _ _ _ _ => { conversation with phase := .idle }
  | .sendInvite _ _ => conversation

/-- Whether the login was accepted. -/
def Phase.isLoggedIn : Phase → Bool
  | .loggedIn _ => true
  | _ => false

/-- The requests a conversation allows next. Before the login everything but a code and a new
password can be sent anew. The code of a signup is sent with the data of the signup, that of a
recovery with the email of the recovery but the username and the password of the signup accepted
last, and a new password with the code that was accepted for the same recovery. -/
def Conversation.Allows (classes : CharClasses) (conversation : Conversation) :
    ClientRequest → Prop
  | .sendSignup username password email =>
    ¬ conversation.phase.isLoggedIn ∧ signupAccepted classes username password email
  | .sendLogin username password =>
    ¬ conversation.phase.isLoggedIn ∧ username = str "Hammer" ∧ password = str "Hammer1234"
  | .checkEmail _ _ => ¬ conversation.phase.isLoggedIn
  | .checkCode username password email _ =>
    conversation.phase = .signingUp username password email ∨
      (username, password) = conversation.lastSignup ∧
        ∃ recovered, conversation.phase = .recovering recovered email
  | .sendNewPassword username password email code =>
    conversation.phase = .changing username email code ∧ passwordAccepted classes password
  | .sendInvite token username => conversation.phase = .loggedIn token ∧ username ≠ []

/-- Whether a page goes on after an answer. -/
def Branch.accepts : Branch → Bool
  | .shows _ | .ignores => false
  | _ => true

/-- The request and the answer of a step in which a page goes on. -/
def acceptedAnswer (record : WindowRecord) : Option (ClientRequest × Text) :=
  match record.event with
  | .press _ => none
  | .answer message => do
    let request ← record.before.waiting
    let branch ← pageDone request.kind message
    guard branch.accepts
    return (request, message)

/-- The conversation of a run so far. -/
def conversationOf (history : List WindowRecord) : Conversation :=
  (history.filterMap acceptedAnswer).foldl
    (fun conversation accepted ↦ conversation.accept accepted.1 accepted.2) {}

theorem conversationOf_snoc (history : List WindowRecord) (record : WindowRecord) :
    conversationOf (history ++ [record]) =
      match acceptedAnswer record with
      | some (request, message) => (conversationOf history).accept request message
      | none => conversationOf history := by
  unfold conversationOf
  rw [List.filterMap_append, List.foldl_append]
  cases haccepted : acceptedAnswer record with
  | none => simp [haccepted]
  | some accepted => simp [haccepted]

/-! ### What the steps of a window can do -/

/-- The pages that only open after a login. -/
def Page.needsLogin : Page → Bool
  | .first | .login | .signup | .verification | .recovery | .newPassword => false
  | _ => true

/-- The pages that only open once a project is open. -/
def Page.inProject : Page → Bool
  | .ide | .startSession | .newFile | .deleteFile => true
  | _ => false

/-- The pages a window must be on to send a request, and what the request carries. -/
inductive Asks (classes : CharClasses) (window : Window) : ClientRequest → Prop
  | signup {username password email : Text} (hpage : window.content = .signup)
      (haccepted : signupAccepted classes username password email = true) :
      Asks classes window (.sendSignup username password email)
  | login (hpage : window.content = .login) :
      Asks classes window (.sendLogin (str "Hammer") (str "Hammer1234"))
  | email (username email : Text) (hpage : window.content = .recovery) :
      Asks classes window (.checkEmail username email)
  | code (codeText : Text) (hpage : window.content = .verification) :
      Asks classes window (.checkCode window.pages.verificationUsername
        window.pages.verificationPassword window.pages.verificationEmail codeText)
  | newPassword {password : Text} (hpage : window.content = .newPassword)
      (haccepted : passwordAccepted classes password = true) :
      Asks classes window (.sendNewPassword window.pages.newPasswordUsername password
        window.pages.newPasswordEmail window.pages.newPasswordCode)
  | invite {username : Text} (hpage : window.content = .startSession) (hname : username ≠ []) :
      Asks classes window (.sendInvite window.sessionToken username)

/-- The page a request is sent from. -/
def ClientRequest.page : ClientRequest → Page
  | .sendSignup _ _ _ => .signup
  | .sendLogin _ _ => .login
  | .checkEmail _ _ => .recovery
  | .checkCode _ _ _ _ => .verification
  | .sendNewPassword _ _ _ _ => .newPassword
  | .sendInvite _ _ => .startSession

/-- A window asks on the page of the request. -/
theorem Asks.page {classes : CharClasses} {window : Window} {request : ClientRequest}
    (hasks : Asks classes window request) : window.content = request.page := by
  cases hasks <;> assumption

/-- Whether a button may open a page: the verification and the page for the new password open by an
answer only, the menu and the editor are never left, and the editor opens with a project. -/
def Page.opensFrom (page other : Page) : Prop :=
  other ≠ .verification ∧ other ≠ .newPassword ∧ page ≠ .newPassword ∧
    page.needsLogin = other.needsLogin ∧ page.inProject = other.inProject

instance (page other : Page) : Decidable (page.opensFrom other) :=
  inferInstanceAs (Decidable (_ ∧ _))

/-- The directory that a button selects. -/
def Press.directory : Press → Option Text
  | .selectDirectory selectedDirectory => some selectedDirectory
  | _ => none

/-- The ways a button changes a window. -/
inductive PressStep (classes : CharClasses) (window : Window) (button : Press) :
    Window → WindowOutput → Prop
  | stays (shown : List Text) (hsame : button.directory = none) :
      PressStep classes window button window { shown }
  | opens (page : Page) (pathUi : Text) (folderPath : Option Text)
      (hopens : window.content.opensFrom page)
      (hfolder : folderPath = button.directory.or window.folderPath)
      (hpath : pathUi = window.pathUi ∨ pathUi = [] ∨ folderPath ≠ none) :
      PressStep classes window button { window with content := page, pathUi, folderPath } {}
  | sends (request : ClientRequest) (hasks : Asks classes window request)
      (hsame : button.directory = none) :
      PressStep classes window button { window with waiting := some request }
        { sent := some request }
  | project (textInput : Text) (hpage : window.content = .projectDetails)
      (hbutton : button = .projectDone textInput) (hpath : window.pathUi ≠ []) :
      PressStep classes window button { window with content := .ide }
        { calls := [.setProjectDetails window.folderPath
            (window.folderPath.getD [] ++ str "\\" ++ textInput) textInput] }
  | file (call : EditorCall) (hpage : window.content = .newFile ∨ window.content = .deleteFile)
      (hcall : ∀ projectPath filesPath projectName,
        call ≠ .setProjectDetails projectPath filesPath projectName)
      (hsame : button.directory = none) :
      PressStep classes window button { window with content := .ide } { calls := [call] }

section Steps

variable {classes : CharClasses} {endsWith : Text → Text → Bool} {window next : Window}
  {button : Press} {output : WindowOutput}

/-- A plain button opens a page. -/
theorem PressStep.of_opens {page : Page} (hsame : button.directory = none)
    (hopens : window.content.opensFrom page) (hstep : window.opens page = (next, output)) :
    PressStep classes window button next output := by
  cases hstep
  exact .opens page window.pathUi window.folderPath hopens (by simp [hsame]) (.inl rfl)

/-- A button that shows messages. -/
theorem PressStep.of_shows {messages : List Text} (hsame : button.directory = none)
    (hstep : window.shows messages = (next, output)) :
    PressStep classes window button next output := by
  cases hstep
  exact .stays messages hsame

/-- A button that sends a request. -/
theorem PressStep.of_sends {request : ClientRequest} (hsame : button.directory = none)
    (hasks : Asks classes window request) (hstep : window.sends request = (next, output)) :
    PressStep classes window button next output := by
  cases hstep
  exact .sends request hasks hsame

/-- Every press is one of these steps, of a window that waits for nothing. -/
theorem pressStep_of_press (hpress : window.press classes endsWith button = some (next, output)) :
    window.waiting = none ∧ PressStep classes window button next output := by
  unfold Window.press at hpress
  split_ifs at hpress with hwaiting
  refine ⟨by simpa using hwaiting, ?_⟩
  cases hpage : window.content <;> simp only [hpage] at hpress
  case first =>
    cases button <;> simp only [Window.firstPage, Option.some.injEq, reduceCtorEq] at hpress
    all_goals exact .of_opens rfl (by rw [hpage]; decide) hpress
  case login =>
    cases button <;> simp only [Window.loginPage, Option.some.injEq, reduceCtorEq] at hpress
    case loginDone username password =>
      split_ifs at hpress
      · exact .of_shows rfl (Option.some.inj hpress)
      · exact .of_sends rfl (.login hpage) (Option.some.inj hpress)
    all_goals exact .of_opens rfl (by rw [hpage]; decide) hpress
  case signup =>
    cases button <;> simp only [Window.signupPage, Option.some.injEq, reduceCtorEq] at hpress
    case signupDone username password email =>
      cases hmessages : signupMessages classes username password email with
      | nil =>
        rw [hmessages] at hpress
        exact .of_sends rfl (.signup hpage (signupMessages_eq_nil.mp hmessages))
          (Option.some.inj hpress)
      | cons message messages =>
        rw [hmessages] at hpress
        exact .of_shows rfl (Option.some.inj hpress)
    all_goals exact .of_opens rfl (by rw [hpage]; decide) hpress
  case verification =>
    cases button <;> simp only [Window.verificationPage, Option.some.injEq, reduceCtorEq] at hpress
    case verificationDone codeText => exact .of_sends rfl (.code codeText hpage) hpress
    case homeButton => exact .of_opens rfl (by rw [hpage]; decide) hpress
    case backButton =>
      split_ifs at hpress
      · exact .of_opens rfl (by rw [hpage]; decide) (Option.some.inj hpress)
      · exact .of_opens rfl (by rw [hpage]; decide) (Option.some.inj hpress)
      · cases hpress
        exact .stays [] rfl
  case recovery =>
    cases button <;> simp only [Window.recoveryPage, Option.some.injEq, reduceCtorEq] at hpress
    case recoveryDone username email => exact .of_sends rfl (.email username email hpage) hpress
    all_goals exact .of_opens rfl (by rw [hpage]; decide) hpress
  case newPassword =>
    cases button <;> simp only [Window.newPasswordPage, reduceCtorEq] at hpress
    case newPasswordDone password1 password2 =>
      split_ifs at hpress
      · exact .of_shows rfl (Option.some.inj hpress)
      · cases hmessages : passwordMessages classes password1 with
        | nil =>
          rw [hmessages] at hpress
          exact .of_sends rfl (.newPassword hpage (passwordMessages_eq_nil.mp hmessages))
            (Option.some.inj hpress)
        | cons message messages =>
          rw [hmessages] at hpress
          exact .of_shows rfl (Option.some.inj hpress)
  case menu =>
    cases button <;> simp only [Window.menuPage, Option.some.injEq, reduceCtorEq] at hpress
    case newProject => exact .of_opens rfl (by rw [hpage]; decide) hpress
    case openFolder =>
      cases hpress
      exact .stays [] rfl
  case language =>
    cases button <;> simp only [Window.languagePage, Option.some.injEq, reduceCtorEq] at hpress
    all_goals exact .of_opens rfl (by rw [hpage]; decide) hpress
  case underWork =>
    cases button <;> simp only [Window.underWorkPage, Option.some.injEq, reduceCtorEq] at hpress
    exact .of_opens rfl (by rw [hpage]; decide) hpress
  case projectDetails =>
    cases button <;> simp only [Window.projectDetailsPage, Option.some.injEq, reduceCtorEq]
      at hpress
    case homeButton => exact .of_opens rfl (by rw [hpage]; decide) hpress
    case backButton =>
      cases hpress
      exact .opens .language [] window.folderPath (by rw [hpage]; decide) rfl (.inr (.inl rfl))
    case selectDirectory selectedDirectory =>
      cases hpress
      exact .opens window.content selectedDirectory (some selectedDirectory)
        (by rw [hpage]; decide) rfl (.inr (.inr (by simp)))
    case projectDone textInput =>
      split_ifs at hpress with hpath
      · exact .of_shows rfl (Option.some.inj hpress)
      · cases hpress
        exact .project textInput hpage rfl (mt List.length_eq_zero_iff.mpr hpath)
  case ide =>
    cases button <;> simp only [Window.idePage, Option.some.injEq, reduceCtorEq] at hpress
    all_goals exact .of_opens rfl (by rw [hpage]; decide) hpress
  case startSession =>
    cases button <;> simp only [Window.startSessionPage, Option.some.injEq, reduceCtorEq]
      at hpress
    case sessionDone username =>
      split_ifs at hpress with hname
      · exact .of_sends rfl (.invite hpage hname) (Option.some.inj hpress)
      · exact .of_shows rfl (Option.some.inj hpress)
    all_goals exact .of_opens rfl (by rw [hpage]; decide) hpress
  case newFile =>
    cases button <;> simp only [Window.newFilePage, reduceCtorEq] at hpress
    case newFileDone filename selectedExtension =>
      split_ifs at hpress
      · exact .of_shows rfl (Option.some.inj hpress)
      · obtain ⟨extension, -, hcall⟩ := Option.map_eq_some_iff.mp hpress
        cases hcall
        exact .file _ (.inl hpage) (by simp) rfl
  case deleteFile =>
    cases button <;> simp only [Window.deleteFilePage, reduceCtorEq] at hpress
    case deleteFileDone filename =>
      split_ifs at hpress
      · exact .of_shows rfl (Option.some.inj hpress)
      · exact .of_shows rfl (Option.some.inj hpress)
      · cases hpress
        exact .file _ (.inr hpage) (by simp) rfl

/-- The ways an answer changes a window that waited for it. -/
inductive AnswerStep (window : Window) (request : ClientRequest) (message : Text) :
    Bool → Window → WindowOutput → Prop
  | stays (shown : List Text) :
      AnswerStep window request message false { window with waiting := none } { shown }
  | signup {username password email : Text}
      (hrequest : request = .sendSignup username password email) :
      AnswerStep window request message true
        ({ window with waiting := none }.signedUp username password email) {}
  | login {username password : Text} (hrequest : request = .sendLogin username password) :
      AnswerStep window request message true
        { window with waiting := none, content := .menu, sessionToken := message.drop 2 }
        { shown := [str "Logged in"] }
  | email {username email : Text} (hrequest : request = .checkEmail username email) :
      AnswerStep window request message true
        ({ window with waiting := none }.mailed username email) {}
  | code {username password email code : Text} {verified : Window} {shown : WindowOutput}
      (hrequest : request = .checkCode username password email code)
      (hverified : { window with waiting := none }.verified code = (verified, shown)) :
      AnswerStep window request message true verified shown
  | newPassword {username password email code : Text}
      (hrequest : request = .sendNewPassword username password email code) :
      AnswerStep window request message true
        { window with waiting := none, content := .login }
        { shown := [str "Password changed successfully"] }
  | invite {token username : Text} {communicator : P2PCommunicator}
      (hrequest : request = .sendInvite token username)
      (hconnects : window.communicator.connectP2P message = .ok communicator) :
      AnswerStep window request message true
        { window with waiting := none, communicator, content := .ide }
        { calls := [.setOtherUser username] }

/-- A branch that a page takes belongs to its kind of request. -/
theorem pageDone_cases {kind : RequestKind} {message : Text} {branch : Branch}
    (hbranch : pageDone kind message = some branch) :
    branch.accepts = false ∨ kind = .login ∧ branch = .logsIn ∨
      kind = .signup ∧ branch = .opensVerification ∨
      kind = .mailCode ∧ branch = .opensVerification ∨
      kind = .codeCheck ∧ branch = .acceptsCode ∨
      kind = .newPass ∧ branch = .changesPassword ∨
      kind = .session ∧ branch = .connects := by
  cases message with
  | nil => cases kind <;> cases hbranch
  | cons code rest =>
    cases kind <;>
      simp only [pageDone, Login.done, Signup.done, PasswordRecovery.done, EmailVerfication.done,
        NewPassword.done, StartSession.done, Option.some.injEq] at hbranch <;>
      split_ifs at hbranch <;> subst hbranch <;> simp [Branch.accepts]

/-- Every answer is one of these steps, and it is accepted in all of them but the first. -/
theorem answerStep_of_answer {message : Text}
    (hanswer : window.answer message = some (next, output)) :
    ∃ request accepted, window.waiting = some request ∧
      acceptedAnswer ⟨window, .answer message, output, next⟩ =
        (if accepted then some (request, message) else none) ∧
      AnswerStep window request message accepted next output := by
  obtain ⟨request, hrequest, branch, hbranch, hfollow⟩ :
      ∃ request, window.waiting = some request ∧ ∃ branch,
        pageDone request.kind message = some branch ∧
          { window with waiting := none }.follow request message branch =
            some (next, output) := by
    simpa only [Window.answer, Option.bind_eq_bind, Option.bind_eq_some_iff] using hanswer
  refine ⟨request, branch.accepts, hrequest, ?_, ?_⟩
  · cases haccepts : branch.accepts <;> simp [acceptedAnswer, hrequest, hbranch, haccepts, guard]
  rcases pageDone_cases hbranch with hrejects | ⟨hkind, rfl⟩ | ⟨hkind, rfl⟩ | ⟨hkind, rfl⟩ |
    ⟨hkind, rfl⟩ | ⟨hkind, rfl⟩ | ⟨hkind, rfl⟩
  · rw [hrejects]
    cases branch <;> simp only [Branch.accepts, reduceCtorEq] at hrejects
    all_goals
      simp only [Window.follow, Window.shows] at hfollow
      cases hfollow
      exact .stays _
  all_goals
    cases request <;> simp only [ClientRequest.kind, reduceCtorEq] at hkind
    simp only [Window.follow] at hfollow
  · cases hfollow
    exact .login rfl
  · cases hfollow
    exact .signup rfl
  · cases hfollow
    exact .email rfl
  · exact .code rfl (Option.some.inj hfollow)
  · cases hfollow
    exact .newPassword rfl
  · obtain ⟨communicator, hconnects, hcall⟩ := Option.map_eq_some_iff.mp hfollow
    cases hcall
    refine .invite rfl ?_
    cases hdetails : window.communicator.connectP2P message with
    | error fault => simp [hdetails, Except.toOption] at hconnects
    | ok connected =>
      simp only [hdetails, Except.toOption, Option.some.injEq] at hconnects
      rw [hconnects]

end Steps

/-! ### The window follows the conversation -/

/-- What ties a window to the conversation: the page it is on, what its pages kept and the request
it waits for go with the phase. -/
structure InConversation (classes : CharClasses) (conversation : Conversation) (window : Window) :
    Prop where
  lastSignup : (window.pages.verificationUsername, window.pages.verificationPassword) =
    conversation.lastSignup
  loggedIn : window.content.needsLogin = true →
    conversation.phase = .loggedIn window.sessionToken
  front : window.content.needsLogin = false → conversation.phase.isLoggedIn = false
  verification : window.content = .verification →
    window.pages.verificationAction = str "signup" ∧
        conversation.phase = .signingUp window.pages.verificationUsername
          window.pages.verificationPassword window.pages.verificationEmail ∨
      window.pages.verificationAction = str "recovery" ∧
        window.pages.verificationEmail = window.pages.newPasswordEmail ∧
        conversation.phase = .recovering window.pages.newPasswordUsername
          window.pages.newPasswordEmail
  newPassword : window.content = .newPassword →
    conversation.phase = .changing window.pages.newPasswordUsername
      window.pages.newPasswordEmail window.pages.newPasswordCode
  waiting : ∀ request, window.waiting = some request → Asks classes window request

section Conversation

variable {classes : CharClasses} {endsWith : Text → Text → Bool} {conversation : Conversation}
  {window next : Window} {button : Press} {output : WindowOutput}

/-- A new window has had no conversation. -/
theorem inConversation_start (classes : CharClasses) (pathUi : Text) :
    InConversation classes {} { pathUi } := by
  constructor <;> simp [Page.needsLogin, Phase.isLoggedIn]

/-- What a window asks for, the conversation allows. -/
theorem InConversation.allows (hinvariant : InConversation classes conversation window)
    {request : ClientRequest} (hasks : Asks classes window request) :
    conversation.Allows classes request := by
  have hfront : ∀ {page : Page}, window.content = page → page.needsLogin = false →
      ¬ conversation.phase.isLoggedIn = true := by
    intro page hpage hneeds
    simpa using hinvariant.front (hpage ▸ hneeds)
  cases hasks with
  | signup hpage haccepted => exact ⟨hfront hpage rfl, haccepted⟩
  | login hpage => exact ⟨hfront hpage rfl, rfl, rfl⟩
  | email username email hpage => exact hfront hpage rfl
  | code codeText hpage =>
    rcases hinvariant.verification hpage with ⟨-, hphase⟩ | ⟨-, hemail, hphase⟩
    · exact .inl hphase
    · refine .inr ⟨hinvariant.lastSignup, window.pages.newPasswordUsername, ?_⟩
      rw [hphase, hemail]
  | newPassword hpage haccepted => exact ⟨hinvariant.newPassword hpage, haccepted⟩
  | invite hpage hname =>
    refine ⟨hinvariant.loggedIn ?_, hname⟩
    rw [hpage]
    rfl

/-- A press leaves the conversation where it is. -/
theorem InConversation.press (hinvariant : InConversation classes conversation window)
    (hwaiting : window.waiting = none) (hpress : PressStep classes window button next output) :
    InConversation classes conversation next := by
  have hidle : ∀ (other : Window) (request : ClientRequest),
      other.waiting = none → other.waiting = some request → Asks classes other request := by
    intro other request hnone hsome
    rw [hnone] at hsome
    cases hsome
  cases hpress with
  | stays shown => exact hinvariant
  | opens page pathUi folderPath hopens =>
    obtain ⟨hverification, hnewPassword, -, hneeds, -⟩ := hopens
    exact {
      lastSignup := hinvariant.lastSignup
      loggedIn := fun hpage ↦ hinvariant.loggedIn (hneeds.trans hpage)
      front := fun hpage ↦ hinvariant.front (hneeds.trans hpage)
      verification := fun hpage ↦ absurd hpage hverification
      newPassword := fun hpage ↦ absurd hpage hnewPassword
      waiting := fun request ↦ hidle _ request hwaiting }
  | sends request hasks =>
    refine { hinvariant with waiting := fun other hother ↦ ?_ }
    cases hother
    cases hasks with
    | signup hpage haccepted => exact .signup hpage haccepted
    | login hpage => exact .login hpage
    | email username email hpage => exact .email username email hpage
    | code codeText hpage => exact .code codeText hpage
    | newPassword hpage haccepted => exact .newPassword hpage haccepted
    | invite hpage hname => exact .invite hpage hname
  | project textInput hpage =>
    have hneeds : window.content.needsLogin = true := by
      rw [hpage]
      rfl
    exact {
      lastSignup := hinvariant.lastSignup
      loggedIn := fun _ ↦ hinvariant.loggedIn hneeds
      front := fun hfront ↦ absurd hfront (by simp [Page.needsLogin])
      verification := fun hother ↦ absurd hother (by simp)
      newPassword := fun hother ↦ absurd hother (by simp)
      waiting := fun request ↦ hidle _ request hwaiting }
  | file call hpage hcall =>
    have hneeds : window.content.needsLogin = true := by
      rcases hpage with hpage | hpage <;> rw [hpage] <;> rfl
    exact {
      lastSignup := hinvariant.lastSignup
      loggedIn := fun _ ↦ hinvariant.loggedIn hneeds
      front := fun hfront ↦ absurd hfront (by simp [Page.needsLogin])
      verification := fun hother ↦ absurd hother (by simp)
      newPassword := fun hother ↦ absurd hother (by simp)
      waiting := fun request ↦ hidle _ request hwaiting }

/-- A window that waits for nothing waits for nothing it did not ask. -/
theorem asks_of_idle {other : Window} (hidle : other.waiting = none) (request : ClientRequest)
    (hrequest : other.waiting = some request) : Asks classes other request := by
  rw [hidle] at hrequest
  cases hrequest

/-- The code that is accepted ends a signup, and brings a recovery to its new password. -/
theorem InConversation.verified (hinvariant : InConversation classes conversation window)
    (hpage : window.content = .verification) (username password email message : Text)
    {code : Text}
    (hverified : { window with waiting := none }.verified code = (next, output)) :
    InConversation classes
      (conversation.accept (.checkCode username password email code) message) next := by
  rcases hinvariant.verification hpage with ⟨haction, hphase⟩ | ⟨haction, -, hphase⟩
  · simp only [Window.verified, haction, if_true] at hverified
    cases hverified
    simp only [Conversation.accept, hphase]
    exact {
      lastSignup := hinvariant.lastSignup
      loggedIn := fun hneeds ↦ absurd hneeds (by simp [Page.needsLogin])
      front := fun _ ↦ rfl
      verification := fun hother ↦ absurd hother (by simp)
      newPassword := fun hother ↦ absurd hother (by simp)
      waiting := asks_of_idle rfl }
  · have hdifferent : str "recovery" ≠ str "signup" := by decide
    simp only [Window.verified, haction, hdifferent, if_false, if_true] at hverified
    cases hverified
    simp only [Conversation.accept, hphase]
    exact {
      lastSignup := hinvariant.lastSignup
      loggedIn := fun hneeds ↦ absurd hneeds (by simp [Page.needsLogin])
      front := fun _ ↦ rfl
      verification := fun hother ↦ absurd hother (by simp)
      newPassword := fun _ ↦ rfl
      waiting := asks_of_idle rfl }

/-- An accepted answer takes the conversation on, and another one leaves it where it is. -/
theorem InConversation.answer (hinvariant : InConversation classes conversation window)
    {request : ClientRequest} {message : Text} {accepted : Bool}
    (hwaiting : window.waiting = some request)
    (hanswer : AnswerStep window request message accepted next output) :
    InConversation classes
      (if accepted then conversation.accept request message else conversation) next := by
  have hasks := hinvariant.waiting request hwaiting
  cases hanswer with
  | stays shown => exact { hinvariant with waiting := asks_of_idle rfl }
  | signup hrequest =>
    subst hrequest
    exact {
      lastSignup := rfl
      loggedIn := fun hneeds ↦ absurd hneeds (by simp [Window.signedUp, Page.needsLogin])
      front := fun _ ↦ rfl
      verification := fun _ ↦ .inl ⟨rfl, rfl⟩
      newPassword := fun hother ↦ absurd hother (by simp [Window.signedUp])
      waiting := asks_of_idle rfl }
  | login hrequest =>
    subst hrequest
    exact {
      lastSignup := hinvariant.lastSignup
      loggedIn := fun _ ↦ rfl
      front := fun hneeds ↦ absurd hneeds (by simp [Page.needsLogin])
      verification := fun hother ↦ absurd hother (by simp)
      newPassword := fun hother ↦ absurd hother (by simp)
      waiting := asks_of_idle rfl }
  | email hrequest =>
    subst hrequest
    exact {
      lastSignup := hinvariant.lastSignup
      loggedIn := fun hneeds ↦ absurd hneeds (by simp [Window.mailed, Page.needsLogin])
      front := fun _ ↦ rfl
      verification := fun _ ↦ .inr ⟨rfl, rfl, rfl⟩
      newPassword := fun hother ↦ absurd hother (by simp [Window.mailed])
      waiting := asks_of_idle rfl }
  | @code username password email code verified shown hrequest hverified =>
    subst hrequest
    exact hinvariant.verified hasks.page username password email message hverified
  | newPassword hrequest =>
    subst hrequest
    exact {
      lastSignup := hinvariant.lastSignup
      loggedIn := fun hneeds ↦ absurd hneeds (by simp [Page.needsLogin])
      front := fun _ ↦ rfl
      verification := fun hother ↦ absurd hother (by simp)
      newPassword := fun hother ↦ absurd hother (by simp)
      waiting := asks_of_idle rfl }
  | invite hrequest hconnects =>
    subst hrequest
    have hneeds : window.content.needsLogin = true := by
      rw [hasks.page]
      rfl
    exact {
      lastSignup := hinvariant.lastSignup
      loggedIn := fun _ ↦ hinvariant.loggedIn hneeds
      front := fun hfront ↦ absurd hfront (by simp [Page.needsLogin])
      verification := fun hother ↦ absurd hother (by simp)
      newPassword := fun hother ↦ absurd hother (by simp)
      waiting := asks_of_idle rfl }

/-- An answer makes the window send nothing. -/
theorem sent_of_answerStep {request : ClientRequest} {message : Text} {accepted : Bool}
    (hanswer : AnswerStep window request message accepted next output) : output.sent = none := by
  cases hanswer with
  | code hrequest hverified =>
    unfold Window.verified at hverified
    split_ifs at hverified <;> cases hverified <;> rfl
  | stays | signup | login | email | newPassword | invite => rfl

/-- What a step sends, the page asked for. -/
theorem asks_of_sent {event : WindowEvent} {request : ClientRequest}
    (hstep : window.step classes endsWith event = some (next, output))
    (hsent : output.sent = some request) : Asks classes window request := by
  cases event with
  | press button =>
    obtain ⟨-, hpress⟩ := pressStep_of_press hstep
    cases hpress with
    | sends asked hasks =>
      cases hsent
      exact hasks
    | stays | opens | project | file => cases hsent
  | answer message =>
    obtain ⟨asked, accepted, -, -, hanswer⟩ := answerStep_of_answer hstep
    rw [sent_of_answerStep hanswer] at hsent
    cases hsent

/-- Every step of a window keeps to the conversation. -/
theorem InConversation.step {history : List WindowRecord} {event : WindowEvent}
    (hinvariant : InConversation classes (conversationOf history) window)
    (hstep : window.step classes endsWith event = some (next, output)) :
    InConversation classes (conversationOf (history ++ [⟨window, event, output, next⟩])) next := by
  rw [conversationOf_snoc]
  cases event with
  | press button =>
    obtain ⟨hwaiting, hpress⟩ := pressStep_of_press hstep
    exact hinvariant.press hwaiting hpress
  | answer message =>
    obtain ⟨request, accepted, hwaiting, haccepted, hanswer⟩ := answerStep_of_answer hstep
    rw [haccepted]
    have hnext := hinvariant.answer hwaiting hanswer
    cases accepted with
    | false => exact hnext
    | true => exact hnext

end Conversation

/-! ### Whole runs -/

section Runs

variable {classes : CharClasses} {endsWith : Text → Text → Bool} {pathUi : Text}
  {history : List WindowRecord} {window : Window}

theorem inConversation_of_run (hrun : WindowRun classes endsWith pathUi history window) :
    InConversation classes (conversationOf history) window :=
  hrun.relation (fun history window ↦ InConversation classes (conversationOf history) window)
    (inConversation_start classes pathUi) fun _ _ _ _ _ _ hinvariant hstep ↦ hinvariant.step hstep

/-- The requests a step sends are those the conversation allows. -/
def SendsAllowed (classes : CharClasses) (earlier : List WindowRecord) (record : WindowRecord) :
    Prop :=
  ∀ request, record.observation.sent = some request →
    (conversationOf earlier).Allows classes request

/-- Whatever the answers are, every request of a window is one that the answers accepted so far
allow: the code of a signup goes with its data, the code of a recovery with its email and with what
the signup accepted last left in the page, a new password with the code accepted for the same
recovery, and an invite with the token of the login. -/
theorem sent_allowed (hrun : WindowRun classes endsWith pathUi history window) :
    EveryStep (SendsAllowed classes) history := by
  have htrue : EveryStep (fun _ _ ↦ True) history := fun _ _ _ _ ↦ trivial
  refine hrun.everyStep_of_everyStep ?_ htrue
  intro earlier record hrun _ _ hstep request hsent
  exact (inConversation_of_run hrun).allows (asks_of_sent hstep hsent)

/-- A signup is sent, and its code is accepted with what the signup left in the page. The code of a
recovery for another user goes with the username and the password of that signup too, and the new
password with the user of the recovery. The invite of the user who logs in carries the token. -/
theorem sent_allowed_recovery : ∃ history window,
    WindowRun asciiClasses (fun _ _ ↦ true) [] history window ∧
      (history.filterMap fun record ↦ record.observation.sent) =
        [.sendSignup (str "bob") (str "Abcdefg1") (str "b@x.y"),
          .checkCode (str "bob") (str "Abcdefg1") (str "b@x.y") (str "100000"),
          .checkEmail (str "ann") (str "a@x.y"),
          .checkCode (str "bob") (str "Abcdefg1") (str "a@x.y") (str "200000"),
          .sendNewPassword (str "ann") (str "Abcdefg2") (str "a@x.y") (str "200000"),
          .sendLogin (str "Hammer") (str "Hammer1234"),
          .sendInvite (str "token") (str "ann")] ∧
      EveryStep (SendsAllowed asciiClasses) history := by
  obtain ⟨history, window, hrun, -, hcheck⟩ := exists_run_of_execute
    (Window.step asciiClasses fun _ _ ↦ true) { pathUi := [] }
    [.press .signup, .press (.signupDone (str "bob") (str "Abcdefg1") (str "b@x.y")),
      .answer (str "9:bob"), .press (.verificationDone (str "100000")), .answer (str "9"),
      .press .forgotPassword, .press (.recoveryDone (str "ann") (str "a@x.y")), .answer (str "9"),
      .press (.verificationDone (str "200000")), .answer (str "9"),
      .press (.newPasswordDone (str "Abcdefg2") (str "Abcdefg2")), .answer (str "9"),
      .press (.loginDone (str "bob") (str "Abcdefg1")), .answer (str "9:token"),
      .press .newProject, .press .cpp, .press (.selectDirectory (str "d")),
      .press (.projectDone (str "p")), .press .startSession, .press (.sessionDone (str "ann"))]
    (fun history _ ↦ (history.filterMap fun record ↦ record.observation.sent) =
      [.sendSignup (str "bob") (str "Abcdefg1") (str "b@x.y"),
        .checkCode (str "bob") (str "Abcdefg1") (str "b@x.y") (str "100000"),
        .checkEmail (str "ann") (str "a@x.y"),
        .checkCode (str "bob") (str "Abcdefg1") (str "a@x.y") (str "200000"),
        .sendNewPassword (str "ann") (str "Abcdefg2") (str "a@x.y") (str "200000"),
        .sendLogin (str "Hammer") (str "Hammer1234"),
        .sendInvite (str "token") (str "ann")]) (by decide +kernel)
  exact ⟨history, window, hrun, of_decide_eq_true hcheck, sent_allowed hrun⟩

/-! ### The project -/

/-- Whether a call opens a project. -/
def EditorCall.opensProject : EditorCall → Bool
  | .setProjectDetails _ _ _ => true
  | _ => false

/-- The calls into the editor during a run. -/
def editorCalls (history : List WindowRecord) : List EditorCall :=
  history.flatMap fun record ↦ record.observation.calls

/-- The calls of a window that is not in the editor yet are none, and those of one that is begin
with the only one that opens a project, in a folder of the project's name. -/
def ProjectFirst (calls : List EditorCall) (window : Window) : Prop :=
  window.content.inProject = false ∧ calls = [] ∨
    window.content.inProject = true ∧ ∃ projectPath projectName rest,
      calls = .setProjectDetails projectPath (projectPath.getD [] ++ str "\\" ++ projectName)
        projectName :: rest ∧
      ∀ call ∈ rest, call.opensProject = false

/-- A step that stays where it is with respect to the project, and opens none. -/
theorem ProjectFirst.step_same {calls made : List EditorCall} {next : Window}
    (hproject : ProjectFirst calls window)
    (hcontent : next.content.inProject = window.content.inProject)
    (hmade : window.content.inProject = false → made = [])
    (hopens : ∀ call ∈ made, call.opensProject = false) : ProjectFirst (calls ++ made) next := by
  rcases hproject with ⟨hout, rfl⟩ | ⟨hin, projectPath, projectName, rest, rfl, hrest⟩
  · exact .inl ⟨hcontent.trans hout, hmade hout⟩
  · refine .inr ⟨hcontent.trans hin, projectPath, projectName, rest ++ made, by simp, ?_⟩
    intro call hcall
    rcases List.mem_append.mp hcall with hold | hnew
    · exact hrest call hold
    · exact hopens call hnew

/-- An accepted code leads to no page of the editor. -/
theorem inProject_verified (window : Window) (hpage : window.content = .verification)
    (codeText : Text) : (window.verified codeText).1.content.inProject = false ∧
      (window.verified codeText).2.calls = [] := by
  unfold Window.verified
  split_ifs <;> simp [Page.inProject, hpage]

/-- Every step keeps the calls in this shape. -/
theorem ProjectFirst.step {conversation : Conversation} {calls : List EditorCall}
    {event : WindowEvent} {next : Window} {output : WindowOutput}
    (hproject : ProjectFirst calls window)
    (hinvariant : InConversation classes conversation window)
    (hstep : window.step classes endsWith event = some (next, output)) :
    ProjectFirst (calls ++ output.calls) next := by
  cases event with
  | press button =>
    obtain ⟨-, hpress⟩ := pressStep_of_press hstep
    cases hpress with
    | stays | sends => exact hproject.step_same rfl (fun _ ↦ rfl) (by simp)
    | opens page pathUi folderPath hopens =>
      exact hproject.step_same hopens.2.2.2.2.symm (fun _ ↦ rfl) (by simp)
    | project textInput hpage =>
      rcases hproject with ⟨-, rfl⟩ | ⟨hin, -⟩
      · exact .inr ⟨rfl, _, _, [], rfl, by simp⟩
      · rw [hpage] at hin
        cases hin
    | file call hpage hcall =>
      have hin : window.content.inProject = true := by
        rcases hpage with hpage | hpage <;> rw [hpage] <;> rfl
      refine hproject.step_same hin.symm (fun hout ↦ ?_) ?_
      · rw [hin] at hout
        cases hout
      · intro other hother
        rw [List.mem_singleton.mp hother]
        cases call with
        | setProjectDetails projectPath filesPath projectName => exact absurd rfl (hcall _ _ _)
        | setNewFileName | removeFile | setOtherUser => rfl
  | answer message =>
    obtain ⟨request, accepted, hwaiting, -, hanswer⟩ := answerStep_of_answer hstep
    have hasks := hinvariant.waiting request hwaiting
    cases hanswer with
    | stays => exact hproject.step_same rfl (fun _ ↦ rfl) (by simp)
    | signup hrequest | login hrequest | email hrequest | newPassword hrequest =>
      subst hrequest
      refine hproject.step_same ?_ (fun _ ↦ rfl) (by simp)
      rw [hasks.page]
      rfl
    | @code _ _ _ code _ _ hrequest hverified =>
      subst hrequest
      obtain ⟨hout, hcalls⟩ := inProject_verified { window with waiting := none } hasks.page code
      rw [hverified] at hout hcalls
      rw [hcalls]
      refine hproject.step_same ?_ (fun _ ↦ rfl) (by simp)
      rw [hout, hasks.page]
      rfl
    | invite hrequest hconnects =>
      subst hrequest
      have hin : window.content.inProject = true := by
        rw [hasks.page]
        rfl
      refine hproject.step_same hin.symm (fun hout ↦ ?_) ?_
      · rw [hin] at hout
        cases hout
      · simp [EditorCall.opensProject]

/-- The directory selected last, if one was selected. -/
def chosenFolder (history : List WindowRecord) : Option Text :=
  (history.filterMap fun record ↦
    match record.event with
    | .press button => button.directory
    | .answer _ => none).getLast?

/-- A project that a step opens has the name typed into the page, in the directory selected last. It
is opened in none when none was selected, and then `PathUi` showed a text from the start. -/
def OpensChosen (pathUi : Text) (earlier : List WindowRecord) (record : WindowRecord) : Prop :=
  ∀ projectPath filesPath projectName,
    .setProjectDetails projectPath filesPath projectName ∈ record.observation.calls →
      record.event = .press (.projectDone projectName) ∧ projectPath = chosenFolder earlier ∧
        filesPath = projectPath.getD [] ++ str "\\" ++ projectName ∧
          (projectPath = none → pathUi ≠ [])

/-- The page remembers the directory selected last, and shows a path only if there is one or the
page showed a path from the start. -/
def FolderKept (pathUi : Text) (history : List WindowRecord) (window : Window) : Prop :=
  window.folderPath = chosenFolder history ∧
    (window.pathUi ≠ [] → window.folderPath = none → pathUi ≠ [])

/-- No answer touches the path. -/
theorem path_of_answerStep {request : ClientRequest} {message : Text} {accepted : Bool}
    {next : Window} {output : WindowOutput}
    (hanswer : AnswerStep window request message accepted next output) :
    next.folderPath = window.folderPath ∧ next.pathUi = window.pathUi := by
  cases hanswer with
  | code hrequest hverified =>
    unfold Window.verified at hverified
    split_ifs at hverified <;> cases hverified <;> exact ⟨rfl, rfl⟩
  | stays | signup | login | email | newPassword | invite => exact ⟨rfl, rfl⟩

/-- An answer opens no project. -/
theorem opensProject_of_answerStep {request : ClientRequest} {message : Text} {accepted : Bool}
    {next : Window} {output : WindowOutput}
    (hanswer : AnswerStep window request message accepted next output) :
    ∀ call ∈ output.calls, call.opensProject = false := by
  cases hanswer with
  | code hrequest hverified =>
    unfold Window.verified at hverified
    split_ifs at hverified <;> cases hverified <;> simp
  | stays | signup | login | email | newPassword => simp
  | invite => simp [EditorCall.opensProject]

theorem chosenFolder_press (history : List WindowRecord) (before after : Window) (button : Press)
    (output : WindowOutput) :
    chosenFolder (history ++ [⟨before, .press button, output, after⟩]) =
      button.directory.or (chosenFolder history) := by
  simp only [chosenFolder, List.filterMap_append, List.getLast?_append]
  cases hdirectory : button.directory <;> simp [hdirectory]

theorem chosenFolder_answer (history : List WindowRecord) (before after : Window) (message : Text)
    (output : WindowOutput) :
    chosenFolder (history ++ [⟨before, .answer message, output, after⟩]) =
      chosenFolder history := by
  simp [chosenFolder]

theorem FolderKept.step {event : WindowEvent} {next : Window} {output : WindowOutput}
    (hkept : FolderKept pathUi history window)
    (hstep : window.step classes endsWith event = some (next, output)) :
    FolderKept pathUi (history ++ [⟨window, event, output, next⟩]) next := by
  obtain ⟨hfolder, hpath⟩ := hkept
  cases event with
  | press button =>
    obtain ⟨-, hpress⟩ := pressStep_of_press hstep
    rw [FolderKept, chosenFolder_press, ← hfolder]
    cases hpress with
    | stays _ hsame | sends _ _ hsame | file _ _ _ hsame =>
      rw [hsame]
      exact ⟨rfl, hpath⟩
    | project textInput hpage hbutton =>
      rw [hbutton]
      exact ⟨rfl, hpath⟩
    | opens page shown folderPath hopens hselected hshown =>
      refine ⟨hselected, fun hne hnone ↦ ?_⟩
      rcases hshown with rfl | rfl | hsome
      · refine hpath hne ?_
        rw [show folderPath = none from hnone] at hselected
        exact (Option.or_eq_none_iff.mp hselected.symm).2
      · exact absurd rfl hne
      · exact absurd hnone hsome
  | answer message =>
    obtain ⟨request, accepted, -, -, hanswer⟩ := answerStep_of_answer hstep
    obtain ⟨hsame, hshown⟩ := path_of_answerStep hanswer
    rw [FolderKept, chosenFolder_answer, hsame, hshown]
    exact ⟨hfolder, hpath⟩

/-- A project is opened by the button of the project page. -/
theorem FolderKept.opensChosen {event : WindowEvent} {next : Window} {output : WindowOutput}
    (hkept : FolderKept pathUi history window)
    (hstep : window.step classes endsWith event = some (next, output)) :
    OpensChosen pathUi history ⟨window, event, output, next⟩ := by
  intro projectPath filesPath projectName hcall
  cases event with
  | press button =>
    obtain ⟨-, hpress⟩ := pressStep_of_press hstep
    cases hpress with
    | stays | opens | sends => cases hcall
    | file call _ hother => exact absurd (List.mem_singleton.mp hcall).symm (hother _ _ _)
    | project textInput hpage hbutton hpath =>
      cases List.mem_singleton.mp hcall
      exact ⟨by rw [hbutton], hkept.1, rfl, hkept.2 hpath⟩
  | answer message =>
    obtain ⟨request, accepted, -, -, hanswer⟩ := answerStep_of_answer hstep
    cases opensProject_of_answerStep hanswer _ hcall

/-- In every run, whatever the answers are, the editor is called only after a login was accepted and
only once a project is open: the first call opens it, and no later one opens another. The project
has the name typed into the page, in the directory selected last, or in none where the page showed a
path from the start. -/
theorem project_opened_once (hrun : WindowRun classes endsWith pathUi history window) :
    ProjectFirst (editorCalls history) window ∧
      (editorCalls history ≠ [] →
        (conversationOf history).phase = .loggedIn window.sessionToken) ∧
      EveryStep (OpensChosen pathUi) history := by
  have hboth : InConversation classes (conversationOf history) window ∧
      ProjectFirst (editorCalls history) window := by
    refine hrun.relation (fun history window ↦ InConversation classes (conversationOf history)
      window ∧ ProjectFirst (editorCalls history) window)
      ⟨inConversation_start classes pathUi, .inl ⟨rfl, rfl⟩⟩ ?_
    rintro history window event next output - ⟨hinvariant, hproject⟩ hstep
    refine ⟨hinvariant.step hstep, ?_⟩
    simpa [editorCalls] using hproject.step hinvariant hstep
  have hkept : ∀ {history : List WindowRecord} {window : Window},
      WindowRun classes endsWith pathUi history window → FolderKept pathUi history window :=
    fun hrun ↦ hrun.relation (FolderKept pathUi) ⟨rfl, fun hshown _ ↦ hshown⟩
      fun _ _ _ _ _ _ hkept hstep ↦ hkept.step hstep
  refine ⟨hboth.2, fun hcalls ↦ hboth.1.loggedIn ?_, ?_⟩
  · rcases hboth.2 with ⟨-, hnone⟩ | ⟨hin, -⟩
    · exact absurd hnone hcalls
    · cases hpage : window.content <;> simp_all [Page.inProject, Page.needsLogin]
  · intro earlier record later hsplit
    subst hsplit
    exact (hkept hrun.split.1).opensChosen hrun.split.2

/-- A directory is selected, then another one, a project is opened in it, a file is added and
another one removed. -/
theorem project_opened_once_files : ∃ history window,
    WindowRun asciiClasses (fun _ _ ↦ true) [] history window ∧
      editorCalls history = [.setProjectDetails (some (str "d")) (str "d\\p") (str "p"),
        .setNewFileName (str "a.h"), .removeFile (str "p.cpp")] ∧
      ProjectFirst (editorCalls history) window ∧ EveryStep (OpensChosen []) history := by
  obtain ⟨history, window, hrun, -, hcheck⟩ := exists_run_of_execute
    (Window.step asciiClasses fun _ _ ↦ true) { pathUi := [] }
    [.press .login, .press (.loginDone (str "bob") (str "word")), .answer (str "9:token"),
      .press .newProject, .press .cpp, .press (.selectDirectory (str "c")),
      .press (.selectDirectory (str "d")), .press (.projectDone (str "p")), .press .newFileItem,
      .press (.newFileDone (str "a") (some (str ".h"))), .press .removeFileItem,
      .press (.deleteFileDone (str "p.cpp"))]
    (fun history _ ↦ editorCalls history =
      [.setProjectDetails (some (str "d")) (str "d\\p") (str "p"), .setNewFileName (str "a.h"),
        .removeFile (str "p.cpp")]) (by decide +kernel)
  obtain ⟨hproject, -, hchosen⟩ := project_opened_once hrun
  exact ⟨history, window, hrun, of_decide_eq_true hcheck, hproject, hchosen⟩

end Runs

end NovaIde.Protocol
