import CardPang.Service

/-!
# The home screen and the screens that sign a user in

`HomeController`, and of `LoginController` and `RegistrationController` the handlers
that reach `Service` and end in `authenticationComplete`. What is shown is kept as
the list of calls that show or dismiss something.
-/
namespace CardPang.HomeController
open CallbackProgram Firebase Service

structure Label where
  text : String
  alpha : ℕ
  deriving DecidableEq, Repr

inductive Screen
  | home
  | login
  | onboarding
  deriving DecidableEq, Repr

inductive UICall
  | present (screen : Screen)
  | dismiss (screen : Screen)
  | showMessage (title message : String)
  deriving DecidableEq, Repr

structure Home where
  user : Option User
  welcomeLabel : Label
  calls : List UICall
  /-- The session at each call of `authenticationComplete`. -/
  authentications : List (Option String)
  deriving DecidableEq, Repr

def Home.loaded : Home := ⟨none, ⟨"Welcome User", 0⟩, [], []⟩

/-- `MSG_NOT_RIGHT_EMAIL_OR_PASSWORD`. -/
def msgNotRightEmailOrPassword : String := "이메일 또는 비밀번호가 잘못된 형식입니다."

def noteCall (c : UICall) (h : Home) : Home := { h with calls := h.calls ++ [c] }

def presentOnboardingIfNeccessary (h : Home) : Home :=
  match h.user with
  | none => h
  | some user => if user.hasSeenOnboarding then h else noteCall (.present .onboarding) h

def showWelcomeLabel (h : Home) : Home :=
  match h.user with
  | none => h
  | some user =>
    if user.hasSeenOnboarding then
      { h with welcomeLabel := ⟨"환영합니다, " ++ user.fullname ++ " 님!", 1⟩ }
    else h

/-- `self.user = user`, with its `didSet`. -/
def setUser (user : User) (h : Home) : Home :=
  showWelcomeLabel (presentOnboardingIfNeccessary { h with user := some user })

/-- `self.user?.hasSeenOnboarding = true`: without a user nothing is assigned. -/
def setHasSeenOnboarding (h : Home) : Home :=
  match h.user with
  | none => h
  | some user => setUser { user with hasSeenOnboarding := true } h

inductive Action
  | authenticated
  | ui (c : UICall)
  | setUser (user : User)
  | setHasSeenOnboarding
  | signOut
  deriving DecidableEq, Repr

def act : Action → Device Home → Device Home
  | .authenticated, d =>
    { d with app := { d.app with authentications := d.app.authentications ++ [d.currentUser] } }
  | .ui c, d => { d with app := noteCall c d.app }
  | .setUser user, d => { d with app := setUser user d.app }
  | .setHasSeenOnboarding, d => { d with app := setHasSeenOnboarding d.app }
  | .signOut, d => { d with currentUser := none }

abbrev HomeProgram := Program Action Home

def fetchUser : HomeProgram := Service.fetchUser fun user => .act (.setUser user) .done

def authenticationComplete : HomeProgram :=
  .act .authenticated (.act (.ui (.dismiss .home)) fetchUser)

def authenticateUser : HomeProgram :=
  .read fun d =>
    match d.currentUser with
    | none => .act (.ui (.present .login)) .done
    | some _ => fetchUser

def viewDidLoad : HomeProgram := authenticateUser

def logout (throws : Bool) : HomeProgram :=
  if throws then .done else .act .signOut (.act (.ui (.present .login)) .done)

def controllerWantsToDismiss : HomeProgram :=
  .act (.ui (.dismiss .onboarding))
    (updateUserHasSeenOnboarding fun _ _ => .act .setHasSeenOnboarding .done)

/-- `LoginController.handleLogin`. -/
def handleLogin (email password : Option String) : HomeProgram :=
  match email with
  | none => .done
  | some email =>
    match password with
    | none => .done
    | some password =>
      logUserIn email password fun reply =>
        match reply.error with
        | some _ => .done
        | none => authenticationComplete

/-- `RegistrationController.handleSignUP`. -/
def handleSignUP (email password fullname : Option String) : HomeProgram :=
  match email with
  | none => .done
  | some email =>
    match password with
    | none => .done
    | some password =>
      match fullname with
      | none => .done
      | some fullname =>
        registerUserWithFirebase email password fullname fun error _ =>
          match error with
          | some _ => .act (.ui (.showMessage "" msgNotRightEmailOrPassword)) .done
          | none => authenticationComplete

/-- `LoginController.sign(_:didSignInFor:withError:)`. A missing user is unwrapped
where `signInWithGoogle` takes it. -/
def signDidSignInFor (user : Option GIDGoogleUser) (_error : Option BackendError) : HomeProgram :=
  match user with
  | none => .trap
  | some user =>
    signInWithGoogle user fun _ _ =>
      authenticationComplete.andThen (.act (.ui (.dismiss .login)) .done)

inductive Input
  | viewDidLoad
  | handleLogin (email password : Option String)
  | handleSignUP (email password fullname : Option String)
  | signDidSignInFor (user : Option GIDGoogleUser) (error : Option BackendError)
  | logout (throws : Bool)
  | controllerWantsToDismiss
  deriving DecidableEq, Repr

def handler : Input → HomeProgram
  | .viewDidLoad => viewDidLoad
  | .handleLogin email password => handleLogin email password
  | .handleSignUP email password fullname => handleSignUP email password fullname
  | .signDidSignInFor user error => signDidSignInFor user error
  | .logout throws => logout throws
  | .controllerWantsToDismiss => controllerWantsToDismiss

def platform : Platform Reply Action (Device Home) Backend Answer Input where
  act := act
  receive := receive
  serve := serve
  handler := handler

abbrev HomeWorld (ι : Type) := World Reply Action (Device Home) Backend ι

abbrev HomeEvent (ι : Type) := Event Answer Input ι

/-- Every device has just launched the app, with or without a session from before. -/
def Launched {ι : Type} (w : HomeWorld ι) : Prop :=
  ∀ i, ∃ session, w.client i = Client.start ⟨session, Home.loaded⟩

/-- One device that has just launched the app. -/
def oneDevice (b : Backend) (session : Option String) : HomeWorld Unit :=
  ⟨b, fun _ => Client.start ⟨session, Home.loaded⟩⟩

theorem oneDevice_launched (b : Backend) (session : Option String) :
    Launched (oneDevice b session) := fun _ => ⟨session, rfl⟩

end CardPang.HomeController
