import CardPang.AuthenticationForm
import CardPang.ProgressHUD
import CardPang.LabelledRun

/-!
# The screens that sign a user in

The navigation that the home screen presents: the login screen, and above it at most a
registration or a password reset. All screens share one HUD, shown while a request is
under way. A request is answered at some later step, or never.
-/
namespace CardPang.Authentication
open LabelledRun ProgressHUD

structure ViewController where
  id : ℕ
  kind : FormKind
  form : Form
  /-- The login screen that a password reset reports to. -/
  delegate : Option ℕ

inductive Request
  | logUserIn (email password : String)
  | registerUserWithFirebase (email password fullname : String)
  | resetPassword (email : String)
  deriving DecidableEq, Repr

/-- A request that waits for its answer, with what its completion refers to. -/
structure Pending where
  sender : ℕ
  delegate : Option ℕ
  request : Request
  deriving DecidableEq, Repr

/-- The screens, topmost first; none while the navigation is not presented. -/
structure Flow where
  viewControllers : List ViewController
  nextId : ℕ
  hud : HUD ℕ
  pending : List Pending
  messages : List String

def Flow.launched : Flow := ⟨[], 0, HUD.initial, [], []⟩

def msgResetPasswordLinkSent : String := "해당 이메일로 초기화 링크를 보내드렸습니다."
def msgNotRightEmailOrPassword : String := "이메일 또는 비밀번호가 잘못된 형식입니다."
def msgNotRightEmail : String := "잘못된 이메일 형식입니다."

def showLoader (shown : Bool) (view : ℕ) (f : Flow) : Flow :=
  { f with hud := if shown then f.hud.showInView view else f.hud.dismiss }

/-- Whether a screen is in the navigation. -/
def Flow.holds (f : Flow) (view : ℕ) : Bool := f.viewControllers.any fun c => c.id == view

/-- The alert is presented over the screen that asks for it. A screen that was popped or
dismissed presents none. -/
def showMessage (message : String) (view : ℕ) (f : Flow) : Flow :=
  if f.holds view then { f with messages := f.messages ++ [message] } else f

/-- A screen gets a fresh number when it is created. -/
def pushViewController (kind : FormKind) (form : Form) (delegate : Option ℕ) (f : Flow) : Flow :=
  { f with
    viewControllers := ⟨f.nextId, kind, form, delegate⟩ :: f.viewControllers
    nextId := f.nextId + 1 }

/-- The root of a navigation is not popped. -/
def popViewController (f : Flow) : Flow :=
  match f.viewControllers with
  | _ :: next :: rest => { f with viewControllers := next :: rest }
  | _ => f

def presentLoginController (f : Flow) : Flow := pushViewController .login Form.loaded none f

/-- `HomeController.authenticationComplete` dismisses the navigation. -/
def authenticationComplete (f : Flow) : Flow := { f with viewControllers := [] }

/-- What `handleLogin`, `handleSignUP` and `handleResetPassword` ask for. -/
def ViewController.request (c : ViewController) : Option Request :=
  match c.kind with
  | .login => some (.logUserIn (c.form.text .email) (c.form.text .password))
  | .registration =>
    some (.registerUserWithFirebase (c.form.text .email) (c.form.text .password)
      (c.form.text .fullname))
  | .resetPassword => (c.form.viewModel .email).map .resetPassword

/-- The button of the topmost screen: the loader is shown and the request sent. -/
def touchButton (f : Flow) : Flow :=
  match f.viewControllers with
  | [] => f
  | top :: _ =>
    match top.request with
    | none => f
    | some r =>
      let f := showLoader true top.id f
      { f with pending := f.pending ++ [⟨top.id, top.delegate, r⟩] }

def showForgotPassword (f : Flow) : Flow :=
  match f.viewControllers with
  | [] => f
  | top :: _ =>
    pushViewController .resetPassword (loadEmail (some (top.form.text .email)) Form.loaded)
      (some top.id) f

def showRegisterationController (f : Flow) : Flow :=
  pushViewController .registration Form.loaded none f

/-- `LoginController.didSendResetPasswordLink`: the login screen pops its navigation, whatever
is on top. One that was dismissed has no navigation. -/
def didSendResetPasswordLink (login : ℕ) (f : Flow) : Flow :=
  showMessage msgResetPasswordLinkSent login (if f.holds login then popViewController f else f)

/-- The completions of the three handlers. -/
def completion (p : Pending) (failed : Bool) (f : Flow) : Flow :=
  let f := showLoader false p.sender f
  match p.request with
  | .logUserIn _ _ => if failed then f else authenticationComplete f
  | .registerUserWithFirebase _ _ _ =>
    if failed then showMessage msgNotRightEmailOrPassword p.sender f
    else authenticationComplete f
  | .resetPassword _ =>
    if failed then showMessage msgNotRightEmail p.sender f
    else
      match p.delegate with
      | none => f
      | some login => didSendResetPasswordLink login f

def answer (n : ℕ) (failed : Bool) (f : Flow) : Flow :=
  match f.pending[n]? with
  | none => f
  | some p => completion p failed { f with pending := f.pending.eraseIdx n }

def editTop (field : Field) (text : String) (f : Flow) : Flow :=
  match f.viewControllers with
  | [] => f
  | top :: rest =>
    { f with viewControllers := { top with form := edit top.kind field text top.form } :: rest }

inductive Event
  | presentLoginController
  | edit (field : Field) (text : String)
  | touchButton
  | showForgotPassword
  | showRegisterationController
  | goBack
  | googleSignIn
  | answer (n : ℕ) (failed : Bool)
  | animationFinished
  | viewReleased (view : ℕ)
  deriving DecidableEq, Repr

/-- `goBack` is `handleGoBack` or `showLoginController`; `googleSignIn` is the completion of
`sign(_:didSignInFor:withError:)`, which shows no loader. -/
def next (f : Flow) : Event → Flow
  | .presentLoginController => presentLoginController f
  | .edit field text => editTop field text f
  | .touchButton => touchButton f
  | .showForgotPassword => showForgotPassword f
  | .showRegisterationController => showRegisterationController f
  | .goBack => popViewController f
  | .googleSignIn => authenticationComplete f
  | .answer n failed => answer n failed f
  | .animationFinished => { f with hud := f.hud.animationFinished }
  | .viewReleased view => { f with hud := f.hud.viewReleased view }

/-- A topmost screen that the HUD does not block. -/
def Touchable (f : Flow) (top : ViewController) : Prop :=
  f.viewControllers.head? = some top ∧ ¬ f.hud.Blocks top.id

/-- When an event can come. A view is kept by its navigation and by each request of its
screen. -/
def Enabled (f : Flow) : Event → Prop
  | .presentLoginController => f.viewControllers = []
  | .edit field _ => ∃ top, Touchable f top ∧ field ∈ top.kind.fields
  | .touchButton => ∃ top, Touchable f top ∧ top.form.button.isEnabled = true
  | .showForgotPassword => ∃ top, Touchable f top ∧ top.kind = .login
  | .showRegisterationController => ∃ top, Touchable f top ∧ top.kind = .login
  | .goBack => ∃ top, Touchable f top ∧ top.kind ≠ .login
  | .googleSignIn => True
  | .answer n _ => n < f.pending.length
  | .animationFinished => 0 < f.hud.animations
  | .viewReleased view =>
    (∀ c ∈ f.viewControllers, c.id ≠ view) ∧ ∀ p ∈ f.pending, p.sender ≠ view

def Step (f : Flow) (e : Event) (g : Flow) : Prop := Enabled f e ∧ g = next f e

/-- A login screen, alone or below one other screen. A password reset reports to it. -/
inductive Stack : List ViewController → Prop
  | absent : Stack []
  | login {c : ViewController} (h : c.kind = .login) : Stack [c]
  | above {top c : ViewController} (h : c.kind = .login) (ht : top.kind ≠ .login)
      (hid : top.id ≠ c.id) (hd : top.kind = .resetPassword → top.delegate = some c.id) :
      Stack [top, c]

/-- No text of the request is empty. -/
def Request.Complete : Request → Prop
  | .logUserIn email password => email ≠ "" ∧ password ≠ ""
  | .registerUserWithFirebase email password fullname =>
    email ≠ "" ∧ password ≠ "" ∧ fullname ≠ ""
  | .resetPassword email => email ≠ ""

def Request.kind : Request → FormKind
  | .logUserIn _ _ => .login
  | .registerUserWithFirebase _ _ _ => .registration
  | .resetPassword _ => .resetPassword

/-- What holds of the screens in every run. -/
structure Sound (f : Flow) : Prop where
  stack : Stack f.viewControllers
  fresh : ∀ c ∈ f.viewControllers, c.id < f.nextId
  forms : ∀ c ∈ f.viewControllers, c.form.Follows c.kind
  complete : ∀ p ∈ f.pending, p.request.Complete
  sent : ∀ p ∈ f.pending, p.sender < f.nextId
  sender : ∀ p ∈ f.pending, ∀ c ∈ f.viewControllers, c.id = p.sender →
    p.delegate = c.delegate ∧ p.request.kind = c.kind
  hud : f.hud.Orderly
  engaged : ∀ view, f.hud.phase.engaged = some view → ∃ p ∈ f.pending, p.sender = view

theorem launched_sound : Sound Flow.launched where
  stack := .absent
  fresh := by simp [Flow.launched]
  forms := by simp [Flow.launched]
  complete := by simp [Flow.launched]
  sent := by simp [Flow.launched]
  sender := by simp [Flow.launched]
  hud := HUD.initial_orderly
  engaged := by simp [Flow.launched, HUD.initial, HUD.phase, Phase.engaged]

section Screens

variable {f : Flow}

theorem Stack.tail {c : ViewController} {cs : List ViewController} (h : Stack (c :: cs)) :
    Stack cs := by
  cases h with
  | login _ => exact .absent
  | above hlogin _ _ _ => exact .login hlogin

/-- A screen is known by its number. -/
theorem Stack.eq_of_id {cs : List ViewController} (h : Stack cs) {c d : ViewController}
    (hc : c ∈ cs) (hd : d ∈ cs) (hid : c.id = d.id) : c = d := by
  cases h with
  | absent => simp at hc
  | login _ =>
    rw [List.mem_singleton] at hc hd
    rw [hc, hd]
  | above _ _ hne _ =>
    simp only [List.mem_cons, List.not_mem_nil, or_false] at hc hd
    grind

/-- Some of the screens are taken away. -/
theorem Sound.keep (h : Sound f) {cs : List ViewController} (hcs : Stack cs)
    (hsub : ∀ c ∈ cs, c ∈ f.viewControllers) : Sound { f with viewControllers := cs } where
  stack := hcs
  fresh c hc := h.fresh c (hsub c hc)
  forms c hc := h.forms c (hsub c hc)
  complete := h.complete
  sent := h.sent
  sender p hp c hc := h.sender p hp c (hsub c hc)
  hud := h.hud
  engaged := h.engaged

theorem authenticationComplete_sound (h : Sound f) : Sound (authenticationComplete f) :=
  h.keep .absent (by simp)

theorem popViewController_sound (h : Sound f) : Sound (popViewController f) := by
  have hstack := h.stack
  unfold popViewController
  split
  · rename_i top c cs heq
    rw [heq] at hstack
    refine h.keep hstack.tail ?_
    intro d hd
    rw [heq]
    exact List.mem_cons_of_mem top hd
  · exact h

theorem showMessage_sound (message : String) (view : ℕ) (h : Sound f) :
    Sound (showMessage message view f) := by
  unfold showMessage
  split_ifs
  · exact ⟨h.stack, h.fresh, h.forms, h.complete, h.sent, h.sender, h.hud, h.engaged⟩
  · exact h

theorem pushViewController_sound {kind : FormKind} {form : Form} {delegate : Option ℕ}
    (h : Sound f) (hstack : Stack (pushViewController kind form delegate f).viewControllers)
    (hform : form.Follows kind) : Sound (pushViewController kind form delegate f) where
  stack := hstack
  fresh := by
    intro c hc
    cases hc with
    | head => exact Nat.lt_succ_self _
    | tail _ hc => exact Nat.lt_succ_of_lt (h.fresh c hc)
  forms := by
    intro c hc
    cases hc with
    | head => exact hform
    | tail _ hc => exact h.forms c hc
  complete := h.complete
  sent p hp := Nat.lt_succ_of_lt (h.sent p hp)
  sender := by
    intro p hp c hc hid
    cases hc with
    | head => exact absurd (h.sent p hp) (by rw [← hid]; exact lt_irrefl _)
    | tail _ hc => exact h.sender p hp c hc hid
  hud := h.hud
  engaged := h.engaged

/-- Changing the form of the topmost screen changes nothing else about the screens. -/
theorem Stack.withForm {top : ViewController} {cs : List ViewController} (h : Stack (top :: cs))
    (form : Form) : Stack ({ top with form := form } :: cs) := by
  cases h with
  | login hk => exact .login hk
  | above hlogin hk hid hd => exact .above hlogin hk hid hd

theorem editTop_sound {field : Field} (text : String) {top : ViewController} (h : Sound f)
    (htop : f.viewControllers.head? = some top) (hf : field ∈ top.kind.fields) :
    Sound (editTop field text f) := by
  obtain ⟨cs, heq⟩ := List.head?_eq_some_iff.mp htop
  have hstack := h.stack
  have hfresh := h.fresh
  have hforms := h.forms
  have hsender := h.sender
  rw [heq] at hstack hfresh hforms hsender
  rw [editTop, heq]
  constructor
  · exact hstack.withForm _
  · intro c hc
    cases hc with
    | head => exact hfresh top List.mem_cons_self
    | tail _ hc => exact hfresh c (List.mem_cons_of_mem top hc)
  · intro c hc
    cases hc with
    | head => exact edit_follows text hf (hforms top List.mem_cons_self)
    | tail _ hc => exact hforms c (List.mem_cons_of_mem top hc)
  · exact h.complete
  · exact h.sent
  · intro p hp c hc hid
    cases hc with
    | head => exact hsender p hp top List.mem_cons_self hid
    | tail _ hc => exact hsender p hp c (List.mem_cons_of_mem top hc) hid
  · exact h.hud
  · exact h.engaged

/-- An enabled button has everything its handler asks for. -/
theorem ViewController.exists_request {c : ViewController} (h : c.form.Follows c.kind)
    (he : c.form.button.isEnabled = true) :
    ∃ r, c.request = some r ∧ r.Complete ∧ r.kind = c.kind := by
  have htext := h.isEnabled_iff.mp he
  have hmodel := h.viewModel
  unfold ViewController.request
  cases hk : c.kind with
  | login =>
    rw [hk] at htext
    exact ⟨_, rfl, ⟨htext .email (by decide), htext .password (by decide)⟩, rfl⟩
  | registration =>
    rw [hk] at htext
    exact ⟨_, rfl, ⟨htext .email (by decide), htext .password (by decide),
      htext .fullname (by decide)⟩, rfl⟩
  | resetPassword =>
    rw [hk] at htext hmodel
    have hne := htext .email (by decide)
    have hsame := hmodel .email (by decide)
    cases hm : c.form.viewModel .email with
    | none =>
      rw [hm] at hsame
      exact absurd hsame.symm hne
    | some email =>
      rw [hm] at hsame
      refine ⟨.resetPassword email, rfl, ?_, rfl⟩
      change email ≠ ""
      rw [show email = c.form.text .email from hsame]
      exact hne

theorem touchButton_eq {top : ViewController} {r : Request}
    (htop : f.viewControllers.head? = some top) (hr : top.request = some r) :
    touchButton f =
      { showLoader true top.id f with
        pending := f.pending ++ [⟨top.id, top.delegate, r⟩] } := by
  obtain ⟨cs, heq⟩ := List.head?_eq_some_iff.mp htop
  simp only [touchButton, heq, hr]
  rfl

theorem engaged_present {p : Phase ℕ} {v w : ℕ} (h : (p.present v).engaged = some w) :
    p.engaged = some w ∨ w = v := by
  cases p with
  | idle => exact Or.inr (Option.some.inj h).symm
  | presenting view leaving => exact Or.inl h
  | shown view => exact Or.inl h
  | dismissing => exact Or.inl h

theorem engaged_dismiss (p : Phase ℕ) : p.dismiss.engaged = none := by
  cases p with
  | presenting view leaving => cases view <;> rfl
  | idle | shown | dismissing => rfl

theorem engaged_finish {p : Phase ℕ} {w : ℕ} (h : p.finish.engaged = some w) :
    p.engaged = some w := by
  cases p with
  | presenting view leaving =>
    cases view with
    | none => simp [Phase.finish, Phase.engaged] at h
    | some v =>
      cases leaving with
      | false => exact h
      | true => simp [Phase.finish, Phase.engaged] at h
  | idle | shown | dismissing => simp [Phase.finish, Phase.engaged] at h

theorem engaged_release {p : Phase ℕ} {v w : ℕ} (h : (p.release v).engaged = some w) :
    p.engaged = some w := by
  cases p with
  | presenting view leaving =>
    cases view with
    | none => exact h
    | some u =>
      by_cases hu : u = v
      · simp [Phase.release, hu, Phase.engaged] at h
      · simpa [Phase.release, hu] using h
  | shown u =>
    by_cases hu : u = v
    · simp [Phase.release, hu, Phase.engaged] at h
    · simpa [Phase.release, hu] using h
  | idle | dismissing => exact h

theorem touchButton_sound {top : ViewController} (h : Sound f)
    (htop : f.viewControllers.head? = some top) (he : top.form.button.isEnabled = true) :
    Sound (touchButton f) := by
  have hmem : top ∈ f.viewControllers := List.mem_of_mem_head? htop
  obtain ⟨r, hr, hcomplete, hkind⟩ := top.exists_request (h.forms top hmem) he
  rw [touchButton_eq htop hr]
  refine ⟨h.stack, h.fresh, h.forms, ?_, ?_, ?_, HUD.showInView_orderly _ h.hud, ?_⟩
  · intro p hp
    rcases List.mem_append.mp hp with hp | hp
    · exact h.complete p hp
    · obtain rfl := List.mem_singleton.mp hp
      exact hcomplete
  · intro p hp
    rcases List.mem_append.mp hp with hp | hp
    · exact h.sent p hp
    · obtain rfl := List.mem_singleton.mp hp
      exact h.fresh top hmem
  · intro p hp c hc hid
    rcases List.mem_append.mp hp with hp | hp
    · exact h.sender p hp c hc hid
    · obtain rfl := List.mem_singleton.mp hp
      obtain rfl := h.stack.eq_of_id hc hmem hid
      exact ⟨rfl, hkind⟩
  · intro view hv
    change (f.hud.showInView top.id).phase.engaged = some view at hv
    rw [HUD.showInView_phase _ h.hud] at hv
    cases engaged_present hv with
    | inl hv =>
      obtain ⟨p, hp, hs⟩ := h.engaged view hv
      exact ⟨p, List.mem_append_left _ hp, hs⟩
    | inr hv => exact ⟨_, List.mem_append_right _ (List.mem_singleton_self _), hv.symm⟩

theorem Stack.login_alone {top : ViewController} {cs : List ViewController}
    (h : Stack (top :: cs)) (hk : top.kind = .login) : cs = [] := by
  cases h with
  | login _ => rfl
  | above _ ht _ _ => exact absurd hk ht

theorem Stack.exists_login {top : ViewController} {cs : List ViewController}
    (h : Stack (top :: cs)) (hk : top.kind ≠ .login) :
    ∃ c, cs = [c] ∧ c.kind = .login ∧ top.id ≠ c.id ∧
      (top.kind = .resetPassword → top.delegate = some c.id) := by
  cases h with
  | login hlogin => exact absurd hlogin hk
  | above hlogin _ hid hd => exact ⟨_, rfl, hlogin, hid, hd⟩

theorem Sound.login_alone {top : ViewController} (h : Sound f)
    (htop : f.viewControllers.head? = some top) (hk : top.kind = .login) :
    f.viewControllers = [top] := by
  obtain ⟨cs, heq⟩ := List.head?_eq_some_iff.mp htop
  have hstack := h.stack
  rw [heq] at hstack
  rw [heq, hstack.login_alone hk]

/-- A screen pushed on a login screen. -/
theorem push_on_login {top : ViewController} {kind : FormKind} {form : Form}
    {delegate : Option ℕ} (h : Sound f) (heq : f.viewControllers = [top])
    (hk : top.kind = .login) (hkind : kind ≠ .login)
    (hd : kind = .resetPassword → delegate = some top.id) (hform : form.Follows kind) :
    Sound (pushViewController kind form delegate f) := by
  refine pushViewController_sound h ?_ hform
  rw [pushViewController, heq]
  have hfresh : top.id < f.nextId := h.fresh top (by simp [heq])
  exact .above hk hkind (Ne.symm hfresh.ne) hd

theorem showForgotPassword_sound {top : ViewController} (h : Sound f)
    (htop : f.viewControllers.head? = some top) (hk : top.kind = .login) :
    Sound (showForgotPassword f) := by
  have heq := h.login_alone htop hk
  simp only [showForgotPassword, heq]
  exact push_on_login h heq hk (by decide) (fun _ => rfl) (loadEmail_follows _)

theorem showRegisterationController_sound {top : ViewController} (h : Sound f)
    (htop : f.viewControllers.head? = some top) (hk : top.kind = .login) :
    Sound (showRegisterationController f) :=
  push_on_login h (h.login_alone htop hk) hk (by decide) (fun hreset => by cases hreset)
    (loaded_follows _)

theorem presentLoginController_sound (h : Sound f) (hnone : f.viewControllers = []) :
    Sound (presentLoginController f) := by
  refine pushViewController_sound h ?_ (loaded_follows _)
  rw [pushViewController, hnone]
  exact .login rfl

theorem didSendResetPasswordLink_sound (login : ℕ) (h : Sound f) :
    Sound (didSendResetPasswordLink login f) := by
  apply showMessage_sound
  split_ifs
  · exact popViewController_sound h
  · exact h

theorem completion_sound (p : Pending) (failed : Bool) (h : Sound (showLoader false p.sender f)) :
    Sound (completion p failed f) := by
  unfold completion
  cases p.request with
  | logUserIn _ _ =>
    cases failed with
    | false => exact authenticationComplete_sound h
    | true => exact h
  | registerUserWithFirebase _ _ _ =>
    cases failed with
    | false => exact authenticationComplete_sound h
    | true => exact showMessage_sound _ _ h
  | resetPassword _ =>
    cases failed with
    | false =>
      cases p.delegate with
      | none => exact h
      | some login => exact didSendResetPasswordLink_sound login h
    | true => exact showMessage_sound _ _ h

theorem answer_sound (n : ℕ) (failed : Bool) (h : Sound f) : Sound (answer n failed f) := by
  unfold answer
  cases f.pending[n]? with
  | none => exact h
  | some p =>
    apply completion_sound
    have hsub : ∀ q ∈ f.pending.eraseIdx n, q ∈ f.pending := fun q => List.mem_of_mem_eraseIdx
    refine ⟨h.stack, h.fresh, h.forms, fun q hq => h.complete q (hsub q hq),
      fun q hq => h.sent q (hsub q hq), fun q hq => h.sender q (hsub q hq),
      HUD.dismiss_orderly h.hud, ?_⟩
    -- Whatever the HUD was shown for, it is on its way out now.
    intro view hv
    change f.hud.dismiss.phase.engaged = some view at hv
    rw [HUD.dismiss_phase, engaged_dismiss] at hv
    cases hv

theorem animationFinished_sound (h : Sound f) (hpos : 0 < f.hud.animations) :
    Sound { f with hud := f.hud.animationFinished } := by
  have ht := h.hud.pending_iff.mp hpos
  refine ⟨h.stack, h.fresh, h.forms, h.complete, h.sent, h.sender,
    HUD.animationFinished_orderly ht h.hud, ?_⟩
  intro view hv
  rw [HUD.animationFinished_phase ht h.hud] at hv
  exact h.engaged view (engaged_finish hv)

theorem viewReleased_sound (view : ℕ) (h : Sound f) :
    Sound { f with hud := f.hud.viewReleased view } := by
  refine ⟨h.stack, h.fresh, h.forms, h.complete, h.sent, h.sender,
    HUD.viewReleased_orderly view h.hud, ?_⟩
  intro w hw
  rw [HUD.viewReleased_phase] at hw
  exact h.engaged w (engaged_release hw)

end Screens

section Run

variable {f g : Flow} {e : Event} {es : List Event}

theorem step_sound (h : Sound f) (hs : Step f e g) : Sound g := by
  obtain ⟨hen, rfl⟩ := hs
  cases e with
  | presentLoginController => exact presentLoginController_sound h hen
  | edit field text =>
    obtain ⟨top, htouch, hf⟩ := hen
    exact editTop_sound text h htouch.1 hf
  | touchButton =>
    obtain ⟨top, htouch, he⟩ := hen
    exact touchButton_sound h htouch.1 he
  | showForgotPassword =>
    obtain ⟨top, htouch, hk⟩ := hen
    exact showForgotPassword_sound h htouch.1 hk
  | showRegisterationController =>
    obtain ⟨top, htouch, hk⟩ := hen
    exact showRegisterationController_sound h htouch.1 hk
  | goBack => exact popViewController_sound h
  | googleSignIn => exact authenticationComplete_sound h
  | answer n failed => exact answer_sound n failed h
  | animationFinished => exact animationFinished_sound h hen
  | viewReleased view => exact viewReleased_sound view h

theorem run_sound (hrun : Run Step .launched es f) : Sound f :=
  Run.invariant launched_sound (fun _ _ _ h hs => step_sound h hs) hrun

/-- Whatever is pushed, popped, typed and answered in whatever order: the screens are a login
screen with at most one other above it, the button of each screen is enabled exactly if its
fields have texts, and no request was sent with an empty text. -/
theorem sign_in_requests_complete (hrun : Run Step .launched es f) :
    Stack f.viewControllers ∧
    (∀ c ∈ f.viewControllers,
      (c.form.button.isEnabled = true ↔ ∀ field ∈ c.kind.fields, c.form.text field ≠ "") ∧
      c.form.button.backgroundColor =
        (if c.form.button.isEnabled then enabledPurple else disabledPurple) ∧
      c.form.button.titleColor = if c.form.button.isEnabled then white else fadedWhite) ∧
    ∀ p ∈ f.pending, p.request.Complete := by
  have h := run_sound hrun
  refine ⟨h.stack, ?_, h.complete⟩
  intro c hc
  have hform := h.forms c hc
  refine ⟨hform.isEnabled_iff, ?_⟩
  rw [← hform.button]
  exact ⟨rfl, rfl⟩

/-- The login screen, with an address typed in, and a password reset opened from it. -/
def loginOpened : Flow := next .launched .presentLoginController

def addressTyped : Flow := next loginOpened (.edit .email "kim@card.pang")

def resetOpened : Flow := next addressTyped .showForgotPassword

theorem reset_steps :
    Step .launched .presentLoginController loginOpened ∧
    Step loginOpened (.edit .email "kim@card.pang") addressTyped ∧
    Step addressTyped .showForgotPassword resetOpened ∧
    Step resetOpened .touchButton (next resetOpened .touchButton) := by
  refine ⟨⟨rfl, rfl⟩, ⟨?_, rfl⟩, ⟨?_, rfl⟩, ⟨?_, rfl⟩⟩
  · exact ⟨_, ⟨rfl, by decide⟩, by decide⟩
  · exact ⟨_, ⟨rfl, by decide⟩, rfl⟩
  · exact ⟨_, ⟨rfl, by decide⟩, by decide⟩

theorem reset_run :
    Run Step .launched
      [.presentLoginController, .edit .email "kim@card.pang", .showForgotPassword, .touchButton]
      (next resetOpened .touchButton) := by
  obtain ⟨h1, h2, h3, h4⟩ := reset_steps
  exact Run.cons h1 (Run.cons h2 (Run.cons h3 (Run.one h4)))

/-- The address that the reset loaded is enough for its button. -/
theorem reset_request_complete :
    (next resetOpened .touchButton).pending ≠ [] ∧
      ∀ p ∈ (next resetOpened .touchButton).pending, p.request.Complete :=
  ⟨by decide, (sign_in_requests_complete reset_run).2.2⟩

end Run

end CardPang.Authentication
