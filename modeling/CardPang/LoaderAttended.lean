import CardPang.SignInScreens

/-!
# The loader and the requests

The HUD is no counter of requests: showing it while it is animated or shown does nothing,
and any answer dismisses it. Here is when it still stands for the one request under way.
-/
namespace CardPang.Authentication
open LabelledRun ProgressHUD

/-- At most one request is under way; the HUD stays on the screen that sent it, which is on
top. -/
structure Attended (f : Flow) : Prop where
  one : f.pending.length ≤ 1
  covered : ∀ p ∈ f.pending, f.hud.phase.engaged = some p.sender
  on_top : ∀ p ∈ f.pending, f.viewControllers.head?.map ViewController.id = some p.sender

/-- The user waits for the HUD before sending, and for the answer before leaving. -/
def Patient (f : Flow) : Event → Prop
  | .touchButton => f.hud.transitioning = false
  | .showForgotPassword => f.pending = []
  | .showRegisterationController => f.pending = []
  | .goBack => f.pending = []
  | .googleSignIn => f.pending = []
  | _ => True

section Phase

variable {h : HUD ℕ} {p : Phase ℕ} {v w : ℕ}

theorem engaged_finish_of_transitioning (ht : h.transitioning = true) :
    h.phase.finish.engaged = h.phase.engaged := by
  cases hp : h.presenting with
  | false => simp [HUD.phase, ht, hp, Phase.finish, Phase.engaged]
  | true =>
    cases hv : h.targetView <;> cases hd : h.dismissAfterTransitionFinished <;>
      simp [HUD.phase, ht, hp, hv, hd, Phase.finish, Phase.engaged]

theorem engaged_release_of_ne (he : p.engaged = some w) (hne : w ≠ v) :
    (p.release v).engaged = some w := by
  cases p with
  | presenting view leaving =>
    cases view with
    | none => exact he
    | some u =>
      cases leaving with
      | true => cases he
      | false =>
        obtain rfl := Option.some.inj he
        simp [Phase.release, hne, Phase.engaged]
  | shown u =>
    obtain rfl := Option.some.inj he
    simp [Phase.release, hne, Phase.engaged]
  | idle | dismissing => cases he

/-- A HUD that is neither animated nor engaged is idle. -/
theorem phase_idle (ht : h.transitioning = false) (he : h.phase.engaged = none) :
    h.phase = .idle := by
  cases hv : h.targetView with
  | none => simp [HUD.phase, ht, hv]
  | some u => simp [HUD.phase, ht, hv, Phase.engaged] at he

theorem phase_shown (ht : h.transitioning = false) (he : h.phase.engaged = some v) :
    h.phase = .shown v := by
  cases hv : h.targetView with
  | none => simp [HUD.phase, ht, hv, Phase.engaged] at he
  | some u =>
    have huv : u = v := by simpa [HUD.phase, ht, hv, Phase.engaged] using he
    simp [HUD.phase, ht, hv, huv]

/-- A HUD that is animated does not take another view. -/
theorem engaged_present_of_transitioning (ht : h.transitioning = true) :
    h.phase.present v = h.phase := by
  cases hp : h.presenting <;> simp [HUD.phase, ht, hp, Phase.present]

end Phase

variable {f g : Flow} {e : Event} {es : List Event}

theorem Attended.eq_nil_or_singleton (h : Attended f) : f.pending = [] ∨ ∃ p, f.pending = [p] := by
  have hone := h.one
  cases hp : f.pending with
  | nil => exact Or.inl rfl
  | cons p ps =>
    rw [hp, List.length_cons] at hone
    have hnil : ps = [] := List.length_eq_zero_iff.mp (by omega)
    exact Or.inr ⟨p, by rw [hnil]⟩

theorem attended_of_nil (h : f.pending = []) : Attended f := by
  constructor <;> simp [h]

/-- The requests, the HUD's view and the topmost screen are what they were. -/
theorem Attended.congr (h : Attended f) (hp : g.pending = f.pending)
    (he : ∀ p ∈ f.pending, g.hud.phase.engaged = some p.sender)
    (ht : g.viewControllers.head?.map ViewController.id =
      f.viewControllers.head?.map ViewController.id) : Attended g := by
  constructor
  · rw [hp]
    exact h.one
  · rw [hp]
    exact he
  · rw [hp, ht]
    exact h.on_top

/-- Another screen comes on top. -/
theorem attended_iff_of_top (hp : g.pending = f.pending)
    (hne : ∀ p ∈ f.pending, g.viewControllers.head?.map ViewController.id ≠ some p.sender) :
    Attended g ↔ f.pending = [] := by
  constructor
  · intro h
    by_contra hnil
    obtain ⟨p, hmem⟩ := List.exists_mem_of_ne_nil _ hnil
    exact hne p hmem (h.on_top p (by rw [hp]; exact hmem))
  · intro hnil
    exact attended_of_nil (by rw [hp, hnil])

theorem Sound.not_engaged (h : Sound f) (hnil : f.pending = []) : f.hud.phase.engaged = none := by
  cases he : f.hud.phase.engaged with
  | none => rfl
  | some view =>
    obtain ⟨p, hp, -⟩ := h.engaged view he
    simp [hnil] at hp

/-- The shown HUD keeps the touches from the screen of the request. -/
theorem Attended.pending_nil (hsound : Sound f) (h : Attended f) {top : ViewController}
    (htouch : Touchable f top) (ht : f.hud.transitioning = false) : f.pending = [] := by
  obtain hnil | ⟨p, hp⟩ := h.eq_nil_or_singleton
  · exact hnil
  · have hmem : p ∈ f.pending := by simp [hp]
    have hid : top.id = p.sender := by simpa [htouch.1] using h.on_top p hmem
    have hshown := phase_shown ht (h.covered p hmem)
    rw [← hid] at hshown
    exact absurd ((hsound.hud.blocks_iff top.id).mpr hshown) htouch.2

theorem touchButton_attended (hsound : Sound f) (h : Attended f) (hs : Step f .touchButton g) :
    Attended g ↔ f.hud.transitioning = false := by
  obtain ⟨⟨top, htouch, he⟩, rfl⟩ := hs
  have hmem : top ∈ f.viewControllers := List.mem_of_mem_head? htouch.1
  obtain ⟨r, hr, -⟩ := top.exists_request (hsound.forms top hmem) he
  have hphase := HUD.showInView_phase top.id hsound.hud
  have hnext : next f .touchButton = _ := touchButton_eq htouch.1 hr
  rw [hnext]
  cases ht : f.hud.transitioning with
  | true =>
    -- The HUD is not shown for the new request, or another one is under way.
    refine iff_of_false ?_ (by simp)
    intro hg
    have hnil : f.pending = [] := by
      have hone := hg.one
      simp only [List.length_append, List.length_singleton] at hone
      exact List.length_eq_zero_iff.mp (by omega)
    have hengaged := hg.covered ⟨top.id, top.delegate, r⟩ (by simp)
    change (f.hud.showInView top.id).phase.engaged = some top.id at hengaged
    rw [hphase, engaged_present_of_transitioning ht, hsound.not_engaged hnil] at hengaged
    cases hengaged
  | false =>
    refine iff_of_true ?_ rfl
    have hnil := h.pending_nil hsound htouch ht
    have hidle := phase_idle ht (hsound.not_engaged hnil)
    constructor
    · simp [hnil]
    · intro p hp
      obtain rfl : p = ⟨top.id, top.delegate, r⟩ := by simpa [hnil] using hp
      change (f.hud.showInView top.id).phase.engaged = some top.id
      rw [hphase, hidle]
      rfl
    · intro p hp
      obtain rfl : p = ⟨top.id, top.delegate, r⟩ := by simpa [hnil] using hp
      change f.viewControllers.head?.map ViewController.id = some top.id
      rw [htouch.1]
      rfl

theorem showMessage_pending (message : String) (view : ℕ) (f : Flow) :
    (showMessage message view f).pending = f.pending := by
  unfold showMessage
  split_ifs <;> rfl

theorem didSendResetPasswordLink_pending (login : ℕ) (f : Flow) :
    (didSendResetPasswordLink login f).pending = f.pending := by
  unfold didSendResetPasswordLink
  rw [showMessage_pending]
  split_ifs
  · unfold popViewController
    split <;> rfl
  · rfl

/-- The login screen below one other screen closes it and presents its message. -/
theorem didSendResetPasswordLink_eq {f : Flow} {top login : ViewController}
    (h : f.viewControllers = [top, login]) :
    didSendResetPasswordLink login.id f =
      { f with
        viewControllers := [login]
        messages := f.messages ++ [msgResetPasswordLinkSent] } := by
  have hbefore : f.holds login.id = true := by simp [Flow.holds, h]
  have hpop : popViewController f = { f with viewControllers := [login] } := by
    simp only [popViewController, h]
  have hafter : (popViewController f).holds login.id = true := by simp [Flow.holds, hpop]
  rw [didSendResetPasswordLink, if_pos hbefore, showMessage, if_pos hafter, hpop]

theorem answer_attended (h : Attended f) {n : ℕ} (failed : Bool) (hn : n < f.pending.length) :
    (answer n failed f).pending = [] := by
  have hone := h.one
  have hzero : n = 0 := by omega
  obtain ⟨p, hp⟩ : ∃ p, f.pending = [p] := List.length_eq_one_iff.mp (by omega)
  subst hzero
  simp only [answer, hp, List.getElem?_cons_zero, List.eraseIdx_zero, List.tail_cons, completion]
  cases p.request with
  | logUserIn _ _ => cases failed <;> rfl
  | registerUserWithFirebase _ _ _ =>
    cases failed with
    | false => rfl
    | true => exact showMessage_pending _ _ _
  | resetPassword _ =>
    cases failed with
    | true => exact showMessage_pending _ _ _
    | false =>
      cases p.delegate with
      | none => rfl
      | some login => exact didSendResetPasswordLink_pending _ _

theorem Sound.new_ne (h : Sound f) {x : Option ℕ} (hx : x = some f.nextId) :
    ∀ p ∈ f.pending, x ≠ some p.sender := by
  intro p hp heq
  have hsame : f.nextId = p.sender := Option.some.inj (hx.symm.trans heq)
  have hlt := h.sent p hp
  omega

/-- What a step makes of an attended state. -/
theorem step_attended (hsound : Sound f) (h : Attended f) (hs : Step f e g) :
    Attended g ↔ Patient f e := by
  cases e with
  | touchButton => exact touchButton_attended hsound h hs
  | presentLoginController =>
    obtain ⟨hen, rfl⟩ := hs
    refine iff_of_true (attended_of_nil ?_) trivial
    change f.pending = []
    obtain hnil | ⟨p, hp⟩ := h.eq_nil_or_singleton
    · exact hnil
    · have htop := h.on_top p (by simp [hp])
      rw [show f.viewControllers = [] from hen] at htop
      cases htop
  | edit field text =>
    obtain ⟨⟨top, htouch, hf⟩, rfl⟩ := hs
    obtain ⟨cs, heq⟩ := List.head?_eq_some_iff.mp htouch.1
    refine iff_of_true (h.congr ?_ ?_ ?_) trivial
    · simp [next, editTop, heq]
    · intro p hp
      simpa [next, editTop, heq] using h.covered p hp
    · simp [next, editTop, heq]
  | showForgotPassword =>
    obtain ⟨⟨top, htouch, hk⟩, rfl⟩ := hs
    obtain ⟨cs, heq⟩ := List.head?_eq_some_iff.mp htouch.1
    refine attended_iff_of_top ?_ ?_
    · simp [next, showForgotPassword, heq, pushViewController]
    · have htop : (next f .showForgotPassword).viewControllers.head?.map ViewController.id =
          some f.nextId := by
        simp [next, showForgotPassword, heq, pushViewController]
      exact hsound.new_ne htop
  | showRegisterationController =>
    obtain ⟨hen, rfl⟩ := hs
    exact attended_iff_of_top rfl (hsound.new_ne rfl)
  | goBack =>
    obtain ⟨⟨top, htouch, hk⟩, rfl⟩ := hs
    obtain ⟨cs, heq⟩ := List.head?_eq_some_iff.mp htouch.1
    have hstack := hsound.stack
    rw [heq] at hstack
    obtain ⟨c, rfl, -, hid, -⟩ := hstack.exists_login hk
    refine attended_iff_of_top ?_ ?_
    · simp [next, popViewController, heq]
    · intro p hp htop
      have hsender : top.id = p.sender := by simpa [htouch.1] using h.on_top p hp
      have hc : c.id = p.sender := by simpa [next, popViewController, heq] using htop
      exact hid (hsender.trans hc.symm)
  | googleSignIn =>
    obtain ⟨-, rfl⟩ := hs
    refine attended_iff_of_top rfl ?_
    intro p _ htop
    cases htop
  | answer n failed =>
    obtain ⟨hn, rfl⟩ := hs
    exact iff_of_true (attended_of_nil (answer_attended h failed hn)) trivial
  | animationFinished =>
    obtain ⟨hen, rfl⟩ := hs
    have ht := hsound.hud.pending_iff.mp hen
    refine iff_of_true (h.congr rfl ?_ rfl) trivial
    intro p hp
    change f.hud.animationFinished.phase.engaged = some p.sender
    rw [HUD.animationFinished_phase ht hsound.hud, engaged_finish_of_transitioning ht]
    exact h.covered p hp
  | viewReleased view =>
    obtain ⟨⟨-, hne⟩, rfl⟩ := hs
    refine iff_of_true (h.congr rfl ?_ rfl) trivial
    intro p hp
    change (f.hud.viewReleased view).phase.engaged = some p.sender
    rw [HUD.viewReleased_phase]
    exact engaged_release_of_ne (h.covered p hp) (hne p hp)

section Reset

/-- Every request under way is attended all along, exactly if the user is patient at every
step. -/
theorem requests_attended_iff (hrun : Run Step .launched es f) :
    ¬ HasHeld Step (fun m => ¬ Attended m) .launched es f ↔
      Run (fun m e g => Step m e g ∧ Patient m e) .launched es f := by
  refine Run.never_iff (I := Sound) launched_sound ?_ ?_ (attended_of_nil rfl) ?_ hrun
  · intro m e g hm hs
    exact step_sound hm hs
  · intro m e g g' _ hs hs'
    rw [hs.2, hs'.2]
  · intro m e g hm hatt hs
    exact step_attended hm hatt hs

theorem reset_run_patient :
    Run (fun m e g => Step m e g ∧ Patient m e) .launched
      [.presentLoginController, .edit .email "kim@card.pang", .showForgotPassword, .touchButton]
      (next resetOpened .touchButton) := by
  obtain ⟨h1, h2, h3, h4⟩ := reset_steps
  exact Run.cons ⟨h1, trivial⟩ (Run.cons ⟨h2, trivial⟩ (Run.cons ⟨h3, rfl⟩ (Run.one ⟨h4, rfl⟩)))

/-- A user who asks for a link at once, with nothing under way. -/
theorem requests_attended_reset :
    Run Step .launched
        [.presentLoginController, .edit .email "kim@card.pang", .showForgotPassword, .touchButton]
        (next resetOpened .touchButton) ∧
      ¬ HasHeld Step (fun m => ¬ Attended m) .launched
        [.presentLoginController, .edit .email "kim@card.pang", .showForgotPassword, .touchButton]
        (next resetOpened .touchButton) :=
  ⟨reset_run, (requests_attended_iff reset_run).mpr reset_run_patient⟩

theorem patient_run_attended
    (hrun : Run (fun m e g => Step m e g ∧ Patient m e) .launched es f) :
    Sound f ∧ Attended f := by
  refine Run.invariant (I := fun f => Sound f ∧ Attended f)
    ⟨launched_sound, attended_of_nil rfl⟩ ?_ hrun
  intro m e g hm hs
  exact ⟨step_sound hm.1 hs.1, (step_attended hm.1 hm.2 hs.1).mpr hs.2⟩

/-- A link that was sent closes the screen that asked for it, and no other, if the user is
patient. -/
theorem reset_closes_its_screen
    (hrun : Run (fun m e g => Step m e g ∧ Patient m e) .launched es f) {n : ℕ} {p : Pending}
    {email : String} (hp : f.pending[n]? = some p) (hr : p.request = .resetPassword email)
    (hs : Step f (.answer n false) g) :
    ∃ sender login, f.viewControllers = [sender, login] ∧ sender.id = p.sender ∧
      sender.kind = .resetPassword ∧ login.kind = .login ∧ g.viewControllers = [login] ∧
      g.messages = f.messages ++ [msgResetPasswordLinkSent] := by
  obtain ⟨hsound, hatt⟩ := patient_run_attended hrun
  obtain ⟨-, rfl⟩ := hs
  have hmem : p ∈ f.pending := List.mem_of_getElem? hp
  obtain ⟨sender, hhead, hid⟩ := Option.map_eq_some_iff.mp (hatt.on_top p hmem)
  obtain ⟨hdelegate, hkind⟩ := hsound.sender p hmem sender (List.mem_of_mem_head? hhead) hid
  have hreset : sender.kind = .resetPassword := by
    rw [← hkind, hr]
    rfl
  obtain ⟨cs, heq⟩ := List.head?_eq_some_iff.mp hhead
  have hstack := hsound.stack
  rw [heq] at hstack
  obtain ⟨login, rfl, hlogin, -, hd⟩ := hstack.exists_login (by rw [hreset]; decide)
  -- The login screen that the reset reports to is the one below it.
  have hto : p.delegate = some login.id := hdelegate.trans (hd hreset)
  let shown := showLoader false p.sender { f with pending := f.pending.eraseIdx n }
  have hshown : shown.viewControllers = [sender, login] := heq
  have hnext : next f (.answer n false) = didSendResetPasswordLink login.id shown := by
    simp only [next, answer, hp, completion, hr, Bool.false_eq_true, if_false, hto, shown]
  rw [hnext, didSendResetPasswordLink_eq hshown]
  exact ⟨sender, login, heq, hid, hreset, hlogin, rfl, rfl⟩

theorem reset_answer (failed : Bool) :
    Step (next resetOpened .touchButton) (.answer 0 failed)
      (next (next resetOpened .touchButton) (.answer 0 failed)) :=
  ⟨Nat.zero_lt_one, rfl⟩

theorem reset_closes_reset :
    ∃ login, (next (next resetOpened .touchButton) (.answer 0 false)).viewControllers = [login] ∧
      login.kind = .login := by
  obtain ⟨sender, login, -, -, -, hlogin, hleft, -⟩ :=
    reset_closes_its_screen reset_run_patient (n := 0)
      (p := ⟨1, some 0, .resetPassword "kim@card.pang"⟩) rfl rfl (reset_answer false)
  exact ⟨login, hleft, hlogin⟩

end Reset

section Leave

/-- The animations that are left to a HUD that does not stay. -/
def animationsLeft : Phase ℕ → ℕ
  | .presenting (some _) true => 2
  | .presenting none _ => 1
  | .dismissing => 1
  | _ => 0

theorem animationsLeft_finish {p : Phase ℕ} {n : ℕ} (hn : animationsLeft p = n + 1) :
    p.finish.engaged = none ∧ animationsLeft p.finish = n := by
  cases p with
  | idle | shown => cases hn
  | dismissing =>
    obtain rfl : 0 = n := Nat.succ.inj hn
    exact ⟨rfl, rfl⟩
  | presenting view leaving =>
    cases view with
    | none =>
      obtain rfl : 0 = n := Nat.succ.inj hn
      exact ⟨rfl, rfl⟩
    | some v =>
      cases leaving with
      | false => cases hn
      | true =>
        obtain rfl : 1 = n := Nat.succ.inj hn
        exact ⟨rfl, rfl⟩

theorem transitioning_of_animationsLeft {h : HUD ℕ} (hpos : 0 < animationsLeft h.phase) :
    h.transitioning = true := by
  by_contra ht
  cases hv : h.targetView <;> simp [HUD.phase, ht, hv, animationsLeft] at hpos

theorem idle_of_animationsLeft {p : Phase ℕ} (he : p.engaged = none) (h0 : animationsLeft p = 0) :
    p = .idle := by
  cases p with
  | idle => rfl
  | shown view => cases he
  | dismissing => cases h0
  | presenting view leaving =>
    cases view with
    | none => cases h0
    | some v =>
      cases leaving with
      | false => cases he
      | true => cases h0

theorem idle_gone {h : HUD ℕ} (ho : h.Orderly) (hidle : h.phase = .idle) :
    h.superview = none ∧ h.transitioning = false := by
  cases ht : h.transitioning with
  | true => cases hp : h.presenting <;> simp [HUD.phase, ht, hp] at hidle
  | false =>
    rw [ho.superview]
    cases hv : h.targetView with
    | none => exact ⟨rfl, rfl⟩
    | some v => simp [HUD.phase, ht, hv] at hidle

theorem animations_run (n : ℕ) (hsound : Sound f) (he : f.hud.phase.engaged = none)
    (hn : animationsLeft f.hud.phase = n) :
    ∃ g, Run Step f (List.replicate n .animationFinished) g ∧ g.hud.superview = none ∧
      g.hud.transitioning = false := by
  induction n generalizing f with
  | zero =>
    have hidle := idle_of_animationsLeft he hn
    exact ⟨f, Run.nil f, idle_gone hsound.hud hidle⟩
  | succ n ih =>
    have ht := transitioning_of_animationsLeft (h := f.hud) (by omega)
    have hs : Step f .animationFinished (next f .animationFinished) :=
      ⟨hsound.hud.pending_iff.mpr ht, rfl⟩
    have hphase : (next f .animationFinished).hud.phase = f.hud.phase.finish :=
      HUD.animationFinished_phase ht hsound.hud
    obtain ⟨hnone, hleft⟩ := animationsLeft_finish hn
    rw [← hphase] at hnone hleft
    obtain ⟨g, hrun, hgone⟩ := ih (step_sound hsound hs) hnone hleft
    exact ⟨g, Run.cons hs hrun, hgone⟩

theorem animationsLeft_le (p : Phase ℕ) : animationsLeft p ≤ 2 := by
  unfold animationsLeft
  split <;> omega

/-- The HUD stays only on a screen whose request is under way. Otherwise it is gone after at
most two animations. -/
theorem loader_leaves (hrun : Run Step .launched es f) :
    (∀ view, f.hud.phase.engaged = some view → ∃ p ∈ f.pending, p.sender = view) ∧
    (f.hud.phase.engaged = none → ∃ n ≤ 2, ∃ g,
      Run Step f (List.replicate n .animationFinished) g ∧ g.hud.superview = none ∧
        g.hud.transitioning = false) := by
  have hsound := run_sound hrun
  refine ⟨hsound.engaged, ?_⟩
  intro hnone
  exact ⟨_, animationsLeft_le _, animations_run _ hsound hnone rfl⟩

theorem loader_leaves_after_answer :
    ∃ n ≤ 2, ∃ g,
      Run Step (next (next resetOpened .touchButton) (.answer 0 true))
        (List.replicate n .animationFinished) g ∧ g.hud.superview = none ∧
        g.hud.transitioning = false :=
  (loader_leaves (Run.snoc reset_run (reset_answer true))).2 rfl

end Leave

end CardPang.Authentication
