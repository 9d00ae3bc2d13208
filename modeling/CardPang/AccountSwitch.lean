import CardPang.OnboardingFlag
import CardPang.SoleClient

/-!
# The home screen after an account switch

`logout` resets neither the held user nor the welcome label. What the next account
sees is compared between two devices with different pasts.
-/
namespace CardPang.HomeController
open CallbackProgram Firebase LabelledRun Service

variable {ι : Type}

def home (w : HomeWorld ι) (i : ι) : Home := (w.client i).state.app

section Switch

variable [DecidableEq ι]

/-- The device has just signed the account in. -/
def signedInAs (uid : String) (w : HomeWorld ι) (i : ι) : HomeWorld ι :=
  w.set i { w.client i with state := { (w.client i).state with currentUser := some uid } }

/-- The account is signed in, `authenticationComplete` runs, and the callback of its
`fetchUser` is delivered with the value that `users/uid` has by then. -/
inductive SwitchedTo (uid : String) (value : Option Node) (i : ι) (w w' : HomeWorld ι) : Prop
  | intro {b : Backend} {t : Trail} {v v₁ : HomeWorld ι}
      (complete : (signedInAs uid w i).resume platform i t authenticationComplete = some v)
      (users : b.users uid = value)
      (served : Step platform { v with server := b } (.serve i 0 .succeed) v₁)
      (delivered : Step platform v₁ (.deliver i 0) w')

/-- Some run ends here, with the device logged out and no callback in flight on it. -/
structure EndsLoggedOut (i : ι) (v : HomeWorld ι) : Prop where
  reached : ∃ w es, Launched w ∧ Run (Step platform) w es v
  loggedOut : session v i = none
  quiet : (v.client i).Quiet

end Switch

/-- The labels look the same. -/
def SameLabel (l l' : Label) : Prop := l.alpha = l'.alpha ∧ (l.alpha = 1 → l.text = l'.text)

def SameScreen (h h' : Home) : Prop :=
  h.user = h'.user ∧ SameLabel h.welcomeLabel h'.welcomeLabel

/-- What must not differ before the switch, given what the new account's node holds. -/
def SameBefore (value : Option Node) (h h' : Home) : Prop :=
  match value with
  | some (.dictionary f) =>
    asBool (f "hasSeenOnboarding") = some true ∨ SameLabel h.welcomeLabel h'.welcomeLabel
  | _ => SameScreen h h'

/-- What the callback of `fetchUser` makes of the home screen. -/
def fetched (uid : String) (value : Option Node) (h : Home) : Home :=
  match value with
  | some (.dictionary f) => setUser (User.ofDictionary uid f) h
  | _ => h

theorem setUser_welcomeLabel (user : User) (h : Home) :
    (setUser user h).welcomeLabel =
      if user.hasSeenOnboarding then ⟨"환영합니다, " ++ user.fullname ++ " 님!", 1⟩
      else h.welcomeLabel := by
  unfold setUser showWelcomeLabel presentOnboardingIfNeccessary
  cases hseen : user.hasSeenOnboarding <;> simp [hseen, noteCall]

/-- The home screen after `authenticationComplete`, before its `fetchUser` is answered. -/
def completed (uid : String) (h : Home) : Home :=
  noteCall (.dismiss .home) { h with authentications := h.authentications ++ [some uid] }

/-- The switch is the callback of `fetchUser` on an otherwise unchanged screen. -/
theorem SwitchedTo.home_eq [DecidableEq ι] {uid : String} {value : Option Node} {i : ι}
    {w w' : HomeWorld ι} (hq : (w.client i).Quiet) (h : SwitchedTo uid value i w w') :
    home w' i = fetched uid value (completed uid (home w i)) := by
  obtain @⟨b, t, v, v₁, complete, rfl, served, delivered⟩ := h
  have hstart : w.client i = Client.start (w.client i).state := by
    rw [Client.start, ← hq.1, ← hq.2]
  obtain ⟨d, cs, hexec, hv⟩ := World.resume_client complete
  rw [signedInAs, World.set_client_self, hstart] at hexec hv
  cases hexec
  obtain ⟨c, answer, hc, hserve, hv₁⟩ := served.serve_client
  -- Nothing but the read waits, so the client shows the node of the server.
  change platform.serve .succeed c.request (v.client i).requests b = _ at hserve
  rw [hv] at hc hv₁ hserve
  cases hc
  cases hserve
  obtain ⟨a, d, cs, ha, hexec, hd⟩ := delivered.deliver_client
  rw [hv₁] at ha hexec
  cases ha
  rw [home, hd]
  -- The callback looks at the record only here.
  generalize b.users uid = value at hexec ⊢
  cases value with
  | none =>
    cases hexec
    rfl
  | some node =>
    cases node with
    | leaf =>
      cases hexec
      rfl
    | dictionary f =>
      cases hexec
      rfl

theorem sameScreen_fetched_iff (uid : String) (value : Option Node) (h h' : Home) :
    SameScreen (fetched uid value h) (fetched uid value h') ↔ SameBefore value h h' := by
  match value with
  | none => exact Iff.rfl
  | some .leaf => exact Iff.rfl
  | some (.dictionary f) =>
    simp only [SameScreen, SameBefore, fetched, setUser_user, setUser_welcomeLabel, true_and]
    have hseen : (User.ofDictionary uid f).hasSeenOnboarding = true ↔
        asBool (f "hasSeenOnboarding") = some true :=
      ⟨ofDictionary_hasSeenOnboarding, fun h => by simp [User.ofDictionary, h]⟩
    by_cases hs : asBool (f "hasSeenOnboarding") = some true
    · simp [hseen.mpr hs, hs, SameLabel]
    · simp [mt hseen.mp hs, hs]

/-- After two pasts that end logged out, with nothing in flight, the same account sees
the same screen exactly if nothing differs that its own record does not replace. -/
theorem same_screen_iff_same_before [DecidableEq ι] {i j : ι} {v₁ v₂ v₁' v₂' : HomeWorld ι}
    {uid : String} {value : Option Node} (h₁ : EndsLoggedOut i v₁) (h₂ : EndsLoggedOut j v₂)
    (hs₁ : SwitchedTo uid value i v₁ v₁') (hs₂ : SwitchedTo uid value j v₂ v₂') :
    SameScreen (home v₁' i) (home v₂' j) ↔ SameBefore value (home v₁ i) (home v₂ j) := by
  rw [hs₁.home_eq h₁.quiet, hs₂.home_eq h₂.quiet, sameScreen_fetched_iff]
  rfl

/-- The record of an account that has seen the onboarding. -/
def seenRecord (fullname : String) : Node :=
  .dictionary fun key =>
    if key = "fullname" then some (.string fullname)
    else if key = "hasSeenOnboarding" then some (.bool true)
    else none

/-- A device on which `kim` is signed in, or nobody. -/
def kimsDevice (session : Option String) : HomeWorld Unit :=
  oneDevice ⟨{"kim", "lee"}, fun uid => if uid = "kim" then some (seenRecord "Kim") else none⟩ session

/-- A fresh launch, and a device that `kim` has used and left. -/
theorem kim_logs_out :
    ∃ v₁ v₂, EndsLoggedOut () v₁ ∧ EndsLoggedOut () v₂ ∧
      Run (Step platform) (kimsDevice none) [.input () .viewDidLoad] v₁ ∧
      Run (Step platform) (kimsDevice (some "kim")) [.input () .viewDidLoad,
        .serve () 0 .succeed, .deliver () 0, .input () (.logout false)] v₂ ∧
      (home v₁ ()).user = none ∧ (home v₁ ()).welcomeLabel = ⟨"Welcome User", 0⟩ ∧
      (home v₂ ()).user = some ⟨"", "Kim", true, "kim"⟩ ∧
      (home v₂ ()).welcomeLabel = ⟨"환영합니다, Kim 님!", 1⟩ := by
  have h₁ : ∃ v₁, Run (Step platform) (kimsDevice none) [.input () .viewDidLoad] v₁ ∧
      session v₁ () = none ∧ (v₁.client ()).Quiet ∧
      (home v₁ ()).user = none ∧ (home v₁ ()).welcomeLabel = ⟨"Welcome User", 0⟩ :=
    ⟨_, World.next_run rfl, rfl, ⟨rfl, rfl⟩, rfl, rfl⟩
  have h₂ : ∃ v₂, Run (Step platform) (kimsDevice (some "kim")) [.input () .viewDidLoad,
      .serve () 0 .succeed, .deliver () 0, .input () (.logout false)] v₂ ∧
      session v₂ () = none ∧ (v₂.client ()).Quiet ∧
      (home v₂ ()).user = some ⟨"", "Kim", true, "kim"⟩ ∧
      (home v₂ ()).welcomeLabel = ⟨"환영합니다, Kim 님!", 1⟩ :=
    ⟨_, World.next_run rfl, rfl, ⟨rfl, rfl⟩, by decide, by decide⟩
  obtain ⟨v₁, hrun₁, hout₁, hq₁, huser₁, hlabel₁⟩ := h₁
  obtain ⟨v₂, hrun₂, hout₂, hq₂, huser₂, hlabel₂⟩ := h₂
  exact ⟨v₁, v₂, ⟨⟨_, _, oneDevice_launched _ _, hrun₁⟩, hout₁, hq₁⟩,
    ⟨⟨_, _, oneDevice_launched _ _, hrun₂⟩, hout₂, hq₂⟩, hrun₁, hrun₂, huser₁, hlabel₁, huser₂,
    hlabel₂⟩

/-- Every quiet device can switch to an account with a given node. -/
theorem exists_switchedTo (uid : String) (value : Option Node) {w : HomeWorld Unit}
    (hq : (w.client ()).Quiet) : ∃ w', SwitchedTo uid value () w w' := by
  rw [eq_sole_start hq]
  match value with
  | none =>
    exact ⟨_, .intro (b := ⟨∅, fun _ => none⟩) (t := []) rfl rfl (World.next_step rfl)
      (World.next_step rfl)⟩
  | some .leaf =>
    exact ⟨_, .intro (b := ⟨∅, fun _ => some .leaf⟩) (t := []) rfl rfl (World.next_step rfl)
      (World.next_step rfl)⟩
  | some (.dictionary f) =>
    exact ⟨_, .intro (b := ⟨∅, fun _ => some (.dictionary f)⟩) (t := []) rfl rfl
      (World.next_step rfl) (World.next_step rfl)⟩

/-- An account that has seen the onboarding replaces all that was shown. -/
theorem same_screen_for_lee :
    ∃ v₁ v₂ v₁' v₂', EndsLoggedOut () v₁ ∧ EndsLoggedOut () v₂ ∧ home v₁ () ≠ home v₂ () ∧
      SwitchedTo "lee" (some (seenRecord "Lee")) () v₁ v₁' ∧
      SwitchedTo "lee" (some (seenRecord "Lee")) () v₂ v₂' ∧ SameScreen (home v₁' ()) (home v₂' ()) := by
  obtain ⟨v₁, v₂, h₁, h₂, -, -, huser₁, -, huser₂, -⟩ := kim_logs_out
  obtain ⟨v₁', hs₁⟩ := exists_switchedTo "lee" (some (seenRecord "Lee")) h₁.quiet
  obtain ⟨v₂', hs₂⟩ := exists_switchedTo "lee" (some (seenRecord "Lee")) h₂.quiet
  refine ⟨v₁, v₂, v₁', v₂', h₁, h₂, ?_, hs₁, hs₂, ?_⟩
  · intro he
    rw [he, huser₂] at huser₁
    cases huser₁
  · exact (same_screen_iff_same_before h₁ h₂ hs₁ hs₂).mpr (Or.inl (by decide))

/-- An account without a record finds the user and the welcome of the account before. -/
theorem kim_shows_for_lee :
    ∃ v₁ v₂ v₁' v₂', EndsLoggedOut () v₁ ∧ EndsLoggedOut () v₂ ∧ SwitchedTo "lee" none () v₁ v₁' ∧
      SwitchedTo "lee" none () v₂ v₂' ∧ (home v₂' ()).user = some ⟨"", "Kim", true, "kim"⟩ ∧
      (home v₂' ()).welcomeLabel = ⟨"환영합니다, Kim 님!", 1⟩ ∧ ¬ SameScreen (home v₁' ()) (home v₂' ()) := by
  obtain ⟨v₁, v₂, h₁, h₂, -, -, huser₁, -, huser₂, hlabel₂⟩ := kim_logs_out
  obtain ⟨v₁', hs₁⟩ := exists_switchedTo "lee" none h₁.quiet
  obtain ⟨v₂', hs₂⟩ := exists_switchedTo "lee" none h₂.quiet
  refine ⟨v₁, v₂, v₁', v₂', h₁, h₂, hs₁, hs₂, ?_, ?_, ?_⟩
  · rw [hs₂.home_eq h₂.quiet]
    exact huser₂
  · rw [hs₂.home_eq h₂.quiet]
    exact hlabel₂
  · rw [hs₁.home_eq h₁.quiet, hs₂.home_eq h₂.quiet]
    rintro ⟨huser, -⟩
    change (home v₁ ()).user = (home v₂ ()).user at huser
    rw [huser₁, huser₂] at huser
    cases huser

end CardPang.HomeController
