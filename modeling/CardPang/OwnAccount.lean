import CardPang.AccountSwitch
import CardPang.OnboardingKept
import CardPang.CallOrigin

/-!
# Whose record a device reads, writes and shows

The database has no owner of a node: any device may write any record. The app
addresses only the record of an account that has been signed in on the device that
makes the request, in whatever order sign-ins, logouts and answers interleave.
-/
namespace CardPang.HomeController
open CallbackProgram Firebase LabelledRun Service

variable {ι : Type} {w w' w₀ : HomeWorld ι} {e : HomeEvent ι} {es : List (HomeEvent ι)}

/-- The account whose record a request reads or writes. -/
def accountOf : Request → Option String
  | .observeSingleEvent _ uid => some uid
  | .updateChildValues uid _ => some uid
  | .setValue uid _ _ => some uid
  | _ => none

/-- The record is that of the session in which the program began, or of the account
that its attempt has signed in. -/
def OwnCall (d : Device Home) (t : Trail) (r : Request) : Prop :=
  ∀ uid, accountOf r = some uid → d.currentUser = some uid ∨ signedIn t = some uid

section Handlers

variable {t : Trail} {d₀ d : Device Home}

theorem ownCall_session {r : Request} {uid : String} (hr : accountOf r = some uid)
    (hd : d₀.currentUser = some uid) : OwnCall d₀ t r := by
  intro other hother
  rw [hr] at hother
  exact Or.inl (hd.trans hother)

theorem ownCall_attempt {r : Request} {uid : String} (hr : accountOf r = some uid)
    (ht : signedIn t = some uid) : OwnCall d₀ t r := by
  intro other hother
  rw [hr] at hother
  exact Or.inr (ht.trans hother)

theorem fetchUser_own (hd : d.currentUser = d₀.currentUser) :
    CallsAllowed platform OwnCall fetchUser t d₀ d := by
  obtain ⟨_ | uid, home⟩ := d
  · trivial
  · refine ⟨ownCall_session rfl hd.symm, ?_, trivial⟩
    rintro ⟨key, _ | _ | f⟩ d' <;> trivial

theorem authenticationComplete_own (hd : d.currentUser = d₀.currentUser) :
    CallsAllowed platform OwnCall authenticationComplete t d₀ d :=
  fetchUser_own hd

theorem googleCompletion_own (hd : d.currentUser = d₀.currentUser) :
    CallsAllowed platform OwnCall
      (authenticationComplete.andThen (.act (.ui (.dismiss .login)) .done)) t d₀ d :=
  (authenticationComplete_own hd).andThen fun _ => trivial

theorem handleLogin_own (email password : Option String) :
    CallsAllowed platform OwnCall (handleLogin email password) [] d₀ d := by
  cases email with
  | none => trivial
  | some email =>
    cases password with
    | none => trivial
    | some password =>
      refine ⟨by simp [OwnCall, accountOf], fun reply d' => ?_, trivial⟩
      cases he : AuthReply.error reply with
      | some error => simp only [he]; trivial
      | none => simp only [he]; exact authenticationComplete_own rfl

theorem handleSignUP_own (email password fullname : Option String) :
    CallsAllowed platform OwnCall (handleSignUP email password fullname) [] d₀ d := by
  cases email with
  | none => trivial
  | some email =>
    cases password with
    | none => trivial
    | some password =>
      cases fullname with
      | none => trivial
      | some fullname =>
        refine ⟨by simp [OwnCall, accountOf], fun reply d' => ?_, trivial⟩
        cases he : AuthReply.error reply with
        | some error => simp only [he]; trivial
        | none =>
          simp only [he]
          cases hr : AuthReply.result reply with
          | none => trivial
          | some result =>
            refine ⟨ownCall_attempt rfl (by simp [signedIn, signInOf, hr]), fun write d'' => ?_,
              trivial⟩
            cases hw : WriteReply.error write with
            | some error => simp only [hw]; trivial
            | none => simp only [hw]; exact authenticationComplete_own rfl

/-- The read of the node and the write of the record are for the account that the
credential has signed in. -/
theorem signDidSignInFor_own (user : Option GIDGoogleUser) (error : Option BackendError) :
    CallsAllowed platform OwnCall (signDidSignInFor user error) [] d₀ d := by
  cases user with
  | none => trivial
  | some user =>
    obtain ⟨authentication⟩ := user
    cases authentication with
    | none => trivial
    | some authentication =>
      refine ⟨by simp [OwnCall, accountOf], fun reply d' => ?_, trivial⟩
      cases he : AuthReply.error reply with
      | some error => simp only [he]; exact googleCompletion_own rfl
      | none =>
        simp only [he]
        cases hr : AuthReply.result reply with
        | none => trivial
        | some result =>
          have hsigned : signedIn [⟨.signInWithCredential
              ⟨authentication.idToken, authentication.accessToken⟩, reply⟩] = some result.uid := by
            simp [signedIn, signInOf, hr]
          refine ⟨ownCall_attempt rfl hsigned, fun snapshot d'' => ?_, trivial⟩
          cases hv : DataSnapshot.value snapshot with
          | some node => simp only [hv]; exact googleCompletion_own rfl
          | none =>
            simp only [hv]
            obtain ⟨uid, email, displayName⟩ := result
            cases email with
            | none => trivial
            | some email =>
              cases displayName with
              | none => trivial
              | some fullname =>
                refine ⟨ownCall_attempt rfl ?_, fun write d''' => googleCompletion_own rfl, trivial⟩
                exact (signedIn_append _ _).trans hsigned

theorem handler_own (u : Input) (d : Device Home) :
    CallsAllowed platform OwnCall (handler u) [] d d := by
  cases u with
  | viewDidLoad =>
    obtain ⟨_ | uid, home⟩ := d
    · trivial
    · exact fetchUser_own (d := ⟨some uid, home⟩) rfl
  | handleLogin email password => exact handleLogin_own email password
  | handleSignUP email password fullname => exact handleSignUP_own email password fullname
  | signDidSignInFor user error => exact signDidSignInFor_own user error
  | logout throws => cases throws <;> trivial
  | controllerWantsToDismiss =>
    obtain ⟨_ | uid, home⟩ := d
    · trivial
    · exact ⟨ownCall_session rfl rfl, fun _ _ => trivial, trivial⟩

end Handlers

section Own

/-- Every request in flight is for an account that its device has had, and so is every
sign-in behind it. -/
structure Own (had : ι → String → Prop) (w : HomeWorld ι) : Prop where
  call : ∀ i c uid, (w.client i).InFlight c → accountOf c.request = some uid → had i uid
  trail : ∀ i c uid, (w.client i).InFlight c → ∀ x ∈ c.trail, signInOf x = some uid → had i uid

theorem Own.mono {had had' : ι → String → Prop} (h : Own had w)
    (hle : ∀ i uid, had i uid → had' i uid) : Own had' w :=
  ⟨fun i c uid hc hu => hle i uid (h.call i c uid hc hu),
    fun i c uid hc x hx hu => hle i uid (h.trail i c uid hc x hx hu)⟩

theorem launched_not_inFlight (h : Launched w) (i : ι) (c : Call Reply Action (Device Home)) :
    ¬ (w.client i).InFlight c := by
  obtain ⟨session, hi⟩ := h i
  simp [hi, Client.start, Client.InFlight]

variable [DecidableEq ι]

/-- The session in which a program begins is one that the device has before or after
the step. -/
theorem starts_session {i : ι} {t : Trail} {d : Device Home}
    (heffect : StepEffect platform actOk callOk w e w') (h : Starts platform w i e t d) :
    d.currentUser = session w i ∨ d.currentUser = session w' i := by
  cases h with
  | input u => exact Or.inl rfl
  | @deliver n a hn =>
    cases heffect with
    | deliver _ hn' hres =>
      obtain rfl := Option.some.inj (hn.symm.trans hn')
      exact Or.inr (delivered_session hres).symm

/-- The account of a sign-in that has just been delivered is the session. -/
theorem starts_trail {had : ι → String → Prop} (h : Own had w) {i : ι} {t : Trail}
    {d : Device Home} (heffect : StepEffect platform actOk callOk w e w')
    (hstarts : Starts platform w i e t d) (hnow : ∀ uid, session w' i = some uid → had i uid) :
    ∀ x ∈ t, ∀ uid, signInOf x = some uid → had i uid := by
  cases hstarts with
  | input u => simp
  | @deliver n a hn =>
    intro x hx uid huid
    rcases List.mem_append.mp hx with hx | hx
    · exact h.trail i a.call uid (Or.inr ⟨a, List.mem_of_getElem? hn, rfl⟩) x hx huid
    · obtain rfl := List.mem_singleton.mp hx
      cases heffect with
      | deliver _ hn' hres =>
        obtain rfl := Option.some.inj (hn.symm.trans hn')
        apply hnow
        rw [delivered_session hres]
        exact receive_signInOf huid

theorem mem_of_signedIn {t : Trail} {uid : String} (h : signedIn t = some uid) :
    ∃ x ∈ t, signInOf x = some uid :=
  List.mem_filterMap.mp (List.mem_of_getLast? h)

theorem Own.step {had : ι → String → Prop} (hw : w.Conforming actOk callOk)
    (hallowed : w.CallbacksAllowed platform OwnCall) (h : Own had w) (hs : Step platform w e w')
    (hbefore : ∀ i uid, session w i = some uid → had i uid)
    (hnow : ∀ i uid, session w' i = some uid → had i uid) : Own had w' := by
  have heffect := step_effect hw hs
  refine ⟨?_, ?_⟩
  · intro i c uid hc hu
    rcases hallowed.inFlight handler_own hs hc with hold | ⟨d, hstarts, hown, -⟩
    · exact h.call i c uid hold hu
    · rcases hown uid hu with hd | ht
      · rcases starts_session heffect hstarts with hsession | hsession
        · exact hbefore i uid (hsession.symm.trans hd)
        · exact hnow i uid (hsession.symm.trans hd)
      · obtain ⟨x, hx, huid⟩ := mem_of_signedIn ht
        exact starts_trail h heffect hstarts (hnow i) x hx uid huid
  · intro i c uid hc x hx huid
    rcases hallowed.inFlight handler_own hs hc with hold | ⟨d, hstarts, -, -⟩
    · exact h.trail i c uid hold x hx huid
    · exact starts_trail h heffect hstarts (hnow i) x hx uid huid

/-- The device has had a session of the account. -/
abbrev HasHad (w₀ : HomeWorld ι) (es : List (HomeEvent ι)) (w : HomeWorld ι) (i : ι)
    (uid : String) : Prop :=
  HasHeld (Step platform) (fun m => session m i = some uid) w₀ es w

theorem own_run (h₀ : Launched w₀) (hrun : Run (Step platform) w₀ es w) :
    w.Conforming actOk callOk ∧ w.CallbacksAllowed platform OwnCall ∧
      Own (HasHad w₀ es w) w := by
  refine Run.induction (I := fun es w => w.Conforming actOk callOk ∧
    w.CallbacksAllowed platform OwnCall ∧ Own (HasHad w₀ es w) w) ⟨launched_conforming h₀, ?_, ?_⟩ ?_
    hrun
  · exact fun i c hc => absurd hc (launched_not_inFlight h₀ i c)
  · exact ⟨fun i c _ hc => absurd hc (launched_not_inFlight h₀ i c),
      fun i c _ hc => absurd hc (launched_not_inFlight h₀ i c)⟩
  · intro es v e u hr ih hs
    refine ⟨(step_effect ih.1 hs).conforming ih.1, ih.2.1.step handler_own hs, ?_⟩
    refine (ih.2.2.mono fun i uid h => h.snoc hs).step ih.1 ih.2.1 hs ?_ ?_
    · exact fun i uid h => (HasHeld.now hr h).snoc hs
    · exact fun i uid h => .now (Run.snoc hr hs) h

theorem serve_changes {o : Answer} {r : Request} {b b' : Backend} {answer : Option (Reply r)}
    {pending : List Request} {uid : String} (h : serve o r pending b = some (b', answer))
    (hne : b'.users uid ≠ b.users uid) : o = .succeed ∧ accountOf r = some uid := by
  rcases serve_users h with husers | ⟨other, values, rfl, rfl, rfl⟩ | ⟨other, key, value, rfl, rfl, rfl⟩
  · exact absurd (congrFun husers uid) hne
  · by_cases hother : uid = other
    · exact ⟨rfl, by rw [hother]; rfl⟩
    · exact absurd (b.setUser_users_of_ne hother _) hne
  · by_cases hother : uid = other
    · exact ⟨rfl, by rw [hother]; rfl⟩
    · exact absurd (b.setUser_users_of_ne hother _) hne

/-- In every run each request on a record is for an account that its device has had,
and a record changes only at such a request. -/
theorem own_records_only (h₀ : Launched w₀) (hrun : Run (Step platform) w₀ es w) :
    (∀ i c uid, (w.client i).InFlight c → accountOf c.request = some uid → HasHad w₀ es w i uid) ∧
    ∀ e w' uid, Step platform w e w' → w'.server.users uid ≠ w.server.users uid →
      ∃ i n c, e = .serve i n .succeed ∧ (w.client i).waiting[n]? = some c ∧
        accountOf c.request = some uid ∧ HasHad w₀ es w i uid := by
  obtain ⟨hw, -, hown⟩ := own_run h₀ hrun
  refine ⟨hown.call, ?_⟩
  intro e w' uid hs hne
  rcases (step_effect hw hs).server with hserver | ⟨i, n, o, c, answer, rfl, hwait, hn, hserve⟩
  · exact absurd (by rw [hserver]) hne
  · obtain ⟨rfl, hu⟩ := serve_changes hserve hne
    exact ⟨i, n, c, rfl, hn, hu, hown.call i c uid (Or.inl hwait) hu⟩

/-- The write of the onboarding flag, by the device of the account. -/
theorem own_records_newcomer :
    ∃ w w', Run (Step platform) newcomer [.input () .viewDidLoad, .serve () 0 .succeed,
        .deliver () 0, .input () .controllerWantsToDismiss] w ∧
      Step platform w (.serve () 0 .succeed) w' ∧
      w'.server.users "kim" ≠ w.server.users "kim" ∧
      HasHad newcomer [.input () .viewDidLoad, .serve () 0 .succeed, .deliver () 0,
        .input () .controllerWantsToDismiss] w () "kim" := by
  have hrun : ∃ w w', Run (Step platform) newcomer [.input () .viewDidLoad, .serve () 0 .succeed,
      .deliver () 0, .input () .controllerWantsToDismiss] w ∧
      Step platform w (.serve () 0 .succeed) w' ∧ HoldsTrue "kim" w' ∧ ¬ HoldsTrue "kim" w :=
    ⟨_, _, World.next_run rfl, World.next_step rfl, by decide, by decide⟩
  obtain ⟨w, w', hrun, hs, hseen, hnot⟩ := hrun
  have hne : w'.server.users "kim" ≠ w.server.users "kim" :=
    fun h => hnot ((seen_congr h).mp hseen)
  obtain ⟨i, n, c, -, -, -, hhad⟩ := (own_records_only (oneDevice_launched _ _) hrun).2 _ w' "kim" hs hne
  exact ⟨w, w', hrun, hs, hne, hhad⟩

end Own

section Shown

/-- The name and the address of the user stand in a record that the account has had. -/
def Sourced (source : String → (String → Option Value) → Prop) (user : User) : Prop :=
  ∃ f, source user.uid f ∧ user.email = (User.ofDictionary user.uid f).email ∧
    user.fullname = (User.ofDictionary user.uid f).fullname

/-- The home screen holds and greets only users who come from such a record. -/
structure ShowsSourced (source : String → (String → Option Value) → Prop) (h : Home) : Prop where
  user : ∀ user, h.user = some user → Sourced source user
  welcomeLabel : h.welcomeLabel.alpha = 1 → ∃ user, Sourced source user ∧
    h.welcomeLabel.text = "환영합니다, " ++ user.fullname ++ " 님!"

theorem Sourced.mono {source source' : String → (String → Option Value) → Prop} {user : User}
    (h : Sourced source user) (hle : ∀ uid f, source uid f → source' uid f) :
    Sourced source' user := by
  obtain ⟨f, hf, hrest⟩ := h
  exact ⟨f, hle _ f hf, hrest⟩

theorem ShowsSourced.mono {source source' : String → (String → Option Value) → Prop} {h : Home}
    (hh : ShowsSourced source h) (hle : ∀ uid f, source uid f → source' uid f) :
    ShowsSourced source' h := by
  refine ⟨fun user hu => (hh.user user hu).mono hle, fun halpha => ?_⟩
  obtain ⟨user, hu, htext⟩ := hh.welcomeLabel halpha
  exact ⟨user, hu.mono hle, htext⟩

theorem ShowsSourced.setUser {source : String → (String → Option Value) → Prop} {h : Home}
    {user : User} (hh : ShowsSourced source h) (hu : Sourced source user) :
    ShowsSourced source (setUser user h) := by
  refine ⟨?_, ?_⟩
  · intro other hother
    rw [setUser_user] at hother
    obtain rfl := Option.some.inj hother
    exact hu
  · rw [setUser_welcomeLabel]
    split_ifs with hseen
    · exact fun _ => ⟨user, hu, rfl⟩
    · exact hh.welcomeLabel

theorem ShowsSourced.setHasSeenOnboarding {source : String → (String → Option Value) → Prop}
    {h : Home} (hh : ShowsSourced source h) :
    ShowsSourced source (setHasSeenOnboarding h) := by
  unfold HomeController.setHasSeenOnboarding
  cases hu : h.user with
  | none => exact hh
  | some user =>
    -- Only the flag of the user changes, not what the record tells of them.
    have hsame : Sourced source { user with hasSeenOnboarding := true } := hh.user user hu
    exact hh.setUser hsame

/-- A fetched snapshot tells only what the source of its key is. -/
def SnapshotSourced (source : String → (String → Option Value) → Prop) : (Σ r, Reply r) → Prop
  | ⟨.observeSingleEvent .fetchUser _, snapshot⟩ =>
    ∀ f, DataSnapshot.value snapshot = some (.dictionary f) → source (DataSnapshot.key snapshot) f
  | _ => True

theorem SnapshotSourced.mono {source source' : String → (String → Option Value) → Prop}
    {x : Σ r, Reply r} (h : SnapshotSourced source x)
    (hle : ∀ uid f, source uid f → source' uid f) : SnapshotSourced source' x := by
  obtain ⟨r, reply⟩ := x
  cases r with
  | observeSingleEvent reader uid =>
    cases reader with
    | signInWithGoogle => trivial
    | fetchUser => exact fun f hf => hle _ f (h f hf)
  | _ => trivial

theorem SnapshotSourced.fetched {source : String → (String → Option Value) → Prop}
    {x : Σ r, Reply r} {user : User} (h : SnapshotSourced source x) (hx : FetchedUser user x) :
    Sourced source user := by
  obtain ⟨uid, snapshot, f, rfl, hf, rfl⟩ := hx.exists
  exact ⟨f, h f hf, rfl, rfl⟩

theorem SnapshotSourced.served {source : String → (String → Option Value) → Prop} {o : Answer}
    {r : Request} {pending : List Request} {b b' : Backend} {reply : Reply r}
    (h : serve o r pending b = some (b', some reply))
    (hsource : ∀ uid f, accountOf r = some uid →
      eventCache pending uid (b.users uid) = some (.dictionary f) → source uid f) :
    SnapshotSourced source ⟨r, reply⟩ := by
  cases r with
  | observeSingleEvent reader uid =>
    cases reader with
    | signInWithGoogle => trivial
    | fetchUser =>
      obtain ⟨rfl, ⟨_, -, hr⟩ | ⟨-, hr⟩⟩ := serve_observeSingleEvent h
      · cases hr
      · obtain rfl := Option.some.inj hr
        exact fun f hf => hsource uid f rfl hf
  | _ => trivial

/-- The node of an account as a device shows it. -/
def shownNode (w : HomeWorld ι) (i : ι) (uid : String) : Option Node :=
  eventCache (w.client i).requests uid (w.server.users uid)

structure AllSourced (source : ι → String → (String → Option Value) → Prop) (w : HomeWorld ι) :
    Prop where
  home : ∀ i, ShowsSourced (source i) (home w i)
  arrived : ∀ i, ∀ a ∈ (w.client i).arrived, SnapshotSourced (source i) a.answer

theorem AllSourced.mono {source source' : ι → String → (String → Option Value) → Prop}
    (h : AllSourced source w) (hle : ∀ i uid f, source i uid f → source' i uid f) :
    AllSourced source' w :=
  ⟨fun i => (h.home i).mono (hle i), fun i a ha => (h.arrived i a ha).mono (hle i)⟩

/-- What the actions of a program leave on the screen, given its last answer. -/
theorem ShowsSourced.act {source : String → (String → Option Value) → Prop} {t : Trail}
    (ht : ∀ x, t.getLast? = some x → SnapshotSourced source x) {a : Action} (ha : actOk t a)
    {d : Device Home} (hd : ShowsSourced source d.app) :
    ShowsSourced source (act a d).app := by
  cases a with
  | setUser user =>
    obtain ⟨x, hx, hfetched⟩ := ha
    exact hd.setUser ((ht x hx).fetched hfetched)
  | setHasSeenOnboarding => exact hd.setHasSeenOnboarding
  | _ => exact ⟨hd.user, hd.welcomeLabel⟩

variable [DecidableEq ι]

theorem AllSourced.step {source : ι → String → (String → Option Value) → Prop}
    (hw : w.Conforming actOk callOk) (h : AllSourced source w) (hs : Step platform w e w')
    (hsource : ∀ i c uid f, (w.client i).InFlight c → accountOf c.request = some uid →
      shownNode w i uid = some (.dictionary f) → source i uid f) : AllSourced source w' := by
  have heffect := step_effect hw hs
  refine ⟨?_, ?_⟩
  · intro i
    rcases heffect.state i with hsame | ⟨u, rfl, hres⟩ | ⟨n, a, rfl, ha, hn, hres⟩
    · rw [HomeController.home, hsame]
      exact h.home i
    · exact hres.invariant (I := fun d => ShowsSourced (source i) d.app) (h.home i)
        fun d action haction hd => hd.act (by simp) haction
    · refine hres.invariant (I := fun d => ShowsSourced (source i) d.app) ?_ ?_
      · rw [World.received_state]
        change ShowsSourced (source i) (receive _ _ _).app
        rw [receive_app]
        exact h.home i
      · intro d action haction hd
        refine hd.act (fun x hx => ?_) haction
        obtain rfl := Arrival.eq_answer hx
        exact h.arrived i a ha
  · intro i a ha
    rcases heffect.mem_arrived ha with ha | ⟨hwait, -, hserve⟩
    · exact h.arrived i a ha
    · exact SnapshotSourced.served hserve fun uid f hu hf => hsource i _ uid f (Or.inl hwait) hu hf

/-- The account has been signed in on the device, and its node, under the writes of the same
device that had no answer, has been the dictionary. -/
def HadRecord (w₀ : HomeWorld ι) (es : List (HomeEvent ι)) (w : HomeWorld ι) (i : ι)
    (uid : String) (f : String → Option Value) : Prop :=
  HasHad w₀ es w i uid ∧
    HasHeld (Step platform) (fun m => shownNode m i uid = some (.dictionary f)) w₀ es w

/-- In every run the user that a home screen holds, and the one that it greets, have
the name and the address of a record that an account signed in on the same device has
had, in the database or by a write of this device. -/
theorem shown_user_has_record (h₀ : Launched w₀) (hrun : Run (Step platform) w₀ es w) (i : ι) :
    ShowsSourced (HadRecord w₀ es w i) (home w i) := by
  have hinv : AllSourced (HadRecord w₀ es w) w := by
    refine Run.induction (I := fun es w => AllSourced (HadRecord w₀ es w) w) ⟨?_, ?_⟩ ?_ hrun
    · intro i
      obtain ⟨session, hi⟩ := h₀ i
      constructor <;> simp [home, hi, Client.start, Home.loaded]
    · intro i a ha
      exact absurd (Or.inr ⟨a, ha, rfl⟩) (launched_not_inFlight h₀ i a.call)
    · intro es v e u hr ih hs
      obtain ⟨hw, -, hown⟩ := own_run h₀ hr
      refine (ih.mono fun i uid f h => ⟨h.1.snoc hs, h.2.snoc hs⟩).step hw hs ?_
      intro i c uid f hc hu hf
      exact ⟨(hown.call i c uid hc hu).snoc hs, (HasHeld.now hr hf).snoc hs⟩
  exact hinv.home i

/-- The greeting after a finished onboarding. -/
theorem shown_user_newcomer :
    ∃ w, Run (Step platform) newcomer [.input () .viewDidLoad, .serve () 0 .succeed,
        .deliver () 0, .input () .controllerWantsToDismiss, .serve () 0 .succeed, .deliver () 0] w ∧
      (home w ()).welcomeLabel = ⟨"환영합니다, Kim 님!", 1⟩ ∧
      ∃ user, Sourced (HadRecord newcomer [.input () .viewDidLoad, .serve () 0 .succeed,
        .deliver () 0, .input () .controllerWantsToDismiss, .serve () 0 .succeed, .deliver () 0] w ())
          user ∧ (home w ()).welcomeLabel.text = "환영합니다, " ++ user.fullname ++ " 님!" := by
  have hrun : ∃ w, Run (Step platform) newcomer [.input () .viewDidLoad, .serve () 0 .succeed,
      .deliver () 0, .input () .controllerWantsToDismiss, .serve () 0 .succeed, .deliver () 0] w ∧
      (home w ()).welcomeLabel = ⟨"환영합니다, Kim 님!", 1⟩ :=
    ⟨_, World.next_run rfl, by decide⟩
  obtain ⟨w, hrun, hlabel⟩ := hrun
  exact ⟨w, hrun, hlabel,
    (shown_user_has_record (oneDevice_launched _ _) hrun ()).welcomeLabel (by rw [hlabel])⟩

end Shown

end CardPang.HomeController
