import CardPang.OwnAccount
import CardPang.CallbackView

/-!
# What a past leaves on the home screen

Nothing but the delivered records, the delivered completions of the onboarding write, the
sign-ins and the logouts of a device decides whom its home screen holds and greets. Of the
records only the last one counts.
-/
namespace CardPang.HomeController
open CallbackProgram Firebase LabelledRun Service

/-- What a past leaves. -/
structure Remains where
  user : Option User
  welcomeLabel : Label
  session : Option String
  deriving DecidableEq, Repr

def Remains.ofDevice (d : Device Home) : Remains := ⟨d.app.user, d.app.welcomeLabel, d.currentUser⟩

def Remains.home (v : Remains) : Home := ⟨v.user, v.welcomeLabel, [], []⟩

def greeting (user : User) : Label := ⟨"환영합니다, " ++ user.fullname ++ " 님!", 1⟩

def Remains.setUser (user : User) (v : Remains) : Remains :=
  { v with
    user := some user
    welcomeLabel := if user.hasSeenOnboarding then greeting user else v.welcomeLabel }

def Remains.setHasSeenOnboarding (v : Remains) : Remains :=
  match v.user with
  | none => v
  | some user => v.setUser { user with hasSeenOnboarding := true }

/-- The user of a record that an answer brings to the home screen. -/
def recordOf : (Σ r, Reply r) → Option User
  | ⟨.observeSingleEvent .fetchUser _, snapshot⟩ =>
    match DataSnapshot.value snapshot with
    | some (.dictionary f) => some (User.ofDictionary (DataSnapshot.key snapshot) f)
    | _ => none
  | _ => none

/-- The answer is the completion of the onboarding write. -/
def completes : (Σ r, Reply r) → Bool
  | ⟨.setValue _ _ _, _⟩ => true
  | _ => false

def Remains.callback (x : Σ r, Reply r) (v : Remains) : Remains :=
  match recordOf x with
  | some user => v.setUser user
  | none => if completes x then v.setHasSeenOnboarding else v

theorem Remains.ofDevice_setUser (user : User) (d : Device Home) :
    Remains.ofDevice { d with app := HomeController.setUser user d.app } =
      (Remains.ofDevice d).setUser user := by
  change Remains.mk (HomeController.setUser user d.app).user
    (HomeController.setUser user d.app).welcomeLabel d.currentUser = _
  rw [setUser_user, setUser_welcomeLabel]
  rfl

theorem Remains.ofDevice_setHasSeenOnboarding (d : Device Home) :
    Remains.ofDevice { d with app := HomeController.setHasSeenOnboarding d.app } =
      (Remains.ofDevice d).setHasSeenOnboarding := by
  have hsame : (Remains.ofDevice d).user = d.app.user := rfl
  cases hu : d.app.user with
  | none => rw [HomeController.setHasSeenOnboarding, Remains.setHasSeenOnboarding, hsame, hu]
  | some user =>
    rw [HomeController.setHasSeenOnboarding, Remains.setHasSeenOnboarding, hsame, hu]
    exact ofDevice_setUser { user with hasSeenOnboarding := true } d

theorem Remains.ofDevice_signedIn (d : Device Home) (reply : AuthReply) :
    Remains.ofDevice (d.signedIn reply) = { Remains.ofDevice d with
      session := (reply.result.map AuthDataResult.uid).or d.currentUser } := by
  rw [Device.signedIn]
  cases reply.result <;> rfl

def remains : View platform Remains where
  view := Remains.ofDevice
  act
    | .setUser user, v => v.setUser user
    | .setHasSeenOnboarding, v => v.setHasSeenOnboarding
    | .signOut, v => { v with session := none }
    | _, v => v
  receive x v := { v with session := (signInOf x).or v.session }
  input
    | .logout false, v => { v with session := none }
    | _, v => v
  callback := Remains.callback
  view_act a d := by
    cases a with
    | setUser user => exact Remains.ofDevice_setUser user d
    | setHasSeenOnboarding => exact Remains.ofDevice_setHasSeenOnboarding d
    | _ => rfl
  view_receive r reply d := by
    cases r with
    | signIn _ _ => exact Remains.ofDevice_signedIn d reply
    | createUser _ _ => exact Remains.ofDevice_signedIn d reply
    | signInWithCredential _ => exact Remains.ofDevice_signedIn d reply
    | _ => rfl

section Handlers

variable {v : Remains}

theorem fetchUser_leaves : Leaves remains fetchUser v v := by
  rintro ⟨_ | uid, home⟩ -
  · rfl
  · refine ⟨?_, rfl⟩
    rintro ⟨key, _ | _ | f⟩ v₁ <;> rfl

theorem authenticationComplete_leaves : Leaves remains authenticationComplete v v :=
  fetchUser_leaves

theorem googleCompletion_leaves :
    Leaves remains (authenticationComplete.andThen (.act (.ui (.dismiss .login)) .done)) v v :=
  authenticationComplete_leaves.andThen rfl

theorem handleLogin_leaves (email password : Option String) :
    Leaves remains (handleLogin email password) v v := by
  cases email with
  | none => rfl
  | some email =>
    cases password with
    | none => rfl
    | some password =>
      refine ⟨fun reply v₁ => ?_, rfl⟩
      cases he : AuthReply.error reply with
      | some error => simp only [he]; rfl
      | none => simp only [he]; exact authenticationComplete_leaves

theorem handleSignUP_leaves (email password fullname : Option String) :
    Leaves remains (handleSignUP email password fullname) v v := by
  cases email with
  | none => rfl
  | some email =>
    cases password with
    | none => rfl
    | some password =>
      cases fullname with
      | none => rfl
      | some fullname =>
        refine ⟨fun reply v₁ => ?_, rfl⟩
        cases he : AuthReply.error reply with
        | some error => simp only [he]; rfl
        | none =>
          simp only [he]
          cases hr : AuthReply.result reply with
          | none => rfl
          | some result =>
            refine ⟨fun write v₂ => ?_, rfl⟩
            cases hw : WriteReply.error write with
            | some error => simp only [hw]; rfl
            | none => simp only [hw]; exact authenticationComplete_leaves

theorem signDidSignInFor_leaves (user : Option GIDGoogleUser) (error : Option BackendError) :
    Leaves remains (signDidSignInFor user error) v v := by
  cases user with
  | none => trivial
  | some user =>
    obtain ⟨authentication⟩ := user
    cases authentication with
    | none => rfl
    | some authentication =>
      refine ⟨fun reply v₁ => ?_, rfl⟩
      cases he : AuthReply.error reply with
      | some error => simp only [he]; exact googleCompletion_leaves
      | none =>
        simp only [he]
        cases hr : AuthReply.result reply with
        | none => rfl
        | some result =>
          refine ⟨fun snapshot v₂ => ?_, rfl⟩
          cases hv : DataSnapshot.value snapshot with
          | some node => simp only [hv]; exact googleCompletion_leaves
          | none =>
            simp only [hv]
            obtain ⟨uid, email, displayName⟩ := result
            cases email with
            | none => rfl
            | some email =>
              cases displayName with
              | none => rfl
              | some fullname => exact ⟨fun write v₃ => googleCompletion_leaves, rfl⟩

theorem handler_leaves (u : Input) (v : Remains) :
    Leaves remains (handler u) v (remains.input u v) := by
  cases u with
  | viewDidLoad =>
    rintro ⟨_ | uid, home⟩ -
    · rfl
    · exact fetchUser_leaves
  | handleLogin email password => exact handleLogin_leaves email password
  | handleSignUP email password fullname => exact handleSignUP_leaves email password fullname
  | signDidSignInFor user error => exact signDidSignInFor_leaves user error
  | logout throws => cases throws <;> rfl
  | controllerWantsToDismiss =>
    rintro ⟨_ | uid, home⟩ -
    · rfl
    · exact ⟨fun reply v₁ => rfl, rfl⟩

end Handlers

section Past

/-- What the moments leave one after the other, on a device that was launched with this
session. -/
def past (session : Option String) (ms : List (Moment Reply Input)) : Remains :=
  ms.foldl remains.after ⟨none, Home.loaded.welcomeLabel, session⟩

def recordIn : Moment Reply Input → Option User
  | .input _ => none
  | .answer x => recordOf x

def completesIn : Moment Reply Input → Bool
  | .input _ => false
  | .answer x => completes x

/-- The user of a record, with the flag as it stands by now, over what was shown before. -/
structure Held (user : User) (before : Label) (seen : Bool) (v : Remains) : Prop where
  holds : v.user = some { user with hasSeenOnboarding := seen }
  shows : v.welcomeLabel = if seen then greeting user else before

variable {user : User} {before : Label} {seen : Bool} {v : Remains} {m : Moment Reply Input}
  {ms later : List (Moment Reply Input)}

theorem held_of_record (h : recordIn m = some user) :
    Held user v.welcomeLabel user.hasSeenOnboarding (remains.after v m) := by
  cases m with
  | input u => cases h
  | answer x =>
    change Held _ _ _ (Remains.callback x _)
    change recordOf x = some user at h
    rw [Remains.callback, h]
    exact ⟨rfl, rfl⟩

theorem Held.with_session (h : Held user before seen v) (s : Option String) :
    Held user before seen { v with session := s } :=
  ⟨h.holds, h.shows⟩

/-- A moment without a record can only set the flag. -/
theorem Held.after (h : Held user before seen v) (hm : recordIn m = none) :
    Held user before (seen || completesIn m) (remains.after v m) := by
  cases m with
  | input u =>
    rw [completesIn, Bool.or_false]
    cases u with
    | logout throws =>
      cases throws with
      | true => exact h
      | false => exact h.with_session none
    | _ => exact h
  | answer x =>
    have hreceived : Held user before seen (remains.receive x v) := h.with_session _
    change recordOf x = none at hm
    change Held _ _ (seen || completes x) (Remains.callback x (remains.receive x v))
    rw [Remains.callback, hm]
    cases hx : completes x with
    | false =>
      rw [Bool.or_false]
      exact hreceived
    | true =>
      rw [Bool.or_true, if_pos rfl, Remains.setHasSeenOnboarding, hreceived.holds]
      exact ⟨rfl, rfl⟩

theorem Held.foldl (h : Held user before seen v) (hlater : ∀ m ∈ later, recordIn m = none) :
    Held user before (seen || later.any completesIn) (later.foldl remains.after v) := by
  induction later generalizing seen v with
  | nil =>
    rw [List.any_nil, Bool.or_false]
    exact h
  | cons m later ih =>
    obtain ⟨hm, hlater⟩ := List.forall_mem_cons.mp hlater
    rw [List.any_cons, ← Bool.or_assoc]
    exact ih (h.after hm) hlater

theorem Remains.callback_of_none {x : Σ r, Reply r} (hx : recordOf x = none) (hv : v.user = none) :
    Remains.callback x v = v := by
  rw [Remains.callback, hx, Remains.setHasSeenOnboarding, hv]
  exact ite_self v

/-- Without a record nobody is held and nobody is greeted. -/
theorem past_of_no_record (session : Option String) (h : ∀ m ∈ ms, recordIn m = none) :
    (past session ms).user = none ∧
      (past session ms).welcomeLabel = Home.loaded.welcomeLabel := by
  induction ms using List.reverseRecOn with
  | nil => exact ⟨rfl, rfl⟩
  | append_singleton ms m ih =>
    obtain ⟨huser, hlabel⟩ := ih fun m' hm' => h m' (List.mem_append_left [m] hm')
    have hm := h m (List.mem_append_right ms List.mem_cons_self)
    have hpast : past session (ms ++ [m]) = remains.after (past session ms) m := by
      rw [past, List.foldl_append]
      rfl
    rw [hpast]
    cases m with
    | input u =>
      cases u with
      | logout throws => cases throws <;> exact ⟨huser, hlabel⟩
      | _ => exact ⟨huser, hlabel⟩
    | answer x =>
      have hsame : remains.after (past session ms) (.answer x) =
          remains.receive x (past session ms) := Remains.callback_of_none hm huser
      rw [hsame]
      exact ⟨huser, hlabel⟩

end Past

section Run

variable {ι : Type} [DecidableEq ι] {w w₀ : HomeWorld ι} {es : List (HomeEvent ι)} {i j : ι}
  {ms : List (Moment Reply Input)} {v₁ v₂ : HomeWorld ι}

/-- What a device has been through decides what is left on it. -/
theorem remains_of_past (h₀ : Launched w₀)
    (hrun : Observed (Step platform) (moments i) w₀ es w ms) :
    Remains.ofDevice (w.client i).state = past (session w₀ i) ms := by
  have hleaves : w₀.LeavesView remains := fun j c hc =>
    absurd hc (launched_not_inFlight h₀ j c)
  have hview := view_of_past hleaves handler_leaves hrun
  have hstart : remains.view (w₀.client i).state =
      ⟨none, Home.loaded.welcomeLabel, session w₀ i⟩ := by
    obtain ⟨start, hi⟩ := h₀ i
    rw [session, hi]
    rfl
  rw [hstart] at hview
  exact hview

/-- In every run the home screen holds the user of the last record that was delivered to it,
with the flag set by the completions since then, and greets this user once the flag is set. Before
the first record it holds nobody. -/
theorem home_shows_last_record (h₀ : Launched w₀)
    (hrun : Observed (Step platform) (moments i) w₀ es w ms) :
    ((∀ m ∈ ms, recordIn m = none) → (home w i).user = none ∧
      (home w i).welcomeLabel = Home.loaded.welcomeLabel) ∧
    ∀ earlier m later user, ms = earlier ++ m :: later → recordIn m = some user →
      (∀ m' ∈ later, recordIn m' = none) →
      ∃ seen, seen = (user.hasSeenOnboarding || later.any completesIn) ∧
        (home w i).user = some { user with hasSeenOnboarding := seen } ∧
        (home w i).welcomeLabel =
          if seen then greeting user else (past (session w₀ i) earlier).welcomeLabel := by
  have hremains := remains_of_past h₀ hrun
  have huser : (home w i).user = (past (session w₀ i) ms).user := congrArg Remains.user hremains
  have hlabel : (home w i).welcomeLabel = (past (session w₀ i) ms).welcomeLabel :=
    congrArg Remains.welcomeLabel hremains
  rw [huser, hlabel]
  refine ⟨past_of_no_record _, ?_⟩
  rintro earlier m later user rfl hm hlater
  have hheld := (held_of_record (v := past (session w₀ i) earlier) hm).foldl hlater
  have hpast : past (session w₀ i) (earlier ++ m :: later) =
      later.foldl remains.after (remains.after (past (session w₀ i) earlier) m) := by
    rw [past, List.foldl_append]
    rfl
  rw [hpast]
  exact ⟨_, rfl, hheld.holds, hheld.shows⟩

/-- The greeting of the newcomer comes from the record that was read before the onboarding was
dismissed, and from the completion after it. -/
theorem home_shows_newcomer :
    ∃ w ms, Observed (Step platform) (moments ()) newcomer [.input () .viewDidLoad,
        .serve () 0 .succeed, .deliver () 0, .input () .controllerWantsToDismiss,
        .serve () 0 .succeed, .deliver () 0] w ms ∧
      (home w ()).user = some ⟨"kim@card.pang", "Kim", true, "kim"⟩ ∧
      (home w ()).welcomeLabel = greeting ⟨"kim@card.pang", "Kim", false, "kim"⟩ := by
  have hrun : ∃ w record written, Observed (Step platform) (moments ()) newcomer
      [.input () .viewDidLoad, .serve () 0 .succeed, .deliver () 0,
        .input () .controllerWantsToDismiss, .serve () 0 .succeed, .deliver () 0] w
      ([.input .viewDidLoad] ++
        .answer record :: [.input .controllerWantsToDismiss, .answer written]) ∧
      recordOf record = some ⟨"kim@card.pang", "Kim", false, "kim"⟩ ∧ recordOf written = none ∧
      completes written = true :=
    ⟨_, _, _, Observed.cons (World.next_step rfl) (Observed.cons (World.next_step rfl)
      (Observed.cons (World.next_step rfl) (Observed.cons (World.next_step rfl)
      (Observed.cons (World.next_step rfl) (Observed.cons (World.next_step rfl)
      (Observed.nil _)))))), rfl, rfl, rfl⟩
  obtain ⟨w, record, written, hrun, hrecord, hwritten, hcompletes⟩ := hrun
  obtain ⟨seen, hseen, huser, hlabel⟩ := (home_shows_last_record (oneDevice_launched _ _) hrun).2
    [.input .viewDidLoad] (.answer record) [.input .controllerWantsToDismiss, .answer written] _ rfl
    hrecord (by simp [recordIn, hwritten])
  obtain rfl : seen = true := by simpa [completesIn, hcompletes] using hseen
  exact ⟨w, _, hrun, huser, hlabel⟩

/-- A device that ends logged out shows what its past has left, and the past has left it
without a session. -/
theorem EndsLoggedOut.exists_past (h : EndsLoggedOut i v₁) :
    ∃ w es ms, Launched w ∧ Observed (Step platform) (moments i) w es v₁ ms ∧
      Remains.ofDevice (v₁.client i).state = past (session w i) ms ∧
      (past (session w i) ms).session = none := by
  obtain ⟨w, es, h₀, hrun⟩ := h.reached
  obtain ⟨ms, hms⟩ := hrun.observed (moments i)
  have hremains := remains_of_past h₀ hms
  exact ⟨w, es, ms, h₀, hms, hremains, (congrArg Remains.session hremains).symm.trans h.loggedOut⟩

theorem sameBefore_ofDevice (value : Option Node) (d d' : Device Home) :
    SameBefore value d.app d'.app ↔
      SameBefore value (Remains.ofDevice d).home (Remains.ofDevice d').home :=
  match value with
  | none => Iff.rfl
  | some .leaf => Iff.rfl
  | some (.dictionary _) => Iff.rfl

/-- What must not differ before a switch, read on the pasts of the two devices. -/
theorem EndsLoggedOut.sameBefore_iff (h₁ : EndsLoggedOut i v₁) (h₂ : EndsLoggedOut j v₂)
    (value : Option Node) :
    ∃ w₁ es₁ ms₁ w₂ es₂ ms₂, Observed (Step platform) (moments i) w₁ es₁ v₁ ms₁ ∧
      Observed (Step platform) (moments j) w₂ es₂ v₂ ms₂ ∧
      (SameBefore value (home v₁ i) (home v₂ j) ↔
        SameBefore value (past (session w₁ i) ms₁).home (past (session w₂ j) ms₂).home) := by
  obtain ⟨w₁, es₁, ms₁, -, hrun₁, hremains₁, -⟩ := h₁.exists_past
  obtain ⟨w₂, es₂, ms₂, -, hrun₂, hremains₂, -⟩ := h₂.exists_past
  refine ⟨w₁, es₁, ms₁, w₂, es₂, ms₂, hrun₁, hrun₂, ?_⟩
  rw [← hremains₁, ← hremains₂]
  exact sameBefore_ofDevice value _ _

end Run

end CardPang.HomeController
