import CardPang.HomeController

/-!
# What the handlers may do after which answers

One statement for all handlers: the actions and calls that each trail of answers
allows. The results on sessions, records and the onboarding flag use only this and
what the backend does with a request.
-/
namespace CardPang.HomeController
open CallbackProgram Firebase LabelledRun Service

abbrev Trail := List (Σ r, Reply r)

/-- The account that an answer has signed in. -/
def signInOf : (Σ r, Reply r) → Option String
  | ⟨.signIn _ _, reply⟩ => (AuthReply.result reply).map AuthDataResult.uid
  | ⟨.createUser _ _, reply⟩ => (AuthReply.result reply).map AuthDataResult.uid
  | ⟨.signInWithCredential _, reply⟩ => (AuthReply.result reply).map AuthDataResult.uid
  | _ => none

/-- The account that an attempt has signed in so far. -/
def signedIn (t : Trail) : Option String := (t.filterMap signInOf).getLast?

/-- The calls on the user's record between a sign-in and `authenticationComplete`. -/
def RecordCall : Request → Prop
  | .observeSingleEvent .signInWithGoogle _ => True
  | .updateChildValues _ _ => True
  | _ => False

/-- The last answer was a sign-in or the answer to a record call of the attempt. -/
def Attempt (t : Trail) : Prop :=
  (signedIn t).isSome ∧ ∃ x, t.getLast? = some x ∧ ((signInOf x).isSome ∨ RecordCall x.1)

/-- The answer after which the app creates the record of a user. -/
def CreatesRecord (uid : String) : (Σ r, Reply r) → Prop
  | ⟨.createUser _ _, reply⟩ => (AuthReply.result reply).map AuthDataResult.uid = some uid
  | ⟨.observeSingleEvent .signInWithGoogle u, snapshot⟩ =>
    u = uid ∧ DataSnapshot.value snapshot = none
  | _ => False

def CredentialFailed : (Σ r, Reply r) → Prop
  | ⟨.signInWithCredential _, reply⟩ => AuthReply.error reply ≠ none
  | _ => False

def FetchedUser (user : User) : (Σ r, Reply r) → Prop
  | ⟨.observeSingleEvent .fetchUser _, snapshot⟩ =>
    ∃ f, DataSnapshot.value snapshot = some (.dictionary f) ∧
      user = User.ofDictionary (DataSnapshot.key snapshot) f
  | _ => False

def WroteOnboarding : (Σ r, Reply r) → Prop
  | ⟨.setValue _ _ _, _⟩ => True
  | _ => False

def actOk (t : Trail) : Action → Prop
  | .authenticated => Attempt t ∨ ∃ x, t.getLast? = some x ∧ CredentialFailed x
  | .ui c => c ≠ .present .onboarding
  | .setUser user => ∃ x, t.getLast? = some x ∧ FetchedUser user x
  | .setHasSeenOnboarding => ∃ x, t.getLast? = some x ∧ WroteOnboarding x
  | .signOut => t = []

def callOk (t : Trail) : Request → Prop
  | .updateChildValues uid values =>
    Attempt t ∧ (∃ x, t.getLast? = some x ∧ CreatesRecord uid x) ∧
      ∃ email fullname, values = newUser email fullname
  | .observeSingleEvent .signInWithGoogle _ => Attempt t
  | .setValue _ key value => t = [] ∧ key = "hasSeenOnboarding" ∧ value = .bool true
  | _ => True

theorem signedIn_append (t : Trail) (x : Σ r, Reply r) :
    signedIn (t ++ [x]) = (signInOf x).or (signedIn t) := by
  unfold signedIn
  rw [List.filterMap_append]
  cases h : signInOf x <;> simp [h]

theorem attempt_of_signInOf {t : Trail} {x : Σ r, Reply r} (h : (signInOf x).isSome) :
    Attempt (t ++ [x]) := by
  refine ⟨?_, x, by simp, Or.inl h⟩
  rw [signedIn_append, Option.isSome_or, h, Bool.true_or]

theorem Attempt.append {t : Trail} {x : Σ r, Reply r} (h : Attempt t) (hx : RecordCall x.1) :
    Attempt (t ++ [x]) := by
  refine ⟨?_, x, by simp, Or.inr hx⟩
  rw [signedIn_append, Option.isSome_or, h.1, Bool.or_true]

theorem callOk_recordCall {t : Trail} {r : Request} (h : callOk t r) (hr : RecordCall r) :
    Attempt t := by
  cases r with
  | observeSingleEvent reader uid =>
    cases reader with
    | signInWithGoogle => exact h
    | fetchUser => exact hr.elim
  | updateChildValues uid values => exact h.1
  | _ => exact hr.elim

theorem FetchedUser.exists {user : User} {x : Σ r, Reply r} (h : FetchedUser user x) :
    ∃ uid, ∃ snapshot : DataSnapshot, ∃ f, x = ⟨.observeSingleEvent .fetchUser uid, snapshot⟩ ∧
      snapshot.value = some (.dictionary f) ∧ user = User.ofDictionary snapshot.key f := by
  obtain ⟨r, reply⟩ := x
  cases r with
  | observeSingleEvent reader uid =>
    cases reader with
    | signInWithGoogle => exact h.elim
    | fetchUser =>
      obtain ⟨f, hf, hu⟩ := h
      exact ⟨uid, reply, f, rfl, hf, hu⟩
  | _ => exact h.elim

theorem WroteOnboarding.exists {x : Σ r, Reply r} (h : WroteOnboarding x) :
    ∃ uid key value, ∃ reply : WriteReply, x = ⟨.setValue uid key value, reply⟩ := by
  obtain ⟨r, reply⟩ := x
  cases r with
  | setValue uid key value => exact ⟨uid, key, value, reply, rfl⟩
  | _ => exact h.elim

section Conforms

variable {t : Trail}

theorem fetchUser_conforms : Conforms actOk callOk fetchUser t := by
  rintro ⟨_ | uid, home⟩
  · trivial
  · refine ⟨trivial, ?_, trivial⟩
    rintro ⟨key, _ | _ | f⟩
    · trivial
    · trivial
    · exact ⟨⟨_, List.getLast?_concat, f, rfl, rfl⟩, trivial⟩

theorem authenticationComplete_conforms (h : actOk t .authenticated) :
    Conforms actOk callOk authenticationComplete t :=
  ⟨h, by simp [actOk], fetchUser_conforms⟩

theorem handleLogin_conforms (email password : Option String) :
    Conforms actOk callOk (handleLogin email password) [] := by
  cases email with
  | none => trivial
  | some email =>
    cases password with
    | none => trivial
    | some password =>
      refine ⟨trivial, fun reply => ?_, trivial⟩
      cases he : AuthReply.error reply with
      | some error => simp only [he]; trivial
      | none =>
        simp only [he]
        refine authenticationComplete_conforms (Or.inl (attempt_of_signInOf ?_))
        simpa [signInOf] using (AuthReply.given reply).mp he

/-- The completion given to the write of a new record sees a signed-in attempt. -/
theorem handleSignUP_conforms (email password fullname : Option String) :
    Conforms actOk callOk (handleSignUP email password fullname) [] := by
  cases email with
  | none => trivial
  | some email =>
    cases password with
    | none => trivial
    | some password =>
      cases fullname with
      | none => trivial
      | some fullname =>
        refine ⟨trivial, fun reply => ?_, trivial⟩
        cases he : AuthReply.error reply with
        | some error =>
          simp only [he]
          exact ⟨by simp [actOk], trivial⟩
        | none =>
          simp only [he]
          cases hr : AuthReply.result reply with
          | none => trivial
          | some result =>
            have hattempt : Attempt [⟨.createUser email password, reply⟩] :=
              attempt_of_signInOf (t := []) (by simp [signInOf, hr])
            refine ⟨⟨hattempt, ⟨_, rfl, by simp [CreatesRecord, hr]⟩, email, fullname, rfl⟩, ?_,
              trivial⟩
            intro write
            cases hw : WriteReply.error write with
            | some error =>
              simp only [hw]
              exact ⟨by simp [actOk], trivial⟩
            | none =>
              simp only [hw]
              exact authenticationComplete_conforms (Or.inl (hattempt.append trivial))

theorem googleCompletion_conforms (h : actOk t .authenticated) :
    Conforms actOk callOk
      (authenticationComplete.andThen (.act (.ui (.dismiss .login)) .done)) t :=
  (authenticationComplete_conforms h).andThen ⟨by simp [actOk], trivial⟩

theorem signDidSignInFor_conforms (user : GIDGoogleUser) (error : Option BackendError) :
    Conforms actOk callOk (signDidSignInFor (some user) error) [] := by
  obtain ⟨authentication⟩ := user
  cases authentication with
  | none => trivial
  | some authentication =>
    refine ⟨trivial, fun reply => ?_, trivial⟩
    cases he : AuthReply.error reply with
    | some error =>
      simp only [he]
      exact googleCompletion_conforms (Or.inr ⟨_, rfl, by simp [CredentialFailed, he]⟩)
    | none =>
      simp only [he]
      cases hr : AuthReply.result reply with
      | none => trivial
      | some result =>
        have hattempt : Attempt [⟨.signInWithCredential
            ⟨authentication.idToken, authentication.accessToken⟩, reply⟩] :=
          attempt_of_signInOf (t := []) (by simp [signInOf, hr])
        refine ⟨hattempt, fun snapshot => ?_, trivial⟩
        cases hv : DataSnapshot.value snapshot with
        | some node =>
          simp only [hv]
          exact googleCompletion_conforms (Or.inl (hattempt.append trivial))
        | none =>
          simp only [hv]
          obtain ⟨uid, email, displayName⟩ := result
          cases email with
          | none => trivial
          | some email =>
            cases displayName with
            | none => trivial
            | some fullname =>
              have hread := hattempt.append
                (x := ⟨.observeSingleEvent .signInWithGoogle uid, snapshot⟩) trivial
              refine ⟨⟨hread, ⟨_, rfl, rfl, hv⟩, email, fullname, rfl⟩, ?_, trivial⟩
              intro write
              exact googleCompletion_conforms (Or.inl (hread.append trivial))

theorem handler_conforms (u : Input) (hu : ∀ error, u ≠ .signDidSignInFor none error) :
    Conforms actOk callOk (handler u) [] := by
  cases u with
  | viewDidLoad =>
    rintro ⟨_ | uid, home⟩
    · exact ⟨by simp [actOk], trivial⟩
    · exact fetchUser_conforms
  | handleLogin email password => exact handleLogin_conforms email password
  | handleSignUP email password fullname => exact handleSignUP_conforms email password fullname
  | signDidSignInFor user error =>
    cases user with
    | none => exact absurd rfl (hu error)
    | some user => exact signDidSignInFor_conforms user error
  | logout throws =>
    cases throws with
    | true => trivial
    | false => exact ⟨rfl, by simp [actOk], trivial⟩
  | controllerWantsToDismiss =>
    refine ⟨by simp [actOk], ?_⟩
    rintro ⟨_ | uid, home⟩
    · trivial
    · exact ⟨⟨rfl, rfl, rfl⟩, fun reply => ⟨⟨_, rfl, trivial⟩, trivial⟩, trivial⟩

end Conforms

section Step

variable {ι : Type} {w w' : HomeWorld ι} {e : HomeEvent ι}

theorem launched_conforming (h : Launched w) : w.Conforming actOk callOk := by
  intro i c hc
  obtain ⟨session, hi⟩ := h i
  simp [hi, Client.start, Client.InFlight] at hc

variable [DecidableEq ι]

/-- Every step from a conforming world has one of the three effects. -/
theorem step_effect (hw : w.Conforming actOk callOk) (hs : Step platform w e w') :
    StepEffect platform actOk callOk w e w' := by
  have hinput : ∀ i u, e = .input i u → Conforms actOk callOk (platform.handler u) [] := by
    intro i u he
    apply handler_conforms
    intro error hu
    -- A missing Google user makes no step: the handler traps.
    subst he hu
    cases hs
  obtain ⟨w₁, hw₁, he⟩ := hw.outcome hinput hs
  obtain rfl := Option.some.inj hw₁
  exact he

end Step

end CardPang.HomeController
