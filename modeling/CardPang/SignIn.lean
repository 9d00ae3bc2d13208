import CardPang.AccountProtocol

/-!
# The session at `authenticationComplete`

Between a sign-in and the `authenticationComplete` of the same attempt lie calls on
the user's record. The session is still that of the attempt if nothing else signed
in or out on the device while these calls were in flight.
-/
namespace CardPang.HomeController
open CallbackProgram Firebase LabelledRun Service

variable {ι : Type} {w w' : HomeWorld ι} {e : HomeEvent ι}

def session (w : HomeWorld ι) (i : ι) : Option String := (w.client i).state.currentUser

def authentications (w : HomeWorld ι) (i : ι) : List (Option String) :=
  (w.client i).state.app.authentications

/-- The answers of the attempt whose callback the event runs. -/
def eventTrail (w : HomeWorld ι) : HomeEvent ι → Trail
  | .deliver i n =>
    match (w.client i).arrived[n]? with
    | some a => a.trail
    | none => []
  | _ => []

/-- Google gives a user, its credential is accepted, and the session does not change
while a record call of another account's attempt is in flight on the device. -/
structure Undisturbed (w : HomeWorld ι) (e : HomeEvent ι) : Prop where
  googleUser : ∀ i error, e ≠ .input i (.signDidSignInFor none error)
  credential : ∀ i n a, e = .deliver i n → (w.client i).arrived[n]? = some a →
    ¬ CredentialFailed a.answer
  logout : ∀ i, e = .input i (.logout false) → ∀ c, (w.client i).InFlight c →
    ¬ RecordCall c.request
  signIn : ∀ i n a uid, e = .deliver i n → (w.client i).arrived[n]? = some a →
    signInOf a.answer = some uid → ∀ c, (w.client i).InFlight c → RecordCall c.request →
      signedIn c.trail = some uid

def UndisturbedStep [DecidableEq ι] (w : HomeWorld ι) (e : HomeEvent ι) (w' : HomeWorld ι) : Prop :=
  Step platform w e w' ∧ Undisturbed w e

/-- Every attempt with a record call in flight has the session it signed in. -/
def Settled (w : HomeWorld ι) : Prop :=
  ∀ i c, (w.client i).InFlight c → RecordCall c.request → signedIn c.trail = session w i

theorem receive_signInOf {r : Request} {reply : Reply r} {uid : String} {d : Device Home}
    (h : signInOf ⟨r, reply⟩ = some uid) : (receive r reply d).currentUser = some uid := by
  have hset : ∀ reply : AuthReply, reply.result.map AuthDataResult.uid = some uid →
      (d.signedIn reply).currentUser = some uid := by
    intro reply hr
    obtain ⟨result, hresult, rfl⟩ := Option.map_eq_some_iff.mp hr
    simp [Device.signedIn, hresult]
  cases r with
  | signIn _ _ => exact hset reply h
  | createUser _ _ => exact hset reply h
  | signInWithCredential _ => exact hset reply h
  | _ => cases h

theorem receive_of_none {r : Request} {reply : Reply r} {d : Device Home}
    (h : signInOf ⟨r, reply⟩ = none) : receive r reply d = d := by
  have hkeep : ∀ reply : AuthReply, reply.result.map AuthDataResult.uid = none →
      d.signedIn reply = d := by
    intro reply hr
    simp [Device.signedIn, Option.map_eq_none_iff.mp hr]
  cases r with
  | signIn _ _ => exact hkeep reply h
  | createUser _ _ => exact hkeep reply h
  | signInWithCredential _ => exact hkeep reply h
  | _ => rfl

theorem receive_app (r : Request) (reply : Reply r) (d : Device Home) :
    (receive r reply d).app = d.app := by
  have hkeep : ∀ reply : AuthReply, (d.signedIn reply).app = d.app := by
    intro reply
    unfold Device.signedIn
    cases reply.result <;> rfl
  cases r with
  | signIn _ _ => exact hkeep reply
  | createUser _ _ => exact hkeep reply
  | signInWithCredential _ => exact hkeep reply
  | _ => rfl

theorem not_attempt_nil : ¬ Attempt [] := by
  rintro ⟨h, -⟩
  simp [signedIn] at h

theorem recordCall_signInOf {x : Σ r, Reply r} (h : RecordCall x.1) : signInOf x = none := by
  obtain ⟨r, reply⟩ := x
  cases r with
  | observeSingleEvent _ _ => rfl
  | updateChildValues _ _ => rfl
  | _ => exact h.elim

/-- Only `logout` changes the session without an answer. -/
theorem input_session {u : Input} {d d' : Device Home} {cs : List (Call Reply Action (Device Home))}
    (h : (handler u).exec act [] d = some (d', cs)) (hu : u ≠ .logout false) :
    d'.currentUser = d.currentUser := by
  obtain ⟨user, home⟩ := d
  cases u with
  | viewDidLoad => cases user <;> cases h <;> rfl
  | handleLogin email password => cases email <;> cases password <;> cases h <;> rfl
  | handleSignUP email password fullname =>
    cases email <;> cases password <;> cases fullname <;> cases h <;> rfl
  | signDidSignInFor user error =>
    cases user with
    | none => cases h
    | some user =>
      obtain ⟨authentication⟩ := user
      cases authentication <;> cases h <;> rfl
  | logout throws =>
    cases throws with
    | true => cases h; rfl
    | false => exact absurd rfl hu
  | controllerWantsToDismiss => cases user <;> cases h <;> rfl

theorem setUser_authentications (user : User) (h : Home) :
    (setUser user h).authentications = h.authentications := by
  unfold setUser showWelcomeLabel presentOnboardingIfNeccessary
  cases hseen : user.hasSeenOnboarding <;> simp [hseen, noteCall]

/-- Only `authenticationComplete` itself is noted as a call of it. -/
theorem act_authentications {a : Action} (ha : a ≠ .authenticated) (d : Device Home) :
    (act a d).app.authentications = d.app.authentications := by
  cases a with
  | authenticated => exact absurd rfl ha
  | ui c => rfl
  | setUser user => exact setUser_authentications user d.app
  | setHasSeenOnboarding =>
    change (setHasSeenOnboarding d.app).authentications = _
    unfold setHasSeenOnboarding
    cases d.app.user with
    | none => rfl
    | some user => exact setUser_authentications _ d.app
  | signOut => rfl

theorem act_currentUser {t : Trail} {a : Action} (ht : t ≠ []) (ha : actOk t a)
    (d : Device Home) : (act a d).currentUser = d.currentUser := by
  cases a with
  | signOut => exact absurd ha ht
  | _ => rfl

section Settled

/-- An answer that is part of an attempt leaves the device with the attempt's session. -/
theorem Settled.received (h : Settled w) {i : ι} {a : Arrival Reply Action (Device Home)}
    (ha : a ∈ (w.client i).arrived) (hattempt : Attempt a.trail) :
    (receive a.call.request a.reply (w.client i).state).currentUser = signedIn a.trail := by
  obtain ⟨-, x, hx, hlast⟩ := hattempt
  obtain rfl := Arrival.eq_answer hx
  rw [Arrival.trail, signedIn_append]
  rcases hlast with hsign | hrecord
  · obtain ⟨uid, huid⟩ := Option.isSome_iff_exists.mp hsign
    rw [huid]
    exact receive_signInOf huid
  · have hnone : signInOf a.answer = none := recordCall_signInOf hrecord
    rw [hnone, receive_of_none hnone]
    exact (h i a.call (Or.inr ⟨a, ha, rfl⟩) hrecord).symm

/-- After a callback the session is the one that its answer has left. -/
theorem resumed_session {i : ι} {t : Trail} {v : HomeWorld ι} (ht : t ≠ [])
    (h : Resumed platform actOk callOk i t v w') : session w' i = session v i := by
  refine h.invariant (I := fun d => d.currentUser = session v i) rfl ?_
  intro d a ha hd
  exact (act_currentUser ht ha d).trans hd

theorem input_authentications {i : ι} (h : Resumed platform actOk callOk i [] w w') :
    authentications w' i = authentications w i := by
  refine h.invariant (I := fun d => d.app.authentications = authentications w i) rfl ?_
  intro d a ha hd
  rw [← hd]
  apply act_authentications
  rintro rfl
  rcases ha with hattempt | ⟨x, hx, -⟩
  · exact not_attempt_nil hattempt
  · simp at hx

variable [DecidableEq ι]

/-- A delivered answer alone decides the session after its callback. -/
theorem delivered_session {i : ι} {n : ℕ} {a : Arrival Reply Action (Device Home)}
    (h : Resumed platform actOk callOk i a.trail (w.received platform i n a) w') :
    session w' i = (receive a.call.request a.reply (w.client i).state).currentUser := by
  have hne : a.trail ≠ [] := by simp [Arrival.trail]
  rw [resumed_session hne h, session, World.received_state]
  rfl

/-- While a record call is in flight an undisturbed step keeps the session. -/
theorem Settled.session_eq (h : Settled w) (hs : Step platform w e w') (he : Undisturbed w e)
    (heffect : StepEffect platform actOk callOk w e w') {i : ι}
    {c : Call Reply Action (Device Home)} (hc : (w.client i).InFlight c)
    (hr : RecordCall c.request) : session w' i = session w i := by
  rcases heffect.state i with hsame | ⟨u, rfl, -⟩ | ⟨n, a, rfl, -, hn, hres⟩
  · rw [session, session, hsame]
  · obtain ⟨d, cs, hexec, hclient⟩ := hs.input_client
    rw [session, hclient]
    apply input_session hexec
    intro hu
    exact he.logout i (by rw [hu]) c hc hr
  · rw [delivered_session hres]
    cases hsign : signInOf a.answer with
    | none =>
      rw [receive_of_none hsign]
      rfl
    | some uid =>
      rw [receive_signInOf hsign, ← h i c hc hr]
      exact (he.signIn i n a uid rfl hn hsign c hc hr).symm

theorem Settled.step (hw : w.Conforming actOk callOk) (h : Settled w)
    (hs : Step platform w e w') (he : Undisturbed w e) : Settled w' := by
  intro i c hc hr
  have heffect := step_effect hw hs
  rcases heffect.inFlight hc with hold | ⟨hmade, hcall⟩
  · rw [h.session_eq hs he heffect hold hr]
    exact h i c hold hr
  · have hattempt := callOk_recordCall hcall.request hr
    cases hmade with
    | input ht =>
      -- A call made by the input itself belongs to no attempt yet.
      rw [ht] at hattempt
      exact absurd hattempt not_attempt_nil
    | @callback n a ha hn ht =>
      rw [ht] at hattempt ⊢
      cases heffect with
      | deliver _ hn' hres =>
        obtain rfl := Option.some.inj (hn.symm.trans hn')
        rw [delivered_session hres]
        exact (h.received ha hattempt).symm

/-- The calls of `authenticationComplete` that a callback makes find the session of
their own attempt. -/
theorem Settled.delivered (h : Settled w) {i : ι} {n : ℕ} {a : Arrival Reply Action (Device Home)}
    (ha : a ∈ (w.client i).arrived) (hcred : ¬ CredentialFailed a.answer)
    (hres : Resumed platform actOk callOk i a.trail (w.received platform i n a) w') :
    ∃ new, authentications w' i = authentications w i ++ new ∧
      ∀ s ∈ new, s.isSome ∧ s = signedIn a.trail := by
  have hne : a.trail ≠ [] := by simp [Arrival.trail]
  have hstate : ((w.received platform i n a).client i).state =
      receive a.call.request a.reply (w.client i).state := World.received_state
  let s₀ := (receive a.call.request a.reply (w.client i).state).currentUser
  refine (hres.invariant (I := fun d => d.currentUser = s₀ ∧
    ∃ new, d.app.authentications = authentications w i ++ new ∧
      ∀ s ∈ new, s.isSome ∧ s = signedIn a.trail) ?_ ?_).2
  · rw [hstate, receive_app]
    exact ⟨rfl, [], (List.append_nil _).symm, by simp⟩
  · rintro d action haction ⟨hd, new, hnew, hall⟩
    refine ⟨(act_currentUser hne haction d).trans hd, ?_⟩
    by_cases hauth : action = .authenticated
    · subst hauth
      have hattempt : Attempt a.trail := by
        rcases haction with hattempt | ⟨x, hx, hfailed⟩
        · exact hattempt
        · obtain rfl := Arrival.eq_answer hx
          exact absurd hfailed hcred
      have hs : d.currentUser = signedIn a.trail := hd.trans (h.received ha hattempt)
      refine ⟨new ++ [d.currentUser], ?_, ?_⟩
      · change d.app.authentications ++ [d.currentUser] = _
        rw [hnew, List.append_assoc]
      · intro s hmem
        rcases List.mem_append.mp hmem with hmem | hmem
        · exact hall s hmem
        · obtain rfl := List.mem_singleton.mp hmem
          exact ⟨hs ▸ hattempt.1, hs⟩
    · exact ⟨new, (act_authentications hauth d).trans hnew, hall⟩

theorem Settled.authentications (h : Settled w)
    (heffect : StepEffect platform actOk callOk w e w') (he : Undisturbed w e) (i : ι) :
    ∃ new, authentications w' i = authentications w i ++ new ∧
      ∀ s ∈ new, s.isSome ∧ s = signedIn (eventTrail w e) := by
  rcases heffect.state i with hsame | ⟨u, rfl, hres⟩ | ⟨n, a, rfl, ha, hn, hres⟩
  · exact ⟨[], by simp [HomeController.authentications, hsame], by simp⟩
  · exact ⟨[], by rw [input_authentications hres, List.append_nil], by simp⟩
  · have htrail : eventTrail w (.deliver i n) = a.trail := by simp [eventTrail, hn]
    rw [htrail]
    exact h.delivered ha (he.credential i n a rfl hn) hres

end Settled

/-- In every run whose steps are undisturbed no step traps, and each call of
`authenticationComplete` finds the session that its own attempt has signed in. -/
theorem authenticationComplete_has_session [DecidableEq ι] {w₀ : HomeWorld ι} (h₀ : Launched w₀)
    {es : List (HomeEvent ι)}
    (hrun : Run UndisturbedStep w₀ es w)
    (he : Undisturbed w e) :
    ¬ Traps platform w e ∧ ∀ w', Step platform w e w' → ∀ i, ∃ new,
      authentications w' i = authentications w i ++ new ∧
        ∀ s ∈ new, s.isSome ∧ s = signedIn (eventTrail w e) := by
  have hinv : w.Conforming actOk callOk ∧ Settled w := by
    refine Run.invariant (I := fun w => w.Conforming actOk callOk ∧ Settled w)
      ⟨launched_conforming h₀, ?_⟩ ?_ hrun
    · intro i c hc
      obtain ⟨session, hi⟩ := h₀ i
      simp [hi, Client.start, Client.InFlight] at hc
    · intro t e u ht hs
      exact ⟨(step_effect ht.1 hs.1).conforming ht.1, ht.2.step ht.1 hs.1 hs.2⟩
  constructor
  · intro htrap
    have hinput : ∀ i u, e = .input i u → Conforms actOk callOk (platform.handler u) [] := by
      intro i u hu
      apply handler_conforms
      rintro error rfl
      exact he.googleUser i error hu
    obtain ⟨w', hw', -⟩ := hinv.1.outcome hinput htrap
    cases hw'
  · intro w' hs i
    exact hinv.2.authentications (step_effect hinv.1 hs) he i

theorem Undisturbed.of_serve (w : HomeWorld ι) (i : ι) (n : ℕ) (o : Answer) :
    Undisturbed w (.serve i n o) := by
  constructor <;> simp

theorem Undisturbed.of_input (w : HomeWorld ι) (i : ι) {u : Input}
    (hg : ∀ error, u ≠ .signDidSignInFor none error) (hl : u ≠ .logout false) :
    Undisturbed w (.input i u) := by
  constructor <;> simp [hg, hl]

theorem Undisturbed.of_deliver {i : ι} {n : ℕ} {a : Arrival Reply Action (Device Home)}
    (hn : (w.client i).arrived[n]? = some a) (hcred : ¬ CredentialFailed a.answer)
    (hsign : ∀ c, (w.client i).InFlight c → ¬ RecordCall c.request ∨ signInOf a.answer = none) :
    Undisturbed w (.deliver i n) := by
  refine ⟨by simp, ?_, by simp, ?_⟩
  · intro j k b he hb
    cases he
    obtain rfl := Option.some.inj (hn.symm.trans hb)
    exact hcred
  · intro j k b uid he hb huid c hc hr
    cases he
    obtain rfl := Option.some.inj (hn.symm.trans hb)
    rcases hsign c hc with h | h
    · exact absurd hr h
    · cases h.symm.trans huid

/-- A registration that succeeds. -/
theorem authenticationComplete_after_registration :
    ∃ w w', Run UndisturbedStep
        (oneDevice ⟨∅, fun _ => none⟩ none)
        [.input () (.handleSignUP (some "kim@card.pang") (some "secret") (some "Kim")),
          .serve () 0 (.signIn ⟨"kim", some "kim@card.pang", none⟩), .deliver () 0,
          .serve () 0 .succeed] w ∧
      Step platform w (.deliver () 0) w' ∧ authentications w' () = [some "kim"] ∧
      ∃ new, authentications w' () = authentications w () ++ new ∧
        ∀ s ∈ new, s.isSome ∧ s = signedIn (eventTrail w (.deliver () 0)) := by
  have hrun : ∃ w w', Run UndisturbedStep
      (oneDevice ⟨∅, fun _ => none⟩ none)
      [.input () (.handleSignUP (some "kim@card.pang") (some "secret") (some "Kim")),
        .serve () 0 (.signIn ⟨"kim", some "kim@card.pang", none⟩), .deliver () 0,
        .serve () 0 .succeed] w ∧
      Step platform w (.deliver () 0) w' ∧ authentications w' () = [some "kim"] ∧
      Undisturbed w (.deliver () 0) := by
    refine ⟨_, _, Run.cons ⟨World.next_step rfl, .of_input _ _ (by simp) (by simp)⟩
      (Run.cons ⟨World.next_step rfl, .of_serve _ _ _ _⟩
      (Run.cons ⟨World.next_step rfl, .of_deliver rfl id ?_⟩
      (Run.one ⟨World.next_step rfl, .of_serve _ _ _ _⟩))), World.next_step rfl, rfl,
      .of_deliver rfl id fun _ _ => Or.inr rfl⟩
    rintro c (hc | ⟨a, ha, rfl⟩)
    · cases hc
    · obtain rfl := List.mem_singleton.mp ha
      exact Or.inl id
  obtain ⟨w, w', hrun, hs, hauth, hlast⟩ := hrun
  exact ⟨w, w', hrun, hs, hauth,
    (authenticationComplete_has_session (oneDevice_launched _ _) hrun hlast).2 w' hs ()⟩

/-- Google returns an error without a user: the handler traps. Google returns a user
whose credential is refused: the login is completed without a session. -/
theorem failed_google_sign_in :
    Traps platform (oneDevice ⟨∅, fun _ => none⟩ none)
      (.input () (.signDidSignInFor none (some ⟨"The user canceled the sign-in flow."⟩))) ∧
    ∃ w, Run (Step platform) (oneDevice ⟨∅, fun _ => none⟩ none)
        [.input () (.signDidSignInFor (some ⟨some ⟨"id", "access"⟩⟩) none),
          .serve () 0 (.fail ⟨"network error"⟩), .deliver () 0] w ∧
      authentications w () = [none] :=
  ⟨Outcome.input () _, _, World.next_run rfl, rfl⟩

end CardPang.HomeController
