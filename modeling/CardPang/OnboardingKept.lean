import CardPang.OnboardingFlag

/-!
# A finished onboarding on several devices

A record is created in two steps: something shows that the account has none, and
later it is written, with the onboarding not seen. Any number of devices share the
database, and other writes may fall between the two.
-/
namespace CardPang.HomeController
open CallbackProgram Firebase LabelledRun Service

variable {ι : Type} {w w' : HomeWorld ι} {e : HomeEvent ι} {uid : String}

/-- Some device is on the way to write a new record: it has learnt that there is none,
or the write is waiting. -/
def Creating (uid : String) (w : HomeWorld ι) : Prop :=
  ∃ i, (∃ c ∈ (w.client i).waiting, ∃ values, c.request = .updateChildValues uid values) ∨
    ∃ a ∈ (w.client i).arrived, CreatesRecord uid a.answer

/-- The onboarding of an account is not written while its record is being created. -/
def Serialized (w : HomeWorld ι) (e : HomeEvent ι) : Prop :=
  ∀ i n c uid key value, e = .serve i n .succeed → (w.client i).waiting[n]? = some c →
    c.request = .setValue uid key value → ¬ Creating uid w

def SerializedStep [DecidableEq ι] (w : HomeWorld ι) (e : HomeEvent ι) (w' : HomeWorld ι) : Prop :=
  Step platform w e w' ∧ Serialized w e

/-- How often the home screen has presented the onboarding. -/
def onboardings (w : HomeWorld ι) (i : ι) : ℕ :=
  (w.client i).state.app.calls.count (.present .onboarding)

/-- A finished onboarding is not about to be overwritten. -/
def Kept (w : HomeWorld ι) : Prop := ∀ uid, HoldsTrue uid w → ¬ Creating uid w

theorem Serialized.of_not_serve (he : ∀ i n, e ≠ .serve i n .succeed) : Serialized w e :=
  fun i n _ _ _ _ h => absurd h (he i n)

theorem Serialized.of_not_setValue {i : ι} {n : ℕ} {o : Answer}
    {c : Call Reply Action (Device Home)} (hc : (w.client i).waiting[n]? = some c)
    (hr : ∀ uid key value, c.request ≠ .setValue uid key value) :
    Serialized w (.serve i n o) := by
  intro j m c' uid key value he hc' hset
  obtain ⟨rfl, rfl, -⟩ := Event.serve.inj he
  obtain rfl := Option.some.inj (hc.symm.trans hc')
  exact absurd hset (hr uid key value)

theorem setUser_calls_of_seen {user : User} (hu : user.hasSeenOnboarding = true) (h : Home) :
    (setUser user h).calls = h.calls := by
  simp [setUser, showWelcomeLabel, presentOnboardingIfNeccessary, hu]

theorem not_seen_newUser (b : Backend) (uid email fullname : String) :
    ¬ Seen (b.setUser uid (updateChildValues (b.users uid) (newUser email fullname))) uid := by
  rw [Seen, Backend.setUser_users_self]
  exact not_seen_updateChildValues _ email fullname

theorem not_seen_of_none {b : Backend} (h : b.users uid = none) : ¬ Seen b uid := by
  simp [Seen, h, children, asBool]

theorem seen_congr {b b' : Backend} (h : b'.users uid = b.users uid) : Seen b' uid ↔ Seen b uid := by
  rw [Seen, Seen, h]

section Serve

variable {b b' : Backend} {o : Answer} {r : Request} {t : Trail} {answer : Option (Reply r)}
  {pending : List Request}

/-- A client that is not on the way to create the record shows a flag that it holds. -/
theorem eventCache_seen (hpending : ∀ r ∈ pending, ∃ t, callOk t r)
    (hne : ∀ values, .updateChildValues uid values ∉ pending) (hseen : Seen b uid) :
    asBool (children (eventCache pending uid (b.users uid)) "hasSeenOnboarding") = some true := by
  refine eventCache_invariant
    (I := fun n => asBool (children n "hasSeenOnboarding") = some true) hseen ?_
  intro r hr n hn
  cases r with
  | updateChildValues other values =>
    simp only [Request.written]
    split_ifs with hother
    · subst hother
      exact absurd hr (hne values)
    · exact hn
  | setValue other key value =>
    obtain ⟨t, -, rfl, rfl⟩ := hpending _ hr
    simp only [Request.written]
    split_ifs
    · simp [Firebase.setValue, children, asBool]
    · exact hn
  | _ => exact hn

/-- Only the creation of a record can undo a finished onboarding. -/
theorem seen_served (hr : callOk t r) (h : serve o r pending b = some (b', answer))
    (hseen : Seen b uid) (hne : ∀ values, r ≠ .updateChildValues uid values) : Seen b' uid := by
  rcases serve_users h with husers | ⟨other, values, -, rfl, rfl⟩ | ⟨other, key, value, -, rfl, rfl⟩
  · exact (seen_congr (congrFun husers uid)).mpr hseen
  · have hother : uid ≠ other := fun he => hne values (by rw [he])
    exact (seen_congr (b.setUser_users_of_ne hother _)).mpr hseen
  · obtain ⟨-, rfl, rfl⟩ := hr
    by_cases hother : uid = other
    · subst hother
      simp [Seen, setValue, children, asBool]
    · exact (seen_congr (b.setUser_users_of_ne hother _)).mpr hseen

/-- Only an onboarding write finishes an onboarding. -/
theorem seen_of_served (hr : callOk t r) (h : serve o r pending b = some (b', answer))
    (hseen : Seen b' uid) :
    Seen b uid ∨ (o = .succeed ∧ ∃ key value, r = .setValue uid key value) := by
  rcases serve_users h with husers | ⟨other, values, -, rfl, rfl⟩ | ⟨other, key, value, rfl, rfl, rfl⟩
  · exact Or.inl ((seen_congr (congrFun husers uid)).mp hseen)
  · obtain ⟨-, -, email, fullname, rfl⟩ := hr
    by_cases hother : uid = other
    · subst hother
      exact absurd hseen (not_seen_newUser b uid email fullname)
    · exact Or.inl ((seen_congr (b.setUser_users_of_ne hother _)).mp hseen)
  · by_cases hother : uid = other
    · subst hother
      exact Or.inr ⟨rfl, key, value, rfl⟩
    · exact Or.inl ((seen_congr (b.setUser_users_of_ne hother _)).mp hseen)

/-- An answer after which the app creates a record is given only when there is none. -/
theorem createsRecord_served {reply : Reply r} (h : serve o r pending b = some (b', some reply))
    (hc : CreatesRecord uid ⟨r, reply⟩) : ¬ Seen b' uid := by
  cases r with
  | createUser _ _ =>
    rcases serve_createUser h with ⟨_, -, -, hr⟩ | ⟨result, -, -, hnone, rfl, hr⟩
    · obtain rfl := Option.some.inj hr
      cases hc
    · obtain rfl := Option.some.inj hr
      obtain rfl : result.uid = uid := Option.some.inj hc
      exact not_seen_of_none hnone
  | observeSingleEvent reader other =>
    cases reader with
    | fetchUser => exact hc.elim
    | signInWithGoogle =>
      obtain ⟨rfl, ⟨_, -, hr⟩ | ⟨-, hr⟩⟩ := serve_observeSingleEvent h
      · cases hr
      · obtain rfl := Option.some.inj hr
        obtain ⟨rfl, hnone⟩ := hc
        exact not_seen_of_none (eventCache_eq_none hnone)
  | _ => exact hc.elim

end Serve

section Step

variable [DecidableEq ι]

theorem Kept.not_creating (hw : w.Conforming actOk callOk) (h : Kept w) (he : Serialized w e)
    (heffect : StepEffect platform actOk callOk w e w') (hseen : HoldsTrue uid w') :
    ¬ Creating uid w := by
  rcases heffect.server with hserver | ⟨i, n, o, c, answer, rfl, hwait, hn, hserve⟩
  · exact h uid (by rwa [HoldsTrue, ← hserver])
  · rcases seen_of_served (hw i c (Or.inl hwait)).request hserve hseen with
      hold | ⟨rfl, key, value, hr⟩
    · exact h uid hold
    · exact he i n c uid key value rfl hn hr

theorem Kept.step (hw : w.Conforming actOk callOk) (h : Kept w) (hs : Step platform w e w')
    (he : Serialized w e) : Kept w' := by
  intro uid hseen hcreating
  have heffect := step_effect hw hs
  have hnot := h.not_creating hw he heffect hseen
  obtain ⟨i, ⟨c, hc, values, hr⟩ | ⟨a, ha, hx⟩⟩ := hcreating
  · rcases heffect.mem_waiting hc with hc | ⟨hmade, hcall⟩
    · exact hnot ⟨i, Or.inl ⟨c, hc, values, hr⟩⟩
    · have hok := hcall.request
      rw [hr] at hok
      cases hmade with
      | input ht =>
        rw [ht] at hok
        exact not_attempt_nil hok.1
      | callback ha _ ht =>
        rw [ht] at hok
        obtain ⟨-, ⟨x, hx, hcreates⟩, -⟩ := hok
        obtain rfl := Arrival.eq_answer hx
        exact hnot ⟨i, Or.inr ⟨_, ha, hcreates⟩⟩
  · rcases heffect.mem_arrived ha with ha | ⟨-, -, hserve⟩
    · exact hnot ⟨i, Or.inr ⟨a, ha, hx⟩⟩
    · exact createsRecord_served hserve hx hseen

theorem Kept.holdsTrue (hw : w.Conforming actOk callOk) (h : Kept w) (hs : Step platform w e w')
    (huid : HoldsTrue uid w) : HoldsTrue uid w' := by
  rcases (step_effect hw hs).server with hserver | ⟨i, n, o, c, answer, rfl, hwait, hn, hserve⟩
  · rw [HoldsTrue, hserver]
    exact huid
  · refine seen_served (hw i c (Or.inl hwait)).request hserve huid ?_
    intro values hr
    exact h uid huid ⟨i, Or.inl ⟨c, hwait, values, hr⟩⟩

/-- Delivering a snapshot of a finished onboarding presents nothing. -/
theorem delivered_onboardings (hw : w.Conforming actOk callOk) {i : ι} {n : ℕ}
    {a : Arrival Reply Action (Device Home)} (hn : (w.client i).arrived[n]? = some a)
    {snapshot : DataSnapshot} (ha : a.answer = ⟨.observeSingleEvent .fetchUser uid, snapshot⟩)
    (hseen : asBool (children snapshot.value "hasSeenOnboarding") = some true)
    (hs : Step platform w (.deliver i n) w') : onboardings w' i = onboardings w i := by
  have heffect := step_effect hw hs
  cases heffect with
  | @deliver _ _ b _ _ hb hres =>
    obtain rfl := Option.some.inj (hn.symm.trans hb)
    refine hres.invariant
      (I := fun d => d.app.calls.count (.present .onboarding) = onboardings w i) ?_ ?_
    · rw [World.received_state]
      exact congrArg (fun h => h.calls.count (.present .onboarding)) (receive_app _ _ _)
    · intro d action haction hd
      cases action with
      | authenticated => exact hd
      | ui c =>
        have hc : [c].count (.present .onboarding) = 0 := by
          simpa [List.count_eq_zero] using Ne.symm haction
        change (d.app.calls ++ [c]).count (.present .onboarding) = _
        rw [List.count_append, hc, Nat.add_zero, hd]
      | setUser user =>
        obtain ⟨x, hx, hfetched⟩ := haction
        obtain rfl := Arrival.eq_answer hx
        rw [ha] at hfetched
        obtain ⟨f, hf, rfl⟩ := hfetched
        rw [hf] at hseen
        change (setUser _ d.app).calls.count _ = _
        rw [setUser_calls_of_seen (congrArg (Option.getD · false) hseen)]
        exact hd
      | setHasSeenOnboarding =>
        obtain ⟨x, hx, hwrote⟩ := haction
        obtain rfl := Arrival.eq_answer hx
        rw [ha] at hwrote
        exact hwrote.elim
      | signOut => exact hd

/-- The answer that a served read adds is the record as the client shows it at that step. -/
theorem read_answer {i : ι} {n : ℕ} {o : Answer} {reader : Reader}
    {a : Arrival Reply Action (Device Home)} (hs : Step platform w (.serve i n o) w')
    (harrived : (w'.client i).arrived = (w.client i).arrived ++ [a])
    (ha : a.call.request = .observeSingleEvent reader uid) :
    a.answer = ⟨.observeSingleEvent reader uid,
      (⟨uid, eventCache (w.client i).requests uid (w.server.users uid)⟩ : DataSnapshot)⟩ := by
  obtain ⟨c, ⟨b', answer⟩, -, hserve, hclient⟩ := hs.serve_client
  rw [hclient] at harrived
  cases answer with
  | none =>
    have hlength := congrArg List.length harrived
    simp [Client.answered] at hlength
  | some reply =>
    obtain rfl := List.singleton_inj.mp (List.append_cancel_left harrived)
    obtain ⟨request, callback, trail⟩ := c
    obtain rfl : request = _ := ha
    obtain ⟨-, ⟨_, -, hreply⟩ | ⟨-, hreply⟩⟩ := serve_observeSingleEvent hserve
    · cases hreply
    · obtain rfl := Option.some.inj hreply
      rfl

theorem kept_run {w₀ : HomeWorld ι} (h₀ : Launched w₀) {es : List (HomeEvent ι)}
    (hrun : Run SerializedStep w₀ es w) : w.Conforming actOk callOk ∧ Kept w := by
  refine Run.invariant (I := fun w => w.Conforming actOk callOk ∧ Kept w)
    ⟨launched_conforming h₀, ?_⟩ ?_ hrun
  · rintro uid - ⟨i, hi⟩
    obtain ⟨session, hc⟩ := h₀ i
    simp [hc, Client.start] at hi
  · intro t e u ht hs
    exact ⟨(step_effect ht.1 hs.1).conforming ht.1, ht.2.step ht.1 hs.1 hs.2⟩

/-- As long as no onboarding is written while the same record is being created, a
finished onboarding stays finished, and what a later read of `fetchUser` brings
presents no onboarding, whenever it is delivered. -/
theorem onboarding_never_undone {w₀ : HomeWorld ι} (h₀ : Launched w₀) {es : List (HomeEvent ι)}
    (hrun : Run SerializedStep w₀ es w) (huid : HoldsTrue uid w) :
    (∀ es₁ w₁, Run SerializedStep w es₁ w₁ → HoldsTrue uid w₁) ∧
    (∀ es₁ w₁ i n o w₂ a es₃ w₃ k w₄, Run SerializedStep w es₁ w₁ →
      SerializedStep w₁ (.serve i n o) w₂ →
      (w₂.client i).arrived = (w₁.client i).arrived ++ [a] →
      a.call.request = .observeSingleEvent .fetchUser uid →
      Run SerializedStep w₂ es₃ w₃ → (w₃.client i).arrived[k]? = some a →
      Step platform w₃ (.deliver i k) w₄ → onboardings w₄ i = onboardings w₃ i) := by
  have hlater : ∀ es₁ w₁, Run SerializedStep w es₁ w₁ → HoldsTrue uid w₁ := by
    intro es₁ w₁ hrun₁
    have hinv := Run.invariant (R := SerializedStep)
      (I := fun w => (w.Conforming actOk callOk ∧ Kept w) ∧ HoldsTrue uid w)
      ⟨kept_run h₀ hrun, huid⟩ ?_ hrun₁
    · exact hinv.2
    · intro t e u ht hs
      exact ⟨⟨(step_effect ht.1.1 hs.1).conforming ht.1.1, ht.1.2.step ht.1.1 hs.1 hs.2⟩,
        ht.1.2.holdsTrue ht.1.1 hs.1 ht.2⟩
  refine ⟨hlater, ?_⟩
  intro es₁ w₁ i n o w₂ a es₃ w₃ k w₄ hrun₁ hserve harrived hrequest hrun₃ hk hdeliver
  have hw₃ := kept_run h₀ (((hrun.trans hrun₁).snoc hserve).trans hrun₃)
  have hanswer := read_answer hserve.1 harrived hrequest
  have hw₁ := kept_run h₀ (hrun.trans hrun₁)
  have huid₁ := hlater es₁ w₁ hrun₁
  refine delivered_onboardings hw₃.1 hk hanswer ?_ hdeliver
  -- No creation of the record waits on the device once the flag is there.
  refine eventCache_seen (conforming_requests hw₁.1 i) ?_ huid₁
  intro values hmem
  obtain ⟨c, hc, hr⟩ := List.mem_map.mp hmem
  exact hw₁.2 uid huid₁ ⟨i, Or.inl ⟨c, hc, values, hr⟩⟩

end Step

/-- Two devices that have just launched the app, and no account yet. -/
def twoDevices : HomeWorld Bool := ⟨⟨∅, fun _ => none⟩, fun _ => Client.start ⟨none, Home.loaded⟩⟩

def kim : AuthDataResult := ⟨"kim", some "kim@card.pang", some "Kim"⟩

/-- The first device signs in, finds no record, creates it and finishes the onboarding. -/
theorem onboarding_kept_of_newcomer :
    ∃ w, Run SerializedStep twoDevices
        [.input false (.signDidSignInFor (some ⟨some ⟨"id", "access"⟩⟩) none),
          .serve false 0 (.signIn kim), .deliver false 0, .serve false 0 .succeed,
          .deliver false 0, .serve false 0 .succeed, .deliver false 0, .serve false 0 .succeed,
          .deliver false 0, .input false .controllerWantsToDismiss, .serve false 0 .succeed] w ∧
      HoldsTrue "kim" w ∧ ∀ es₁ w₁, Run SerializedStep w es₁ w₁ → HoldsTrue "kim" w₁ := by
  have hrun : ∃ w, Run SerializedStep twoDevices
      [.input false (.signDidSignInFor (some ⟨some ⟨"id", "access"⟩⟩) none),
        .serve false 0 (.signIn kim), .deliver false 0, .serve false 0 .succeed,
        .deliver false 0, .serve false 0 .succeed, .deliver false 0, .serve false 0 .succeed,
        .deliver false 0, .input false .controllerWantsToDismiss, .serve false 0 .succeed] w ∧
      HoldsTrue "kim" w := by
    refine ⟨_, Run.cons ⟨World.next_step rfl, .of_not_serve (by simp)⟩
      (Run.cons ⟨World.next_step rfl, .of_not_serve (by simp)⟩
      (Run.cons ⟨World.next_step rfl, .of_not_serve (by simp)⟩
      (Run.cons ⟨World.next_step rfl, .of_not_setValue rfl (by simp)⟩
      (Run.cons ⟨World.next_step rfl, .of_not_serve (by simp)⟩
      (Run.cons ⟨World.next_step rfl, .of_not_setValue rfl (by simp)⟩
      (Run.cons ⟨World.next_step rfl, .of_not_serve (by simp)⟩
      (Run.cons ⟨World.next_step rfl, .of_not_setValue rfl (by simp)⟩
      (Run.cons ⟨World.next_step rfl, .of_not_serve (by simp)⟩
      (Run.cons ⟨World.next_step rfl, .of_not_serve (by simp)⟩
      (Run.one ⟨World.next_step rfl, ?_⟩)))))))))), by decide⟩
    -- Only the onboarding write itself waits, on the first device.
    rintro i n c uid key value he hc - ⟨j, ⟨c', hc', values, hr⟩ | ⟨a, ha, -⟩⟩
    · cases j with
      | false =>
        obtain rfl := List.mem_singleton.mp hc'
        cases hr
      | true => cases hc'
    · cases j <;> cases ha
  obtain ⟨w, hrun, huid⟩ := hrun
  exact ⟨w, hrun, huid, (onboarding_never_undone (fun _ => ⟨none, rfl⟩) hrun huid).1⟩

/-- Both devices find no record. The first creates it and finishes the onboarding, then
the second creates it again. -/
theorem onboarding_undone_by_second_device :
    ∃ w w', Launched twoDevices ∧ Run (Step platform) twoDevices
        [.input false (.signDidSignInFor (some ⟨some ⟨"id", "access"⟩⟩) none),
          .serve false 0 (.signIn kim), .deliver false 0,
          .input true (.signDidSignInFor (some ⟨some ⟨"id", "access"⟩⟩) none),
          .serve true 0 (.signIn kim), .deliver true 0,
          .serve false 0 .succeed, .serve true 0 .succeed, .deliver false 0,
          .serve false 0 .succeed, .deliver false 0,
          .input false .controllerWantsToDismiss, .serve false 1 .succeed] w ∧
      HoldsTrue "kim" w ∧
      Run (Step platform) w [.deliver true 0, .serve true 0 .succeed] w' ∧ ¬ HoldsTrue "kim" w' :=
  ⟨_, _, fun _ => ⟨none, rfl⟩, World.next_run rfl, by decide, World.next_run rfl, by decide⟩

end CardPang.HomeController
