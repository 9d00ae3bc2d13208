import CardPang.SignIn

/-!
# The onboarding flag on the home screen

`HomeController.user` is a copy of a record that other steps may change, and the
completion of `updateUserHasSeenOnboarding` writes into the copy that is there when
it arrives.
-/
namespace CardPang.HomeController
open CallbackProgram Firebase LabelledRun Service

variable {ι : Type} {w w' : HomeWorld ι} {e : HomeEvent ι}

/-- `users/uid` holds `hasSeenOnboarding` true. -/
def Seen (b : Backend) (uid : String) : Prop :=
  asBool (children (b.users uid) "hasSeenOnboarding") = some true

def HoldsTrue (uid : String) (w : HomeWorld ι) : Prop := Seen w.server uid

instance (uid : String) (w : HomeWorld ι) : Decidable (HoldsTrue uid w) :=
  inferInstanceAs (Decidable (_ = _))

def heldUser (w : HomeWorld ι) (i : ι) : Option User := (w.client i).state.app.user

/-- A completion of the onboarding write that finds a user without the flag has
succeeded, and for this user. A read of `fetchUser` that meets such a write of its own
device, not answered yet, is made of a record with the flag. -/
structure Confirmed (w : HomeWorld ι) (e : HomeEvent ι) : Prop where
  completion : ∀ i n a uid key value (reply : WriteReply), e = .deliver i n →
    (w.client i).arrived[n]? = some a → a.answer = ⟨.setValue uid key value, reply⟩ →
      ∀ user, heldUser w i = some user → user.hasSeenOnboarding = false →
        reply.error = none ∧ user.uid = uid
  read : ∀ i n c uid, e = .serve i n .succeed → (w.client i).waiting[n]? = some c →
    c.request = .observeSingleEvent .fetchUser uid →
      (∃ key value, .setValue uid key value ∈ (w.client i).requests) → HoldsTrue uid w

def ConfirmedStep [DecidableEq ι] (w : HomeWorld ι) (e : HomeEvent ι) (w' : HomeWorld ι) : Prop :=
  Step platform w e w' ∧ Confirmed w e

/-- The answers to be delivered tell only what the record has held. -/
def Truthful (held : String → Prop) : (Σ r, Reply r) → Prop
  | ⟨.observeSingleEvent .fetchUser _, snapshot⟩ =>
    ∀ f, DataSnapshot.value snapshot = some (.dictionary f) →
      asBool (f "hasSeenOnboarding") = some true → held (DataSnapshot.key snapshot)
  | ⟨.setValue uid _ _, reply⟩ => WriteReply.error reply = none → held uid
  | _ => True

structure NotAhead (held : String → Prop) (w : HomeWorld ι) : Prop where
  user : ∀ i user, heldUser w i = some user → user.hasSeenOnboarding = true → held user.uid
  arrived : ∀ i, ∀ a ∈ (w.client i).arrived, Truthful held a.answer

theorem Truthful.mono {held held' : String → Prop} {x : Σ r, Reply r} (h : Truthful held x)
    (hle : ∀ uid, held uid → held' uid) : Truthful held' x := by
  obtain ⟨r, reply⟩ := x
  cases r with
  | observeSingleEvent reader uid =>
    cases reader with
    | signInWithGoogle => trivial
    | fetchUser => exact fun f hf ht => hle _ (h f hf ht)
  | setValue uid key value => exact fun hr => hle uid (h hr)
  | _ => trivial

theorem NotAhead.mono {held held' : String → Prop} (h : NotAhead held w)
    (hle : ∀ uid, held uid → held' uid) : NotAhead held' w :=
  ⟨fun i user hu hf => hle _ (h.user i user hu hf), fun i a ha => (h.arrived i a ha).mono hle⟩

theorem setUser_user (user : User) (h : Home) : (setUser user h).user = some user := by
  unfold setUser showWelcomeLabel presentOnboardingIfNeccessary
  cases hseen : user.hasSeenOnboarding <;> simp [hseen, noteCall]

theorem ofDictionary_hasSeenOnboarding {uid : String} {f : String → Option Value}
    (h : (User.ofDictionary uid f).hasSeenOnboarding = true) :
    asBool (f "hasSeenOnboarding") = some true := by
  change (asBool (f "hasSeenOnboarding")).getD false = true at h
  cases hb : asBool (f "hasSeenOnboarding") with
  | none => simp [hb] at h
  | some b => simpa [hb] using h

theorem setHasSeenOnboarding_user {h : Home} {user : User}
    (hu : (setHasSeenOnboarding h).user = some user) :
    ∃ old, h.user = some old ∧ user.uid = old.uid := by
  unfold setHasSeenOnboarding at hu
  cases hold : h.user with
  | none => simp [hold] at hu
  | some old =>
    simp only [hold, setUser_user] at hu
    obtain rfl := Option.some.inj hu
    exact ⟨old, rfl, rfl⟩

/-- What holds of the home screen while the callback of an answer runs; the completion
of an onboarding write may set the flag of any user it finds. -/
structure Behind (held : String → Prop) (x : Σ r, Reply r) (h : Home) : Prop where
  flag : ∀ user, h.user = some user → user.hasSeenOnboarding = true → held user.uid
  wrote : WroteOnboarding x → ∀ user, h.user = some user → held user.uid

theorem Behind.setUser {held : String → Prop} {x : Σ r, Reply r} {user : User}
    (htruth : Truthful held x) (hx : FetchedUser user x) (h : Home) :
    Behind held x (HomeController.setUser user h) := by
  obtain ⟨uid, snapshot, f, rfl, hf, rfl⟩ := hx.exists
  refine ⟨?_, fun hw => hw.elim⟩
  intro user hu hseen
  rw [setUser_user] at hu
  obtain rfl := Option.some.inj hu
  exact htruth f hf (ofDictionary_hasSeenOnboarding hseen)

theorem Behind.setHasSeenOnboarding {held : String → Prop} {x : Σ r, Reply r} {h : Home}
    (hb : Behind held x h) (hx : WroteOnboarding x) :
    Behind held x (HomeController.setHasSeenOnboarding h) := by
  have hall : ∀ user, (HomeController.setHasSeenOnboarding h).user = some user →
      held user.uid := by
    intro user hu
    obtain ⟨old, hold, huid⟩ := setHasSeenOnboarding_user hu
    rw [huid]
    exact hb.wrote hx old hold
  exact ⟨fun user hu _ => hall user hu, fun _ => hall⟩

theorem NotAhead.behind {held : String → Prop} (h : NotAhead held w) {i : ι} {n : ℕ}
    {a : Arrival Reply Action (Device Home)} (ha : a ∈ (w.client i).arrived)
    (hn : (w.client i).arrived[n]? = some a) (hc : Confirmed w (.deliver i n)) :
    Behind held a.answer (w.client i).state.app := by
  refine ⟨h.user i, ?_⟩
  intro hwrote user huser
  cases hseen : user.hasSeenOnboarding with
  | true => exact h.user i user huser hseen
  | false =>
    obtain ⟨uid, key, value, reply, hx⟩ := hwrote.exists
    obtain ⟨herror, huid⟩ := hc.completion i n a uid key value reply rfl hn hx user huser hseen
    have htruth := h.arrived i a ha
    rw [hx] at htruth
    rw [huid]
    exact htruth herror

/-- What one callback does to the held user. -/
theorem NotAhead.delivered {held : String → Prop} (h : NotAhead held w) {i : ι} {n : ℕ}
    {a : Arrival Reply Action (Device Home)} {v : HomeWorld ι} (ha : a ∈ (w.client i).arrived)
    (hn : (w.client i).arrived[n]? = some a) (hc : Confirmed w (.deliver i n))
    (hv : (v.client i).state.app = (w.client i).state.app)
    (hres : Resumed platform actOk callOk i a.trail v w') :
    Behind held a.answer (w'.client i).state.app := by
  refine hres.invariant (I := fun d => Behind held a.answer d.app) ?_ ?_
  · rw [hv]
    exact h.behind ha hn hc
  · intro d action haction hd
    cases action with
    | setUser user =>
      obtain ⟨x, hx, hfetched⟩ := haction
      obtain rfl := Arrival.eq_answer hx
      exact Behind.setUser (h.arrived i a ha) hfetched d.app
    | setHasSeenOnboarding =>
      obtain ⟨x, hx, hwrote⟩ := haction
      obtain rfl := Arrival.eq_answer hx
      exact hd.setHasSeenOnboarding hwrote
    | _ => exact ⟨hd.flag, hd.wrote⟩

theorem not_seen_updateChildValues (node : Option Node) (email fullname : String) :
    asBool (children (updateChildValues node (newUser email fullname)) "hasSeenOnboarding") ≠
      some true := by
  simp [updateChildValues, newUser, children, asBool, List.lookup]

/-- Only an own onboarding write makes a client show a flag that the record does not hold. -/
theorem seen_of_eventCache {pending : List Request} {uid : String} {node : Option Node}
    (hpending : ∀ r ∈ pending, ∃ t, callOk t r)
    (h : asBool (children (eventCache pending uid node) "hasSeenOnboarding") = some true) :
    asBool (children node "hasSeenOnboarding") = some true ∨
      ∃ key value, .setValue uid key value ∈ pending := by
  refine eventCache_invariant (I := fun n => asBool (children n "hasSeenOnboarding") = some true →
    asBool (children node "hasSeenOnboarding") = some true ∨
      ∃ key value, .setValue uid key value ∈ pending) Or.inl ?_ h
  intro r hr n hn
  cases r with
  | updateChildValues other values =>
    obtain ⟨t, -, -, email, fullname, rfl⟩ := hpending _ hr
    simp only [Request.written]
    split_ifs
    · exact fun h => absurd h (not_seen_updateChildValues n email fullname)
    · exact hn
  | setValue other key value =>
    simp only [Request.written]
    split_ifs with hother
    · subst hother
      exact fun _ => Or.inr ⟨key, value, hr⟩
    · exact hn
  | _ => exact hn

theorem Truthful.served {held : String → Prop} {b b' : Backend} {o : Answer} {r : Request}
    {t : Trail} {pending : List Request} {reply : Reply r} (hr : callOk t r)
    (hpending : ∀ r ∈ pending, ∃ t, callOk t r) (h : serve o r pending b = some (b', some reply))
    (hread : ∀ uid, o = .succeed → r = .observeSingleEvent .fetchUser uid →
      (∃ key value, .setValue uid key value ∈ pending) → Seen b uid)
    (hheld : ∀ uid, Seen b' uid → held uid) : Truthful held ⟨r, reply⟩ := by
  cases r with
  | observeSingleEvent reader uid =>
    cases reader with
    | signInWithGoogle => trivial
    | fetchUser =>
      obtain ⟨rfl, ⟨_, _, h⟩ | ⟨ho, h⟩⟩ := serve_observeSingleEvent h
      · cases h
      · obtain rfl := Option.some.inj h
        intro f hf ht
        change eventCache pending uid (b'.users uid) = _ at hf
        have hshown : asBool (children (eventCache pending uid (b'.users uid))
            "hasSeenOnboarding") = some true := by
          rw [hf]
          exact ht
        apply hheld
        cases seen_of_eventCache hpending hshown with
        | inl hseen => exact hseen
        | inr hwrite => exact hread uid ho rfl hwrite
  | setValue uid key value =>
    obtain ⟨-, rfl, rfl⟩ := hr
    intro hok
    rcases serve_setValue h with ⟨error, -, -, h⟩ | ⟨-, rfl, -⟩
    · obtain rfl := Option.some.inj h
      cases hok
    · apply hheld
      simp [Seen, setValue, children, asBool]
  | _ => trivial

/-- An input sets no user. -/
theorem input_heldUser {i : ι} (h : Resumed platform actOk callOk i [] w w') :
    heldUser w' i = heldUser w i := by
  refine h.invariant (I := fun d => d.app.user = heldUser w i) rfl ?_
  intro d a ha hd
  cases a with
  | setUser _ => simp [actOk] at ha
  | setHasSeenOnboarding => simp [actOk] at ha
  | _ => exact hd

theorem Confirmed.of_input {i : ι} {u : Input} : Confirmed w (.input i u) :=
  ⟨nofun, nofun⟩

/-- Where nothing but the served call waits, no read meets a write. -/
theorem Confirmed.of_serve {i : ι} {c : Call Reply Action (Device Home)} {o : Answer}
    (hwaiting : (w.client i).waiting = [c]) : Confirmed w (.serve i 0 o) := by
  refine ⟨nofun, ?_⟩
  intro j n c' uid he hn hc ⟨key, value, hmem⟩
  obtain ⟨rfl, rfl, -⟩ := Event.serve.inj he
  rw [hwaiting] at hn
  obtain rfl := Option.some.inj hn
  rw [Client.requests, hwaiting, List.map_singleton, hc] at hmem
  cases List.mem_singleton.mp hmem

theorem conforming_requests (hw : w.Conforming actOk callOk) (i : ι) :
    ∀ r ∈ (w.client i).requests, ∃ t, callOk t r := by
  intro r hr
  obtain ⟨c, hc, rfl⟩ := List.mem_map.mp hr
  exact ⟨c.trail, (hw i c (Or.inl hc)).request⟩

variable [DecidableEq ι]

/-- The flag of a held user stays behind what the record has held by now. -/
theorem NotAhead.step {held : String → Prop} (hw : w.Conforming actOk callOk)
    (h : NotAhead held w) (hs : Step platform w e w') (hc : Confirmed w e)
    (hnow : ∀ uid, HoldsTrue uid w' → held uid) : NotAhead held w' := by
  have heffect := step_effect hw hs
  refine ⟨?_, ?_⟩
  · intro i user
    rcases heffect.state i with hsame | ⟨u, rfl, hres⟩ | ⟨n, a, rfl, ha, hn, hres⟩
    · rw [heldUser, hsame]
      exact h.user i user
    · rw [input_heldUser hres]
      exact h.user i user
    · refine (h.delivered ha hn hc ?_ hres).flag user
      rw [World.received_state]
      exact receive_app _ _ _
  · intro i a ha
    rcases heffect.mem_arrived ha with ha | ⟨hwait, hn, hserve⟩
    · exact h.arrived i a ha
    · refine Truthful.served (hw i _ (Or.inl hwait)).request (conforming_requests hw i) hserve ?_ hnow
      rintro uid rfl hr
      exact hc.read i _ _ uid rfl hn hr

/-- In every run in which each completion of an onboarding write that changes the held
user is a confirmed one, and no read shows more than the record by a write of its own
device, the flag of this user never runs ahead of the record. -/
theorem flag_never_ahead {w₀ : HomeWorld ι} (h₀ : Launched w₀) {es : List (HomeEvent ι)}
    (hrun : Run ConfirmedStep w₀ es w) {i : ι} {user : User}
    (huser : heldUser w i = some user) (hseen : user.hasSeenOnboarding = true) :
    HasHeld ConfirmedStep (HoldsTrue user.uid) w₀ es w := by
  have hinv : w.Conforming actOk callOk ∧ NotAhead (fun uid =>
      HasHeld ConfirmedStep (HoldsTrue uid) w₀ es w) w := by
    refine Run.induction (I := fun es w => w.Conforming actOk callOk ∧ NotAhead (fun uid =>
      HasHeld ConfirmedStep (HoldsTrue uid) w₀ es w) w)
      ⟨launched_conforming h₀, ?_, ?_⟩ ?_ hrun
    · intro i user hu
      obtain ⟨session, hi⟩ := h₀ i
      simp [heldUser, hi, Client.start, Home.loaded] at hu
    · intro i a ha
      obtain ⟨session, hi⟩ := h₀ i
      simp [hi, Client.start] at ha
    · intro es t e u hr ih hs
      refine ⟨(step_effect ih.1 hs.1).conforming ih.1, ?_⟩
      refine (ih.2.mono fun uid h => h.snoc hs).step ih.1 hs.1 hs.2 ?_
      exact fun uid h => .now (Run.snoc hr hs) h
  exact hinv.2.user i user huser hseen

/-- One device with the session and the record of an account that has not seen the
onboarding. -/
def newcomer : HomeWorld Unit :=
  oneDevice ⟨{"kim"}, Function.update (fun _ => none) "kim"
    (updateChildValues none (newUser "kim@card.pang" "Kim"))⟩ (some "kim")

theorem flag_confirmed :
    ∃ w user, Run ConfirmedStep newcomer [.input () .viewDidLoad, .serve () 0 .succeed,
        .deliver () 0, .input () .controllerWantsToDismiss, .serve () 0 .succeed, .deliver () 0] w ∧
      heldUser w () = some user ∧ user.hasSeenOnboarding = true ∧
      HasHeld ConfirmedStep (HoldsTrue user.uid) newcomer [.input () .viewDidLoad,
        .serve () 0 .succeed, .deliver () 0, .input () .controllerWantsToDismiss,
        .serve () 0 .succeed, .deliver () 0] w := by
  have hrun : ∃ w user, Run ConfirmedStep newcomer [.input () .viewDidLoad, .serve () 0 .succeed,
      .deliver () 0, .input () .controllerWantsToDismiss, .serve () 0 .succeed, .deliver () 0] w ∧
      heldUser w () = some user ∧ user.hasSeenOnboarding = true := by
    refine ⟨_, _, Run.cons ⟨World.next_step rfl, .of_input⟩
      (Run.cons ⟨World.next_step rfl, .of_serve rfl⟩
      (Run.cons ⟨World.next_step rfl, ?_, nofun⟩
      (Run.cons ⟨World.next_step rfl, .of_input⟩
      (Run.cons ⟨World.next_step rfl, .of_serve rfl⟩
      (Run.one ⟨World.next_step rfl, ?_, nofun⟩))))), rfl, rfl⟩
    · intro i n a uid key value reply he ha hx
      cases he
      obtain rfl := Option.some.inj ha
      cases hx
    · intro i n a uid key value reply he ha hx user hu hseen
      cases he
      obtain rfl := Option.some.inj ha
      cases hx
      obtain rfl := Option.some.inj hu
      exact ⟨rfl, rfl⟩
  obtain ⟨w, user, hrun, huser, hseen⟩ := hrun
  exact ⟨w, user, hrun, huser, hseen, flag_never_ahead (oneDevice_launched _ _) hrun huser hseen⟩

/-- The write of the flag fails, and its completion sets the flag of the held user. -/
theorem flag_ahead_of_failed_write :
    ∃ w user, Run (Step platform) newcomer [.input () .viewDidLoad, .serve () 0 .succeed,
        .deliver () 0, .input () .controllerWantsToDismiss,
        .serve () 0 (.fail ⟨"network error"⟩), .deliver () 0] w ∧
      heldUser w () = some user ∧ user.hasSeenOnboarding = true ∧
      ¬ HasHeld (Step platform) (HoldsTrue user.uid) newcomer [.input () .viewDidLoad,
        .serve () 0 .succeed, .deliver () 0, .input () .controllerWantsToDismiss,
        .serve () 0 (.fail ⟨"network error"⟩), .deliver () 0] w := by
  refine ⟨_, _, World.next_run rfl, rfl, rfl, ?_⟩
  intro h
  -- No state on the way holds the flag: the record is never written.
  have hnever : ∀ (w : HomeWorld Unit) e es t, ¬ HoldsTrue "kim" w →
      HasHeld (Step platform) (HoldsTrue "kim") w (e :: es) t →
      ∃ w', w.next platform e = some w' ∧ HasHeld (Step platform) (HoldsTrue "kim") w' es t := by
    intro w e es t hw h
    rcases h.cons with hq | ⟨w', hs, h⟩
    · exact absurd hq hw
    · exact ⟨w', hs.next, h⟩
  obtain ⟨w₁, h₁, h⟩ := hnever _ _ _ _ (by decide) h
  obtain rfl := Option.some.inj h₁
  obtain ⟨w₂, h₂, h⟩ := hnever _ _ _ _ (by decide) h
  obtain rfl := Option.some.inj h₂
  obtain ⟨w₃, h₃, h⟩ := hnever _ _ _ _ (by decide) h
  obtain rfl := Option.some.inj h₃
  obtain ⟨w₄, h₄, h⟩ := hnever _ _ _ _ (by decide) h
  obtain rfl := Option.some.inj h₄
  obtain ⟨w₅, h₅, h⟩ := hnever _ _ _ _ (by decide) h
  obtain rfl := Option.some.inj h₅
  obtain ⟨w₆, h₆, h⟩ := hnever _ _ _ _ (by decide) h
  obtain rfl := Option.some.inj h₆
  exact absurd h.nil (by decide)

end CardPang.HomeController
