import CardPang.AccountProtocol
import CardPang.CallBudget

/-!
# Sign-ins come to an end

Each input of the home screen starts a chain of at most four requests: a Google
sign-in exchanges the credential, reads the user's node, writes a new record and
fetches the user. No chain starts another one by itself, on no device and under no
outcome of the backend.
-/
namespace CardPang.HomeController
open CallbackProgram Firebase LabelledRun Service

/-- The requests that an input can lead to, its callbacks included. -/
def requestCost : Input → ℕ
  | .viewDidLoad => 1
  | .handleLogin _ _ => 2
  | .handleSignUP _ _ _ => 3
  | .signDidSignInFor _ _ => 4
  | .logout _ => 0
  | .controllerWantsToDismiss => 1

section Within

theorem fetchUser_within : Within fetchUser 1 := by
  rintro ⟨_ | uid, home⟩
  · trivial
  · refine ⟨0, 0, le_rfl, ?_, trivial⟩
    rintro ⟨key, _ | _ | f⟩ <;> trivial

theorem authenticationComplete_within : Within authenticationComplete 1 := fetchUser_within

theorem handleLogin_within (email password : Option String) :
    Within (handleLogin email password) 2 := by
  cases email with
  | none => trivial
  | some email =>
    cases password with
    | none => trivial
    | some password =>
      refine ⟨1, 0, le_rfl, fun reply => ?_, trivial⟩
      cases he : AuthReply.error reply with
      | some error => simp only [he]; trivial
      | none => simp only [he]; exact authenticationComplete_within

theorem handleSignUP_within (email password fullname : Option String) :
    Within (handleSignUP email password fullname) 3 := by
  cases email with
  | none => trivial
  | some email =>
    cases password with
    | none => trivial
    | some password =>
      cases fullname with
      | none => trivial
      | some fullname =>
        refine ⟨2, 0, le_rfl, fun reply => ?_, trivial⟩
        cases he : AuthReply.error reply with
        | some error => simp only [he]; trivial
        | none =>
          simp only [he]
          cases hr : AuthReply.result reply with
          | none => trivial
          | some result =>
            refine ⟨1, 0, le_rfl, fun write => ?_, trivial⟩
            cases hw : WriteReply.error write with
            | some error => simp only [hw]; trivial
            | none => simp only [hw]; exact authenticationComplete_within

theorem googleCompletion_within :
    Within (authenticationComplete.andThen (.act (.ui (.dismiss .login)) .done)) 1 :=
  authenticationComplete_within.andThen (m := 0) trivial

theorem signDidSignInFor_within (user : Option GIDGoogleUser) (error : Option BackendError) :
    Within (signDidSignInFor user error) 4 := by
  cases user with
  | none => trivial
  | some user =>
    obtain ⟨authentication⟩ := user
    cases authentication with
    | none => trivial
    | some authentication =>
      refine ⟨3, 0, le_rfl, fun reply => ?_, trivial⟩
      cases he : AuthReply.error reply with
      | some error =>
        simp only [he]
        exact googleCompletion_within.mono (by omega)
      | none =>
        simp only [he]
        cases hr : AuthReply.result reply with
        | none => trivial
        | some result =>
          refine ⟨2, 0, le_rfl, fun snapshot => ?_, trivial⟩
          cases hv : DataSnapshot.value snapshot with
          | some node =>
            simp only [hv]
            exact googleCompletion_within.mono (by omega)
          | none =>
            simp only [hv]
            obtain ⟨uid, email, displayName⟩ := result
            cases email with
            | none => trivial
            | some email =>
              cases displayName with
              | none => trivial
              | some fullname =>
                exact ⟨1, 0, le_rfl, fun _ => googleCompletion_within, trivial⟩

theorem handler_within (u : Input) : Within (handler u) (requestCost u) := by
  cases u with
  | viewDidLoad =>
    rintro ⟨_ | uid, home⟩
    · trivial
    · exact fetchUser_within
  | handleLogin email password => exact handleLogin_within email password
  | handleSignUP email password fullname => exact handleSignUP_within email password fullname
  | signDidSignInFor user error => exact signDidSignInFor_within user error
  | logout throws => cases throws <;> trivial
  | controllerWantsToDismiss =>
    rintro ⟨_ | uid, home⟩
    · trivial
    · exact ⟨0, 0, le_rfl, fun _ => trivial, trivial⟩

end Within

section Settle

variable {ι : Type} {w w₀ : HomeWorld ι} {es : List (HomeEvent ι)}

theorem exists_served (r : Request) (pending : List Request) (b : Backend) :
    ∃ o answer, serve o r pending b = some answer := by
  cases r with
  | signIn _ _ => exact ⟨.fail ⟨""⟩, _, rfl⟩
  | createUser _ _ => exact ⟨.fail ⟨""⟩, _, rfl⟩
  | signInWithCredential _ => exact ⟨.fail ⟨""⟩, _, rfl⟩
  | observeSingleEvent _ _ => exact ⟨.fail ⟨""⟩, _, rfl⟩
  | updateChildValues _ _ => exact ⟨.fail ⟨""⟩, _, rfl⟩
  | setValue _ _ _ => exact ⟨.fail ⟨""⟩, _, rfl⟩

theorem launched_bounded (h : Launched w) (i : ι) : (w.client i).Bounded ∧ (w.client i).owed = 0 := by
  obtain ⟨session, hi⟩ := h i
  rw [hi]
  constructor
  · rintro c (hc | ⟨a, ha, -⟩)
    · cases hc
    · cases ha
  · simp [Client.owed, Client.start]

variable [DecidableEq ι]

/-- On every device the requests served, the answers delivered and those still on their
way are paid for by the inputs made on it: two steps for each request of `requestCost`. -/
theorem requests_bounded (h₀ : Launched w₀) (hrun : Run (Step platform) w₀ es w) (i : ι) :
    2 * (w.client i).waiting.length + (w.client i).arrived.length +
      es.countP (Event.answersAt i) ≤ 2 * (es.map (inputCost requestCost i)).sum := by
  obtain ⟨hbounded, howed⟩ := launched_bounded h₀ i
  have hpaid := (owed_run (P := platform) handler_within hbounded hrun).2
  have hlength := (w.client i).length_le_owed
  omega

/-- A first Google sign-in, all of whose four requests are answered. -/
def googleNewcomer : List (HomeEvent Unit) :=
  [.input () (.signDidSignInFor (some ⟨some ⟨"id", "access"⟩⟩) none),
    .serve () 0 (.signIn ⟨"kim", some "kim@card.pang", some "Kim"⟩), .deliver () 0,
    .serve () 0 .succeed, .deliver () 0, .serve () 0 .succeed, .deliver () 0,
    .serve () 0 .succeed, .deliver () 0]

/-- The bound is attained: the sign-in of a newcomer pays with all of its eight steps. -/
theorem requests_bounded_newcomer :
    ∃ w, Run (Step platform) (oneDevice ⟨∅, fun _ => none⟩ none) googleNewcomer w ∧
      googleNewcomer.countP (Event.answersAt ()) =
        2 * (googleNewcomer.map (inputCost requestCost ())).sum ∧
      (w.client ()).waiting.length = 0 := by
  have hrun : ∃ w, Run (Step platform) (oneDevice ⟨∅, fun _ => none⟩ none) googleNewcomer w :=
    ⟨_, World.next_run rfl⟩
  obtain ⟨w, hrun⟩ := hrun
  have hbound := requests_bounded (oneDevice_launched _ _) hrun ()
  have hcount : googleNewcomer.countP (Event.answersAt ()) = 8 := rfl
  have hcost : (googleNewcomer.map (inputCost requestCost ())).sum = 4 := rfl
  exact ⟨w, hrun, by omega, by omega⟩

theorem conforming_run (h₀ : Launched w₀) (hrun : Run (Step platform) w₀ es w) :
    w.Conforming actOk callOk :=
  Run.invariant (launched_conforming h₀) (fun _ _ _ ht hs => (step_effect ht hs).conforming ht) hrun

/-- Wherever a run has led, a device that its user leaves alone comes to rest: its own
steps can be taken until nothing is in flight on it, and whatever else happens on other
devices, no run goes on with more of them than the inputs so far have paid for. -/
theorem device_settles (h₀ : Launched w₀) (hrun : Run (Step platform) w₀ es w) (i : ι) :
    (∃ fs w', Run (Step platform) w fs w' ∧ (∀ e ∈ fs, Event.answersAt i e = true) ∧
      (w'.client i).Quiet) ∧
    ∀ fs w', Run (Step platform) w fs w' → (∀ u, .input i u ∉ fs) →
      es.countP (Event.answersAt i) + fs.countP (Event.answersAt i) ≤
        2 * (es.map (inputCost requestCost i)).sum := by
  obtain ⟨hbounded, -⟩ := launched_bounded h₀ i
  have hpaid := (owed_run (P := platform) handler_within hbounded hrun).1
  refine ⟨exists_settling_run (conforming_run h₀ hrun) exists_served hpaid, ?_⟩
  intro fs w' hlater hnone
  have hfree : (fs.map (inputCost requestCost i)).sum = 0 := by
    apply List.sum_eq_zero
    intro n hn
    obtain ⟨e, he, rfl⟩ := List.mem_map.mp hn
    cases e with
    | input j u =>
      have hj : j ≠ i := by
        rintro rfl
        exact hnone u he
      simp [inputCost, hj]
    | serve _ _ _ => rfl
    | deliver _ _ => rfl
  have hall := requests_bounded h₀ (hrun.trans hlater) i
  rw [List.countP_append, List.map_append, List.sum_append, hfree] at hall
  omega

/-- The device is left alone when the credential has been exchanged. -/
theorem device_settles_newcomer :
    ∃ w, Run (Step platform) (oneDevice ⟨∅, fun _ => none⟩ none) (googleNewcomer.take 3) w ∧
      (∃ fs w', Run (Step platform) w fs w' ∧ (w'.client ()).Quiet) ∧
      ∀ fs w', Run (Step platform) w fs w' → (∀ u, .input () u ∉ fs) →
        fs.countP (Event.answersAt ()) ≤ 6 := by
  have hrun : ∃ w, Run (Step platform) (oneDevice ⟨∅, fun _ => none⟩ none)
      (googleNewcomer.take 3) w := ⟨_, World.next_run rfl⟩
  obtain ⟨w, hrun⟩ := hrun
  obtain ⟨⟨fs, w', hrest, -, hquiet⟩, hbound⟩ := device_settles (oneDevice_launched _ _) hrun ()
  refine ⟨w, hrun, ⟨fs, w', hrest, hquiet⟩, ?_⟩
  intro fs w' hlater hnone
  have hle := hbound fs w' hlater hnone
  have hcount : (googleNewcomer.take 3).countP (Event.answersAt ()) = 2 := rfl
  have hcost : ((googleNewcomer.take 3).map (inputCost requestCost ())).sum = 4 := rfl
  omega

end Settle

end CardPang.HomeController
