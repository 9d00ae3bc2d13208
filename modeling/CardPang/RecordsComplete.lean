import CardPang.AccountCreation
import CardPang.AccountSettles
import CardPang.OnboardingKept

/-!
# When every record stays complete

A new record is written with all its fields at once; the onboarding flag is written
alone. On an account without a record, one whose creation has failed or is still on
its way, this leaves a record of the flag only.
-/
namespace CardPang.HomeController
open CallbackProgram Firebase LabelledRun Service

variable {ι : Type} {w w' w₀ : HomeWorld ι} {e : HomeEvent ι} {es : List (HomeEvent ι)}

/-- An onboarding flag is written only into a record that is there. -/
def FlagOnRecord (w : HomeWorld ι) (e : HomeEvent ι) : Prop :=
  ∀ i n c uid key value, e = .serve i n .succeed → (w.client i).waiting[n]? = some c →
    c.request = .setValue uid key value → w.server.users uid ≠ none

def FlagOnRecordStep [DecidableEq ι] (w : HomeWorld ι) (e : HomeEvent ι) (w' : HomeWorld ι) : Prop :=
  Step platform w e w' ∧ FlagOnRecord w e

theorem holdsRecord_setValue {node : Option Node} (h : HoldsRecord node) (key : String)
    (value : Value) : HoldsRecord (setValue node key value) := by
  obtain ⟨f, rfl, hemail, hname, hseen⟩ := h
  refine ⟨_, rfl, ?_, ?_, ?_⟩ <;> simp only [children, Function.update_apply] <;> split_ifs <;>
    first | rfl | assumption

theorem not_holdsRecord_setValue_none (value : Value) :
    ¬ HoldsRecord (setValue none "hasSeenOnboarding" value) := by
  rintro ⟨f, hf, hemail, -⟩
  simp only [setValue, Option.some.injEq, Node.dictionary.injEq] at hf
  rw [← hf] at hemail
  simp [children] at hemail

theorem allRecordsComplete_setUser {b : Backend} (h : AllRecordsComplete b) {uid : String}
    {node : Option Node} (hnode : HoldsRecord node) : AllRecordsComplete (b.setUser uid node) := by
  intro other hother
  by_cases heq : other = uid
  · subst heq
    rwa [b.setUser_users_self]
  · rw [b.setUser_users_of_ne heq] at hother ⊢
    exact h other hother

/-- What the execution of one request of the app does to a complete database. -/
theorem complete_served_iff {b b' : Backend} {o : Answer} {r : Request} {t : Trail}
    {answer : Option (Reply r)} {pending : List Request} (hr : callOk t r)
    (h : serve o r pending b = some (b', answer)) (hb : AllRecordsComplete b) :
    AllRecordsComplete b' ↔
      ∀ uid key value, o = .succeed → r = .setValue uid key value → b.users uid ≠ none := by
  rcases serve_users h with husers | ⟨uid, values, -, rfl, rfl⟩ | ⟨uid, key, value, rfl, rfl, rfl⟩
  · refine iff_of_true (fun uid hu => ?_) ?_
    · rw [husers] at hu ⊢
      exact hb uid hu
    · rintro uid key value rfl rfl hnone
      -- A write that succeeds changes the database.
      obtain ⟨-, rfl, rfl⟩ := hr
      rcases serve_setValue h with ⟨_, ho, -⟩ | ⟨-, rfl, -⟩
      · cases ho
      · have := congrFun husers uid
        rw [b.setUser_users_self, hnone] at this
        cases this
  · obtain ⟨-, -, email, fullname, rfl⟩ := hr
    exact iff_of_true (allRecordsComplete_setUser hb (holdsRecord_newUser _ email fullname)) (by simp)
  · obtain ⟨-, rfl, rfl⟩ := hr
    constructor
    · rintro hcomplete other key value - hreq hnone
      cases hreq
      have hrecord := hcomplete uid (by simp [setValue])
      rw [b.setUser_users_self, hnone] at hrecord
      exact not_holdsRecord_setValue_none _ hrecord
    · intro hsome
      have hrecord := hb uid (hsome uid _ _ rfl rfl)
      exact allRecordsComplete_setUser hb (holdsRecord_setValue hrecord _ _)

variable [DecidableEq ι]

theorem complete_step_iff (hw : w.Conforming actOk callOk) (hs : Step platform w e w')
    (h : AllRecordsComplete w.server) : AllRecordsComplete w'.server ↔ FlagOnRecord w e := by
  cases step_effect hw hs with
  | input hr =>
    rw [hr.server]
    exact iff_of_true h (by simp [FlagOnRecord])
  | @serve i n o c answer hwait hn hserve =>
    have hcall := (hw i c (Or.inl hwait)).request
    refine (complete_served_iff hcall hserve h).trans ⟨?_, ?_⟩
    · intro hall j m c' uid key value he hc' hreq
      cases he
      obtain rfl := Option.some.inj (hn.symm.trans hc')
      exact hall uid key value rfl hreq
    · rintro hflag uid key value rfl hreq
      exact hflag i n c uid key value rfl hn hreq
  | deliver _ _ hr =>
    rw [hr.server]
    exact iff_of_true h (by simp [FlagOnRecord])

/-- From a database of complete records, a run passes through complete records only,
exactly if it never writes an onboarding flag where there is no record. -/
theorem records_complete_iff (h₀ : Launched w₀) (hb : AllRecordsComplete w₀.server)
    (hrun : Run (Step platform) w₀ es w) :
    ¬ HasHeld (Step platform) (fun m => ¬ AllRecordsComplete m.server) w₀ es w ↔
      Run FlagOnRecordStep w₀ es w := by
  refine Run.never_iff (I := fun w => w.Conforming actOk callOk) (launched_conforming h₀) ?_ ?_ hb
    ?_ hrun
  · exact fun v e u hv hs => (step_effect hv hs).conforming hv
  · exact fun v e u u' _ hu hu' => Option.some.inj (hu.next.symm.trans hu'.next)
  · exact fun v e u hv hcomplete hs => complete_step_iff hv hs hcomplete

theorem newcomer_complete : AllRecordsComplete newcomer.server := by
  intro uid huid
  by_cases h : uid = "kim"
  · subst h
    exact holdsRecord_newUser none "kim@card.pang" "Kim"
  · simp [newcomer, oneDevice, h] at huid

/-- The flag is written into the record from which the onboarding was shown. -/
theorem records_complete_for_newcomer :
    ∃ w, Run (Step platform) newcomer [.input () .viewDidLoad, .serve () 0 .succeed,
        .deliver () 0, .input () .controllerWantsToDismiss, .serve () 0 .succeed] w ∧
      ¬ HasHeld (Step platform) (fun m => ¬ AllRecordsComplete m.server) newcomer
        [.input () .viewDidLoad, .serve () 0 .succeed, .deliver () 0,
          .input () .controllerWantsToDismiss, .serve () 0 .succeed] w := by
  have hrun : ∃ w, Run FlagOnRecordStep newcomer [.input () .viewDidLoad, .serve () 0 .succeed,
      .deliver () 0, .input () .controllerWantsToDismiss, .serve () 0 .succeed] w := by
    refine ⟨_, Run.cons ⟨World.next_step rfl, by simp [FlagOnRecord]⟩
      (Run.cons ⟨World.next_step rfl, ?_⟩
      (Run.cons ⟨World.next_step rfl, by simp [FlagOnRecord]⟩
      (Run.cons ⟨World.next_step rfl, by simp [FlagOnRecord]⟩
      (Run.one ⟨World.next_step rfl, ?_⟩))))⟩
    · intro i n c uid key value he hc hreq
      cases he
      obtain rfl := Option.some.inj hc
      cases hreq
    · intro i n c uid key value he hc hreq
      cases he
      obtain rfl := Option.some.inj hc
      cases hreq
      exact Option.some_ne_none _
  obtain ⟨w, hrun⟩ := hrun
  have hstep := hrun.mono fun _ _ _ hs => hs.1
  exact ⟨w, hstep, (records_complete_iff (oneDevice_launched _ _) newcomer_complete hstep).mpr hrun⟩

end CardPang.HomeController
