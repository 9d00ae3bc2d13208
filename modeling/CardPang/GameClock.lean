import CardPang.GameRefinement

/-!
# How a game ends

No flag records that a game is over. It is over when the timer is no longer valid,
and a game is in one of three phases: it is being played, it was won with time
left, or the time ran out with a card unmatched. Both event sources, the player
and the timer, move between these phases only as `StepOutcome` says.
-/
namespace CardPang.GameController
open CardModel LabelledRun MemoryGame

inductive Phase (m : ModeSettings) (c : Controller) : Prop
  | playing (valid : c.timerValid) (time : 0 < c.milliseconds) (unwon : c.isWon = false)
      (quiet : c.alerts = [])
  | won (stopped : ¬ c.timerValid) (time : 0 < c.milliseconds) (all : c.isWon = true)
      (alert : c.alerts = [⟨m.wonTitle, m.wonMessage, c.milliseconds⟩])
  | lost (stopped : ¬ c.timerValid) (time : c.milliseconds = 0) (unwon : c.isWon = false)
      (alert : c.alerts = [⟨m.lostTitle, m.lostMessage, 0⟩])

/-- Before the step exactly two rows are unmatched, after it none is. -/
def MatchesLastPair (c : Controller) (row : ℕ) (c' : Controller) : Prop :=
  (∃ p < c.cardArray.length, p ≠ row ∧ row < c.cardArray.length ∧
    ∀ i < c.cardArray.length, ((c.cardAt i).isMatched = false ↔ i = row ∨ i = p)) ∧
  c'.isWon = true

inductive StepOutcome (m : ModeSettings) (c : Controller) (e : Event ℕ) (c' : Controller) : Prop
  | quiet (phase : Phase m c') (alerts : c'.alerts = c.alerts) (won : c'.isWon = c.isWon)
      (time : e = .tick → 0 < c'.milliseconds)
  | wins (phase : Phase m c') (row : ℕ) (event : e = .tap row) (before : c.alerts = [])
      (time : 0 < c.milliseconds) (last : MatchesLastPair c row c')
      (after : c'.alerts = [⟨m.wonTitle, m.wonMessage, c.milliseconds⟩])
  | loses (phase : Phase m c') (event : e = .tick) (before : c.alerts = [])
      (unwon : c.isWon = false) (time : c'.milliseconds = 0)
      (after : c'.alerts = [⟨m.lostTitle, m.lostMessage, 0⟩])

section Step

variable {m : ModeSettings} {name : ℕ → String} {g : State ℕ String} {c c' : Controller}
  {e : Event ℕ} {row : ℕ} {v v' : CollectionView}

theorem checkGameEnded_won (hw : c.isWon = true) (ht : 0 < c.milliseconds) :
    checkGameEnded m c = c.invalidateTimer.showAlert m.wonTitle m.wonMessage := by
  simp [checkGameEnded, hw, ht]

theorem checkGameEnded_running (hw : c.isWon = false) (ht : 0 < c.milliseconds) :
    checkGameEnded m c = c := by
  simp [checkGameEnded, hw, ht]

theorem checkGameEnded_lost (hw : c.isWon = false) (ht : c.milliseconds ≤ 0) :
    checkGameEnded m c = c.showAlert m.lostTitle m.lostMessage := by
  simp [checkGameEnded, hw, ht]

theorem invalidateTimer_not_valid (c : Controller) : ¬ c.invalidateTimer.timerValid := by
  unfold Controller.timerValid Controller.invalidateTimer
  cases c.timer <;> simp

theorem isWon_congr (hlen : c'.cardArray.length = c.cardArray.length)
    (hm : ∀ i < c.cardArray.length, (c'.cardAt i).isMatched = (c.cardAt i).isMatched) :
    c'.isWon = c.isWon := by
  apply Bool.eq_iff_iff.mpr
  rw [Controller.isWon_iff, Controller.isWon_iff, hlen]
  constructor
  · exact fun h i hi => (hm i hi).symm.trans (h i hi)
  · exact fun h i hi => (hm i hi).trans (h i hi)

theorem isWon_eq_false_iff :
    c.isWon = false ↔ ∃ i < c.cardArray.length, (c.cardAt i).isMatched = false := by
  rw [← Bool.not_eq_true, Controller.isWon_iff]
  push Not
  simp only [Bool.not_eq_true]

/-- After a win the player can still tap, but every card refuses. -/
theorem tap_of_isWon (hw : c.isWon = true) (hrow : row < c.cardArray.length)
    (he : TapEffect m row c v c' v') : c' = c := by
  have hm := Controller.isWon_iff.mp hw row hrow
  cases he with
  | ignored _ => rfl
  | opens _ _ _ _ unmatched _ => simp [hm] at unmatched
  | closes _ _ _ _ unmatched _ _ _ => simp [hm] at unmatched
  | pairs _ _ _ _ unmatched _ _ _ => simp [hm] at unmatched

theorem tap_of_late (ht : c.milliseconds ≤ 0) (he : TapEffect m row c v c' v') : c' = c := by
  cases he with
  | ignored _ => rfl
  | opens time _ _ _ _ _ => omega
  | closes time _ _ _ _ _ _ _ => omega
  | pairs time _ _ _ _ _ _ _ => omega

/-- The tap that completes a pair either ends the game or leaves it running. -/
theorem pairing_outcome (h : Refines name c g) {p : ℕ} {r q : CardRef}
    (valid : c.timerValid) (time : 0 < c.milliseconds) (quiet : c.alerts = [])
    (unwon : c.isWon = false) (hr : c.cardArray[row]? = some r) (hq : c.cardArray[p]? = some q)
    (hne : p ≠ row) (hm : (c.cardAt row).isMatched = false)
    (hmp : (c.cardAt p).isMatched = false) :
    StepOutcome m c (.tap row)
      { checkGameEnded m (c.paired q r) with firstFlippedCardIndex := none } := by
  cases hw : (c.paired q r).isWon with
  | true =>
    rw [checkGameEnded_won hw time]
    refine .wins (.won ?_ time hw ?_) row rfl quiet time ⟨?_, hw⟩ ?_
    · exact invalidateTimer_not_valid (c.paired q r)
    · exact congrArg (· ++ [_]) quiet
    · refine ⟨p, Controller.lt_of_ref hq, hne, Controller.lt_of_ref hr, ?_⟩
      intro i hi
      have hi' := Controller.isWon_iff.mp hw i hi
      rw [cardAt_paired h.nodup hr hq hi] at hi'
      constructor
      · intro hf
        by_contra hni
        simp [hni, hf] at hi'
      · rintro (rfl | rfl)
        · exact hm
        · exact hmp
    · exact congrArg (· ++ [_]) quiet
  | false =>
    rw [checkGameEnded_running hw time]
    exact .quiet (.playing valid time hw quiet) rfl (hw.trans unwon.symm) (by simp)

theorem tap_outcome (h : Refines name c g) (hp : Phase m c) (hrow : row < c.cardArray.length)
    (he : TapEffect m row c v c' v') : StepOutcome m c (.tap row) c' := by
  cases hp with
  | playing valid time unwon quiet =>
    cases he with
    | ignored _ => exact .quiet (.playing valid time unwon quiet) rfl rfl (by simp)
    | @opens _ r _ _ href _ _ _ =>
      have hw : (c.opened row r).isWon = c.isWon := isWon_congr rfl fun i hi => by
        rw [cardAt_opened h.nodup href hi]
      exact .quiet (.playing valid time (hw.trans unwon) quiet) rfl hw (by simp)
    | @closes _ r q _ _ _ href _ _ _ hfirst _ =>
      have hw : (c.mismatched q r).isWon = c.isWon := isWon_congr rfl fun i hi => by
        rw [cardAt_mismatched h.nodup href hfirst hi]
      exact .quiet (.playing valid time (hw.trans unwon) quiet) rfl hw (by simp)
    | @pairs _ r q p _ _ href unflipped unmatched first hfirst _ =>
      have hplt := Controller.lt_of_ref hfirst
      have hgo : g.opened = some p := h.first.symm.trans first
      have hne : p ≠ row := by
        rintro rfl
        rw [(h.flipped p hplt).mpr (Or.inr hgo)] at unflipped
        cases unflipped
      have hmp : (c.cardAt p).isMatched = false := by
        rw [← Bool.not_eq_true, h.matched p hplt]
        exact (h.legal p hgo).2
      exact pairing_outcome h valid time quiet unwon href hfirst hne unmatched hmp
  | won stopped time all alert =>
    obtain rfl := tap_of_isWon all hrow he
    exact .quiet (.won stopped time all alert) rfl rfl (by simp)
  | lost stopped time unwon alert =>
    obtain rfl := tap_of_late time.le he
    exact .quiet (.lost stopped time unwon alert) rfl rfl (by simp)

theorem tick_outcome (hp : Phase m c) (hvalid : c.timerValid) :
    StepOutcome m c .tick (timerElapsed m c) := by
  cases hp with
  | playing valid time unwon quiet =>
    have hw : (timerElapsed m c).isWon = c.isWon := by simp [Controller.isWon]
    by_cases hlast : c.milliseconds - 1 ≤ 0
    · have hzero : c.milliseconds - 1 = 0 := by omega
      have he : timerElapsed m c =
          ({ c with milliseconds := c.milliseconds - 1 }).invalidateTimer.showAlert
            m.lostTitle m.lostMessage := by
        simp only [timerElapsed, hlast, if_true]
        exact checkGameEnded_lost unwon hlast
      have halert : (timerElapsed m c).alerts = [⟨m.lostTitle, m.lostMessage, 0⟩] := by
        rw [he]
        change c.alerts ++ [⟨_, _, c.milliseconds - 1⟩] = _
        rw [quiet, hzero]
        rfl
      have hstop : ¬ (timerElapsed m c).timerValid := by
        rw [he]
        exact invalidateTimer_not_valid { c with milliseconds := c.milliseconds - 1 }
      have htime : (timerElapsed m c).milliseconds = 0 := by simp [hzero]
      exact .loses (.lost hstop htime (hw.trans unwon) halert) rfl quiet unwon htime halert
    · have he : timerElapsed m c = { c with milliseconds := c.milliseconds - 1 } := by
        simp [timerElapsed, hlast]
      have htime : 0 < (timerElapsed m c).milliseconds := by
        rw [timerElapsed_milliseconds]
        omega
      have halert : (timerElapsed m c).alerts = c.alerts := by rw [he]
      refine .quiet (.playing ?_ htime (hw.trans unwon) (halert.trans quiet)) halert hw
        fun _ => htime
      rw [he]
      exact valid
  | won stopped time all alert => exact absurd hvalid stopped
  | lost stopped time unwon alert => exact absurd hvalid stopped

theorem step_outcome (h : Refines name c g) (hp : Phase m c) (hs : Step m c e c') :
    StepOutcome m c e c' := by
  rcases h.step_cases hs with ⟨row, v, v', rfl, hrow, he⟩ | ⟨rfl, hvalid, rfl⟩
  · exact tap_outcome h hp hrow he
  · exact tick_outcome hp hvalid

theorem StepOutcome.phase_after (h : StepOutcome m c e c') : Phase m c' := by
  cases h with
  | quiet phase _ _ _ => exact phase
  | wins phase _ _ _ _ _ _ => exact phase
  | loses phase _ _ _ _ _ => exact phase

theorem Phase.timerValid_iff (hp : Phase m c) :
    c.timerValid ↔ 0 < c.milliseconds ∧ c.isWon = false := by
  cases hp with
  | playing valid time unwon _ => exact iff_of_true valid ⟨time, unwon⟩
  | won stopped _ all _ => exact iff_of_false stopped (by simp [all])
  | lost stopped time _ _ => exact iff_of_false stopped (by simp [time])

theorem Phase.lost_alert (hp : Phase m c) (ht : c.milliseconds = 0) :
    c.alerts = [⟨m.lostTitle, m.lostMessage, 0⟩] := by
  cases hp with
  | playing _ time _ _ => omega
  | won _ time _ _ => omega
  | lost _ _ _ alert => exact alert

/-- Once the timer is stopped nothing of the game changes any more. -/
theorem step_of_stopped (h : Refines name c g) (hp : Phase m c) (hstop : ¬ c.timerValid)
    (hs : Step m c e c') : e ≠ .tick ∧ c' = c := by
  rcases h.step_cases hs with ⟨row, v, v', rfl, hrow, he⟩ | ⟨rfl, hvalid, rfl⟩
  · refine ⟨by simp, ?_⟩
    cases hp with
    | playing valid _ _ _ => exact absurd valid hstop
    | won _ _ all _ => exact tap_of_isWon all hrow he
    | lost _ time _ _ => exact tap_of_late time.le he
  · exact absurd hvalid hstop

theorem run_of_stopped (h : Refines name c g) (hp : Phase m c) (hstop : ¬ c.timerValid)
    {es : List (Event ℕ)} (hr : Run (Step m) c es c') : ticks es = 0 ∧ c' = c := by
  refine Run.induction (I := fun es d => ticks es = 0 ∧ d = c) ⟨rfl, rfl⟩ ?_ hr
  rintro es t e u - ⟨hz, rfl⟩ hs
  obtain ⟨hne, rfl⟩ := step_of_stopped h hp hstop hs
  refine ⟨?_, rfl⟩
  rw [ticks_append, hz]
  cases e with
  | tap i => rfl
  | tick => exact absurd rfl hne

/-- A game that nobody plays any more is lost. -/
theorem exists_lost_run (hp : Phase m c) (hvalid : c.timerValid) :
    ∃ d, Run (Step m) c (List.replicate c.milliseconds.toNat .tick) d ∧
      d.alerts = [⟨m.lostTitle, m.lostMessage, 0⟩] := by
  generalize hn : c.milliseconds.toNat = n
  induction n generalizing c with
  | zero =>
    have htime := (hp.timerValid_iff.mp hvalid).1
    omega
  | succ n ih =>
    have hs : Step m c .tick (timerElapsed m c) := Step.tick hvalid
    have hphase := (tick_outcome hp hvalid).phase_after
    have htime : (timerElapsed m c).milliseconds = c.milliseconds - 1 := timerElapsed_milliseconds m c
    by_cases hlast : n = 0
    · subst hlast
      exact ⟨_, Run.one hs, hphase.lost_alert (by omega)⟩
    · have hwon : (timerElapsed m c).isWon = c.isWon := by simp [Controller.isWon]
      have hvalid' : (timerElapsed m c).timerValid :=
        hphase.timerValid_iff.mpr ⟨by omega, hwon.trans (hp.timerValid_iff.mp hvalid).2⟩
      obtain ⟨d, hd, halert⟩ := ih hphase hvalid' (by omega)
      exact ⟨d, Run.cons hs hd, halert⟩

end Step

theorem GameMode.milliseconds_pos (mode : GameMode) : 0 < mode.settings.milliseconds := by
  cases mode <;> decide

theorem GameMode.titles_ne (mode : GameMode) :
    mode.settings.wonTitle ≠ mode.settings.lostTitle := by
  cases mode <;> decide

theorem phase_initial {mode : GameMode} {tape rest : List ℕ} {c₀ : Controller}
    (hload : viewDidLoad mode.settings tape = .ok (c₀, rest)) : Phase mode.settings c₀ := by
  have hd := viewDidLoad_deck hload
  obtain ⟨-, htimer, htime, -, halerts⟩ := viewDidLoad_eq_ok hload
  refine .playing htimer (htime ▸ mode.milliseconds_pos) (isWon_eq_false_iff.mpr ?_) halerts
  have hpos : 0 < c₀.cardArray.length := by
    rw [hd.length]
    cases mode <;> decide
  obtain ⟨r, hr⟩ := Controller.exists_ref hpos
  refine ⟨0, hpos, ?_⟩
  rw [Controller.cardAt_eq hr]
  exact (hd.closed r (List.mem_of_getElem? hr)).2

section Run

variable {mode : GameMode} {tape rest : List ℕ} {c₀ c : Controller} {es : List (Event ℕ)}

theorem run_phase (hload : viewDidLoad mode.settings tape = .ok (c₀, rest))
    (hrun : Run (Step mode.settings) c₀ es c) : Phase mode.settings c := by
  refine Run.induction (I := fun _ d => Phase mode.settings d) (phase_initial hload) ?_ hrun
  intro es t e u hr ih hs
  exact (step_outcome (refines_run (refines_initial hload) hr) ih hs).phase_after

theorem run_milliseconds (hload : viewDidLoad mode.settings tape = .ok (c₀, rest))
    (hrun : Run (Step mode.settings) c₀ es c) :
    c.milliseconds = mode.settings.milliseconds - ticks es := by
  obtain ⟨-, -, htime, -, -⟩ := viewDidLoad_eq_ok hload
  rw [(refines_run (refines_initial hload) hrun).time, play_time]
  exact congrArg (· - (ticks es : ℤ)) htime

/-- Any taps on rows of the board can be handled one after the other. -/
theorem exists_run_taps (hload : viewDidLoad mode.settings tape = .ok (c₀, rest))
    (hrun : Run (Step mode.settings) c₀ es c) {fs : List (Event ℕ)}
    (hfs : ∀ e ∈ fs, ∃ row < c.cardArray.length, e = .tap row) :
    ∃ d, Run (Step mode.settings) c fs d := by
  induction fs using List.reverseRecOn with
  | nil => exact ⟨c, Run.nil c⟩
  | append_singleton fs f ih =>
    obtain ⟨d, hd⟩ := ih fun e he => hfs e (by simp [he])
    obtain ⟨row, hrow, rfl⟩ := hfs f (by simp)
    have h := refines_run (refines_initial hload) (hrun.trans hd)
    have hcards := run_cardArray (refines_run (refines_initial hload) hrun) hd
    have hlt : row < d.cardArray.length := by rwa [hcards]
    obtain ⟨d', v', he, -⟩ := didSelectItemAt_effect (m := mode.settings) (v := wholeBoard) hlt
      (by simp [wholeBoard]) fun p hp => h.first_lt hp
    exact ⟨d', Run.snoc hd (Step.tap hlt (by simp [wholeBoard]) he)⟩

theorem run_tap_lt (hload : viewDidLoad mode.settings tape = .ok (c₀, rest))
    (hrun : Run (Step mode.settings) c₀ es c) {row : ℕ} (hmem : .tap row ∈ es) :
    row < c₀.cardArray.length := by
  refine Run.induction (R := Step mode.settings)
    (I := fun es _ => .tap row ∈ es → row < c₀.cardArray.length) (by simp) ?_ hrun hmem
  intro es t e u hr ih hs hm
  rcases List.mem_append.mp hm with hm | hm
  · exact ih hm
  · obtain rfl := List.mem_singleton.mp hm
    cases hs with
    | tap hrow _ _ => rwa [run_cardArray (refines_initial hload) hr] at hrow

theorem Refines.isWon_iff {name : ℕ → String} {g : State ℕ String} (h : Refines name c g) :
    c.isWon = true ↔ ∀ i < c.cardArray.length, name i ∈ g.matched := by
  rw [Controller.isWon_iff]
  exact forall₂_congr fun i hi => h.matched i hi

/-- The calls of `showAlert` that a step makes. -/
def shown (c c' : Controller) : List AlertCall := c'.alerts.drop c.alerts.length

/-- How every game of a controller that was dealt as `c₀` ends. -/
structure EndsOnce (m : ModeSettings) (c₀ : Controller) : Prop where
  clock : ∀ es c, Run (Step m) c₀ es c →
    c.milliseconds = m.milliseconds - ticks es ∧ 0 ≤ c.milliseconds
  once : ∀ es c, Run (Step m) c₀ es c → c.alerts.length ≤ 1
  win : ∀ es c e c', Run (Step m) c₀ es c → Step m c e c' →
    ((∃ a ∈ shown c c', a.title = m.wonTitle) ↔ ∃ row, e = .tap row ∧ MatchesLastPair c row c')
  win_final : ∀ es c e c', Run (Step m) c₀ es c → Step m c e c' →
    (∃ a ∈ shown c c', a.title = m.wonTitle) →
      0 < c.milliseconds ∧ ∀ fs d, Run (Step m) c' fs d → ticks fs = 0 ∧ d = c'
  loss : ∀ es c e c', Run (Step m) c₀ es c → Step m c e c' →
    ((∃ a ∈ shown c c', a.title = m.lostTitle) ↔
      e = .tick ∧ (ticks (es ++ [e]) : ℤ) = m.milliseconds)
  loss_final : ∀ es c e c', Run (Step m) c₀ es c → Step m c e c' →
    (∃ a ∈ shown c c', a.title = m.lostTitle) →
      (∃ i < c.cardArray.length, (c.cardAt i).isMatched = false) ∧
        ∀ fs d, Run (Step m) c' fs d → d = c'
  never_late : ∀ es c, Run (Step m) c₀ es c →
    ∀ a ∈ c.alerts, a.title = m.wonTitle → 0 < a.milliseconds
  won_iff : ∀ es c, Run (Step m) c₀ es c →
    ∃ d, Run (Step m) c₀ (tapsBefore m.milliseconds.toNat es) d ∧
      ((∃ a ∈ c.alerts, a.title = m.wonTitle) ↔ d.isWon = true)

theorem Phase.milliseconds_nonneg (hp : Phase mode.settings c) : 0 ≤ c.milliseconds := by
  cases hp with
  | playing _ time _ _ => exact time.le
  | won _ time _ _ => exact time.le
  | lost _ time _ _ => exact time.ge

theorem Phase.alerts_length_le (hp : Phase mode.settings c) : c.alerts.length ≤ 1 := by
  cases hp with
  | playing _ _ _ quiet => simp [quiet]
  | won _ _ _ alert => simp [alert]
  | lost _ _ _ alert => simp [alert]

/-- Nobody is congratulated after the time. -/
theorem Phase.won_alert_time (hp : Phase mode.settings c) {a : AlertCall} (ha : a ∈ c.alerts)
    (hwon : a.title = mode.settings.wonTitle) : 0 < a.milliseconds := by
  cases hp with
  | playing _ _ _ quiet => simp [quiet] at ha
  | won _ time _ alert =>
    rw [alert, List.mem_singleton] at ha
    subst ha
    exact time
  | lost _ _ _ alert =>
    rw [alert, List.mem_singleton] at ha
    subst ha
    exact absurd hwon.symm mode.titles_ne

theorem Phase.won_alert_iff (hp : Phase mode.settings c) :
    (∃ a ∈ c.alerts, a.title = mode.settings.wonTitle) ↔ c.isWon = true := by
  have hne := mode.titles_ne
  cases hp with
  | playing _ _ unwon quiet => simp [quiet, unwon]
  | won _ _ all alert => simp [alert, all]
  | lost _ _ unwon alert => simp [alert, unwon, hne.symm]

theorem shown_won_iff {e : Event ℕ} {c' : Controller}
    (ho : StepOutcome mode.settings c e c') :
    (∃ a ∈ shown c c', a.title = mode.settings.wonTitle) ↔
      ∃ row, e = .tap row ∧ MatchesLastPair c row c' := by
  have hne := mode.titles_ne
  cases ho with
  | quiet _ alerts won _ =>
    simp only [shown, alerts, List.drop_length, List.not_mem_nil, false_and, exists_false,
      false_iff, not_exists]
    rintro row ⟨-, ⟨p, -, -, hrow, hall⟩, hw⟩
    have hbefore := Controller.isWon_iff.mp (won.symm.trans hw) row hrow
    rw [(hall row hrow).mpr (Or.inl rfl)] at hbefore
    cases hbefore
  | wins _ row event before _ last after =>
    simp only [shown, before, after, List.length_nil, List.drop_zero, List.mem_singleton]
    exact ⟨fun _ => ⟨row, event, last⟩, fun _ => ⟨_, rfl, rfl⟩⟩
  | loses _ event before _ _ after =>
    subst event
    simp [shown, before, after, hne.symm]

theorem shown_lost_iff {e : Event ℕ} {c' : Controller}
    (ho : StepOutcome mode.settings c e c') :
    (∃ a ∈ shown c c', a.title = mode.settings.lostTitle) ↔
      e = .tick ∧ c'.milliseconds = 0 := by
  have hne := mode.titles_ne
  cases ho with
  | quiet _ alerts _ time =>
    simp only [shown, alerts, List.drop_length, List.not_mem_nil, false_and, exists_false,
      false_iff, not_and]
    intro he hz
    have := time he
    omega
  | wins _ row event before _ _ after =>
    subst event
    simp [shown, before, after, hne]
  | loses _ event before _ time after => simp [shown, before, after, event, time]

theorem StepOutcome.time_of_shown_won {e : Event ℕ} {c' : Controller}
    (ho : StepOutcome mode.settings c e c')
    (hwon : ∃ a ∈ shown c c', a.title = mode.settings.wonTitle) : 0 < c.milliseconds := by
  obtain ⟨row, he, -⟩ := (shown_won_iff ho).mp hwon
  cases ho with
  | quiet _ alerts _ _ => simp [shown, alerts] at hwon
  | wins _ _ _ _ time _ _ => exact time
  | loses _ event _ _ _ _ => cases event.symm.trans he

theorem StepOutcome.unmatched_of_shown_lost {e : Event ℕ} {c' : Controller}
    (ho : StepOutcome mode.settings c e c')
    (hlost : ∃ a ∈ shown c c', a.title = mode.settings.lostTitle) :
    ∃ i < c.cardArray.length, (c.cardAt i).isMatched = false := by
  obtain ⟨he, -⟩ := (shown_lost_iff ho).mp hlost
  cases ho with
  | quiet _ alerts _ _ => simp [shown, alerts] at hlost
  | wins _ _ event _ _ _ _ => cases event.symm.trans he
  | loses _ _ _ unwon _ _ => exact isWon_eq_false_iff.mp unwon

/-- A step that shows an alert stops the timer. -/
theorem StepOutcome.stopped {e : Event ℕ} {c' : Controller}
    (ho : StepOutcome mode.settings c e c') (hshow : shown c c' ≠ []) : ¬ c'.timerValid := by
  cases ho with
  | quiet _ alerts _ _ => simp [shown, alerts] at hshow
  | wins phase row _ _ _ last after =>
    cases phase with
    | playing _ _ _ quiet => simp [quiet] at after
    | won stopped _ _ _ => exact stopped
    | lost stopped _ _ _ => exact stopped
  | loses phase _ _ _ _ after =>
    cases phase with
    | playing _ _ _ quiet => simp [quiet] at after
    | won stopped _ _ _ => exact stopped
    | lost stopped _ _ _ => exact stopped

/-- The verdict depends only on the taps before the last tick. -/
theorem won_iff_tapsBefore (hload : viewDidLoad mode.settings tape = .ok (c₀, rest))
    (hrun : Run (Step mode.settings) c₀ es c) :
    ∃ d, Run (Step mode.settings) c₀ (tapsBefore mode.settings.milliseconds.toNat es) d ∧
      ((∃ a ∈ c.alerts, a.title = mode.settings.wonTitle) ↔ d.isWon = true) := by
  obtain ⟨-, -, htime, -, -⟩ := viewDidLoad_eq_ok hload
  have hinit := refines_initial hload
  have htaps : ∀ e ∈ tapsBefore mode.settings.milliseconds.toNat es,
      ∃ row < c₀.cardArray.length, e = .tap row := by
    intro e he
    cases e with
    | tap row => exact ⟨row, run_tap_lt hload hrun (mem_tapsBefore he), rfl⟩
    | tick =>
      obtain ⟨s, t, hst⟩ := List.append_of_mem he
      have hz := ticks_tapsBefore mode.settings.milliseconds.toNat es
      rw [hst, ticks_append] at hz
      simp [ticks] at hz
  obtain ⟨d, hd⟩ := exists_run_taps hload (Run.nil c₀) htaps
  refine ⟨d, hd, ?_⟩
  have hpos : 0 < (initialState c₀).time := by
    rw [show (initialState c₀).time = mode.settings.milliseconds from htime]
    exact mode.milliseconds_pos
  have hsame : SameCards (play (faces c₀) (initialState c₀) es) _ :=
    play_tapsBefore_sameCards hpos es
  rw [show (initialState c₀).time = mode.settings.milliseconds from htime] at hsame
  rw [(run_phase hload hrun).won_alert_iff, (refines_run hinit hrun).isWon_iff,
    (refines_run hinit hd).isWon_iff, run_cardArray hinit hrun, run_cardArray hinit hd, hsame.1]

/-- One game, one clock, at most one alert, and the right one. -/
theorem game_ends_once (mode : GameMode) {tape rest : List ℕ} {c₀ : Controller}
    (hload : viewDidLoad mode.settings tape = .ok (c₀, rest)) : EndsOnce mode.settings c₀ := by
  have hinit := refines_initial hload
  have houtcome : ∀ es c e c', Run (Step mode.settings) c₀ es c → Step mode.settings c e c' →
      StepOutcome mode.settings c e c' := fun es c e c' hr hs =>
    step_outcome (refines_run hinit hr) (run_phase hload hr) hs
  have hstopped : ∀ es c e c', Run (Step mode.settings) c₀ es c → Step mode.settings c e c' →
      shown c c' ≠ [] → ∀ fs d, Run (Step mode.settings) c' fs d → ticks fs = 0 ∧ d = c' := by
    intro es c e c' hr hs hshow fs d hd
    have ho := houtcome es c e c' hr hs
    exact run_of_stopped (refines_run hinit (hr.snoc hs)) ho.phase_after (ho.stopped hshow) hd
  constructor
  · exact fun es c hr => ⟨run_milliseconds hload hr, (run_phase hload hr).milliseconds_nonneg⟩
  · exact fun es c hr => (run_phase hload hr).alerts_length_le
  · exact fun es c e c' hr hs => shown_won_iff (houtcome es c e c' hr hs)
  · intro es c e c' hr hs hwon
    have htime := (houtcome es c e c' hr hs).time_of_shown_won hwon
    obtain ⟨a, ha, -⟩ := hwon
    exact ⟨htime, hstopped es c e c' hr hs (List.ne_nil_of_mem ha)⟩
  · intro es c e c' hr hs
    rw [shown_lost_iff (houtcome es c e c' hr hs), run_milliseconds hload (hr.snoc hs)]
    exact and_congr_right fun _ => by omega
  · intro es c e c' hr hs hlost
    have hunmatched := (houtcome es c e c' hr hs).unmatched_of_shown_lost hlost
    obtain ⟨a, ha, -⟩ := hlost
    refine ⟨hunmatched, ?_⟩
    intro fs d hd
    exact (hstopped es c e c' hr hs (List.ne_nil_of_mem ha) fs d hd).2
  · exact fun es c hr a ha hwon => (run_phase hload hr).won_alert_time ha hwon
  · exact fun es c hr => won_iff_tapsBefore hload hr

/-- The pairs of the deal lie side by side: tapped in order, they win with all the time left.
Untouched, the game is lost. -/
theorem game_ends_once_ordered :
    EndsOnce GameMode.easy.settings (orderedDeal .easy) ∧
    (∃ c, Run (Step GameMode.easy.settings) (orderedDeal .easy) ((List.range 12).map .tap) c ∧
      c.alerts = [⟨GameMode.easy.settings.wonTitle, GameMode.easy.settings.wonMessage, 30000⟩]) ∧
    ∃ c, Run (Step GameMode.easy.settings) (orderedDeal .easy) (List.replicate 30000 .tick) c ∧
      c.alerts = [⟨GameMode.easy.settings.lostTitle, GameMode.easy.settings.lostMessage, 0⟩] :=
  have hphase := phase_initial (orderedDeal_load .easy)
  ⟨game_ends_once .easy (orderedDeal_load .easy), ⟨_, playEvents_run rfl, rfl⟩,
    exists_lost_run hphase (hphase.timerValid_iff.mpr ⟨by decide, rfl⟩)⟩

end Run

end CardPang.GameController
