import CardPang.BinaryRounding
import CardPang.GameClock

/-!
# The clock on the screen

`milliseconds` is a `Float`, and so is the quotient that `secondLabel` shows with two
decimals at every tick. Here both are kept as the source computes them, beside the
integer clock of the game.
-/
namespace CardPang.GameController
open BinaryRounding CardModel LabelledRun MemoryGame

/-- A number of hundredths with its two decimals. -/
def secondsText (h : ℕ) : String :=
  toString (h / 100) ++ "." ++ toString (h / 10 % 10) ++ toString (h % 10)

/-- `String(format: "%.2f", x)`. -/
def formatTwoDecimals (x : ℚ) : String :=
  (if x < 0 then "-" else "") ++ secondsText (roundEven (100 * |x|)).toNat

structure ClockFace where
  milliseconds : ℚ
  secondLabel : String
  isRed : Bool
  deriving DecidableEq, Repr

def ClockFace.loaded (m : ModeSettings) : ClockFace := ⟨float32.round m.milliseconds, "0.00", false⟩

/-- `timerElapsed`, the part on the label. -/
def ClockFace.timerElapsed (k : ClockFace) : ClockFace :=
  let milliseconds := float32.round (k.milliseconds - 1)
  { milliseconds := milliseconds
    secondLabel := formatTwoDecimals (float32.round (milliseconds / 1000))
    isRed := if milliseconds ≤ 0 then true else k.isRed }

/-- A game with its label. -/
inductive FaceStep (m : ModeSettings) :
    Controller × ClockFace → Event ℕ → Controller × ClockFace → Prop
  | tap {c c' : Controller} {k : ClockFace} {row : ℕ} (h : Step m c (.tap row) c') :
    FaceStep m (c, k) (.tap row) (c', k)
  | tick {c c' : Controller} {k : ClockFace} (h : Step m c .tick c') :
    FaceStep m (c, k) .tick (c', k.timerElapsed)

/-- The label shows a time that is at most half a hundredth of a second off. -/
def ClockFace.Shows (k : ClockFace) (n : ℤ) (h : ℕ) : Prop :=
  k.secondLabel = secondsText h ∧ |10 * (h : ℤ) - n| ≤ 5

theorem formatTwoDecimals_of_nonneg {x : ℚ} (hx : 0 ≤ x) :
    formatTwoDecimals x = secondsText (roundEven (100 * x)).toNat := by
  simp [formatTwoDecimals, hx.not_gt, abs_of_nonneg hx]

/-- The quotient is off by far less than the last decimal. -/
theorem abs_seconds_sub_le {n : ℤ} (h0 : 0 ≤ n) (hn : n < 64000) :
    |float32.round (n / 1000) - n / 1000| ≤ 1 / 500000 := by
  have h0' : (0 : ℚ) ≤ n := by exact_mod_cast h0
  have hn' : (n : ℚ) < 64000 := by exact_mod_cast hn
  have hlt : |(n : ℚ) / 1000| < 2 ^ ((-18 : ℤ) + float32.precision) := by
    rw [abs_of_nonneg (by positivity)]
    norm_num [float32]
    linarith
  calc
    _ ≤ (2 : ℚ) ^ (-18 : ℤ) / 2 := Format.abs_round_sub_le (by decide) hlt
    _ ≤ 1 / 500000 := by norm_num

theorem exists_shown {n : ℤ} (h0 : 0 ≤ n) (hn : n < 64000) :
    ∃ h : ℕ, formatTwoDecimals (float32.round (n / 1000)) = secondsText h ∧
      |10 * (h : ℤ) - n| ≤ 5 := by
  have h0' : (0 : ℚ) ≤ n := by exact_mod_cast h0
  have hquotient : 0 ≤ float32.round (n / 1000) := Format.round_nonneg (by positivity)
  have herror := abs_seconds_sub_le h0 hn
  refine ⟨_, formatTwoDecimals_of_nonneg hquotient, ?_⟩
  generalize float32.round (n / 1000) = x at hquotient herror
  rw [Int.toNat_of_nonneg (roundEven_nonneg (by positivity))]
  have hround := abs_roundEven_sub_le (100 * x)
  rw [abs_le] at herror hround
  -- The two errors together stay below six milliseconds, and the sum is an integer.
  have hupper : 10 * (roundEven (100 * x) : ℚ) - n < 6 := by linarith
  have hlower : (-6 : ℚ) < 10 * (roundEven (100 * x) : ℚ) - n := by linarith
  have hupper' : 10 * roundEven (100 * x) - n < 6 := by exact_mod_cast hupper
  have hlower' : -6 < 10 * roundEven (100 * x) - n := by exact_mod_cast hlower
  rw [abs_le]
  omega

section Run

variable {mode : GameMode} {tape rest : List ℕ} {c₀ c c' : Controller} {k k' k₀ : ClockFace}
  {es fs : List (Event ℕ)} {e : Event ℕ}

theorem FaceStep.game (h : FaceStep mode.settings (c, k) e (c', k')) :
    Step mode.settings c e c' := by
  cases h with
  | tap h => exact h
  | tick h => exact h

theorem face_run_game {s t : Controller × ClockFace}
    (h : Run (FaceStep mode.settings) s es t) : Run (Step mode.settings) s.1 es t.1 := by
  induction h with
  | nil => exact Run.nil _
  | snoc _ hs ih => exact Run.snoc ih hs.game

theorem GameMode.milliseconds_lt (mode : GameMode) : mode.settings.milliseconds < 64000 := by
  cases mode <;> decide

theorem clock_bounds (hload : viewDidLoad mode.settings tape = .ok (c₀, rest))
    (hrun : Run (Step mode.settings) c₀ es c) : 0 ≤ c.milliseconds ∧ c.milliseconds < 64000 := by
  have hnonneg := (run_phase hload hrun).milliseconds_nonneg
  have htime := run_milliseconds hload hrun
  have hlt := mode.milliseconds_lt
  omega

theorem step_tick_milliseconds (h : Step mode.settings c .tick c') :
    c'.milliseconds = c.milliseconds - 1 := by
  cases h with
  | tick hvalid => exact timerElapsed_milliseconds mode.settings c

/-- What the label shows at a tick, given that the clock was exact before it. -/
theorem timerElapsed_exact (hk : k.milliseconds = c.milliseconds) (h0 : 0 ≤ c.milliseconds - 1)
    (hlt : c.milliseconds - 1 < 64000) :
    k.timerElapsed.milliseconds = ((c.milliseconds - 1 : ℤ) : ℚ) := by
  have hcast : k.milliseconds - 1 = ((c.milliseconds - 1 : ℤ) : ℚ) := by
    rw [hk]
    push_cast
    rfl
  have habs : |c.milliseconds - 1| < 2 ^ float32.precision := by
    rw [abs_of_nonneg h0]
    norm_num [float32]
    omega
  change float32.round (k.milliseconds - 1) = _
  rw [hcast, Format.round_intCast (by decide) habs]

/-- The clock and the label after some events. -/
structure FaceInv (es : List (Event ℕ)) (s : Controller × ClockFace) : Prop where
  exact : s.2.milliseconds = s.1.milliseconds
  red : s.2.isRed = true ↔ s.1.milliseconds = 0
  untouched : ticks es = 0 → s.2.secondLabel = "0.00"
  shows : 0 < ticks es → ∃ h, s.2.Shows s.1.milliseconds h

theorem FaceInv.tap (h : FaceInv es (c, k)) (htime : c'.milliseconds = c.milliseconds) (row : ℕ) :
    FaceInv (es ++ [.tap row]) (c', k) := by
  have hticks : ticks (es ++ [.tap row]) = ticks es := by simp [ticks_append, ticks]
  constructor
  · rw [htime]
    exact h.exact
  · rw [htime]
    exact h.red
  · rw [hticks]
    exact h.untouched
  · rw [hticks, htime]
    exact h.shows

theorem FaceInv.tick (h : FaceInv es (c, k)) (htime : c'.milliseconds = c.milliseconds - 1)
    (h0 : 0 ≤ c'.milliseconds) (hlt : c'.milliseconds < 64000) :
    FaceInv (es ++ [.tick]) (c', k.timerElapsed) := by
  have hexact : k.timerElapsed.milliseconds = (c'.milliseconds : ℚ) := by
    rw [htime] at h0 hlt ⊢
    exact timerElapsed_exact h.exact h0 hlt
  have hred : k.timerElapsed.isRed = if k.timerElapsed.milliseconds ≤ 0 then true else k.isRed :=
    rfl
  constructor
  · exact hexact
  · change k.timerElapsed.isRed = true ↔ c'.milliseconds = 0
    rw [hred, hexact]
    by_cases hzero : c'.milliseconds = 0
    · simp [hzero]
    · have hpos : ¬ (c'.milliseconds : ℚ) ≤ 0 := by
        have : ¬ c'.milliseconds ≤ 0 := by omega
        exact_mod_cast this
      -- Before the tick there was time left, so the label was not red yet.
      have hbefore : ¬ k.isRed = true := by
        rw [h.red]
        change ¬ c.milliseconds = 0
        omega
      simp [hzero, hpos, hbefore]
  · simp [ticks_append, ticks]
  · intro _
    obtain ⟨n, htext, hnear⟩ := exists_shown h0 hlt
    rw [← hexact] at htext
    exact ⟨n, htext, hnear⟩

theorem step_tap_milliseconds {m : ModeSettings} {row : ℕ} {name : ℕ → String}
    {g : State ℕ String} (href : Refines name c g) (h : Step m c (.tap row) c') :
    c'.milliseconds = c.milliseconds := by
  have hstep := refines_step href h
  rw [hstep.time, href.time]
  exact tap_time name g row

theorem face_run (hload : viewDidLoad mode.settings tape = .ok (c₀, rest))
    (hrun : Run (FaceStep mode.settings) (c₀, .loaded mode.settings) es (c, k)) :
    FaceInv es (c, k) := by
  refine Run.induction (I := FaceInv) ?_ ?_ hrun
  · have htime : c₀.milliseconds = mode.settings.milliseconds := by
      simpa [ticks] using run_milliseconds hload (Run.nil c₀)
    have hlt := mode.milliseconds_lt
    have hpos := mode.milliseconds_pos
    refine ⟨?_, ?_, fun _ => rfl, fun h => absurd h (by simp [ticks])⟩
    · have habs : |mode.settings.milliseconds| < 2 ^ float32.precision := by
        rw [abs_of_pos hpos]
        norm_num [float32]
        omega
      change float32.round mode.settings.milliseconds = _
      rw [htime, Format.round_intCast (by decide) habs]
    · change false = true ↔ c₀.milliseconds = 0
      rw [htime]
      simp [hpos.ne']
  · rintro es ⟨d, l⟩ e ⟨d', l'⟩ hr ih hs
    have hgame := face_run_game hr
    cases hs with
    | @tap _ _ _ row h =>
      exact ih.tap (step_tap_milliseconds (refines_run (refines_initial hload) hgame) h) row
    | tick h =>
      obtain ⟨h0, hlt⟩ := clock_bounds hload (Run.snoc hgame h)
      exact ih.tick (step_tick_milliseconds h) h0 hlt

/-- A time shown later is not above one shown before. -/
theorem ClockFace.Shows.le {n n' : ℤ} {h h' : ℕ} (hshow : k.Shows n h) (hshow' : k'.Shows n' h')
    (hlt : n' < n) : h' ≤ h := by
  have hnear := abs_le.mp hshow.2
  have hnear' := abs_le.mp hshow'.2
  omega

theorem face_run_of_no_tick {s t : Controller × ClockFace}
    (h : Run (FaceStep mode.settings) s es t) (hticks : ticks es = 0) : t.2 = s.2 := by
  induction h with
  | nil => rfl
  | snoc _ hs ih =>
    rw [ticks_append] at hticks
    cases hs with
    | tap _ => exact ih (by omega)
    | tick _ => simp [ticks] at hticks

/-- In every run of a game the `Float` clock is exact: no tick is lost to rounding. The
label is `0.00` until the first tick, is then within half a hundredth of a second of the
clock, never counts up, and is red exactly when the time is spent. -/
theorem second_label_follows_clock (mode : GameMode) {tape rest : List ℕ} {c₀ c : Controller}
    {k : ClockFace} {es : List (Event ℕ)}
    (hload : viewDidLoad mode.settings tape = .ok (c₀, rest))
    (hrun : Run (FaceStep mode.settings) (c₀, .loaded mode.settings) es (c, k)) :
    k.milliseconds = c.milliseconds ∧ (k.isRed = true ↔ c.milliseconds = 0) ∧
    (ticks es = 0 → k.secondLabel = "0.00") ∧
    (0 < ticks es → ∃ h, k.Shows c.milliseconds h ∧
      ∀ fs c' k', Run (FaceStep mode.settings) (c, k) fs (c', k') →
        ∃ h', k'.Shows c'.milliseconds h' ∧ h' ≤ h) := by
  have hinv := face_run hload hrun
  refine ⟨hinv.exact, hinv.red, hinv.untouched, ?_⟩
  intro hticks
  obtain ⟨h, hshow⟩ := hinv.shows hticks
  refine ⟨h, hshow, ?_⟩
  intro fs c' k' hlater
  have hall := hrun.trans hlater
  have htime := run_milliseconds hload (face_run_game hrun)
  have htime' := run_milliseconds hload (face_run_game hall)
  simp only [ticks_append, Nat.cast_add] at htime htime'
  by_cases hnone : ticks fs = 0
  · have hsame : k' = k := face_run_of_no_tick hlater hnone
    have heq : c'.milliseconds = c.milliseconds := by omega
    exact ⟨h, by rw [hsame, heq]; exact hshow, le_rfl⟩
  · obtain ⟨h', hshow'⟩ := (face_run hload hall).shows (by rw [ticks_append]; omega)
    have hlt : c'.milliseconds < c.milliseconds := by omega
    exact ⟨h', hshow', hshow.le hshow' hlt⟩

/-- The first tick of an easy game. -/
theorem second_label_after_one_tick :
    ∃ c k, Run (FaceStep GameMode.easy.settings)
        (orderedDeal .easy, .loaded GameMode.easy.settings) [.tick] (c, k) ∧
      k.milliseconds = c.milliseconds ∧ ∃ h, k.Shows c.milliseconds h := by
  have hrun : ∃ c k, Run (FaceStep GameMode.easy.settings)
      (orderedDeal .easy, .loaded GameMode.easy.settings) [.tick] (c, k) :=
    ⟨_, _, Run.one (.tick (.tick rfl))⟩
  obtain ⟨c, k, hrun⟩ := hrun
  obtain ⟨hexact, -, -, hshow⟩ := second_label_follows_clock .easy (orderedDeal_load .easy) hrun
  obtain ⟨h, hshow, -⟩ := hshow (by decide)
  exact ⟨c, k, hrun, hexact, h, hshow⟩

end Run

end CardPang.GameController
