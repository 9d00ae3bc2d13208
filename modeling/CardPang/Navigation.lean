import CardPang.GameClock

/-!
# Moving between the home screen and the games

The home screen pushes a new game controller for each selection, and `moveBack`
pops the topmost one. A popped controller is still the target of its timer, so
every game that was ever created stays in the state of the app.
-/
namespace CardPang.Navigation
open CardModel GameController LabelledRun MemoryGame

structure Game where
  mode : GameMode
  controller : Controller

/-- All games created so far, and the positions of those above the home screen,
topmost first. -/
structure App where
  games : List Game
  viewControllers : List ℕ

def App.launched : App := ⟨[], []⟩

def pushViewController (w : App) (mode : GameMode) (c : Controller) : App :=
  ⟨w.games ++ [⟨mode, c⟩], w.games.length :: w.viewControllers⟩

def popViewController (w : App) : App := { w with viewControllers := w.viewControllers.tail }

/-- A new controller of the mode is pushed and loads its view. -/
def showGame (mode : GameMode) (tape : List ℕ) (w : App) : Except Halt App := do
  let (c, _) ← viewDidLoad mode.settings tape
  return pushViewController w mode c

/-- `HomeController.collectionView(didSelectItemAt:)`. -/
def didSelectItemAt (row : ℕ) (tape : List ℕ) (w : App) : Except Halt App :=
  match row with
  | 0 => showGame .easy tape w
  | 1 => showGame .normal tape w
  | 2 => showGame .hard tape w
  | _ => .ok w

def moveBack (w : App) : App := popViewController w

def App.setController (w : App) (id : ℕ) (g : Game) (c : Controller) : App :=
  { w with games := w.games.set id { g with controller := c } }

inductive AppEvent
  | select (row : ℕ)
  | tap (row : ℕ)
  | moveBack
  | fire (id : ℕ)
  deriving DecidableEq, Repr

inductive AppStep : App → AppEvent → App → Prop
  | select {w w' : App} {row : ℕ} {tape : List ℕ} (h : didSelectItemAt row tape w = .ok w') :
      AppStep w (.select row) w'
  | tap {w : App} {row id : ℕ} {g : Game} {c' : Controller}
      (htop : w.viewControllers.head? = some id) (hg : w.games[id]? = some g)
      (hs : Step g.mode.settings g.controller (.tap row) c') :
      AppStep w (.tap row) (w.setController id g c')
  | moveBack {w : App} (htop : w.viewControllers ≠ []) : AppStep w .moveBack (moveBack w)
  | fire {w : App} {id : ℕ} {g : Game} (hg : w.games[id]? = some g)
      (hvalid : g.controller.timerValid) :
      AppStep w (.fire id) (w.setController id g (timerElapsed g.mode.settings g.controller))

/-- The clock of a game and its calls of `showAlert` are the same in both states. -/
def Untouched (id : ℕ) (w w' : App) : Prop :=
  ∃ g g', w.games[id]? = some g ∧ w'.games[id]? = some g' ∧
    g'.controller.milliseconds = g.controller.milliseconds ∧
    g'.controller.alerts = g.controller.alerts

/-- The game was dealt by its mode and has been played by steps of its own. -/
def Played (g : Game) : Prop :=
  ∃ tape rest c₀ es, viewDidLoad g.mode.settings tape = .ok (c₀, rest) ∧
    Run (Step g.mode.settings) c₀ es g.controller

structure Orderly (w : App) : Prop where
  nodup : w.viewControllers.Nodup
  lt : ∀ id ∈ w.viewControllers, id < w.games.length
  played : ∀ g ∈ w.games, Played g

section Step

variable {w w' : App} {e : AppEvent} {id : ℕ} {g : Game}

theorem Played.phase (h : Played g) : Phase g.mode.settings g.controller := by
  obtain ⟨tape, rest, c₀, es, hload, hrun⟩ := h
  exact run_phase hload hrun

theorem Played.step (h : Played g) {f : Event ℕ} {c' : Controller}
    (hs : Step g.mode.settings g.controller f c') : Played { g with controller := c' } := by
  obtain ⟨tape, rest, c₀, es, hload, hrun⟩ := h
  exact ⟨tape, rest, c₀, es ++ [f], hload, Run.snoc hrun hs⟩

theorem showGame_eq_ok {mode : GameMode} {tape : List ℕ} (h : showGame mode tape w = .ok w') :
    ∃ c rest, viewDidLoad mode.settings tape = .ok (c, rest) ∧
      w' = pushViewController w mode c := by
  obtain ⟨⟨c, rest⟩, hload, hok⟩ := bind_eq_ok.mp h
  exact ⟨c, rest, hload, (Except.ok.inj hok).symm⟩

/-- Everything one step can do: nothing, create a game on top, let one game make a
step of its own, or leave the topmost game. -/
theorem step_cases (h : AppStep w e w') :
    w' = w ∨
    (∃ mode tape c rest, viewDidLoad mode.settings tape = .ok (c, rest) ∧
      w' = pushViewController w mode c) ∨
    (∃ id g f c', w.games[id]? = some g ∧ Step g.mode.settings g.controller f c' ∧
      (w.viewControllers.head? = some id ∨ g.controller.timerValid) ∧
      w' = w.setController id g c') ∨
    (e = .moveBack ∧ w' = moveBack w) := by
  cases h with
  | @select _ row tape h =>
    have hpush : ∀ {mode}, showGame mode tape w = .ok w' →
        ∃ mode tape c rest, viewDidLoad (GameMode.settings mode) tape = .ok (c, rest) ∧
          w' = pushViewController w mode c := by
      intro mode h
      obtain ⟨c, rest, hload, hw⟩ := showGame_eq_ok h
      exact ⟨mode, tape, c, rest, hload, hw⟩
    match row, h with
    | 0, h => exact Or.inr (Or.inl (hpush h))
    | 1, h => exact Or.inr (Or.inl (hpush h))
    | 2, h => exact Or.inr (Or.inl (hpush h))
    | _ + 3, h => exact Or.inl (Except.ok.inj h).symm
  | @tap row id g c' htop hg hs =>
    exact Or.inr (Or.inr (Or.inl ⟨id, g, .tap row, c', hg, hs, Or.inl htop, rfl⟩))
  | moveBack _ => exact Or.inr (Or.inr (Or.inr ⟨rfl, rfl⟩))
  | @fire id g hg hvalid =>
    exact Or.inr (Or.inr (Or.inl ⟨id, g, .tick, _, hg, Step.tick hvalid, Or.inr hvalid, rfl⟩))

theorem orderly_launched : Orderly App.launched :=
  ⟨List.nodup_nil, by simp [App.launched], by simp [App.launched]⟩

theorem Orderly.step (h : Orderly w) (hs : AppStep w e w') : Orderly w' := by
  rcases step_cases hs with rfl | ⟨mode, tape, c, rest, hload, rfl⟩ |
    ⟨id, g, f, c', hg, hgame, -, rfl⟩ | ⟨-, rfl⟩
  · exact h
  · refine ⟨List.nodup_cons.mpr ⟨fun hmem => absurd (h.lt _ hmem) (by simp), h.nodup⟩, ?_, ?_⟩
    · intro id hid
      rw [pushViewController, List.length_append, List.length_singleton]
      rcases List.mem_cons.mp hid with rfl | hid
      · exact Nat.lt_succ_self _
      · exact Nat.lt_succ_of_lt (h.lt id hid)
    · intro g hg
      rcases List.mem_append.mp hg with hg | hg
      · exact h.played g hg
      · obtain rfl := List.mem_singleton.mp hg
        exact ⟨tape, rest, c, [], hload, Run.nil c⟩
  · refine ⟨h.nodup, ?_, ?_⟩
    · intro id' hid
      rw [App.setController, List.length_set]
      exact h.lt id' hid
    · intro g' hg'
      rcases List.mem_or_eq_of_mem_set hg' with hg' | rfl
      · exact h.played g' hg'
      · exact (h.played g (List.mem_of_getElem? hg)).step hgame
  · exact ⟨h.nodup.tail, fun id hid => h.lt id (List.mem_of_mem_tail hid), h.played⟩

theorem orderly_run {es : List AppEvent} (hrun : Run AppStep App.launched es w) : Orderly w :=
  Run.invariant orderly_launched (fun _ _ _ ht hs => ht.step hs) hrun

/-- A game off the stack whose timer is stopped is never seen again. -/
def Abandoned (id : ℕ) (g : Game) (w : App) : Prop :=
  w.games[id]? = some g ∧ id ∉ w.viewControllers ∧ ¬ g.controller.timerValid

theorem Abandoned.step (h : Abandoned id g w) (hs : AppStep w e w') : Abandoned id g w' := by
  obtain ⟨hg, hoff, hstop⟩ := h
  have hid : id < w.games.length := (List.getElem?_eq_some_iff.mp hg).1
  rcases step_cases hs with rfl | ⟨mode, tape, c, rest, -, rfl⟩ |
    ⟨id', g', f, c', hg', -, hwho, rfl⟩ | ⟨-, rfl⟩
  · exact ⟨hg, hoff, hstop⟩
  · refine ⟨(List.getElem?_append_left hid).trans hg, ?_, hstop⟩
    exact List.not_mem_cons_of_ne_of_not_mem hid.ne hoff
  · -- The game that moved is on top or has a running timer, so it is another one.
    have hne : id' ≠ id := by
      intro heq
      subst heq
      obtain rfl := Option.some.inj (hg.symm.trans hg')
      rcases hwho with htop | hvalid
      · exact hoff (List.mem_of_mem_head? htop)
      · exact hstop hvalid
    exact ⟨(List.getElem?_set_ne hne).trans hg, hoff, hstop⟩
  · exact ⟨hg, fun hmem => hoff (List.mem_of_mem_tail hmem), hstop⟩

theorem abandoned_moveBack (h : Orderly w) (htop : w.viewControllers.head? = some id)
    (hg : w.games[id]? = some g) (hstop : ¬ g.controller.timerValid) :
    Abandoned id g (moveBack w) := by
  refine ⟨hg, ?_, hstop⟩
  obtain ⟨rest, hrest⟩ : ∃ rest, w.viewControllers = id :: rest := List.head?_eq_some_iff.mp htop
  have hn := h.nodup
  rw [hrest] at hn
  change id ∉ w.viewControllers.tail
  rw [hrest]
  exact (List.nodup_cons.mp hn).1

/-- A running timer fires until the game is lost, wherever the player is. -/
theorem exists_run_fires (n : ℕ) (hg : w.games[id]? = some g)
    (hp : Phase g.mode.settings g.controller) (hunwon : g.controller.isWon = false)
    (hn : g.controller.milliseconds = n) :
    ∃ w' g', Run AppStep w (List.replicate n (.fire id)) w' ∧ w'.games[id]? = some g' ∧
      g'.controller.milliseconds = 0 ∧ g'.controller.alerts =
        [⟨g.mode.settings.lostTitle, g.mode.settings.lostMessage, 0⟩] := by
  induction n generalizing w g with
  | zero => exact ⟨w, g, Run.nil w, hg, hn, hp.lost_alert hn⟩
  | succ n ih =>
    have hvalid : g.controller.timerValid := hp.timerValid_iff.mpr ⟨by omega, hunwon⟩
    have hid : id < w.games.length := (List.getElem?_eq_some_iff.mp hg).1
    have hget : (w.setController id g (timerElapsed g.mode.settings g.controller)).games[id]? =
        some { g with controller := timerElapsed g.mode.settings g.controller } :=
      List.getElem?_set_self hid
    have htime : (timerElapsed g.mode.settings g.controller).milliseconds = n := by
      rw [timerElapsed_milliseconds, hn]
      simp
    have hsame : (timerElapsed g.mode.settings g.controller).isWon = false := by
      simpa [Controller.isWon] using hunwon
    obtain ⟨w', g', hrun, hrest⟩ := ih hget (tick_outcome hp hvalid).phase_after hsame htime
    exact ⟨w', g', Run.cons (.fire hg hvalid) hrun, hrest⟩

end Step

/-- Wherever the player goes after leaving a game, its clock and its alerts stay as they
are, exactly if its timer was stopped when it was left. A game left while it is being
played counts on and ends with a call of `showAlert` that nobody waits for. -/
theorem left_game_over_iff_stopped {es : List AppEvent} {w w₁ : App} {id : ℕ} {g : Game}
    (hrun : Run AppStep App.launched es w) (htop : w.viewControllers.head? = some id)
    (hg : w.games[id]? = some g) (hback : AppStep w .moveBack w₁) :
    (∀ es₁ w₂, Run AppStep w₁ es₁ w₂ → Untouched id w₁ w₂) ↔ ¬ g.controller.timerValid := by
  have ho := orderly_run hrun
  cases hback with
  | moveBack _ =>
    constructor
    · intro hstays hvalid
      have hp := (ho.played g (List.mem_of_getElem? hg)).phase
      obtain ⟨time, unwon⟩ := hp.timerValid_iff.mp hvalid
      obtain ⟨w₂, g₂, hfires, hg₂, htime, -⟩ := exists_run_fires (w := moveBack w)
        g.controller.milliseconds.toNat hg hp unwon (Int.toNat_of_nonneg time.le).symm
      obtain ⟨g₁, g₂', hg₁, hg₂', hsame, -⟩ := hstays _ w₂ hfires
      obtain rfl := Option.some.inj (hg.symm.trans hg₁)
      obtain rfl := Option.some.inj (hg₂.symm.trans hg₂')
      omega
    · intro hstop es₁ w₂ hlater
      have hleft := abandoned_moveBack ho htop hg hstop
      have hend := Run.invariant hleft (fun _ _ _ ht hs => ht.step hs) hlater
      exact ⟨g, g, hg, hend.1, rfl, rfl⟩

/-- The topmost game is played as if it were alone. -/
theorem taps_run {w : App} {id : ℕ} {g : Game} {c : Controller} (rows : List ℕ)
    (htop : w.viewControllers.head? = some id) (hg : w.games[id]? = some g)
    (hrun : Run (Step g.mode.settings) g.controller (rows.map .tap) c) :
    Run AppStep w (rows.map .tap) (w.setController id g c) := by
  have hid : id < w.games.length := (List.getElem?_eq_some_iff.mp hg).1
  induction rows generalizing w g with
  | nil =>
    obtain rfl := hrun.nil_eq
    have hself : w.setController id g g.controller = w := by
      obtain ⟨_, hget⟩ := List.getElem?_eq_some_iff.mp hg
      rw [App.setController, ← hget, List.set_getElem_self]
    rw [hself]
    exact Run.nil w
  | cons row rows ih =>
    obtain ⟨d, hd, hrest⟩ := hrun.uncons
    have hstep : AppStep w (.tap row) (w.setController id g d) := .tap htop hg hd
    have hlater := ih (w := w.setController id g d) (g := { g with controller := d }) htop
      (List.getElem?_set_self hid) hrest (by simpa [App.setController] using hid)
    have hset : (w.setController id g d).setController id { g with controller := d } c =
        w.setController id g c := by simp [App.setController]
    rw [hset] at hlater
    exact Run.cons hstep hlater

theorem select_easy (w : App) : didSelectItemAt 0 (orderedTape GameMode.easy.pairs) w =
    .ok (pushViewController w .easy (orderedDeal .easy)) := rfl

theorem select_normal (w : App) : didSelectItemAt 1 (orderedTape GameMode.normal.pairs) w =
    .ok (pushViewController w .normal (orderedDeal .normal)) := rfl

/-- An easy game is won and left, and a normal one is opened and ticks once. -/
theorem left_game_over_after_win :
    ∃ w₁ w₂, Run AppStep App.launched (.select 0 :: (List.range 12).map .tap) w₁ ∧
      Run AppStep (moveBack w₁) [.select 1, .fire 1] w₂ ∧ Untouched 0 (moveBack w₁) w₂ := by
  have hwin : ∃ c, ((List.range 12).map .tap).foldlM (playEvent GameMode.easy.settings)
      (orderedDeal .easy) = some c ∧ c.timer = some ⟨false⟩ := ⟨_, rfl, rfl⟩
  obtain ⟨c, hwin, htimer⟩ := hwin
  have hplay := Run.cons (.select (select_easy App.launched))
    (taps_run (g := ⟨.easy, orderedDeal .easy⟩) _ rfl rfl (playEvents_run hwin))
  generalize hw : App.setController _ _ _ c = w at hplay
  have hgame : w.games[0]? = some ⟨.easy, c⟩ := by rw [← hw]; rfl
  have htop : w.viewControllers.head? = some 0 := by rw [← hw]; rfl
  have hback : AppStep w .moveBack (moveBack w) := by
    refine .moveBack fun hempty => ?_
    rw [hempty] at htop
    cases htop
  have hfire : ∃ w₂, AppStep (pushViewController (moveBack w) .normal (orderedDeal .normal))
      (.fire 1) w₂ := by
    refine ⟨_, .fire (g := ⟨.normal, orderedDeal .normal⟩) ?_ rfl⟩
    rw [← hw]
    rfl
  obtain ⟨w₂, hfire⟩ := hfire
  have hlater := Run.cons (.select (select_normal (moveBack w))) (Run.one hfire)
  refine ⟨w, w₂, hplay, hlater, ?_⟩
  exact (left_game_over_iff_stopped hplay htop hgame hback).mpr
    (by simp [Controller.timerValid, htimer]) _ w₂ hlater

/-- The player opens an easy game and leaves it at once. -/
theorem left_game_counts_on :
    ∃ w₁ w₂, Run AppStep App.launched [.select 0, .moveBack] w₁ ∧ AppStep w₁ (.fire 0) w₂ ∧
      w₁.viewControllers = [] ∧ ¬ Untouched 0 w₁ w₂ := by
  refine ⟨moveBack (pushViewController App.launched .easy (orderedDeal .easy)), _,
    Run.cons (.select (select_easy _)) (Run.one (.moveBack (by simp [pushViewController]))),
    .fire rfl rfl, rfl, ?_⟩
  rintro ⟨g, g', hg, hg', htime, -⟩
  obtain rfl := Option.some.inj hg
  obtain rfl := Option.some.inj hg'
  rw [timerElapsed_milliseconds] at htime
  omega

end CardPang.Navigation
