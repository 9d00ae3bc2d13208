import CardPang.GameBoard
import CardPang.Navigation

/-!
# What a game depends on

A game is decided by its deal and by its own taps and ticks. Neither what is on
the screen when a row is tapped nor anything that happens to other games, on the
home screen or on the way between them has a part in it.
-/
namespace CardPang.GameController
open CardModel LabelledRun MemoryGame

/-- What a tap leaves of the game, said without the screen. -/
def tapGame (m : ModeSettings) (row : ℕ) (c : Controller) : Controller :=
  let r := c.cardArray.getD row ⟨0⟩
  if c.milliseconds ≤ 0 ∨ (c.cardAt row).isFlipped = true ∨ (c.cardAt row).isMatched = true then c
  else match c.firstFlippedCardIndex with
    | none => c.opened row r
    | some p =>
      if (c.cardAt p).imageName = (c.cardAt row).imageName then
        { checkGameEnded m (c.paired (c.cardArray.getD p ⟨0⟩) r) with
          firstFlippedCardIndex := none }
      else c.mismatched (c.cardArray.getD p ⟨0⟩) r

section Step

variable {m : ModeSettings} {name : ℕ → String} {g : State ℕ String} {c c' c₁ c₂ : Controller}
  {e : Event ℕ} {row : ℕ} {v v' : CollectionView}

theorem getD_of_ref {i : ℕ} {r : CardRef} (h : c.cardArray[i]? = some r) :
    c.cardArray.getD i ⟨0⟩ = r := by
  rw [List.getD_eq_getElem?_getD, h, Option.getD_some]

theorem TapEffect.game_eq (h : TapEffect m row c v c' v') : c' = tapGame m row c := by
  cases h with
  | ignored why => rw [tapGame, if_pos why]
  | opens time hcell href unflipped unmatched first =>
    have hopen : ¬ (c.milliseconds ≤ 0 ∨ (c.cardAt row).isFlipped = true ∨
        (c.cardAt row).isMatched = true) := by
      simp [unflipped, unmatched, time]
    simp only [tapGame, if_neg hopen, first, getD_of_ref href]
  | closes time hcell href unflipped unmatched first hfirst names =>
    have hopen : ¬ (c.milliseconds ≤ 0 ∨ (c.cardAt row).isFlipped = true ∨
        (c.cardAt row).isMatched = true) := by
      simp [unflipped, unmatched, time]
    simp only [tapGame, if_neg hopen, first, getD_of_ref href, getD_of_ref hfirst, if_neg names]
  | pairs time hcell href unflipped unmatched first hfirst names =>
    have hopen : ¬ (c.milliseconds ≤ 0 ∨ (c.cardAt row).isFlipped = true ∨
        (c.cardAt row).isMatched = true) := by
      simp [unflipped, unmatched, time]
    simp only [tapGame, if_neg hopen, first, getD_of_ref href, getD_of_ref hfirst, if_pos names]

/-- Every event has one outcome. -/
theorem step_unique (h : Refines name c g) (h₁ : Step m c e c₁) (h₂ : Step m c e c₂) :
    c₁ = c₂ := by
  cases e with
  | tap row =>
    rcases h.step_cases h₁ with ⟨i, v, v', hi, -, he⟩ | ⟨habs, -⟩
    · rcases h.step_cases h₂ with ⟨j, u, u', hj, -, hf⟩ | ⟨habs, -⟩
      · cases hi
        cases hj
        rw [he.game_eq, hf.game_eq]
      · cases habs
    · cases habs
  | tick =>
    cases h₁ with
    | tick _ =>
      cases h₂ with
      | tick _ => rfl

/-- The deal and the events decide where a game stands. -/
theorem run_unique (h : Refines name c g) {es : List (Event ℕ)} (h₁ : Run (Step m) c es c₁)
    (h₂ : Run (Step m) c es c₂) : c₁ = c₂ := by
  refine Run.unique (I := fun d => ∃ g, Refines name d g) ⟨g, h⟩ ?_ ?_ h₁ h₂
  · rintro t e u ⟨g, hg⟩ hs
    exact ⟨_, refines_step hg hs⟩
  · rintro t e u u' ⟨g, hg⟩ hs hs'
    exact step_unique hg hs hs'

end Step

section Board

variable {m : ModeSettings} {b b' : Board} {e : BoardEvent} {es es' : List BoardEvent}

/-- The event as the game sees it; scrolling and delayed blocks are none of its events. -/
def gameEvent : BoardEvent → Option (Event ℕ)
  | .tap row => some (.tap row)
  | .tick => some .tick
  | .endDisplay _ => none
  | .display _ _ => none
  | .fire _ => none

def gameEvents (es : List BoardEvent) : List (Event ℕ) := es.filterMap gameEvent

theorem BoardStep.game (h : BoardStep m b e b') :
    Run (Step m) b.game (gameEvents [e]) b'.game := by
  cases h with
  | tap hrow hcell hsel => exact Run.one (Step.tap hrow hcell hsel)
  | tick hvalid => exact Run.one (Step.tick hvalid)
  | endDisplay _ => exact Run.nil _
  | display _ _ _ _ => exact Run.nil _
  | fire _ => exact Run.nil _

theorem board_run_game (h : Run (BoardStep m) b es b') :
    Run (Step m) b.game (gameEvents es) b'.game := by
  refine Run.induction (I := fun es d => Run (Step m) b.game (gameEvents es) d.game)
    (Run.nil _) ?_ h
  intro es t e u _ ih hs
  rw [gameEvents, List.filterMap_append]
  exact ih.trans hs.game

/-- The cards, the open index, the clock and the alerts of a game are those of the same
taps and ticks played without a screen: which rows are shown at a tap, how cells are
recycled and when delayed blocks fire never changes them. -/
theorem game_ignores_screen (mode : GameMode) {tape rest : List ℕ} {c₀ : Controller}
    (hload : viewDidLoad mode.settings tape = .ok (c₀, rest))
    (hrun : Run (BoardStep mode.settings) (Board.initial c₀) es b)
    (hrun' : Run (BoardStep mode.settings) (Board.initial c₀) es' b')
    (hsame : gameEvents es = gameEvents es') :
    Run (Step mode.settings) c₀ (gameEvents es) b.game ∧ b.game = b'.game := by
  have hgame : Run (Step mode.settings) c₀ (gameEvents es) b.game := board_run_game hrun
  have hgame' : Run (Step mode.settings) c₀ (gameEvents es') b'.game := board_run_game hrun'
  rw [← hsame] at hgame'
  exact ⟨hgame, run_unique (refines_initial hload) hgame hgame'⟩

/-- Row 0 is tapped in a cell that is then given to row 1, and in a cell of its own. -/
theorem game_ignores_recycling :
    ∃ b b', Run (BoardStep GameMode.easy.settings) (Board.initial (orderedDeal .easy))
        [.display 0 ⟨0⟩, .tap 0, .endDisplay 0, .display 1 ⟨0⟩, .tap 1, .tick] b ∧
      Run (BoardStep GameMode.easy.settings) (Board.initial (orderedDeal .easy))
        [.display 0 ⟨7⟩, .display 1 ⟨8⟩, .tap 0, .tap 1, .tick] b' ∧ b.game = b'.game := by
  have hrun : ∃ b, Run (BoardStep GameMode.easy.settings) (Board.initial (orderedDeal .easy))
      [.display 0 ⟨0⟩, .tap 0, .endDisplay 0, .display 1 ⟨0⟩, .tap 1, .tick] b :=
    ⟨_, Run.cons (.display (by decide) rfl (by simp) rfl)
      (Run.cons (.tap (by decide) (by simp) rfl)
      (Run.cons (.endDisplay 0)
      (Run.cons (.display (by decide) rfl (by simp [CollectionView.endDisplay]) rfl)
      (Run.cons (.tap (by decide) (by simp) rfl) (Run.one (.tick rfl))))))⟩
  have hrun' : ∃ b', Run (BoardStep GameMode.easy.settings) (Board.initial (orderedDeal .easy))
      [.display 0 ⟨7⟩, .display 1 ⟨8⟩, .tap 0, .tap 1, .tick] b' :=
    ⟨_, Run.cons (.display (by decide) rfl (by simp) rfl)
      (Run.cons (.display (by decide) rfl (by
        intro r
        by_cases hr : r = 0
        · simp [hr]
        · simp [hr]) rfl)
      (Run.cons (.tap (by decide) (by simp) rfl)
      (Run.cons (.tap (by decide) (by simp) rfl) (Run.one (.tick rfl)))))⟩
  obtain ⟨b, hrun⟩ := hrun
  obtain ⟨b', hrun'⟩ := hrun'
  exact ⟨b, b', hrun, hrun', (game_ignores_screen .easy (orderedDeal_load .easy) hrun hrun' rfl).2⟩

end Board

end CardPang.GameController

namespace CardPang.Navigation
open CardModel GameController LabelledRun MemoryGame

/-- The stack of games as the events alone give it, with the events of one game. -/
structure Routing where
  games : ℕ
  viewControllers : List ℕ
  own : List (Event ℕ)
  deriving DecidableEq, Repr

/-- A tap belongs to the topmost game, a firing to the game whose timer fires. -/
def routeEvent (id : ℕ) (r : Routing) : AppEvent → Routing
  | .select row =>
    if row < 3 then
      { r with games := r.games + 1, viewControllers := r.games :: r.viewControllers }
    else r
  | .tap row =>
    if r.viewControllers.head? = some id then { r with own := r.own ++ [.tap row] } else r
  | .moveBack => { r with viewControllers := r.viewControllers.tail }
  | .fire k => if k = id then { r with own := r.own ++ [.tick] } else r

def route (id : ℕ) (es : List AppEvent) : Routing := es.foldl (routeEvent id) ⟨0, [], []⟩

/-- The taps and ticks of one game among everything that happens in the app. -/
def ownEvents (id : ℕ) (es : List AppEvent) : List (Event ℕ) := (route id es).own

section Routing

variable {w w' : App} {e : AppEvent} {es : List AppEvent} {id : ℕ} {g : Game}

theorem route_concat (id : ℕ) (es : List AppEvent) (e : AppEvent) :
    route id (es ++ [e]) = routeEvent id (route id es) e := by
  simp [route]

theorem ticks_ownEvents (id : ℕ) (es : List AppEvent) :
    ticks (ownEvents id es) = es.count (.fire id) := by
  induction es using List.reverseRecOn with
  | nil => rfl
  | append_singleton es e ih =>
    unfold ownEvents at ih ⊢
    rw [route_concat, List.count_append]
    cases e with
    | select row =>
      unfold routeEvent
      dsimp only
      split_ifs <;> simpa using ih
    | tap row =>
      unfold routeEvent
      dsimp only
      split_ifs
      · rw [ticks_append, ih]
        simp [ticks]
      · simpa using ih
    | moveBack => simpa [routeEvent] using ih
    | fire k =>
      unfold routeEvent
      dsimp only
      split_ifs with hk
      · rw [ticks_append, ih, hk]
        simp [ticks]
      · simp [ih, hk]

/-- What the events alone tell about the app: its stack, and of one game the deal and
the events that brought it where it stands. -/
structure Routed (id : ℕ) (r : Routing) (w : App) : Prop where
  games : r.games = w.games.length
  stack : r.viewControllers = w.viewControllers
  unborn : w.games.length ≤ id → r.own = []
  played : ∀ g, w.games[id]? = some g → ∃ tape rest c₀,
    viewDidLoad g.mode.settings tape = .ok (c₀, rest) ∧ Run (Step g.mode.settings) c₀ r.own g.controller

theorem select_cases {row : ℕ} {tape : List ℕ} (h : didSelectItemAt row tape w = .ok w') :
    (row < 3 ∧ ∃ mode c rest, viewDidLoad (GameMode.settings mode) tape = .ok (c, rest) ∧
      w' = pushViewController w mode c) ∨ (¬ row < 3 ∧ w' = w) := by
  match row, h with
  | 0, h =>
    obtain ⟨c, rest, hload, hw⟩ := showGame_eq_ok h
    exact Or.inl ⟨by omega, .easy, c, rest, hload, hw⟩
  | 1, h =>
    obtain ⟨c, rest, hload, hw⟩ := showGame_eq_ok h
    exact Or.inl ⟨by omega, .normal, c, rest, hload, hw⟩
  | 2, h =>
    obtain ⟨c, rest, hload, hw⟩ := showGame_eq_ok h
    exact Or.inl ⟨by omega, .hard, c, rest, hload, hw⟩
  | _ + 3, h => exact Or.inr ⟨by omega, (Except.ok.inj h).symm⟩

theorem Routed.push {r : Routing} (h : Routed id r w) {mode : GameMode} {tape rest : List ℕ}
    {c : Controller} (hload : viewDidLoad mode.settings tape = .ok (c, rest)) :
    Routed id { r with games := r.games + 1, viewControllers := r.games :: r.viewControllers }
      (pushViewController w mode c) := by
  refine ⟨by simp [pushViewController, h.games], by simp [pushViewController, h.games, h.stack],
    ?_, ?_⟩
  · intro hid
    simp only [pushViewController, List.length_append, List.length_singleton] at hid
    exact h.unborn (by omega)
  · intro g hg
    by_cases hlt : id < w.games.length
    · rw [pushViewController, List.getElem?_append_left hlt] at hg
      exact h.played g hg
    · -- The new game has not been touched yet.
      obtain ⟨hid, hget⟩ := List.getElem?_eq_some_iff.mp hg
      simp only [pushViewController, List.length_append, List.length_singleton] at hid
      obtain rfl : id = w.games.length := by omega
      have hown : r.own = [] := h.unborn le_rfl
      obtain rfl : g = ⟨mode, c⟩ := by simpa [pushViewController] using hget.symm
      dsimp only
      rw [hown]
      exact ⟨tape, rest, c, hload, Run.nil c⟩

/-- The game of the routing makes a step of its own. -/
theorem Routed.own {r : Routing} (h : Routed id r w) (hg : w.games[id]? = some g) {f : Event ℕ}
    {c' : Controller} (hs : Step g.mode.settings g.controller f c') :
    Routed id { r with own := r.own ++ [f] } (w.setController id g c') := by
  have hid : id < w.games.length := (List.getElem?_eq_some_iff.mp hg).1
  refine ⟨by simpa [App.setController] using h.games, h.stack, ?_, ?_⟩
  · intro hle
    simp only [App.setController, List.length_set] at hle
    omega
  · intro g' hg'
    rw [App.setController, List.getElem?_set_self hid] at hg'
    obtain rfl := Option.some.inj hg'
    obtain ⟨tape, rest, c₀, hload, hrun⟩ := h.played g hg
    exact ⟨tape, rest, c₀, hload, Run.snoc hrun hs⟩

/-- Another game makes a step. -/
theorem Routed.other {r : Routing} (h : Routed id r w) {k : ℕ} (hk : k ≠ id) (g : Game)
    (c' : Controller) : Routed id r (w.setController k g c') := by
  refine ⟨by simpa [App.setController] using h.games, h.stack, ?_, ?_⟩
  · intro hle
    simp only [App.setController, List.length_set] at hle
    exact h.unborn hle
  · intro g' hg'
    rw [App.setController, List.getElem?_set_ne hk] at hg'
    exact h.played g' hg'

theorem Routed.step {r : Routing} (h : Routed id r w) (hs : AppStep w e w') :
    Routed id (routeEvent id r e) w' := by
  cases hs with
  | @select _ row tape hsel =>
    unfold routeEvent
    dsimp only
    rcases select_cases hsel with ⟨hrow, mode, c, rest, hload, rfl⟩ | ⟨hrow, rfl⟩
    · rw [if_pos hrow]
      exact h.push hload
    · rw [if_neg hrow]
      exact h
  | @tap row k g c' htop hg hgame =>
    have hhead : r.viewControllers.head? = some k := by rw [h.stack, htop]
    unfold routeEvent
    dsimp only
    by_cases hk : k = id
    · subst hk
      rw [if_pos hhead]
      exact h.own hg hgame
    · rw [if_neg (by simpa [hhead] using hk)]
      exact h.other hk g c'
  | moveBack _ => exact ⟨h.games, congrArg List.tail h.stack, h.unborn, h.played⟩
  | @fire k g hg hvalid =>
    unfold routeEvent
    dsimp only
    by_cases hk : k = id
    · subst hk
      rw [if_pos rfl]
      exact h.own hg (Step.tick hvalid)
    · rw [if_neg hk]
      exact h.other hk g _

theorem routed_run (hrun : Run AppStep App.launched es w) (id : ℕ) : Routed id (route id es) w := by
  refine Run.induction (I := fun es w => Routed id (route id es) w) ?_ ?_ hrun
  · exact ⟨rfl, rfl, fun _ => rfl, by simp [App.launched]⟩
  · intro es t e u _ ih hs
    rw [route_concat]
    exact ih.step hs

end Routing

/-- However many games have been opened and left, and whatever was tapped and fired in
between, each game stands where its deal and its own events alone would have brought it:
its clock has lost one millisecond for each firing of its own timer, and it is lost at
the firing that spends the last one. -/
theorem game_played_apart {es : List AppEvent} {w : App} {id : ℕ} {g : Game}
    (hrun : Run AppStep App.launched es w) (hg : w.games[id]? = some g) :
    (∃ tape rest c₀, viewDidLoad g.mode.settings tape = .ok (c₀, rest) ∧
      ∀ c, Run (Step g.mode.settings) c₀ (ownEvents id es) c ↔ c = g.controller) ∧
    g.controller.milliseconds = g.mode.settings.milliseconds - es.count (.fire id) ∧
    ((∃ a ∈ g.controller.alerts, a.title = g.mode.settings.lostTitle) ↔
      (es.count (.fire id) : ℤ) = g.mode.settings.milliseconds) := by
  obtain ⟨tape, rest, c₀, hload, hplay⟩ := (routed_run hrun id).played g hg
  have hclock := run_milliseconds hload hplay
  have hphase := run_phase hload hplay
  have hticks : ticks (route id es).own = es.count (.fire id) := ticks_ownEvents id es
  rw [hticks] at hclock
  refine ⟨⟨tape, rest, c₀, hload, ?_⟩, hclock, ?_⟩
  · intro c
    constructor
    · exact fun hc => run_unique (refines_initial hload) hc hplay
    · rintro rfl
      exact hplay
  · have hlost : (∃ a ∈ g.controller.alerts, a.title = g.mode.settings.lostTitle) ↔
        g.controller.milliseconds = 0 := by
      have hne := g.mode.titles_ne
      cases hphase with
      | playing _ time _ quiet => simp [quiet, time.ne']
      | won _ time _ alert => simp [alert, hne, time.ne']
      | lost _ time _ alert => simp [alert, time]
    rw [hlost, hclock]
    constructor <;> intro h <;> omega

/-- An easy game is left for a normal one; both timers fire on. -/
theorem two_games_played_apart :
    ∃ w g, Run AppStep App.launched [.select 0, .fire 0, .moveBack, .select 1, .fire 1, .fire 0] w ∧
      w.games[0]? = some g ∧ g.controller.milliseconds = 29998 := by
  have hrun : ∃ w g, Run AppStep App.launched
      [.select 0, .fire 0, .moveBack, .select 1, .fire 1, .fire 0] w ∧
        w.games[0]? = some g ∧ g.mode = .easy :=
    ⟨_, _, Run.cons (.select (select_easy App.launched))
      (Run.cons (.fire (g := ⟨.easy, orderedDeal .easy⟩) rfl rfl)
      (Run.cons (.moveBack (by simp [App.setController, pushViewController]))
      (Run.cons (.select (select_normal _))
      (Run.cons (.fire (g := ⟨.normal, orderedDeal .normal⟩) rfl rfl)
      (Run.one (.fire (g := ⟨.easy, timerElapsed easyModeController (orderedDeal .easy)⟩)
        rfl rfl)))))), rfl, rfl⟩
  obtain ⟨w, g, hrun, hg, hmode⟩ := hrun
  have hclock := (game_played_apart hrun hg).2.1
  rw [hmode] at hclock
  exact ⟨w, g, hrun, hg, hclock⟩

end CardPang.Navigation
