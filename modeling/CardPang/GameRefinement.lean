import CardPang.GameTap

/-!
# The game controllers refine the memory game

The flags of the card objects, the index of the first card and the clock are an
implementation of one abstract state: a set of matched faces, an open position and
the time. The simulation relation needs that the card objects are different and
that every face lies on exactly two rows.
-/
namespace CardPang.GameController
open CardModel LabelledRun MemoryGame

lemma countP_eq_card_filter {α : Type*} (p : α → Bool) (l : List α) (d : α) :
    l.countP p = ((Finset.range l.length).filter fun j => p (l.getD j d) = true).card := by
  induction l using List.reverseRecOn with
  | nil => simp
  | append_singleton l a ih =>
    have hlast : (l ++ [a]).getD l.length d = a := by simp [List.getD_eq_getElem?_getD]
    have hinit : (Finset.range l.length).filter (fun j => p ((l ++ [a]).getD j d) = true) =
        (Finset.range l.length).filter (fun j => p (l.getD j d) = true) := by
      apply Finset.filter_congr
      intro j hj
      have hlt : j < l.length := Finset.mem_range.mp hj
      simp [List.getD_eq_getElem?_getD, List.getElem?_append_left hlt]
    rw [List.countP_append, List.length_append, List.length_singleton, Finset.range_add_one,
      Finset.filter_insert, hlast, hinit, ih]
    by_cases ha : p a = true
    · rw [if_pos ha, Finset.card_insert_of_notMem (by simp)]
      simp [ha]
    · simp [ha]

/-- The simulation relation. `name` is the face that each row shows from the start. -/
structure Refines (name : ℕ → String) (c : Controller) (g : State ℕ String) : Prop where
  nodup : c.cardArray.Nodup
  paired : Paired (Finset.range c.cardArray.length) name
  legal : Legal (Finset.range c.cardArray.length) name g
  time : c.milliseconds = g.time
  first : c.firstFlippedCardIndex = g.opened
  names : ∀ i < c.cardArray.length, (c.cardAt i).imageName = name i
  matched : ∀ i < c.cardArray.length, ((c.cardAt i).isMatched = true ↔ name i ∈ g.matched)
  flipped : ∀ i < c.cardArray.length,
    ((c.cardAt i).isFlipped = true ↔ name i ∈ g.matched ∨ g.opened = some i)

def initialState (c : Controller) : State ℕ String := ⟨∅, none, c.milliseconds⟩

def faces (c : Controller) (i : ℕ) : String := (c.cardAt i).imageName

/-- What `viewDidLoad` leaves behind when the generator returns. -/
theorem viewDidLoad_eq_ok {m : ModeSettings} {tape rest : List ℕ} {c : Controller}
    (h : viewDidLoad m tape = .ok (c, rest)) :
    m.getCards tape Heap.empty = .ok (c.cardArray, c.heap, rest) ∧
      c.timer = some ⟨true⟩ ∧ c.milliseconds = m.milliseconds ∧
      c.firstFlippedCardIndex = none ∧ c.alerts = [] := by
  obtain ⟨⟨cards, heap, rest'⟩, hget, hok⟩ := bind_eq_ok.mp h
  cases hok
  exact ⟨hget, rfl, rfl, rfl, rfl⟩

def GameMode.pairs : GameMode → ℕ
  | .easy => 6
  | .normal => 8
  | .hard => 10

theorem GameMode.pairs_pos (mode : GameMode) : 0 < mode.pairs := by
  cases mode <;> decide

theorem GameMode.getCards_eq (mode : GameMode) :
    mode.settings.getCards = getCards mode.pairs := by
  cases mode <;> rfl

theorem viewDidLoad_deck {mode : GameMode} {tape rest : List ℕ} {c : Controller}
    (h : viewDidLoad mode.settings tape = .ok (c, rest)) :
    Deck mode.pairs c.cardArray c.heap := by
  obtain ⟨hg, -⟩ := viewDidLoad_eq_ok h
  rw [mode.getCards_eq] at hg
  exact getCards_deck hg

/-- A freshly dealt game refines the empty memory game. -/
theorem refines_initial {mode : GameMode} {tape rest : List ℕ} {c : Controller}
    (h : viewDidLoad mode.settings tape = .ok (c, rest)) :
    Refines (faces c) c (initialState c) := by
  have hd := viewDidLoad_deck h
  obtain ⟨-, -, -, hfirst, -⟩ := viewDidLoad_eq_ok h
  have hmem : ∀ i < c.cardArray.length, ∃ r ∈ c.cardArray, c.cardAt i = c.heap.card r := by
    intro i hi
    obtain ⟨r, hr⟩ := Controller.exists_ref hi
    exact ⟨r, List.mem_of_getElem? hr, Controller.cardAt_eq hr⟩
  refine ⟨hd.nodup, ?_, by simp [Legal, initialState], rfl, hfirst, fun _ _ => rfl, ?_, ?_⟩
  · intro i hi
    obtain ⟨r, hr, he⟩ := hmem i (Finset.mem_range.mp hi)
    have hc := hd.paired r hr
    rw [← he, List.count, List.countP_map, countP_eq_card_filter _ _ ⟨0⟩] at hc
    rw [← hc]
    congr 1
    apply Finset.filter_congr
    intro j _
    simp [faces, Controller.cardAt]
  · intro i hi
    obtain ⟨r, hr, he⟩ := hmem i hi
    simp [he, (hd.closed r hr).2, initialState]
  · intro i hi
    obtain ⟨r, hr, he⟩ := hmem i hi
    simp [he, (hd.closed r hr).1, initialState]

section Cards

variable {c : Controller} {i row p : ℕ} {r q : CardRef}

theorem cardAt_opened (hn : c.cardArray.Nodup) (hr : c.cardArray[row]? = some r)
    (hi : i < c.cardArray.length) :
    (c.opened row r).cardAt i =
      { imageName := (c.cardAt i).imageName
        isFlipped := if i = row then true else (c.cardAt i).isFlipped
        isMatched := (c.cardAt i).isMatched } :=
  Controller.cardAt_setFlipped hn hr hi

theorem cardAt_mismatched (hn : c.cardArray.Nodup) (hr : c.cardArray[row]? = some r)
    (hq : c.cardArray[p]? = some q) (hi : i < c.cardArray.length) :
    (c.mismatched q r).cardAt i =
      { imageName := (c.cardAt i).imageName
        isFlipped := if i = row ∨ i = p then false else (c.cardAt i).isFlipped
        isMatched := (c.cardAt i).isMatched } := by
  change (((c.setFlipped r true).setFlipped q false).setFlipped r false).cardAt i = _
  rw [Controller.cardAt_setFlipped (c := (c.setFlipped r true).setFlipped q false) hn hr hi,
    Controller.cardAt_setFlipped (c := c.setFlipped r true) hn hq hi,
    Controller.cardAt_setFlipped hn hr hi]
  by_cases h : i = row <;> by_cases h' : i = p <;> simp [h, h']

theorem cardAt_paired (hn : c.cardArray.Nodup) (hr : c.cardArray[row]? = some r)
    (hq : c.cardArray[p]? = some q) (hi : i < c.cardArray.length) :
    (c.paired q r).cardAt i =
      { imageName := (c.cardAt i).imageName
        isFlipped := if i = row then true else (c.cardAt i).isFlipped
        isMatched := if i = row ∨ i = p then true else (c.cardAt i).isMatched } := by
  change (((c.setFlipped r true).setMatched q).setMatched r).cardAt i = _
  rw [Controller.cardAt_setMatched (c := (c.setFlipped r true).setMatched q) hn hr hi,
    Controller.cardAt_setMatched (c := c.setFlipped r true) hn hq hi,
    Controller.cardAt_setFlipped hn hr hi]
  by_cases h : i = row <;> by_cases h' : i = p <;> simp [h, h']

/-- The check for the end of the game and the forgotten first card touch no card. -/
theorem cardAt_ended (m : ModeSettings) (c : Controller) (i : ℕ) :
    ({ checkGameEnded m c with firstFlippedCardIndex := none } : Controller).cardAt i =
      c.cardAt i := by
  simp [Controller.cardAt]

end Cards

section Step

variable {m : ModeSettings} {name : ℕ → String} {c c' : Controller} {g : State ℕ String}
  {row : ℕ} {v v' : CollectionView}

theorem Refines.first_lt (h : Refines name c g) {p : ℕ}
    (hp : c.firstFlippedCardIndex = some p) : p < c.cardArray.length := by
  rw [h.first] at hp
  exact Finset.mem_range.mp (h.legal p hp).1

/-- The two rows of a matching pair are the only ones with their face. -/
theorem Refines.pair_rows (h : Refines name c g) {p : ℕ} (hrow : row < c.cardArray.length)
    (hp : p < c.cardArray.length) (hne : p ≠ row) (hn : name p = name row) {i : ℕ}
    (hi : i < c.cardArray.length) : name i = name row ↔ i = row ∨ i = p := by
  obtain ⟨j, hj, hjne, hjn, honly⟩ := h.paired.partner (Finset.mem_range.mpr hrow)
  have hpj : p = j := (honly p (Finset.mem_range.mpr hp) hn).resolve_left hne
  subst hpj
  constructor
  · exact fun he => honly i (Finset.mem_range.mpr hi) he
  · rintro (rfl | rfl)
    · rfl
    · exact hn

theorem refines_opens (h : Refines name c g) {r : CardRef} (hr : c.cardArray[row]? = some r)
    (hm : name row ∉ g.matched) (ho : g.opened = none) :
    Refines name (c.opened row r) { g with opened := some row } := by
  have hrow := Controller.lt_of_ref hr
  have hat : ∀ i < c.cardArray.length, _ := fun i hi => cardAt_opened h.nodup hr hi
  refine ⟨h.nodup, h.paired, ?_, h.time, rfl, ?_, ?_, ?_⟩
  · rintro p hp
    obtain rfl : row = p := by simpa using hp
    exact ⟨Finset.mem_range.mpr hrow, hm⟩
  · intro i hi
    rw [hat i hi]
    exact h.names i hi
  · intro i hi
    rw [hat i hi]
    exact h.matched i hi
  · intro i hi
    rw [hat i hi]
    have hf := h.flipped i hi
    simp only [ho, reduceCtorEq, or_false] at hf
    by_cases he : i = row
    · simp [he]
    · simp [he, hf, Ne.symm he]

theorem refines_mismatch (h : Refines name c g) {p : ℕ} {r q : CardRef}
    (hr : c.cardArray[row]? = some r) (hq : c.cardArray[p]? = some q)
    (hm : name row ∉ g.matched) (ho : g.opened = some p) :
    Refines name (c.mismatched q r) { g with opened := none } := by
  have hat : ∀ i < c.cardArray.length, _ := fun i hi => cardAt_mismatched h.nodup hr hq hi
  have hmp := (h.legal p ho).2
  refine ⟨h.nodup, h.paired, by simp [Legal], h.time, rfl, ?_, ?_, ?_⟩
  · intro i hi
    rw [hat i hi]
    exact h.names i hi
  · intro i hi
    rw [hat i hi]
    exact h.matched i hi
  · intro i hi
    rw [hat i hi]
    have hf := h.flipped i hi
    simp only [ho, Option.some.injEq] at hf
    simp only [reduceCtorEq, or_false]
    by_cases he : i = row ∨ i = p
    · simp only [he, if_true, Bool.false_eq_true, false_iff]
      rcases he with rfl | rfl
      · exact hm
      · exact hmp
    · have hip : p ≠ i := fun hh => he (Or.inr hh.symm)
      simp [he, hf, hip]

theorem refines_match (h : Refines name c g) {p : ℕ} {r q : CardRef}
    (hr : c.cardArray[row]? = some r) (hq : c.cardArray[p]? = some q)
    (ho : g.opened = some p) (hne : p ≠ row) (hn : name p = name row) :
    Refines name { checkGameEnded m (c.paired q r) with firstFlippedCardIndex := none }
      { g with opened := none, matched := insert (name row) g.matched } := by
  have hrow := Controller.lt_of_ref hr
  have hp := Controller.lt_of_ref hq
  have hcards : ({ checkGameEnded m (c.paired q r) with
      firstFlippedCardIndex := none } : Controller).cardArray = c.cardArray :=
    checkGameEnded_cardArray m _
  have hat : ∀ i < c.cardArray.length, ({ checkGameEnded m (c.paired q r) with
      firstFlippedCardIndex := none } : Controller).cardAt i = _ := fun i hi =>
    (cardAt_ended m (c.paired q r) i).trans (cardAt_paired h.nodup hr hq hi)
  have hrows : ∀ i < c.cardArray.length, (name i = name row ↔ i = row ∨ i = p) :=
    fun i hi => h.pair_rows hrow hp hne hn hi
  constructor
  · rw [hcards]
    exact h.nodup
  · rw [hcards]
    exact h.paired
  · simp [Legal]
  · exact (checkGameEnded_milliseconds m _).trans h.time
  · rfl
  · intro i hi
    rw [hcards] at hi
    rw [hat i hi]
    exact h.names i hi
  · intro i hi
    rw [hcards] at hi
    rw [hat i hi]
    simp only [Finset.mem_insert, hrows i hi]
    have := h.matched i hi
    by_cases he : i = row ∨ i = p <;> simp [he, this]
  · intro i hi
    rw [hcards] at hi
    rw [hat i hi]
    simp only [Finset.mem_insert, hrows i hi, reduceCtorEq, or_false]
    have hf := h.flipped i hi
    simp only [ho, Option.some.injEq] at hf
    by_cases he : i = row
    · simp [he]
    · by_cases hep : i = p
      · simp [hep, (h.flipped p hp).mpr (Or.inr ho)]
      · simp [he, hep, hf, Ne.symm hep]

/-- One tap of the code is one tap of the memory game. -/
theorem refines_tap (h : Refines name c g) (hrow : row < c.cardArray.length)
    (he : TapEffect m row c v c' v') : Refines name c' (MemoryGame.tap name g row) := by
  have hopen : (c.cardAt row).isFlipped = false → (c.cardAt row).isMatched = false →
      name row ∉ g.matched ∧ g.opened ≠ some row := by
    intro hf hm
    have h1 := h.flipped row hrow
    rw [hf] at h1
    exact ⟨fun hh => by simp [hh] at h1, fun hh => by simp [hh] at h1⟩
  have htime : 0 < c.milliseconds → ¬ g.time ≤ 0 := by
    rw [h.time]
    omega
  cases he with
  | ignored why =>
    have hig : g.time ≤ 0 ∨ name row ∈ g.matched ∨ g.opened = some row := by
      rcases why with ht | hf | hm
      · exact Or.inl (h.time ▸ ht)
      · exact Or.inr ((h.flipped row hrow).mp hf)
      · exact Or.inr (Or.inl ((h.matched row hrow).mp hm))
    have : MemoryGame.tap name g row = g := by simp [MemoryGame.tap, hig]
    rwa [this]
  | opens time hcell href unflipped unmatched first =>
    obtain ⟨hm, ho⟩ := hopen unflipped unmatched
    have hg : g.opened = none := h.first.symm.trans first
    have : MemoryGame.tap name g row = { g with opened := some row } := by
      simp [MemoryGame.tap, hm, hg, htime time]
    rw [this]
    exact refines_opens h href hm hg
  | @closes cell r q p time hcell href unflipped unmatched first hfirst names =>
    obtain ⟨hm, ho⟩ := hopen unflipped unmatched
    have hg : g.opened = some p := h.first.symm.trans first
    have hne : p ≠ row := fun hh => ho (hh ▸ hg)
    rw [h.names p (Controller.lt_of_ref hfirst), h.names row hrow] at names
    have : MemoryGame.tap name g row = { g with opened := none } := by
      simp [MemoryGame.tap, hm, hg, htime time, hne, names]
    rw [this]
    exact refines_mismatch h href hfirst hm hg
  | @pairs cell r q p time hcell href unflipped unmatched first hfirst names =>
    obtain ⟨hm, ho⟩ := hopen unflipped unmatched
    have hg : g.opened = some p := h.first.symm.trans first
    have hne : p ≠ row := fun hh => ho (hh ▸ hg)
    rw [h.names p (Controller.lt_of_ref hfirst), h.names row hrow] at names
    have : MemoryGame.tap name g row =
        { g with opened := none, matched := insert (name row) g.matched } := by
      simp [MemoryGame.tap, hm, hg, htime time, hne, names]
    rw [this]
    exact refines_match h href hfirst hg hne names

@[simp] theorem timerElapsed_heap (m : ModeSettings) (c : Controller) :
    (timerElapsed m c).heap = c.heap := by
  unfold timerElapsed
  dsimp only
  split_ifs
  · exact checkGameEnded_heap m _
  · rfl

@[simp] theorem timerElapsed_cardArray (m : ModeSettings) (c : Controller) :
    (timerElapsed m c).cardArray = c.cardArray := by
  unfold timerElapsed
  dsimp only
  split_ifs
  · exact checkGameEnded_cardArray m _
  · rfl

@[simp] theorem timerElapsed_first (m : ModeSettings) (c : Controller) :
    (timerElapsed m c).firstFlippedCardIndex = c.firstFlippedCardIndex := by
  unfold timerElapsed
  dsimp only
  split_ifs
  · exact checkGameEnded_first m _
  · rfl

@[simp] theorem timerElapsed_milliseconds (m : ModeSettings) (c : Controller) :
    (timerElapsed m c).milliseconds = c.milliseconds - 1 := by
  unfold timerElapsed
  dsimp only
  split_ifs
  · exact checkGameEnded_milliseconds m _
  · rfl

theorem cardAt_timerElapsed (m : ModeSettings) (c : Controller) (i : ℕ) :
    (timerElapsed m c).cardAt i = c.cardAt i := by
  simp [Controller.cardAt]

theorem refines_tick (h : Refines name c g) :
    Refines name (timerElapsed m c) (MemoryGame.tick g) := by
  constructor
  · simpa using h.nodup
  · simpa using h.paired
  · simpa [Legal, MemoryGame.tick] using h.legal
  · simp [MemoryGame.tick, h.time]
  · simpa [MemoryGame.tick] using h.first
  · simpa [cardAt_timerElapsed] using h.names
  · simpa [cardAt_timerElapsed, MemoryGame.tick] using h.matched
  · simpa [cardAt_timerElapsed, MemoryGame.tick] using h.flipped

/-- Everything one step can do. -/
theorem Refines.step_cases {e : Event ℕ} (h : Refines name c g) (hs : Step m c e c') :
    (∃ row v v', e = .tap row ∧ row < c.cardArray.length ∧ TapEffect m row c v c' v') ∨
      (e = .tick ∧ c.timerValid ∧ c' = timerElapsed m c) := by
  cases hs with
  | @tap _ row v v' hrow hcell heq =>
    obtain ⟨c₁, v₁, heq', he⟩ := didSelectItemAt_effect (m := m) hrow hcell fun p hp => h.first_lt hp
    obtain ⟨rfl, rfl⟩ := Prod.mk.inj (Except.ok.inj (heq.symm.trans heq'))
    exact Or.inl ⟨row, v, v', rfl, hrow, he⟩
  | tick hvalid => exact Or.inr ⟨rfl, hvalid, rfl⟩

/-- Every step of the code is the step of the memory game with the same event. -/
theorem refines_step {e : Event ℕ} (h : Refines name c g) (hs : Step m c e c') :
    Refines name c' (handle name g e) := by
  rcases h.step_cases hs with ⟨row, v, v', rfl, hrow, he⟩ | ⟨rfl, -, rfl⟩
  · exact refines_tap h hrow he
  · exact refines_tick h

theorem refines_run {es : List (Event ℕ)} (h : Refines name c g) (hr : Run (Step m) c es c') :
    Refines name c' (play name g es) := by
  refine Run.induction (I := fun es c => Refines name c (play name g es)) h ?_ hr
  intro es t e u _ ih hs
  rw [play_append_singleton]
  exact refines_step ih hs

end Step

/-- What the state `g` of the memory game says about a controller that was dealt as
`c₀`; `tap_ok` excludes every trap of the tap handler. -/
structure Mirrors (m : ModeSettings) (c₀ : Controller) (g : State ℕ String) (c : Controller) :
    Prop where
  length : c.cardArray.length = c₀.cardArray.length
  names : ∀ i < c.cardArray.length, (c.cardAt i).imageName = (c₀.cardAt i).imageName
  matched : ∀ i < c.cardArray.length,
    ((c.cardAt i).isMatched = true ↔ (c.cardAt i).imageName ∈ g.matched)
  flipped : ∀ i < c.cardArray.length,
    ((c.cardAt i).isFlipped = true ↔ (c.cardAt i).imageName ∈ g.matched ∨ g.opened = some i)
  first : c.firstFlippedCardIndex = g.opened
  first_unmatched : ∀ p, c.firstFlippedCardIndex = some p →
    p < c.cardArray.length ∧ (c.cardAt p).isMatched = false
  time : c.milliseconds = g.time
  tap_ok : ∀ row < c.cardArray.length, ∀ v : CollectionView, v.cellForItem row ≠ none →
    ∃ c' v', didSelectItemAt m row c v = .ok (c', v')

theorem step_cardArray {m : ModeSettings} {name : ℕ → String} {g : State ℕ String}
    {c c' : Controller} {e : Event ℕ} (h : Refines name c g) (hs : Step m c e c') :
    c'.cardArray = c.cardArray := by
  rcases h.step_cases hs with ⟨row, v, v', rfl, -, he⟩ | ⟨rfl, -, rfl⟩
  · cases he with
    | ignored _ => rfl
    | opens _ _ _ _ _ _ => rfl
    | closes _ _ _ _ _ _ _ _ => rfl
    | pairs _ _ _ _ _ _ _ _ => exact checkGameEnded_cardArray m _
  · exact timerElapsed_cardArray m c

theorem run_cardArray {m : ModeSettings} {name : ℕ → String} {g : State ℕ String}
    {c c' : Controller} {es : List (Event ℕ)} (h : Refines name c g)
    (hr : Run (Step m) c es c') : c'.cardArray = c.cardArray := by
  refine Run.induction (I := fun _ d => d.cardArray = c.cardArray) rfl ?_ hr
  intro es t e u hrun ih hs
  exact (step_cardArray (refines_run h hrun) hs).trans ih

/-- For every deal and every sequence of taps and ticks, the controller stands where
the memory game stands after the same events, and no tap can trap. -/
theorem controller_refines_memoryGame (mode : GameMode) {tape rest : List ℕ}
    {c₀ c : Controller} {es : List (Event ℕ)}
    (hload : viewDidLoad mode.settings tape = .ok (c₀, rest))
    (hrun : Run (Step mode.settings) c₀ es c) :
    Mirrors mode.settings c₀ (play (faces c₀) (initialState c₀) es) c := by
  have h := refines_run (refines_initial hload) hrun
  have hcards := run_cardArray (refines_initial hload) hrun
  refine ⟨congrArg List.length hcards, h.names, ?_, ?_, h.first, ?_, h.time, ?_⟩
  · intro i hi
    rw [h.names i hi]
    exact h.matched i hi
  · intro i hi
    rw [h.names i hi]
    exact h.flipped i hi
  · intro p hp
    have hlt := h.first_lt hp
    refine ⟨hlt, ?_⟩
    rw [← Bool.not_eq_true, h.matched p hlt]
    exact (h.legal p (h.first.symm.trans hp)).2
  · intro row hrow v hv
    obtain ⟨c', v', he, -⟩ := didSelectItemAt_effect (m := mode.settings) hrow hv
      fun p hp => h.first_lt hp
    exact ⟨c', v', he⟩

/-- Draws `0, …, pairs - 1` and swaps of every position with itself. -/
def orderedTape (pairs : ℕ) : List ℕ := List.range pairs ++ List.range (2 * pairs)

def orderedDeal (mode : GameMode) : Controller :=
  match viewDidLoad mode.settings (orderedTape mode.pairs) with
  | .ok (c, _) => c
  | .error _ => ⟨none, 0, Heap.empty, [], none, []⟩

theorem orderedDeal_load (mode : GameMode) :
    viewDidLoad mode.settings (orderedTape mode.pairs) = .ok (orderedDeal mode, []) := by
  cases mode <;> rfl

theorem controller_refines_memoryGame_ordered :
    ∃ c, Run (Step GameMode.easy.settings) (orderedDeal .easy) [.tap 0, .tap 1, .tap 3, .tick] c ∧
      Mirrors GameMode.easy.settings (orderedDeal .easy)
        (play (faces (orderedDeal .easy)) (initialState (orderedDeal .easy))
          [.tap 0, .tap 1, .tap 3, .tick]) c :=
  ⟨_, playEvents_run rfl,
    controller_refines_memoryGame .easy (orderedDeal_load .easy) (playEvents_run rfl)⟩

end CardPang.GameController
