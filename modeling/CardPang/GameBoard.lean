import CardPang.GameRefinement

/-!
# The board on the screen

A game together with its collection view. Besides taps and ticks, rows leave the
screen, dequeued cells are bound to rows by the data source, and the blocks that
`flipBack` has put on the main queue fire, in any order.
-/
namespace CardPang.GameController
open CardModel LabelledRun MemoryGame

structure Board where
  game : Controller
  view : CollectionView

inductive BoardEvent
  | tap (row : ℕ)
  | tick
  | endDisplay (row : ℕ)
  | display (row : ℕ) (cell : CellRef)
  | fire (block : ℕ)
  deriving DecidableEq, Repr

def Board.initial (c : Controller) : Board := ⟨c, fun _ => {}, fun _ => none, []⟩

/-- The block of `flipBack` runs and leaves the queue. -/
def fireFlipBack (v : CollectionView) (block : ℕ) (cell : CellRef) : CollectionView :=
  { v.modify cell CardCell.transitionToBack with flipBacks := v.flipBacks.eraseIdx block }

/-- `display` asks the data source for a cell and shows it in the same step: no cell is prefetched,
so that none is bound to a row before it is on the screen. -/
inductive BoardStep (m : ModeSettings) : Board → BoardEvent → Board → Prop
  | tap {c c' : Controller} {v v' : CollectionView} {row : ℕ}
      (hrow : row < c.cardArray.length) (hcell : v.cellForItem row ≠ none)
      (h : didSelectItemAt m row c v = .ok (c', v')) :
      BoardStep m ⟨c, v⟩ (.tap row) ⟨c', v'⟩
  | tick {c : Controller} {v : CollectionView} (hvalid : c.timerValid) :
      BoardStep m ⟨c, v⟩ .tick ⟨timerElapsed m c, v⟩
  | endDisplay {c : Controller} {v : CollectionView} (row : ℕ) :
      BoardStep m ⟨c, v⟩ (.endDisplay row) ⟨c, v.endDisplay row⟩
  | display {c : Controller} {v v' : CollectionView} {row : ℕ} {cell : CellRef}
      (hrow : row < c.cardArray.length) (hoff : v.cellForItem row = none)
      (hfree : ∀ r, v.cellForItem r ≠ some cell)
      (h : cellForItemAt row cell c v = .ok v') :
      BoardStep m ⟨c, v⟩ (.display row cell)
        ⟨c, { v' with cellForItem := Function.update v'.cellForItem row (some cell) }⟩
  | fire {c : Controller} {v : CollectionView} {block : ℕ} {cell : CellRef}
      (h : v.flipBacks[block]? = some cell) :
      BoardStep m ⟨c, v⟩ (.fire block) ⟨c, fireFlipBack v block cell⟩

/-- Every on-screen cell that is bound to an unmatched card shows the side that
the card's `isFlipped` says. -/
def Agrees (b : Board) : Prop :=
  ∀ row cell ref, b.view.cellForItem row = some cell → (b.view.cells cell).card = some ref →
    (b.game.heap.card ref).isMatched = false →
      ((b.view.cells cell).showsFront = true ↔ (b.game.heap.card ref).isFlipped = true)

section View

variable {v : CollectionView} {cell other : CellRef}

theorem flip_cells_self (v : CollectionView) (cell : CellRef) :
    ((v.flip cell).cells cell).showsFront = true := by
  simp [CollectionView.flip, CollectionView.modify, CardCell.flip, CardCell.transitionToFront,
    CardCell.showsFront]

theorem flip_cells_of_ne (h : other ≠ cell) : (v.flip cell).cells other = v.cells other := by
  simp [CollectionView.flip, CollectionView.modify, h]

theorem flip_card (v : CollectionView) (cell other : CellRef) :
    ((v.flip cell).cells other).card = (v.cells other).card :=
  CollectionView.modify_keeps (P := fun k => k.card = (v.cells other).card) cell
    (fun _ hk => hk) rfl

theorem remove_card (v : CollectionView) (cell : Option CellRef) (other : CellRef) :
    ((v.remove cell).cells other).card = (v.cells other).card := by
  cases cell with
  | none => rfl
  | some cell =>
    exact CollectionView.modify_keeps (P := fun k => k.card = (v.cells other).card) cell
      (fun _ hk => hk) rfl

theorem remove_showsFront (v : CollectionView) (cell : Option CellRef) (other : CellRef) :
    ((v.remove cell).cells other).showsFront = (v.cells other).showsFront := by
  cases cell with
  | none => rfl
  | some cell =>
    exact CollectionView.modify_keeps (P := fun k => k.showsFront = (v.cells other).showsFront) cell
      (fun _ hk => hk) rfl

theorem setCard_card (ref : CardRef) (card : Card) (cell : CardCell) :
    (cell.setCard ref card).card = some ref := by
  unfold CardCell.setCard
  dsimp only
  split_ifs <;> rfl

theorem setCard_showsFront {card : Card} (h : card.isMatched = false) (ref : CardRef)
    (cell : CardCell) : (cell.setCard ref card).showsFront = card.isFlipped := by
  unfold CardCell.setCard
  cases hf : card.isFlipped <;>
    simp [h, CardCell.transitionToBack, CardCell.transitionToFront, CardCell.showsFront]

theorem fireFlipBack_cells_self (v : CollectionView) (block : ℕ) (cell : CellRef) :
    ((fireFlipBack v block cell).cells cell).showsFront = false := by
  simp [fireFlipBack, CollectionView.modify, CardCell.transitionToBack, CardCell.showsFront]

theorem fireFlipBack_cells_of_ne (h : other ≠ cell) (block : ℕ) :
    (fireFlipBack v block cell).cells other = v.cells other := by
  simp [fireFlipBack, CollectionView.modify, h]

theorem fireFlipBack_card (v : CollectionView) (block : ℕ) (cell other : CellRef) :
    ((fireFlipBack v block cell).cells other).card = (v.cells other).card :=
  CollectionView.modify_keeps (P := fun k => k.card = (v.cells other).card) cell
    (fun _ hk => hk) rfl

theorem fireFlipBack_flipBacks_of_ne {block : ℕ} (hb : v.flipBacks[block]? = some cell)
    (hne : other ≠ cell) (hm : other ∈ v.flipBacks) :
    other ∈ (fireFlipBack v block cell).flipBacks := by
  obtain ⟨k, hk⟩ := List.mem_iff_getElem?.mp hm
  refine List.mem_eraseIdx_iff_getElem?.mpr ⟨k, ?_, hk⟩
  rintro rfl
  exact hne (Option.some.inj (hk.symm.trans hb))

theorem endDisplay_sub {row r : ℕ} (h : (v.endDisplay row).cellForItem r = some cell) :
    v.cellForItem r = some cell := by
  by_cases hr : r = row
  · subst hr
    simp [CollectionView.endDisplay] at h
  · simpa [CollectionView.endDisplay, hr] using h

/-- After a cell is bound to a row, an on-screen row is this one or an old one. -/
theorem display_cases {row r : ℕ} (hfree : ∀ r, v.cellForItem r ≠ some cell)
    (h : Function.update v.cellForItem row (some cell) r = some other) :
    (r = row ∧ other = cell) ∨ (r ≠ row ∧ other ≠ cell ∧ v.cellForItem r = some other) := by
  by_cases hr : r = row
  · subst hr
    rw [Function.update_self] at h
    exact Or.inl ⟨rfl, (Option.some.inj h).symm⟩
  · rw [Function.update_of_ne hr] at h
    exact Or.inr ⟨hr, fun he => hfree r (he ▸ h), h⟩

end View

/-- What every run keeps, whatever the queue does: the game part refines the
memory game and every on-screen cell holds the card of its row. -/
structure Bound (name : ℕ → String) (b : Board) : Prop where
  refines : ∃ g, Refines name b.game g
  lt : ∀ row cell, b.view.cellForItem row = some cell → row < b.game.cardArray.length
  card : ∀ row cell, b.view.cellForItem row = some cell →
    (b.view.cells cell).card = b.game.cardArray[row]?
  inj : ∀ row row' cell, b.view.cellForItem row = some cell →
    b.view.cellForItem row' = some cell → row = row'

section Step

variable {m : ModeSettings} {name : ℕ → String} {b b' : Board} {e : BoardEvent}
  {c c' : Controller} {v v' : CollectionView} {row : ℕ}

/-- A tap neither moves cells nor rebinds them. -/
theorem TapEffect.cellForItem (h : TapEffect m row c v c' v') :
    v'.cellForItem = v.cellForItem := by
  cases h with
  | ignored _ => rfl
  | opens _ _ _ _ _ _ => rfl
  | closes _ _ _ _ _ _ _ _ => simp
  | pairs _ _ _ _ _ _ _ _ => simp

theorem TapEffect.cell_card (h : TapEffect m row c v c' v') (cell : CellRef) :
    (v'.cells cell).card = (v.cells cell).card := by
  cases h with
  | ignored _ => rfl
  | opens _ _ _ _ _ _ => exact flip_card v _ cell
  | closes _ _ _ _ _ _ _ _ => simpa using flip_card v _ cell
  | pairs _ _ _ _ _ _ _ _ =>
    rw [remove_card, remove_card]
    exact flip_card v _ cell

theorem TapEffect.cardArray (h : TapEffect m row c v c' v') : c'.cardArray = c.cardArray := by
  cases h with
  | ignored _ => rfl
  | opens _ _ _ _ _ _ => rfl
  | closes _ _ _ _ _ _ _ _ => rfl
  | pairs _ _ _ _ _ _ _ _ => exact checkGameEnded_cardArray m _

/-- Everything one step of the board can do. -/
theorem Bound.step_cases (h : Bound name b) (hs : BoardStep m b e b') :
    (∃ row, e = .tap row ∧ row < b.game.cardArray.length ∧
      TapEffect m row b.game b.view b'.game b'.view) ∨
    (e = .tick ∧ b' = ⟨timerElapsed m b.game, b.view⟩) ∨
    (∃ row, e = .endDisplay row ∧ b' = ⟨b.game, b.view.endDisplay row⟩) ∨
    (∃ row cell ref, e = .display row cell ∧ b.view.cellForItem row = none ∧
      (∀ r, b.view.cellForItem r ≠ some cell) ∧ b.game.cardArray[row]? = some ref ∧
      b' = ⟨b.game, { b.view.modify cell (CardCell.setCard ref (b.game.heap.card ref)) with
        cellForItem := Function.update b.view.cellForItem row (some cell) }⟩) ∨
    (∃ block cell, e = .fire block ∧ b.view.flipBacks[block]? = some cell ∧
      b' = ⟨b.game, fireFlipBack b.view block cell⟩) := by
  obtain ⟨g, hg⟩ := h.refines
  cases hs with
  | @tap c c' v v' row hrow hcell heq =>
    obtain ⟨c₁, v₁, heq', he⟩ := didSelectItemAt_effect (m := m) hrow hcell
      fun p hp => hg.first_lt hp
    obtain ⟨rfl, rfl⟩ := Prod.mk.inj (Except.ok.inj (heq.symm.trans heq'))
    exact Or.inl ⟨row, rfl, hrow, he⟩
  | tick _ => exact Or.inr (Or.inl ⟨rfl, rfl⟩)
  | endDisplay row => exact Or.inr (Or.inr (Or.inl ⟨row, rfl, rfl⟩))
  | @display c v v' row cell hrow hoff hfree heq =>
    obtain ⟨ref, href⟩ := Controller.exists_ref hrow
    simp only [cellForItemAt, element_eq_ok href, bind, Except.bind, pure, Except.pure,
      Except.ok.injEq] at heq
    subst heq
    exact Or.inr (Or.inr (Or.inr (Or.inl ⟨row, cell, ref, rfl, hoff, hfree, href, rfl⟩)))
  | @fire c v block cell hb => exact Or.inr (Or.inr (Or.inr (Or.inr ⟨block, cell, rfl, hb, rfl⟩)))

theorem Bound.tap (h : Bound name ⟨c, v⟩) (hrow : row < c.cardArray.length)
    (he : TapEffect m row c v c' v') : Bound name ⟨c', v'⟩ := by
  obtain ⟨g, hg⟩ := h.refines
  refine ⟨⟨_, refines_tap hg hrow he⟩, ?_, ?_, ?_⟩
  · dsimp only
    rw [he.cellForItem, he.cardArray]
    exact h.lt
  · intro r k hk
    dsimp only at hk ⊢
    rw [he.cellForItem] at hk
    rw [he.cell_card, he.cardArray]
    exact h.card r k hk
  · dsimp only
    rw [he.cellForItem]
    exact h.inj

theorem Bound.endDisplay (h : Bound name ⟨c, v⟩) (row : ℕ) :
    Bound name ⟨c, v.endDisplay row⟩ := by
  have hsub : ∀ r k, (v.endDisplay row).cellForItem r = some k → v.cellForItem r = some k :=
    fun r k hk => endDisplay_sub hk
  refine ⟨h.refines, ?_, ?_, ?_⟩
  · exact fun r k hk => h.lt r k (hsub r k hk)
  · exact fun r k hk => h.card r k (hsub r k hk)
  · exact fun r r' k hk hk' => h.inj r r' k (hsub r k hk) (hsub r' k hk')

/-- A recycled cell is bound to the card of its new row before it is shown. -/
theorem Bound.display (h : Bound name ⟨c, v⟩) {cell : CellRef} {ref : CardRef}
    (hfree : ∀ r, v.cellForItem r ≠ some cell) (href : c.cardArray[row]? = some ref) :
    Bound name ⟨c, { v.modify cell (CardCell.setCard ref (c.heap.card ref)) with
      cellForItem := Function.update v.cellForItem row (some cell) }⟩ := by
  refine ⟨h.refines, ?_, ?_, ?_⟩
  · intro r k hk
    rcases display_cases hfree hk with ⟨rfl, -⟩ | ⟨-, -, hk⟩
    · exact Controller.lt_of_ref href
    · exact h.lt r k hk
  · intro r k hk
    change ((v.modify cell _).cells k).card = _
    rw [CollectionView.modify_cells]
    rcases display_cases hfree hk with ⟨rfl, rfl⟩ | ⟨-, hne, hk⟩
    · rw [if_pos rfl, setCard_card]
      exact href.symm
    · rw [if_neg hne]
      exact h.card r k hk
  · intro r r' k hk hk'
    rcases display_cases hfree hk with ⟨rfl, rfl⟩ | ⟨-, hne, hk⟩ <;>
      rcases display_cases hfree hk' with ⟨rfl, he⟩ | ⟨-, hne', hk'⟩
    · rfl
    · exact absurd rfl hne'
    · exact absurd he hne
    · exact h.inj r r' k hk hk'

theorem Bound.step (h : Bound name b) (hs : BoardStep m b e b') : Bound name b' := by
  rcases h.step_cases hs with ⟨row, -, hrow, he⟩ | ⟨-, rfl⟩ | ⟨row, -, rfl⟩ |
    ⟨row, cell, ref, -, hoff, hfree, href, rfl⟩ | ⟨block, cell, -, hb, rfl⟩
  · exact h.tap hrow he
  · obtain ⟨g, hg⟩ := h.refines
    refine ⟨⟨_, refines_tick hg⟩, ?_, ?_, h.inj⟩
    · simpa using h.lt
    · simpa using h.card
  · exact h.endDisplay row
  · exact h.display hfree href
  · refine ⟨h.refines, h.lt, ?_, h.inj⟩
    intro r k hk
    rw [fireFlipBack_card]
    exact h.card r k hk

theorem bound_initial {mode : GameMode} {tape rest : List ℕ} {c₀ : Controller}
    (hload : viewDidLoad mode.settings tape = .ok (c₀, rest)) :
    Bound (faces c₀) (Board.initial c₀) := by
  refine ⟨⟨_, refines_initial hload⟩, ?_, ?_, ?_⟩ <;> simp [Board.initial]

end Step

/-- An open card shows its front; a closed one shows its back or has a block of
`flipBack` on the way. -/
def Shows (card : Card) (cell : CardCell) (pending : Prop) : Prop :=
  (card.isFlipped = true → cell.showsFront = true) ∧
    (card.isFlipped = false → cell.showsFront = false ∨ pending)

/-- What the board keeps as long as no block turns an open card. -/
def Faithful (b : Board) : Prop :=
  ∀ row cell, b.view.cellForItem row = some cell → (b.game.cardAt row).isMatched = false →
    Shows (b.game.cardAt row) (b.view.cells cell) (cell ∈ b.view.flipBacks)

/-- The row shows a card that is face up and not matched. -/
def Open (c : Controller) (row : ℕ) : Prop :=
  (c.cardAt row).isFlipped = true ∧ (c.cardAt row).isMatched = false

/-- No block fires on a cell that shows an open card. -/
def SafeFire (b : Board) (e : BoardEvent) : Prop :=
  ∀ block cell row, e = .fire block → b.view.flipBacks[block]? = some cell →
    b.view.cellForItem row = some cell → ¬ Open b.game row

section Faithful

variable {m : ModeSettings} {name : ℕ → String} {b b' : Board} {e : BoardEvent} {row : ℕ}
  {c c' : Controller} {v v' : CollectionView}

theorem Shows.mono {card : Card} {cell : CardCell} {P Q : Prop} (h : Shows card cell P)
    (hPQ : P → Q) : Shows card cell Q :=
  ⟨h.1, fun hf => (h.2 hf).imp_right hPQ⟩

theorem faithful_tap (hb : Bound name ⟨c, v⟩) (hf : Faithful ⟨c, v⟩)
    (he : TapEffect m row c v c' v') : Faithful ⟨c', v'⟩ := by
  obtain ⟨g, hg⟩ := hb.refines
  intro r k hk hm
  dsimp only at hk hm ⊢
  rw [he.cellForItem] at hk
  have hr : r < c.cardArray.length := hb.lt r k hk
  have hold : (c.cardAt r).isMatched = false → Shows (c.cardAt r) (v.cells k) (k ∈ v.flipBacks) :=
    hf r k hk
  -- A row other than the tapped one has another cell.
  have hcellne : ∀ {j}, v.cellForItem row = some j → r ≠ row → k ≠ j := by
    intro j hj hne hkj
    subst hkj
    exact hne (hb.inj r row k hk hj)
  cases he with
  | ignored _ => exact hold hm
  | @opens cell ref _ hcell href _ _ _ =>
    rw [cardAt_opened hg.nodup href hr] at hm ⊢
    by_cases hrow : r = row
    · subst hrow
      obtain rfl : cell = k := Option.some.inj (hcell.symm.trans hk)
      exact ⟨fun _ => flip_cells_self v cell, fun h => absurd h (by simp)⟩
    · rw [flip_cells_of_ne (hcellne hcell hrow), if_neg hrow]
      exact hold hm
  | @closes cell ref q p _ hcell href _ _ _ hfirst _ =>
    rw [cardAt_mismatched hg.nodup href hfirst hr] at hm ⊢
    simp only [CollectionView.flipBack_cells, CollectionView.flipBack_flipBacks,
      CollectionView.flip_flipBacks]
    by_cases hrow : r = row
    · subst hrow
      obtain rfl : cell = k := Option.some.inj (hcell.symm.trans hk)
      exact ⟨fun h => absurd h (by simp), fun _ => Or.inr (by simp)⟩
    · by_cases hp : r = p
      · subst hp
        exact ⟨fun h => absurd h (by simp), fun _ => Or.inr (by simp [hk])⟩
      · rw [flip_cells_of_ne (hcellne hcell hrow), if_neg (not_or.mpr ⟨hrow, hp⟩)]
        exact (hold hm).mono fun h => List.mem_append_left _ (List.mem_append_left _ h)
  | @pairs cell ref q p _ hcell href _ _ _ hfirst _ =>
    rw [cardAt_ended, cardAt_paired hg.nodup href hfirst hr] at hm ⊢
    by_cases hrow : r = row ∨ r = p
    · simp [hrow] at hm
    · have hne : r ≠ row := fun h => hrow (Or.inl h)
      rw [if_neg hrow] at hm
      simp only [Shows, remove_showsFront, CollectionView.remove_flipBacks,
        flip_cells_of_ne (hcellne hcell hne), CollectionView.flip_flipBacks, if_neg hne]
      exact hold hm

theorem Faithful.step (hb : Bound name b) (hf : Faithful b) (hs : BoardStep m b e b')
    (hsafe : SafeFire b e) : Faithful b' := by
  rcases hb.step_cases hs with ⟨row, -, -, he⟩ | ⟨-, rfl⟩ | ⟨row, -, rfl⟩ |
    ⟨row, cell, ref, -, hoff, hfree, href, rfl⟩ | ⟨block, cell, rfl, hblock, rfl⟩
  · exact faithful_tap hb hf he
  · intro r k hk hm
    dsimp only at hm ⊢
    rw [cardAt_timerElapsed] at hm ⊢
    exact hf r k hk hm
  · exact fun r k hk hm => hf r k (endDisplay_sub hk) hm
  · intro r k hk hm
    dsimp only at hm ⊢
    rw [CollectionView.modify_cells]
    rcases display_cases hfree hk with ⟨rfl, rfl⟩ | ⟨-, hne, hk⟩
    · rw [Controller.cardAt_eq href] at hm ⊢
      rw [if_pos rfl, Shows, setCard_showsFront hm]
      exact ⟨id, Or.inl⟩
    · rw [if_neg hne]
      exact hf r k hk hm
  · intro r k hk hm
    change b.view.cellForItem r = some k at hk
    by_cases hkc : k = cell
    · subst hkc
      have hclosed := hsafe block k r rfl hblock hk
      refine ⟨fun hflip => absurd ⟨hflip, hm⟩ hclosed, fun _ => Or.inl ?_⟩
      exact fireFlipBack_cells_self b.view block k
    · dsimp only
      rw [fireFlipBack_cells_of_ne hkc]
      exact (hf r k hk hm).mono (fireFlipBack_flipBacks_of_ne hblock hkc)

theorem Faithful.agrees (hb : Bound name b) (hf : Faithful b) (hq : b.view.flipBacks = []) :
    Agrees b := by
  intro row cell ref hcell hcard hm
  have href : b.game.cardArray[row]? = some ref := (hb.card row cell hcell).symm.trans hcard
  rw [← Controller.cardAt_eq href] at hm ⊢
  obtain ⟨h1, h2⟩ := hf row cell hcell hm
  constructor
  · intro hfront
    by_contra hflip
    rcases h2 (by simpa using hflip) with h | h
    · rw [h] at hfront
      cases hfront
    · simp [hq] at h
  · exact h1

end Faithful

section Quiet

variable {m : ModeSettings} {b b' : Board} {row : ℕ} {cell : CellRef} {ref : CardRef}

/-- An open card whose cell shows the back: it looks closed and refuses taps. -/
def ShowsBack (b : Board) : Prop :=
  ∃ row cell ref, b.view.cellForItem row = some cell ∧ (b.view.cells cell).card = some ref ∧
    (b.game.heap.card ref).isMatched = false ∧ (b.game.heap.card ref).isFlipped = true ∧
    (b.view.cells cell).showsFront = false

theorem ShowsBack.not_agrees (h : ShowsBack b) : ¬ Agrees b := by
  obtain ⟨row, cell, ref, hcell, hcard, hm, hf, hback⟩ := h
  intro ha
  have hfront := (ha row cell ref hcell hcard hm).mpr hf
  rw [hback] at hfront
  cases hfront

/-- A firing never turns a cell to its front. -/
theorem ShowsBack.fire {block : ℕ} (h : ShowsBack b) (cell : CellRef) :
    ShowsBack ⟨b.game, fireFlipBack b.view block cell⟩ := by
  obtain ⟨row, k, ref, hk, hcard, hm, hf, hback⟩ := h
  refine ⟨row, k, ref, hk, (fireFlipBack_card b.view block cell k).trans hcard, hm, hf, ?_⟩
  by_cases hkc : k = cell
  · subst hkc
    exact fireFlipBack_cells_self b.view block k
  · exact (congrArg CardCell.showsFront (fireFlipBack_cells_of_ne hkc block)).trans hback

theorem showsBack_of_fire {name : ℕ → String} {e : BoardEvent} (hb : Bound name b)
    (hs : BoardStep m b e b') (hturned : ¬ SafeFire b e) : ShowsBack b' := by
  simp only [SafeFire, not_forall, not_not] at hturned
  obtain ⟨block, cell, row, rfl, hblock, hcell, hflip, hm⟩ := hturned
  obtain ⟨ref, href⟩ := Controller.exists_ref (hb.lt row cell hcell)
  rw [Controller.cardAt_eq href] at hflip hm
  cases hs with
  | @fire c v _ cell' hb' =>
    obtain rfl : cell = cell' := Option.some.inj (hblock.symm.trans hb')
    refine ⟨row, cell, ref, hcell, ?_, hm, hflip, fireFlipBack_cells_self v block cell⟩
    exact (fireFlipBack_card v block cell cell).trans ((hb.card row cell hcell).trans href)

/-- Every queue of blocks can be worked off, and an open card that shows its back
is still there afterwards. -/
theorem exists_run_quiet (h : ShowsBack b) :
    ∃ b', Run (BoardStep m) b (List.replicate b.view.flipBacks.length (.fire 0)) b' ∧
      b'.view.flipBacks = [] ∧ ShowsBack b' := by
  generalize hq : b.view.flipBacks = queue
  induction queue generalizing b with
  | nil => exact ⟨b, Run.nil b, hq, h⟩
  | cons cell queue ih =>
    have hblock : b.view.flipBacks[0]? = some cell := by simp [hq]
    have hrest : (fireFlipBack b.view 0 cell).flipBacks = queue := by simp [fireFlipBack, hq]
    obtain ⟨b', hrun, hquiet, hback⟩ := ih (h.fire cell) hrest
    exact ⟨b', Run.cons (BoardStep.fire hblock) hrun, hquiet, hback⟩

end Quiet

theorem bound_run {mode : GameMode} {tape rest : List ℕ} {c₀ : Controller} {b : Board}
    {es : List BoardEvent} (hload : viewDidLoad mode.settings tape = .ok (c₀, rest))
    (hrun : Run (BoardStep mode.settings) (Board.initial c₀) es b) : Bound (faces c₀) b :=
  Run.invariant (bound_initial hload) (fun _ _ _ ht hs => ht.step hs) hrun

/-- As long as no block of `flipBack` fires on a cell that shows an open card, the
board agrees with the model whenever the queue is empty; and after every firing
that does so, working off the queue leaves a board that does not agree. -/
theorem board_agrees_unless_open_turned (mode : GameMode) {tape rest : List ℕ} {c₀ : Controller}
    (hload : viewDidLoad mode.settings tape = .ok (c₀, rest)) :
    (∀ es b, Run (fun b e b' => BoardStep mode.settings b e b' ∧ SafeFire b e)
        (Board.initial c₀) es b → b.view.flipBacks = [] → Agrees b) ∧
    (∀ es b e b', Run (BoardStep mode.settings) (Board.initial c₀) es b →
      BoardStep mode.settings b e b' → ¬ SafeFire b e →
        ∃ n b'', Run (BoardStep mode.settings) b' (List.replicate n (.fire 0)) b'' ∧
          b''.view.flipBacks = [] ∧ ¬ Agrees b'') := by
  constructor
  · intro es b hrun hquiet
    have hinv : Bound (faces c₀) b ∧ Faithful b := by
      refine Run.invariant (I := fun b => Bound (faces c₀) b ∧ Faithful b)
        ⟨bound_initial hload, ?_⟩ ?_ hrun
      · intro row cell hcell
        cases hcell
      · intro t e u ht hs
        exact ⟨ht.1.step hs.1, ht.2.step ht.1 hs.1 hs.2⟩
    exact hinv.2.agrees hinv.1 hquiet
  · intro es b e b' hrun hs hturned
    have hback := showsBack_of_fire (bound_run hload hrun) hs hturned
    obtain ⟨b'', hrun', hquiet, hback'⟩ := exists_run_quiet (m := mode.settings) hback
    exact ⟨_, b'', hrun', hquiet, hback'.not_agrees⟩

theorem board_agrees_after_mismatch :
    ∃ b, Run (BoardStep GameMode.easy.settings) (Board.initial (orderedDeal .easy))
        [.display 0 ⟨0⟩, .display 2 ⟨2⟩, .tap 0, .tap 2, .fire 0, .fire 0] b ∧
      b.view.flipBacks = [] ∧ Agrees b := by
  have hplain : ∀ {b : Board} {e : BoardEvent}, (∀ block, e ≠ .fire block) → SafeFire b e :=
    fun h block _ _ he => absurd he (h block)
  have hrun : ∃ b, Run (fun b e b' => BoardStep GameMode.easy.settings b e b' ∧ SafeFire b e)
      (Board.initial (orderedDeal .easy))
      [.display 0 ⟨0⟩, .display 2 ⟨2⟩, .tap 0, .tap 2, .fire 0, .fire 0] b ∧
      b.view.flipBacks = [] := by
    refine ⟨_, Run.cons ⟨.display (by decide) rfl (by intro r; simp) rfl, hplain (by simp)⟩
      (Run.cons ⟨.display (by decide) rfl ?_ rfl, hplain (by simp)⟩
      (Run.cons ⟨.tap (by decide) (by decide) rfl, hplain (by simp)⟩
      (Run.cons ⟨.tap (by decide) (by decide) rfl, hplain (by simp)⟩
      (Run.cons ⟨.fire rfl, ?_⟩ (Run.one ⟨.fire rfl, ?_⟩))))), rfl⟩
    · intro r
      by_cases hr : r = 0 <;> simp [hr]
    all_goals
      intro block cell row he hb hc ho
      cases he
      obtain rfl := Option.some.inj hb
      change Function.update (Function.update (fun _ => none) 0 (some (⟨0⟩ : CellRef))) 2
        (some ⟨2⟩) row = _ at hc
      have hrow : row = 0 ∨ row = 2 := by
        by_contra hne
        obtain ⟨h0, h2⟩ := not_or.mp hne
        simp [h0, h2] at hc
      rcases hrow with rfl | rfl <;> exact absurd ho.1 (by decide)
  obtain ⟨b, hrun, hquiet⟩ := hrun
  exact ⟨b, hrun.mono fun _ _ _ hs => hs.1, hquiet,
    (board_agrees_unless_open_turned .easy (orderedDeal_load .easy)).1 _ b hrun hquiet⟩

/-- Two cards are mismatched and the first is opened again before its block fires:
it ends up closed on the screen and open in the model. -/
theorem board_disagrees_after_reopening :
    ∃ b, Run (BoardStep GameMode.easy.settings) (Board.initial (orderedDeal .easy))
        [.display 0 ⟨0⟩, .display 2 ⟨2⟩, .tap 0, .tap 2, .tap 0, .fire 0, .fire 0] b ∧
      b.view.flipBacks = [] ∧ ¬ Agrees b := by
  refine ⟨_, Run.cons (.display (by decide) rfl (by intro r; simp) rfl)
    (Run.cons (.display (by decide) rfl ?_ rfl) (Run.cons (.tap (by decide) (by decide) rfl)
    (Run.cons (.tap (by decide) (by decide) rfl) (Run.cons (.tap (by decide) (by decide) rfl)
    (Run.cons (.fire rfl) (Run.one (.fire rfl))))))), rfl, ?_⟩
  · intro r
    by_cases hr : r = 0 <;> simp [hr]
  · apply ShowsBack.not_agrees
    exact ⟨0, ⟨0⟩, ⟨0⟩, rfl, rfl, rfl, rfl, rfl⟩

end CardPang.GameController
