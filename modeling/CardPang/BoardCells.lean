import CardPang.GameBoard

/-!
# What the cells on the screen look like

A matched card leaves the board and no other card does. The alphas of a cell are
written when the cell is bound and when its card is matched; a card that is matched
off screen has no cell to remove, and gets one with both alphas 0 when its row comes
back. A cell of a matched card keeps an old image, which nobody sees before the cell
is bound again.
-/
namespace CardPang.GameController
open LabelledRun

/-- Both image views of the cell are transparent. -/
def Gone (cell : CardCell) : Prop := cell.backAlpha = 0 ∧ cell.frontAlpha = 0

/-- Both image views of the cell are opaque, and the front has the image of the card. -/
def Pictures (card : Card) (cell : CardCell) : Prop :=
  cell.backAlpha = 1 ∧ cell.frontAlpha = 1 ∧ cell.frontImage = some card.imageName

def Depicts (card : Card) (cell : CardCell) : Prop :=
  (card.isMatched = true → Gone cell) ∧ (card.isMatched = false → Pictures card cell)

/-- Every on-screen cell depicts the card of its row. -/
def Depicted (b : Board) : Prop :=
  ∀ row cell, b.view.cellForItem row = some cell →
    Depicts (b.game.cardAt row) (b.view.cells cell)

section Cell

variable {card : Card} {v : CollectionView} {cell other : CellRef}

theorem depicts_setCard (ref : CardRef) (card : Card) (k : CardCell) :
    Depicts card (k.setCard ref card) := by
  constructor
  · intro hm
    simp [CardCell.setCard, hm, Gone]
  · intro hm
    cases hf : card.isFlipped <;>
      simp [CardCell.setCard, hm, hf, CardCell.transitionToFront, CardCell.transitionToBack,
        Pictures]

theorem depicts_flip (cell : CellRef) (h : Depicts card (v.cells other)) :
    Depicts card ((v.flip cell).cells other) :=
  CollectionView.modify_keeps cell (fun _ hk => hk) h

theorem depicts_fireFlipBack (block : ℕ) (cell : CellRef) (h : Depicts card (v.cells other)) :
    Depicts card ((fireFlipBack v block cell).cells other) :=
  CollectionView.modify_keeps cell (fun _ hk => hk) h

theorem gone_remove_self (v : CollectionView) (cell : CellRef) :
    Gone ((v.remove (some cell)).cells cell) := by
  rw [CollectionView.remove, CollectionView.modify_cells, if_pos rfl]
  exact ⟨rfl, rfl⟩

theorem Gone.remove (h : Gone (v.cells other)) (cell : CellRef) :
    Gone ((v.remove (some cell)).cells other) :=
  CollectionView.modify_keeps cell (fun _ _ => ⟨rfl, rfl⟩) h

theorem remove_cells_of_ne {cell : Option CellRef} (h : cell ≠ some other) :
    (v.remove cell).cells other = v.cells other := by
  cases cell with
  | none => rfl
  | some cell =>
    have hne : other ≠ cell := fun he => h (congrArg some he.symm)
    rw [CollectionView.remove, CollectionView.modify_cells, if_neg hne]

end Cell

section Step

variable {m : ModeSettings} {name : ℕ → String} {b b' : Board} {e : BoardEvent} {row : ℕ}
  {c c' : Controller} {v v' : CollectionView}

theorem depicted_tap (hb : Bound name ⟨c, v⟩) (hd : Depicted ⟨c, v⟩)
    (he : TapEffect m row c v c' v') : Depicted ⟨c', v'⟩ := by
  obtain ⟨g, hg⟩ := hb.refines
  -- Which side is up is not part of what a cell has to depict.
  intro r k hk
  dsimp only at hk ⊢
  rw [he.cellForItem] at hk
  have hr : r < c.cardArray.length := hb.lt r k hk
  have hold : Depicts (c.cardAt r) (v.cells k) := hd r k hk
  cases he with
  | ignored _ => exact hold
  | @opens cell ref _ hcell href _ _ _ =>
    rw [cardAt_opened hg.nodup href hr]
    exact depicts_flip cell hold
  | @closes cell ref q p _ hcell href _ _ _ hfirst _ =>
    rw [cardAt_mismatched hg.nodup href hfirst hr, CollectionView.flipBack_cells,
      CollectionView.flipBack_cells]
    exact depicts_flip cell hold
  | @pairs cell ref q p _ hcell href _ _ _ hfirst _ =>
    rw [cardAt_ended, cardAt_paired hg.nodup href hfirst hr]
    by_cases hrow : r = row
    · subst hrow
      obtain rfl : cell = k := Option.some.inj (hcell.symm.trans hk)
      exact ⟨fun _ => gone_remove_self _ cell, fun h => by simp at h⟩
    · by_cases hp : r = p
      · subst hp
        rw [hk]
        exact ⟨fun _ => (gone_remove_self _ k).remove cell, fun h => by simp at h⟩
      · -- Neither of the two removed cells is the one of this row.
        have hsecond : some cell ≠ some k := by
          intro h
          exact hrow (hb.inj r row k hk (hcell.trans h))
        have hfirstcell : v.cellForItem p ≠ some k := fun h => hp (hb.inj r p k hk h)
        rw [remove_cells_of_ne hsecond, remove_cells_of_ne hfirstcell,
          if_neg (not_or.mpr ⟨hrow, hp⟩)]
        exact depicts_flip cell hold

theorem Depicted.step (hb : Bound name b) (hd : Depicted b) (hs : BoardStep m b e b') :
    Depicted b' := by
  rcases hb.step_cases hs with ⟨row, -, -, he⟩ | ⟨-, rfl⟩ | ⟨row, -, rfl⟩ |
    ⟨row, cell, ref, -, -, hfree, href, rfl⟩ | ⟨block, cell, -, -, rfl⟩
  · exact depicted_tap hb hd he
  · intro r k hk
    dsimp only
    rw [cardAt_timerElapsed]
    exact hd r k hk
  · exact fun r k hk => hd r k (endDisplay_sub hk)
  · intro r k hk
    dsimp only
    rw [CollectionView.modify_cells]
    rcases display_cases hfree hk with ⟨rfl, rfl⟩ | ⟨-, hne, hk⟩
    · rw [if_pos rfl, Controller.cardAt_eq href]
      exact depicts_setCard ref _ _
    · rw [if_neg hne]
      exact hd r k hk
  · exact fun r k hk => depicts_fireFlipBack block cell (hd r k hk)

theorem depicted_run {mode : GameMode} {tape rest : List ℕ} {c₀ : Controller}
    {es : List BoardEvent} (hload : viewDidLoad mode.settings tape = .ok (c₀, rest))
    (hrun : Run (BoardStep mode.settings) (Board.initial c₀) es b) :
    Bound (faces c₀) b ∧ Depicted b := by
  refine Run.invariant (I := fun b => Bound (faces c₀) b ∧ Depicted b)
    ⟨bound_initial hload, ?_⟩ ?_ hrun
  · intro row cell hcell
    cases hcell
  · intro t e u ht hs
    exact ⟨ht.1.step hs, ht.2.step ht.1 hs⟩

end Step

/-- In every state of every run, an on-screen cell is bound to the card of its row; it is
transparent if that card is matched, and else opaque with the card's image. -/
theorem board_depicts_cards (mode : GameMode) {tape rest : List ℕ} {c₀ : Controller}
    {es : List BoardEvent} {b : Board}
    (hload : viewDidLoad mode.settings tape = .ok (c₀, rest))
    (hrun : Run (BoardStep mode.settings) (Board.initial c₀) es b) {row : ℕ} {cell : CellRef}
    (hcell : b.view.cellForItem row = some cell) :
    ∃ ref, b.game.cardArray[row]? = some ref ∧ (b.view.cells cell).card = some ref ∧
      ((b.game.heap.card ref).isMatched = true → Gone (b.view.cells cell)) ∧
      ((b.game.heap.card ref).isMatched = false →
        Pictures (b.game.heap.card ref) (b.view.cells cell)) := by
  obtain ⟨hbound, hdepicted⟩ := depicted_run hload hrun
  obtain ⟨ref, href⟩ := Controller.exists_ref (hbound.lt row cell hcell)
  have hcard : (b.view.cells cell).card = some ref := (hbound.card row cell hcell).trans href
  have hdepicts := hdepicted row cell hcell
  rw [Controller.cardAt_eq href] at hdepicts
  exact ⟨ref, href, hcard, hdepicts⟩

/-- The first card of a pair is off screen when the second one, in the same recycled cell,
is tapped: its row comes back without a picture, while the next row has one. -/
theorem board_depicts_cards_after_match :
    ∃ b, Run (BoardStep GameMode.easy.settings) (Board.initial (orderedDeal .easy))
        [.display 0 ⟨0⟩, .tap 0, .endDisplay 0, .display 1 ⟨0⟩, .tap 1, .display 0 ⟨1⟩,
          .display 2 ⟨2⟩] b ∧
      (b.game.cardAt 0).isMatched = true ∧ Gone (b.view.cells ⟨1⟩) ∧
      Pictures (b.game.cardAt 2) (b.view.cells ⟨2⟩) := by
  have hrun : ∃ b, Run (BoardStep GameMode.easy.settings) (Board.initial (orderedDeal .easy))
        [.display 0 ⟨0⟩, .tap 0, .endDisplay 0, .display 1 ⟨0⟩, .tap 1, .display 0 ⟨1⟩,
          .display 2 ⟨2⟩] b ∧ b.view.cellForItem 0 = some ⟨1⟩ ∧ b.view.cellForItem 2 = some ⟨2⟩ ∧
      b.game.cardArray[0]? = some ⟨0⟩ ∧ b.game.cardArray[2]? = some ⟨2⟩ ∧
      (b.game.heap.card ⟨0⟩).isMatched = true ∧ (b.game.heap.card ⟨2⟩).isMatched = false := by
    refine ⟨_, Run.cons (.display (by decide) rfl (by intro r; simp) rfl)
      (Run.cons (.tap (by decide) (by decide) rfl)
      (Run.cons (.endDisplay 0)
      (Run.cons (.display (by decide) rfl ?_ rfl)
      (Run.cons (.tap (by decide) (by decide) rfl)
      (Run.cons (.display (by decide) rfl ?_ rfl)
      (Run.one (.display (by decide) rfl ?_ rfl))))))), rfl, rfl, rfl, rfl, rfl, rfl⟩
    all_goals
      intro r
      by_cases hr : r = 0 <;> by_cases hr' : r = 1 <;>
        simp [hr, hr', CollectionView.reloadItems, CollectionView.endDisplay]
  obtain ⟨b, hrun, hcell0, hcell2, href0, href2, hmatched, hunmatched⟩ := hrun
  obtain ⟨r, hr, -, hgone, -⟩ := board_depicts_cards .easy (orderedDeal_load .easy) hrun hcell0
  obtain rfl := Option.some.inj (hr.symm.trans href0)
  obtain ⟨s, hs, -, -, hpictures⟩ := board_depicts_cards .easy (orderedDeal_load .easy) hrun hcell2
  obtain rfl := Option.some.inj (hs.symm.trans href2)
  refine ⟨b, hrun, ?_, hgone hmatched, ?_⟩
  · rw [Controller.cardAt_eq href0]
    exact hmatched
  · rw [Controller.cardAt_eq href2]
    exact hpictures hunmatched

end CardPang.GameController
