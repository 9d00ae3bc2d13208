import CardPang.Card

/-! A `CardCell` and the collection view that shows cells. A cell keeps the card it
was last given, its two image views (hidden or not, alpha as set, image by name),
and nothing else. `flipBack` only schedules a block on the main queue; the block
refers to the cell, not to the card that the cell shows at the call. -/
namespace CardPang

structure CardCell where
  card : Option CardRef := none
  frontHidden : Bool := false
  backHidden : Bool := false
  frontAlpha : ℕ := 1
  backAlpha : ℕ := 1
  frontImage : Option String := none
  backImage : Option String := none
  deriving DecidableEq, Repr

namespace CardCell

/-- `UIView.transition(from: backImageView, to: frontImageView)`. -/
def transitionToFront (cell : CardCell) : CardCell :=
  { cell with backHidden := true, frontHidden := false }

/-- `UIView.transition(from: frontImageView, to: backImageView)`. -/
def transitionToBack (cell : CardCell) : CardCell :=
  { cell with frontHidden := true, backHidden := false }

def setCard (ref : CardRef) (card : Card) (cell : CardCell) : CardCell :=
  let cell := { cell with card := some ref }
  if card.isMatched = true then
    { cell with backAlpha := 0, frontAlpha := 0 }
  else
    let cell := { cell with
      backAlpha := 1
      frontAlpha := 1
      frontImage := some card.imageName
      backImage := some "back" }
    if card.isFlipped = true then cell.transitionToFront else cell.transitionToBack

def flip (cell : CardCell) : CardCell := cell.transitionToFront

def remove (cell : CardCell) : CardCell :=
  { cell with backAlpha := 0, frontAlpha := 0 }

/-- The side that the player sees. -/
def showsFront (cell : CardCell) : Bool := !cell.frontHidden && cell.backHidden

end CardCell

structure CellRef where
  address : ℕ
  deriving DecidableEq, Repr

/-- The collection view of one game with the blocks that its cells have put on the
main queue. `cellForItem` is defined on the rows that are on screen. -/
structure CollectionView where
  cells : CellRef → CardCell
  cellForItem : ℕ → Option CellRef
  flipBacks : List CellRef

namespace CollectionView

def modify (v : CollectionView) (cell : CellRef) (f : CardCell → CardCell) : CollectionView :=
  { v with cells := Function.update v.cells cell (f (v.cells cell)) }

def flip (v : CollectionView) (cell : CellRef) : CollectionView := v.modify cell CardCell.flip

/-- `cell?.remove()`. -/
def remove (v : CollectionView) : Option CellRef → CollectionView
  | some cell => v.modify cell CardCell.remove
  | none => v

/-- `cell?.flipBack()`. -/
def flipBack (v : CollectionView) : Option CellRef → CollectionView
  | some cell => { v with flipBacks := v.flipBacks ++ [cell] }
  | none => v

/-- A row off the screen has no cell until the data source gives it one. -/
def endDisplay (v : CollectionView) (row : ℕ) : CollectionView :=
  { v with cellForItem := Function.update v.cellForItem row none }

/-- A reloaded row drops its cell and waits for the data source, too. -/
def reloadItems (v : CollectionView) (row : ℕ) : CollectionView := v.endDisplay row

@[simp] theorem modify_cellForItem (v : CollectionView) (cell : CellRef)
    (f : CardCell → CardCell) : (v.modify cell f).cellForItem = v.cellForItem := rfl

@[simp] theorem modify_flipBacks (v : CollectionView) (cell : CellRef)
    (f : CardCell → CardCell) : (v.modify cell f).flipBacks = v.flipBacks := rfl

theorem modify_cells (v : CollectionView) (cell other : CellRef) (f : CardCell → CardCell) :
    (v.modify cell f).cells other = if other = cell then f (v.cells other) else v.cells other := by
  by_cases h : other = cell
  · subst h
    simp [modify]
  · simp [modify, h]

/-- What a change of one cell keeps of this cell, it keeps of all. -/
theorem modify_keeps {v : CollectionView} {f : CardCell → CardCell} {P : CardCell → Prop}
    {other : CellRef} (cell : CellRef) (hf : ∀ k, P k → P (f k)) (h : P (v.cells other)) :
    P ((v.modify cell f).cells other) := by
  rw [modify_cells]
  split_ifs
  · exact hf _ h
  · exact h

@[simp] theorem flip_cellForItem (v : CollectionView) (cell : CellRef) :
    (v.flip cell).cellForItem = v.cellForItem := rfl

@[simp] theorem flip_flipBacks (v : CollectionView) (cell : CellRef) :
    (v.flip cell).flipBacks = v.flipBacks := rfl

@[simp] theorem flipBack_cellForItem (v : CollectionView) (cell : Option CellRef) :
    (v.flipBack cell).cellForItem = v.cellForItem := by
  cases cell <;> rfl

@[simp] theorem flipBack_cells (v : CollectionView) (cell : Option CellRef) :
    (v.flipBack cell).cells = v.cells := by
  cases cell <;> rfl

@[simp] theorem flipBack_flipBacks (v : CollectionView) (cell : Option CellRef) :
    (v.flipBack cell).flipBacks = v.flipBacks ++ cell.toList := by
  cases cell <;> simp [flipBack]

@[simp] theorem remove_cellForItem (v : CollectionView) (cell : Option CellRef) :
    (v.remove cell).cellForItem = v.cellForItem := by
  cases cell <;> rfl

@[simp] theorem remove_flipBacks (v : CollectionView) (cell : Option CellRef) :
    (v.remove cell).flipBacks = v.flipBacks := by
  cases cell <;> rfl

/-- Reloading a row that is off screen changes nothing. -/
theorem reloadItems_of_none {v : CollectionView} {row : ℕ} (h : v.cellForItem row = none) :
    v.reloadItems row = v := by
  unfold reloadItems endDisplay
  rw [← h, Function.update_eq_self]

end CollectionView

end CardPang
