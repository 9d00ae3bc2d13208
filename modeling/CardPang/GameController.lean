import CardPang.CardModel
import CardPang.CardCell
import CardPang.LabelledRun
import CardPang.MemoryGame

/-!
# The three game controllers

`EasyModeController`, `NormalModeController` and `HardModeController` are the same
code with other constants, collected in `ModeSettings`. The clock starts at a whole
number of milliseconds below `2 ^ 24` and is only decremented by one, so the
`Float` of the source is exact and is kept as an integer.
-/
namespace CardPang.GameController
open CardModel LabelledRun

structure Timer where
  isValid : Bool
  deriving DecidableEq, Repr

/-- One call of `showAlert`, with the clock at the call. -/
structure AlertCall where
  title : String
  message : String
  milliseconds : ℤ
  deriving DecidableEq, Repr

structure ModeSettings where
  milliseconds : ℤ
  getCards : List ℕ → Heap → Except Halt (List CardRef × Heap × List ℕ)
  wonTitle : String
  wonMessage : String
  lostTitle : String
  lostMessage : String

def easyModeController : ModeSettings where
  milliseconds := 30 * 1000
  getCards := getEasyCards
  wonTitle := "축하합니다👏🏻"
  wonMessage := "모두 맞추셨어요! 😎"
  lostTitle := "아쉬워요 😩"
  lostMessage := "모두 못맞추셨네요 🙈"

def normalModeController : ModeSettings where
  milliseconds := 40 * 1000
  getCards := getNormalCards
  wonTitle := "축하합니다!"
  wonMessage := "모두 맞추셨어요!"
  lostTitle := "아쉬워요"
  lostMessage := "모두 못맞추셨네요"

def hardModeController : ModeSettings where
  milliseconds := 50 * 1000
  getCards := getHardCards
  wonTitle := "축하합니다!"
  wonMessage := "모두 맞추셨어요!"
  lostTitle := "아쉬워요"
  lostMessage := "모두 못맞추셨네요"

inductive GameMode
  | easy
  | normal
  | hard
  deriving DecidableEq, Repr

def GameMode.settings : GameMode → ModeSettings
  | .easy => easyModeController
  | .normal => normalModeController
  | .hard => hardModeController

structure Controller where
  timer : Option Timer
  milliseconds : ℤ
  heap : Heap
  cardArray : List CardRef
  firstFlippedCardIndex : Option ℕ
  alerts : List AlertCall

namespace Controller

def invalidateTimer (c : Controller) : Controller :=
  { c with timer := c.timer.map fun _ => ⟨false⟩ }

def setFlipped (c : Controller) (card : CardRef) (b : Bool) : Controller :=
  { c with heap := c.heap.modify card fun x => { x with isFlipped := b } }

def setMatched (c : Controller) (card : CardRef) : Controller :=
  { c with heap := c.heap.modify card fun x => { x with isMatched := true } }

def showAlert (c : Controller) (title message : String) : Controller :=
  { c with alerts := c.alerts ++ [⟨title, message, c.milliseconds⟩] }

/-- The loop at the start of `checkGameEnded`. -/
def isWon (c : Controller) : Bool := c.cardArray.all fun r => (c.heap.card r).isMatched

end Controller

def viewDidLoad (m : ModeSettings) (tape : List ℕ) : Except Halt (Controller × List ℕ) := do
  let (cards, heap, rest) ← m.getCards tape Heap.empty
  return ({ timer := some ⟨true⟩
            milliseconds := m.milliseconds
            heap := heap
            cardArray := cards
            firstFlippedCardIndex := none
            alerts := [] }, rest)

def checkGameEnded (m : ModeSettings) (c : Controller) : Controller :=
  if c.isWon = true then
    let c := if 0 < c.milliseconds then c.invalidateTimer else c
    c.showAlert m.wonTitle m.wonMessage
  else if 0 < c.milliseconds then c
  else c.showAlert m.lostTitle m.lostMessage

def timerElapsed (m : ModeSettings) (c : Controller) : Controller :=
  let c := { c with milliseconds := c.milliseconds - 1 }
  if c.milliseconds ≤ 0 then checkGameEnded m c.invalidateTimer else c

/-- `x!`. -/
def unwrap {α : Type*} : Option α → Except Trap α
  | some a => .ok a
  | none => .error .nilUnwrapped

def checkForMatches (m : ModeSettings) (secondFlippedCardIndex : ℕ) (c : Controller)
    (v : CollectionView) : Except Trap (Controller × CollectionView) := do
  let cardOneCell := v.cellForItem (← unwrap c.firstFlippedCardIndex)
  let cardTwoCell := v.cellForItem secondFlippedCardIndex
  let cardOne ← element c.cardArray (← unwrap c.firstFlippedCardIndex)
  let cardTwo ← element c.cardArray secondFlippedCardIndex
  let (c, v) :=
    if (c.heap.card cardOne).imageName = (c.heap.card cardTwo).imageName then
      (checkGameEnded m ((c.setMatched cardOne).setMatched cardTwo),
        (v.remove cardOneCell).remove cardTwoCell)
    else
      ((c.setFlipped cardOne false).setFlipped cardTwo false,
        (v.flipBack cardOneCell).flipBack cardTwoCell)
  if cardOneCell = none then
    let first ← unwrap c.firstFlippedCardIndex
    return ({ c with firstFlippedCardIndex := none }, v.reloadItems first)
  else
    return ({ c with firstFlippedCardIndex := none }, v)

/-- `cellForItem(at:) as! CardCell`. -/
def castCell : Option CellRef → Except Trap CellRef
  | some cell => .ok cell
  | none => .error .castFailed

def didSelectItemAt (m : ModeSettings) (row : ℕ) (c : Controller) (v : CollectionView) :
    Except Trap (Controller × CollectionView) := do
  if c.milliseconds ≤ 0 then
    return (c, v)
  else
    let cell ← castCell (v.cellForItem row)
    let card ← element c.cardArray row
    if (c.heap.card card).isFlipped = false ∧ (c.heap.card card).isMatched = false then
      let v := v.flip cell
      let c := c.setFlipped card true
      if c.firstFlippedCardIndex = none then
        return ({ c with firstFlippedCardIndex := some row }, v)
      else
        checkForMatches m row c v
    else
      return (c, v)

/-- `collectionView(cellForItemAt:)` for a dequeued cell. -/
def cellForItemAt (row : ℕ) (cell : CellRef) (c : Controller) (v : CollectionView) :
    Except Trap CollectionView := do
  let card ← element c.cardArray row
  return v.modify cell (CardCell.setCard card (c.heap.card card))

end CardPang.GameController
