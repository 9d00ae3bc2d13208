import CardPang.Card

/-!
# The onboarding screen

The pages of `OnboardingController` are turned by `PaperOnboarding`, with one dot for
each page. Positions and animations are left out: a dot keeps the values that its last
animation leads to, and a tap keeps the dots whose frames it lies in.
-/
namespace CardPang.Onboarding

/-- Red, green and blue, of 255. -/
structure UIColor where
  red : ℕ
  green : ℕ
  blue : ℕ
  deriving DecidableEq, Repr

def myBlueColor : UIColor := ⟨56, 181, 253⟩
def myGreenColor : UIColor := ⟨126, 217, 87⟩
def myYellowColor : UIColor := ⟨254, 222, 89⟩

structure OnboardingItemInfo where
  informationImage : String
  title : String
  description : String
  color : UIColor
  deriving DecidableEq, Repr

/-- The image and the texts on the screen. -/
structure OnboardingContentViewItem where
  image : String
  titleLabel : String
  descriptionLabel : String
  deriving DecidableEq, Repr

structure PageViewItem where
  tag : ℕ
  selected : Bool
  filled : Bool
  deriving DecidableEq, Repr

structure PageContainer where
  items : List PageViewItem
  currentIndex : ℕ
  deriving DecidableEq, Repr

structure PageView where
  itemsCount : ℕ
  containerView : PageContainer
  deriving DecidableEq, Repr

structure PaperOnboarding where
  currentIndex : ℕ
  itemsCount : ℕ
  itemsInfo : List OnboardingItemInfo
  fillColor : UIColor
  pageView : PageView
  currentItem : OnboardingContentViewItem
  deriving DecidableEq, Repr

structure OnboardingController where
  onboardingItems : List OnboardingItemInfo
  onboardingView : PaperOnboarding
  getStartButtonAlpha : ℕ
  dismissals : ℕ
  deriving DecidableEq, Repr

/-- `PageViewItem.animationSelected`. -/
def animationItem (item : PageViewItem) (selected fillColor : Bool) : PageViewItem :=
  { item with selected := selected, filled := fillColor }

def createItems (count : ℕ) : Except Trap (List PageViewItem) :=
  if count < 1 then .error .invalidRange
  else .ok (⟨1, true, false⟩ :: (List.range (count - 1)).map fun i => ⟨i + 2, false, false⟩)

def PageContainer.currenteIndex (index : ℕ) (p : PageContainer) : Except Trap PageContainer :=
  if index = p.currentIndex then .ok p
  else do
    let item ← element p.items index
    let items ← assign p.items index (animationItem item true false)
    let last ← element items p.currentIndex
    let items ← assign items p.currentIndex
      (animationItem last false (decide (p.currentIndex < index)))
    return ⟨items, index⟩

def PageView.currentIndex (index : ℕ) (v : PageView) : Except Trap PageView :=
  if index < v.itemsCount then do
    let containerView ← v.containerView.currenteIndex index
    return { v with containerView := containerView }
  else .ok v

/-- The dot on whose image the fill animation is centred. -/
def PageView.positionItemIndex (index : ℕ) (v : PageView) : Except Trap (Option PageViewItem) :=
  if index < v.itemsCount then do
    let item ← element v.containerView.items index
    return some item
  else .ok none

/-- The first dot whose frame has the point; `inside` tells it for each tag. -/
def PageView.hitTest (inside : ℕ → Bool) (v : PageView) : Option PageViewItem :=
  v.containerView.items.find? fun item => inside item.tag

/-- The images of the dots are set from the pages, which is where a dot without a page
would trap. -/
def createPageView (itemsCount : ℕ) (itemsInfo : List OnboardingItemInfo) :
    Except Trap PageView := do
  let items ← createItems itemsCount
  let pageView ← PageView.currentIndex 0 ⟨itemsCount, ⟨items, 0⟩⟩
  let _ ← (List.range items.length).mapM (element itemsInfo)
  return pageView

def backgroundColor (itemsInfo : List OnboardingItemInfo) (index : ℕ) : Except Trap UIColor := do
  let info ← element itemsInfo index
  return info.color

def createItem (itemsInfo : List OnboardingItemInfo) (index : ℕ) :
    Except Trap OnboardingContentViewItem := do
  let info ← element itemsInfo index
  return ⟨info.informationImage, info.title, info.description⟩

def commonInit (onboardingItems : List OnboardingItemInfo) : Except Trap PaperOnboarding := do
  let itemsInfo ← (List.range onboardingItems.length).mapM (element onboardingItems)
  let fillColor ← backgroundColor itemsInfo 0
  let currentItem ← createItem itemsInfo 0
  let pageView ← createPageView onboardingItems.length itemsInfo
  return ⟨0, onboardingItems.length, itemsInfo, fillColor, pageView, currentItem⟩

/-- `configureUI` and the view's `commonInit`, which runs when the data source is set. -/
def load (onboardingItems : List OnboardingItemInfo) : Except Trap OnboardingController := do
  let onboardingView ← commonInit onboardingItems
  return ⟨onboardingItems, onboardingView, 0, 0⟩

def configureOnboardingDataSource : List OnboardingItemInfo :=
  [⟨"fruit icon", "카드 맞추기",
      "Easy, Normal, Hard 모드에 따라 원하는 게임 플레이!\n선택시 바로 게임이 실행되니 주의하세요. 🤗",
      myBlueColor⟩,
    ⟨"brain", "기억력 항샹", "카드 게임을 통해 기억력 향상시켜보세요! 💁🏻", myGreenColor⟩,
    ⟨"timer", "제한 시간",
      "제한 시간 안에 게임을 끝내보세요!\nEasy(30초), Normal(40초), Hard(50초) ⏱",
      myYellowColor⟩]

def viewDidLoad : Except Trap OnboardingController := load configureOnboardingDataSource

/-- `OnboardingViewModel.shouldShowGetStartedButton`. -/
def shouldShowGetStartedButton (itemCount : ℕ) (index : ℤ) : Bool := index == itemCount - 1

def animateGetStartedButton (shouldShow : Bool) (c : OnboardingController) :
    OnboardingController :=
  { c with getStartButtonAlpha := if shouldShow then 1 else 0 }

def onboardingWillTransitonToIndex (index : ℤ) (c : OnboardingController) :
    OnboardingController :=
  animateGetStartedButton (shouldShowGetStartedButton c.onboardingItems.length index) c

/-- `PaperOnboarding.currentIndex(_:animated:)`; a page after the last one is announced to a
delegate method that does nothing. -/
def currentIndex (index : ℤ) (c : OnboardingController) : Except Trap OnboardingController :=
  if 0 ≤ index ∧ index < c.onboardingView.itemsCount then do
    let c := onboardingWillTransitonToIndex index c
    let v := { c.onboardingView with currentIndex := index.toNat }
    let position ← v.pageView.positionItemIndex index.toNat
    let fillColor ←
      if position.isSome then backgroundColor v.itemsInfo v.currentIndex else .ok v.fillColor
    let pageView ← v.pageView.currentIndex index.toNat
    let currentItem ← createItem v.itemsInfo index.toNat
    return { c with onboardingView := { v with fillColor, pageView, currentItem } }
  else .ok c

inductive Direction
  | right
  | left
  deriving DecidableEq, Repr

def gestureControlDidSwipe (direction : Direction) (c : OnboardingController) :
    Except Trap OnboardingController :=
  match direction with
  | .right => currentIndex (c.onboardingView.currentIndex - 1) c
  | .left => currentIndex (c.onboardingView.currentIndex + 1) c

def tapAction (inside : ℕ → Bool) (c : OnboardingController) : Except Trap OnboardingController :=
  match c.onboardingView.pageView.hitTest inside with
  | none => .ok c
  | some pageItem =>
    let index : ℤ := pageItem.tag - 1
    if index = c.onboardingView.currentIndex then .ok c
    else do
      let c ← currentIndex index c
      return onboardingWillTransitonToIndex index c

/-- Tells the home screen, which writes the flag and dismisses the onboarding. -/
def dismissOnboarding (c : OnboardingController) : OnboardingController :=
  { c with dismissals := c.dismissals + 1 }

inductive Event
  | swipe (direction : Direction)
  | tap (inside : ℕ → Bool)
  | touchGetStartButton

def handle (e : Event) (c : OnboardingController) : Except Trap OnboardingController :=
  match e with
  | .swipe direction => gestureControlDidSwipe direction c
  | .tap inside => tapAction inside c
  | .touchGetStartButton => .ok (dismissOnboarding c)

/-- A transparent button gets no touches. -/
def Delivered (c : OnboardingController) : Event → Prop
  | .touchGetStartButton => c.getStartButtonAlpha ≠ 0
  | _ => True

def Step (c : OnboardingController) (e : Event) (c' : OnboardingController) : Prop :=
  Delivered c e ∧ handle e c = .ok c'

end CardPang.Onboarding
