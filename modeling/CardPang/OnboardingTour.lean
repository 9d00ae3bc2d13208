import CardPang.PaperOnboarding
import CardPang.LabelledRun

/-!
# Turning the pages

A tour of the pages is the page it is on and the dots filled behind it. The screen is a
function of the tour, and each event of the screen is one move of the tour.
-/
namespace CardPang.Onboarding
open LabelledRun

/-- A tour of the pages; it is always on one of them. -/
structure Tour (items : List OnboardingItemInfo) where
  page : Fin items.length
  filled : Fin items.length → Bool
  dismissals : ℕ

variable {items : List OnboardingItemInfo}

def Tour.start (h : 0 < items.length) : Tour items := ⟨⟨0, h⟩, fun _ => false, 0⟩

/-- The page left is filled if the tour went forward, the page reached is not. -/
def Tour.goTo (j : Fin items.length) (t : Tour items) : Tour items :=
  if j = t.page then t
  else
    { t with
      page := j
      filled := Function.update (Function.update t.filled j false) t.page (decide (t.page < j)) }

/-- The page of the first dot hit. -/
def touchedPage (items : List OnboardingItemInfo) (inside : ℕ → Bool) :
    Option (Fin items.length) :=
  (List.finRange items.length).find? fun i => inside (i + 1)

def Tour.move (t : Tour items) : Event → Tour items
  | .swipe .right => t.goTo ⟨t.page - 1, by omega⟩
  | .swipe .left => if h : t.page + 1 < items.length then t.goTo ⟨t.page + 1, h⟩ else t
  | .tap inside =>
    match touchedPage items inside with
    | none => t
    | some j => t.goTo j
  | .touchGetStartButton => { t with dismissals := t.dismissals + 1 }

/-- The button is on the last page, but not on a page that is the only one. -/
def Tour.AtEnd (t : Tour items) : Prop := t.page + 1 = items.length ∧ 2 ≤ items.length

instance (t : Tour items) : Decidable t.AtEnd := inferInstanceAs (Decidable (_ ∧ _))

def Tour.dot (t : Tour items) (i : Fin items.length) : PageViewItem :=
  ⟨i + 1, decide (i = t.page), t.filled i⟩

def OnboardingItemInfo.content (info : OnboardingItemInfo) : OnboardingContentViewItem :=
  ⟨info.informationImage, info.title, info.description⟩

/-- The screen of a tour. -/
def Tour.screen (t : Tour items) : OnboardingController where
  onboardingItems := items
  onboardingView :=
    { currentIndex := t.page
      itemsCount := items.length
      itemsInfo := items
      fillColor := (items.get t.page).color
      pageView := ⟨items.length, ⟨List.ofFn t.dot, t.page⟩⟩
      currentItem := (items.get t.page).content }
  getStartButtonAlpha := if t.AtEnd then 1 else 0
  dismissals := t.dismissals

section Pages

theorem element_get (i : Fin items.length) : element items i = .ok (items.get i) := by
  simp [element_of_lt]

theorem mapM_element {α : Type} (xs : List α) (is : List ℕ) (h : ∀ i ∈ is, i < xs.length) :
    ∃ ys, is.mapM (element xs) = .ok ys ∧ ys.map some = is.map (xs[·]?) := by
  induction is with
  | nil => exact ⟨[], rfl, rfl⟩
  | cons i is ih =>
    have hi : i < xs.length := h i List.mem_cons_self
    obtain ⟨ys, hys, heq⟩ := ih fun j hj => h j (List.mem_cons_of_mem i hj)
    refine ⟨xs[i] :: ys, ?_, ?_⟩
    · rw [List.mapM_cons, element_of_lt hi, hys]
      rfl
    · simp [heq, List.getElem?_eq_getElem hi]

theorem mapM_element_range {α : Type} (xs : List α) :
    (List.range xs.length).mapM (element xs) = .ok xs := by
  obtain ⟨ys, hys, heq⟩ := mapM_element xs (List.range xs.length) fun i hi =>
    List.mem_range.mp hi
  have hsame : ys.map some = xs.map some := by
    rw [heq]
    refine List.ext_getElem (by simp) ?_
    intro i h1 h2
    simp
  rw [hys, List.map_injective_iff.mpr (Option.some_injective α) hsame]

theorem backgroundColor_get (i : Fin items.length) :
    backgroundColor items i = .ok (items.get i).color := by
  simp only [backgroundColor, element_get]
  rfl

theorem createItem_get (i : Fin items.length) :
    createItem items i = .ok (items.get i).content := by
  simp only [createItem, element_get]
  rfl

end Pages

section Dots

variable {n : ℕ} (f : Fin n → PageViewItem)

theorem element_ofFn (i : Fin n) : element (List.ofFn f) i = .ok (f i) := by
  simp [element]

theorem assign_ofFn (i : Fin n) (x : PageViewItem) :
    assign (List.ofFn f) i x = .ok (List.ofFn (Function.update f i x)) := by
  rw [assign_of_lt (by simp)]
  congr 1
  refine List.ext_getElem (by simp) ?_
  intro j h1 h2
  have hj : j < n := by simpa using h2
  by_cases hji : j = i
  · subst hji
    simp
  · have hne : (⟨j, hj⟩ : Fin n) ≠ i := fun h => hji (congrArg Fin.val h)
    simp [Ne.symm hji, Function.update_of_ne hne]

end Dots

variable (t : Tour items)

theorem Tour.goTo_of_ne {j : Fin items.length} (h : j ≠ t.page) :
    t.goTo j =
      { t with
        page := j
        filled :=
          Function.update (Function.update t.filled j false) t.page (decide (t.page < j)) } := by
  simp [Tour.goTo, h]

@[simp] theorem Tour.goTo_page (j : Fin items.length) : (t.goTo j).page = j := by
  rw [Tour.goTo]
  split_ifs with h
  · exact h.symm
  · rfl

@[simp] theorem Tour.goTo_dismissals (j : Fin items.length) :
    (t.goTo j).dismissals = t.dismissals := by
  rw [Tour.goTo]
  split_ifs <;> rfl

theorem Tour.goTo_dot {j : Fin items.length} (h : j ≠ t.page) :
    (t.goTo j).dot =
      Function.update (Function.update t.dot j (animationItem (t.dot j) true false)) t.page
        (animationItem (t.dot t.page) false (decide (t.page < j))) := by
  funext i
  rw [t.goTo_of_ne h]
  by_cases hi : i = t.page
  · subst hi
    simp [Tour.dot, animationItem, Ne.symm h]
  · by_cases hj : i = j
    · subst hj
      simp [Tour.dot, animationItem, hi]
    · simp [Tour.dot, hi, hj]

theorem currenteIndex_dots {j : Fin items.length} (h : j ≠ t.page) :
    PageContainer.currenteIndex j ⟨List.ofFn t.dot, t.page⟩ =
      .ok ⟨List.ofFn (t.goTo j).dot, (t.goTo j).page⟩ := by
  have hval : (j : ℕ) ≠ t.page := fun he => h (Fin.ext he)
  simp only [PageContainer.currenteIndex, hval, if_false, element_ofFn, assign_ofFn,
    t.goTo_dot h, Tour.goTo_page]
  simp only [bind, Except.bind, element_ofFn, assign_ofFn, Function.update_of_ne (Ne.symm h)]
  rfl

theorem Tour.length_of_ne {j : Fin items.length} (h : j ≠ t.page) : 2 ≤ items.length := by
  have hval : (j : ℕ) ≠ t.page := fun he => h (Fin.ext he)
  omega

theorem shouldShowGetStartedButton_iff {j : Fin items.length} (h : j ≠ t.page) :
    shouldShowGetStartedButton items.length j = true ↔ (t.goTo j).AtEnd := by
  have htwo := t.length_of_ne h
  rw [t.goTo_of_ne h]
  simp only [shouldShowGetStartedButton, beq_iff_eq, Tour.AtEnd]
  omega

/-- Turning to another page, as the code does it. -/
theorem currentIndex_screen {j : Fin items.length} (h : j ≠ t.page) :
    currentIndex j t.screen = .ok (t.goTo j).screen := by
  have hin : (0 : ℤ) ≤ j ∧ (j : ℤ) < items.length := by omega
  have hbutton := shouldShowGetStartedButton_iff t h
  have hdots := currenteIndex_dots t h
  simp only [currentIndex, Tour.screen, hin, and_self, if_true, Int.toNat_natCast,
    onboardingWillTransitonToIndex, animateGetStartedButton, PageView.positionItemIndex,
    PageView.currentIndex, j.isLt, element_ofFn, backgroundColor_get, createItem_get, hdots]
  simp only [bind, Except.bind, pure, Except.pure, Option.isSome_some, if_true, Tour.goTo_page,
    Tour.goTo_dismissals, hbutton]

theorem currentIndex_outside {index : ℤ} (h : ¬ (0 ≤ index ∧ index < items.length)) :
    currentIndex index t.screen = .ok t.screen :=
  if_neg h

theorem Tour.goTo_self : t.goTo t.page = t := by
  simp [Tour.goTo]

theorem gestureControlDidSwipe_screen (direction : Direction) :
    gestureControlDidSwipe direction t.screen = .ok (t.move (.swipe direction)).screen := by
  cases direction with
  | right =>
    by_cases hzero : (t.page : ℕ) = 0
    · -- The page before the first one does not exist, and the code does nothing.
      have hout : ¬ ((0 : ℤ) ≤ (t.page : ℤ) - 1 ∧ (t.page : ℤ) - 1 < items.length) := by omega
      have hsame : (⟨t.page - 1, by omega⟩ : Fin items.length) = t.page := by
        ext
        change (t.page : ℕ) - 1 = t.page
        omega
      change currentIndex ((t.page : ℤ) - 1) t.screen = _
      rw [currentIndex_outside t hout, Tour.move, hsame, t.goTo_self]
    · have hne : (⟨t.page - 1, by omega⟩ : Fin items.length) ≠ t.page := by
        intro he
        have hval : (t.page : ℕ) - 1 = t.page := congrArg Fin.val he
        omega
      rw [Tour.move, ← currentIndex_screen t hne]
      change currentIndex ((t.page : ℤ) - 1) t.screen = currentIndex ((t.page - 1 : ℕ) : ℤ) t.screen
      congr 1
      omega
  | left =>
    change currentIndex ((t.page : ℤ) + 1) t.screen = _
    by_cases hlast : (t.page : ℕ) + 1 < items.length
    · have hne : (⟨t.page + 1, hlast⟩ : Fin items.length) ≠ t.page := by
        intro he
        have hval : (t.page : ℕ) + 1 = t.page := congrArg Fin.val he
        omega
      rw [Tour.move, dif_pos hlast, ← currentIndex_screen t hne]
      rfl
    · have hout : ¬ ((0 : ℤ) ≤ (t.page : ℤ) + 1 ∧ (t.page : ℤ) + 1 < items.length) := by omega
      rw [Tour.move, dif_neg hlast, currentIndex_outside t hout]

theorem hitTest_screen (inside : ℕ → Bool) :
    t.screen.onboardingView.pageView.hitTest inside = (touchedPage items inside).map t.dot := by
  simp [Tour.screen, PageView.hitTest, touchedPage, List.ofFn_eq_map, List.find?_map,
    Function.comp_def, Tour.dot]

theorem onboardingWillTransitonToIndex_screen {j : Fin items.length} (h : j ≠ t.page) :
    onboardingWillTransitonToIndex j (t.goTo j).screen = (t.goTo j).screen := by
  have hbutton := shouldShowGetStartedButton_iff t h
  simp only [onboardingWillTransitonToIndex, animateGetStartedButton, Tour.screen, hbutton]

theorem tapAction_screen (inside : ℕ → Bool) :
    tapAction inside t.screen = .ok (t.move (.tap inside)).screen := by
  rw [tapAction, hitTest_screen, Tour.move]
  cases touchedPage items inside with
  | none => rfl
  | some j =>
    have hindex : ((t.dot j).tag : ℤ) - 1 = j := by simp [Tour.dot]
    simp only [Option.map_some, hindex]
    by_cases hj : j = t.page
    · subst hj
      simp [Tour.screen, t.goTo_self]
    · have hval : (j : ℤ) ≠ t.screen.onboardingView.currentIndex := by
        simp only [Tour.screen]
        omega
      rw [if_neg hval, currentIndex_screen t hj]
      exact congrArg Except.ok (onboardingWillTransitonToIndex_screen t hj)

/-- Every event of the screen is one move of the tour. -/
theorem handle_screen (e : Event) : handle e t.screen = .ok (t.move e).screen := by
  cases e with
  | swipe direction => exact gestureControlDidSwipe_screen t direction
  | tap inside => exact tapAction_screen t inside
  | touchGetStartButton => rfl

theorem createItems_start (h : 0 < items.length) :
    createItems items.length = .ok (List.ofFn (Tour.start h).dot) := by
  rw [createItems, if_neg (by omega)]
  congr 1
  refine List.ext_getElem (by simp; omega) ?_
  intro i h1 h2
  cases i with
  | zero => simp [Tour.start, Tour.dot]
  | succ i => simp [Tour.start, Tour.dot]

theorem start_not_atEnd (h : 0 < items.length) : ¬ (Tour.start h).AtEnd := by
  rintro ⟨hlast, htwo⟩
  change 0 + 1 = items.length at hlast
  omega

theorem createPageView_start (h : 0 < items.length) :
    createPageView items.length items =
      .ok ⟨items.length, ⟨List.ofFn (Tour.start h).dot, 0⟩⟩ := by
  have hpage : PageView.currentIndex 0 ⟨items.length, ⟨List.ofFn (Tour.start h).dot, 0⟩⟩ =
      .ok ⟨items.length, ⟨List.ofFn (Tour.start h).dot, 0⟩⟩ := by
    simp [PageView.currentIndex, PageContainer.currenteIndex, h, bind, Except.bind, pure,
      Except.pure]
  rw [createPageView, createItems_start h]
  simp only [bind, Except.bind, hpage, List.length_ofFn, mapM_element_range]
  rfl

theorem load_eq (h : 0 < items.length) : load items = .ok (Tour.start h).screen := by
  have hcolor : backgroundColor items 0 = .ok (items.get (Tour.start h).page).color :=
    backgroundColor_get (Tour.start h).page
  have hitem : createItem items 0 = .ok (items.get (Tour.start h).page).content :=
    createItem_get (Tour.start h).page
  simp only [load, commonInit, mapM_element_range, bind, Except.bind, hcolor, hitem,
    createPageView_start h, pure, Except.pure, Tour.screen, start_not_atEnd h, if_false]
  rfl

/-- Without pages the first one is missed while the view is created. -/
theorem load_nil : load [] = .error .indexOutOfRange := rfl

section Run

variable {c₀ c c' : OnboardingController} {es : List Event} {e : Event}

theorem load_ok (h : load items = .ok c₀) :
    ∃ hpos : 0 < items.length, c₀ = (Tour.start hpos).screen := by
  cases items with
  | nil => simp [load_nil] at h
  | cons info items =>
    have hpos : 0 < (info :: items).length := Nat.succ_pos _
    rw [load_eq hpos] at h
    exact ⟨hpos, (Except.ok.inj h).symm⟩

theorem step_screen (t : Tour items) (h : Step t.screen e c') : c' = (t.move e).screen := by
  have hhandle := h.2
  rw [handle_screen] at hhandle
  exact (Except.ok.inj hhandle).symm

theorem move_step (t : Tour items) (h : Delivered t.screen e) :
    Step t.screen e (t.move e).screen :=
  ⟨h, handle_screen t e⟩

/-- Every state of the screen is the screen of a tour. -/
theorem run_screen (hload : load items = .ok c₀) (hrun : Run Step c₀ es c) :
    ∃ t : Tour items, c = t.screen := by
  refine Run.invariant (I := fun c => ∃ t : Tour items, c = t.screen) ?_ ?_ hrun
  · obtain ⟨hpos, rfl⟩ := load_ok hload
    exact ⟨_, rfl⟩
  · rintro c e c' ⟨t, rfl⟩ hs
    exact ⟨t.move e, step_screen t hs⟩

/-- The dots, the page, its colour and the button agree. -/
structure InStep (items : List OnboardingItemInfo) (c : OnboardingController) : Prop where
  page : ∃ info, items[c.onboardingView.currentIndex]? = some info ∧
    c.onboardingView.fillColor = info.color ∧ c.onboardingView.currentItem = info.content
  dots : c.onboardingView.pageView.containerView.items.length = items.length
  dot : ∀ i d, c.onboardingView.pageView.containerView.items[i]? = some d →
    d.tag = i + 1 ∧ (d.selected = true ↔ i = c.onboardingView.currentIndex)
  button : c.getStartButtonAlpha ≠ 0 ↔
    c.onboardingView.currentIndex + 1 = items.length ∧ 2 ≤ items.length

theorem screen_dots {t : Tour items} {i : ℕ} {d : PageViewItem}
    (h : t.screen.onboardingView.pageView.containerView.items[i]? = some d) :
    ∃ hi, d = t.dot ⟨i, hi⟩ := by
  change (List.ofFn t.dot)[i]? = some d at h
  obtain ⟨hi, hd⟩ := List.getElem?_eq_some_iff.mp h
  have hlt : i < items.length := by simpa using hi
  exact ⟨hlt, by simpa using hd.symm⟩

theorem screen_inStep (t : Tour items) : InStep items t.screen := by
  constructor
  · refine ⟨items.get t.page, ?_, rfl, rfl⟩
    simp [Tour.screen]
  · simp [Tour.screen]
  · intro i d hd
    obtain ⟨hi, rfl⟩ := screen_dots hd
    refine ⟨rfl, ?_⟩
    simp [Tour.dot, Tour.screen, Fin.ext_iff]
  · change (if t.AtEnd then 1 else 0) ≠ 0 ↔ t.AtEnd
    by_cases hend : t.AtEnd <;> simp [hend]

/-- Whatever the user does, no event traps, and the dots, the page, its colour and the
button agree. -/
theorem onboarding_in_step (hload : load items = .ok c₀) (hrun : Run Step c₀ es c) :
    InStep items c ∧ ∀ e, ∃ c', handle e c = .ok c' := by
  obtain ⟨t, rfl⟩ := run_screen hload hrun
  exact ⟨screen_inStep t, fun e => ⟨_, handle_screen t e⟩⟩

/-- The app's tour, on its first page. -/
def firstPage : Tour configureOnboardingDataSource := Tour.start (by decide)

theorem viewDidLoad_eq : viewDidLoad = .ok firstPage.screen := load_eq (by decide)

theorem onboarding_in_step_after_swipe :
    InStep configureOnboardingDataSource (firstPage.move (.swipe .left)).screen ∧
      ∀ e, ∃ c', handle e (firstPage.move (.swipe .left)).screen = .ok c' :=
  onboarding_in_step viewDidLoad_eq (Run.one (move_step firstPage (e := .swipe .left) trivial))

/-- Swiping left leads to the last page. -/
theorem swipes_to_last (n : ℕ) (t : Tour items) (h : t.page + 1 + n = items.length) :
    ∃ t' : Tour items, Run Step t.screen (List.replicate n (.swipe .left)) t'.screen ∧
      t'.page + 1 = items.length ∧ t'.dismissals = t.dismissals := by
  induction n generalizing t with
  | zero => exact ⟨t, Run.nil _, h, rfl⟩
  | succ n ih =>
    have hlast : (t.page : ℕ) + 1 < items.length := by omega
    have hmove : t.move (.swipe .left) = t.goTo ⟨t.page + 1, hlast⟩ := by
      rw [Tour.move, dif_pos hlast]
    have hs := move_step t (e := .swipe .left) trivial
    rw [hmove] at hs
    have hnext : (t.goTo ⟨t.page + 1, hlast⟩).page + 1 + n = items.length := by
      rw [Tour.goTo_page]
      change (t.page : ℕ) + 1 + 1 + n = items.length
      omega
    obtain ⟨t', hrun, hend, hcount⟩ := ih _ hnext
    exact ⟨t', Run.cons hs hrun, hend, by rw [hcount, Tour.goTo_dismissals]⟩

theorem touch_step {t : Tour items} (h : t.AtEnd) :
    Step t.screen .touchGetStartButton (t.move .touchGetStartButton).screen := by
  apply move_step
  simp [Delivered, Tour.screen, h]

theorem step_dismissals {t : Tour items} (h : Step t.screen e c')
    (hcount : c'.dismissals ≠ t.dismissals) : t.AtEnd := by
  have hc' := step_screen t h
  subst hc'
  cases e with
  | swipe direction =>
    refine absurd ?_ hcount
    cases direction with
    | right => simp [Tour.move, Tour.screen]
    | left =>
      simp only [Tour.move, Tour.screen]
      split_ifs <;> simp
  | tap inside =>
    refine absurd ?_ hcount
    simp only [Tour.move]
    cases touchedPage items inside with
    | none => rfl
    | some j => simp [Tour.screen]
  | touchGetStartButton => exact (screen_inStep t).button.mp h.1

/-- The user can always finish the onboarding, unless it has a single page: then never. -/
theorem onboarding_finishes_iff (hload : load items = .ok c₀) (hrun : Run Step c₀ es c) :
    (∃ fs d, Run Step c fs d ∧ c.dismissals < d.dismissals) ↔ 2 ≤ items.length := by
  obtain ⟨t, rfl⟩ := run_screen hload hrun
  constructor
  · rintro ⟨fs, d, hfs, hlt⟩
    by_contra hone
    have hsame : d.dismissals = t.dismissals ∧ ∃ t' : Tour items, d = t'.screen := by
      refine Run.invariant
        (I := fun d => d.dismissals = t.dismissals ∧ ∃ t' : Tour items, d = t'.screen)
        ⟨rfl, t, rfl⟩ ?_ hfs
      rintro d e d' ⟨hd, t', rfl⟩ hs
      refine ⟨?_, t'.move e, step_screen t' hs⟩
      by_contra hcount
      exact hone (step_dismissals hs fun h => hcount (h.trans hd)).2
    exact absurd hlt (by simp [hsame.1, Tour.screen])
  · intro htwo
    obtain ⟨t', hswipes, hend, hcount⟩ :=
      swipes_to_last (items.length - (t.page + 1)) t (by omega)
    refine ⟨_, _, Run.snoc hswipes (touch_step ⟨hend, htwo⟩), ?_⟩
    change t.dismissals < t'.dismissals + 1
    omega

/-- The onboarding of the app has pages enough. -/
theorem onboarding_finishes_from_start :
    ∃ fs d, Run Step firstPage.screen fs d ∧ firstPage.screen.dismissals < d.dismissals :=
  (onboarding_finishes_iff viewDidLoad_eq (Run.nil firstPage.screen)).mpr (by decide)

/-- The filled dots are those of the pages before the current one. -/
def Progress (c : OnboardingController) : Prop :=
  ∀ i d, c.onboardingView.pageView.containerView.items[i]? = some d →
    (d.filled = true ↔ i < c.onboardingView.currentIndex)

/-- A tap on a dot goes at most one page on or back. -/
def Neighbouring (c : OnboardingController) : Event → Prop
  | .tap inside => ∀ item, c.onboardingView.pageView.hitTest inside = some item →
      |(item.tag : ℤ) - 1 - c.onboardingView.currentIndex| ≤ 1
  | _ => True

theorem progress_screen (t : Tour items) :
    Progress t.screen ↔ ∀ i, t.filled i = true ↔ i < t.page := by
  constructor
  · intro h i
    exact h i (t.dot i) (by simp [Tour.screen])
  · intro h i d hd
    obtain ⟨hi, rfl⟩ := screen_dots hd
    exact h ⟨i, hi⟩

theorem goTo_filled {t : Tour items} {j : Fin items.length} (h : j ≠ t.page)
    (i : Fin items.length) :
    (t.goTo j).filled i = true ↔
      (i = t.page ∧ t.page < j) ∨ (i ≠ t.page ∧ i ≠ j ∧ t.filled i = true) := by
  rw [t.goTo_of_ne h]
  by_cases hi : i = t.page
  · subst hi
    simp
  · by_cases hj : i = j
    · subst hj
      simp [hi]
    · simp [hi, hj]

/-- A far jump leaves a page between with its dot in the wrong state. -/
theorem goTo_progress_iff {t : Tour items} (h : ∀ i, t.filled i = true ↔ i < t.page)
    (j : Fin items.length) :
    (∀ i, (t.goTo j).filled i = true ↔ i < (t.goTo j).page) ↔
      |(j : ℤ) - (t.page : ℕ)| ≤ 1 := by
  by_cases hj : j = t.page
  · subst hj
    simp [t.goTo_self, h]
  have hval : (j : ℕ) ≠ t.page := fun he => hj (Fin.ext he)
  simp only [goTo_filled hj, h, Tour.goTo_page, abs_le]
  constructor
  · intro hall
    by_contra hfar
    cases lt_or_gt_of_ne hval with
    | inl hback =>
      have hbetween := hall ⟨j + 1, by omega⟩
      simp only [Fin.lt_def, Fin.ext_iff, ne_eq] at hbetween
      omega
    | inr hforward =>
      have hbetween := hall ⟨t.page + 1, by omega⟩
      simp only [Fin.lt_def, Fin.ext_iff, ne_eq] at hbetween
      omega
  · intro hnear i
    simp only [Fin.lt_def, Fin.ext_iff, ne_eq]
    omega

theorem move_progress_iff {t : Tour items} (h : ∀ i, t.filled i = true ↔ i < t.page) (e : Event) :
    (∀ i, (t.move e).filled i = true ↔ i < (t.move e).page) ↔ Neighbouring t.screen e := by
  cases e with
  | swipe direction =>
    refine iff_of_true ?_ trivial
    cases direction with
    | right =>
      refine (goTo_progress_iff h _).mpr ?_
      change |((t.page - 1 : ℕ) : ℤ) - (t.page : ℕ)| ≤ 1
      rw [abs_le]
      omega
    | left =>
      by_cases hlast : (t.page : ℕ) + 1 < items.length
      · rw [Tour.move, dif_pos hlast]
        refine (goTo_progress_iff h _).mpr ?_
        simp
      · rw [Tour.move, dif_neg hlast]
        exact h
  | tap inside =>
    simp only [Neighbouring, hitTest_screen, Tour.move]
    cases touchedPage items inside with
    | none => simpa using h
    | some j =>
      rw [goTo_progress_iff h j]
      simp [Tour.dot, Tour.screen]
  | touchGetStartButton => exact iff_of_true h trivial

/-- The filled dots are those of the pages before the current one all along, exactly if no
tap on a dot skips a page. -/
theorem dots_show_progress_iff (hload : load items = .ok c₀) (hrun : Run Step c₀ es c) :
    ¬ HasHeld Step (fun c => ¬ Progress c) c₀ es c ↔
      Run (fun c e c' => Step c e c' ∧ Neighbouring c e) c₀ es c := by
  have hstart := load_ok hload
  refine Run.never_iff (I := fun c => ∃ t : Tour items, c = t.screen) ?_ ?_ ?_ ?_ ?_ hrun
  · obtain ⟨hpos, rfl⟩ := hstart
    exact ⟨_, rfl⟩
  · rintro c e c' ⟨t, rfl⟩ hs
    exact ⟨t.move e, step_screen t hs⟩
  · rintro c e c' d ⟨t, rfl⟩ hs hs'
    rw [step_screen t hs, step_screen t hs']
  · obtain ⟨hpos, rfl⟩ := hstart
    rw [progress_screen]
    simp [Tour.start, Fin.lt_def]
  · rintro c e c' ⟨t, rfl⟩ hprogress hs
    rw [step_screen t hs, progress_screen]
    exact move_progress_iff ((progress_screen t).mp hprogress) e

/-- The last dot is tapped on the first page: the dots between stay empty. -/
theorem dots_show_progress_iff_skip :
    HasHeld Step (fun c => ¬ Progress c) firstPage.screen [.tap (· == 3)]
      (firstPage.move (.tap (· == 3))).screen := by
  have hrun : Run Step firstPage.screen [.tap (· == 3)] (firstPage.move (.tap (· == 3))).screen :=
    Run.one (move_step firstPage (e := .tap (· == 3)) trivial)
  by_contra hnever
  have hnear := ((dots_show_progress_iff viewDidLoad_eq hrun).mp hnever).one_step.2
  have hjump := hnear _ rfl
  exact absurd hjump (by decide)

end Run

end CardPang.Onboarding
