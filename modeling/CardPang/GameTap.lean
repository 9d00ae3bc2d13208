import CardPang.GameController

/-! What one tap does, said once. Every result about taps below goes through
`didSelectItemAt_effect`, so a change of the tap handler is felt only here. -/
namespace CardPang.GameController
open CardModel LabelledRun MemoryGame

namespace Controller

/-- The card shown on a row. -/
def cardAt (c : Controller) (row : ℕ) : Card := c.heap.card (c.cardArray.getD row ⟨0⟩)

def timerValid (c : Controller) : Prop := c.timer = some ⟨true⟩

def opened (c : Controller) (row : ℕ) (r : CardRef) : Controller :=
  { c.setFlipped r true with firstFlippedCardIndex := some row }

def mismatched (c : Controller) (q r : CardRef) : Controller :=
  { ((c.setFlipped r true).setFlipped q false).setFlipped r false with
    firstFlippedCardIndex := none }

/-- The cards of a matching pair just before the game is checked for its end. -/
def paired (c : Controller) (q r : CardRef) : Controller :=
  ((c.setFlipped r true).setMatched q).setMatched r

theorem cardAt_eq {c : Controller} {row : ℕ} {r : CardRef} (h : c.cardArray[row]? = some r) :
    c.cardAt row = c.heap.card r := by
  simp [cardAt, List.getD_eq_getElem?_getD, h]

theorem exists_ref {c : Controller} {row : ℕ} (h : row < c.cardArray.length) :
    ∃ r, c.cardArray[row]? = some r :=
  ⟨c.cardArray[row], List.getElem?_eq_getElem h⟩

theorem lt_of_ref {c : Controller} {row : ℕ} {r : CardRef} (h : c.cardArray[row]? = some r) :
    row < c.cardArray.length :=
  (List.getElem?_eq_some_iff.mp h).1

theorem ref_inj {c : Controller} {i j : ℕ} {r : CardRef} (hn : c.cardArray.Nodup)
    (hi : c.cardArray[i]? = some r) (hj : c.cardArray[j]? = some r) : i = j :=
  (List.getElem?_inj (lt_of_ref hi) hn).mp (hi.trans hj.symm)

/-- Writing one card object changes the card of one row only. -/
theorem cardAt_modify {c : Controller} {i row : ℕ} {r : CardRef} {f : Card → Card}
    (hn : c.cardArray.Nodup) (hr : c.cardArray[row]? = some r) (hi : i < c.cardArray.length) :
    ({ c with heap := c.heap.modify r f }).cardAt i =
      if i = row then f (c.cardAt i) else c.cardAt i := by
  obtain ⟨s, hs⟩ := exists_ref hi
  rw [cardAt_eq (c := { c with heap := c.heap.modify r f }) hs, cardAt_eq hs, Heap.modify_card]
  by_cases he : i = row
  · subst he
    obtain rfl : s = r := Option.some.inj (hs.symm.trans hr)
    simp
  · have hne : s ≠ r := by
      rintro rfl
      exact he (ref_inj hn hs hr)
    simp [he, hne]

theorem cardAt_setFlipped {c : Controller} {i row : ℕ} {r : CardRef} {b : Bool}
    (hn : c.cardArray.Nodup) (hr : c.cardArray[row]? = some r) (hi : i < c.cardArray.length) :
    (c.setFlipped r b).cardAt i =
      { imageName := (c.cardAt i).imageName
        isFlipped := if i = row then b else (c.cardAt i).isFlipped
        isMatched := (c.cardAt i).isMatched } := by
  have h := cardAt_modify (f := fun x => { x with isFlipped := b }) hn hr hi
  change (c.setFlipped r b).cardAt i = _ at h
  rw [h]
  split_ifs <;> rfl

theorem cardAt_setMatched {c : Controller} {i row : ℕ} {r : CardRef}
    (hn : c.cardArray.Nodup) (hr : c.cardArray[row]? = some r) (hi : i < c.cardArray.length) :
    (c.setMatched r).cardAt i =
      { imageName := (c.cardAt i).imageName
        isFlipped := (c.cardAt i).isFlipped
        isMatched := if i = row then true else (c.cardAt i).isMatched } := by
  have h := cardAt_modify (f := fun x => { x with isMatched := true }) hn hr hi
  change (c.setMatched r).cardAt i = _ at h
  rw [h]
  split_ifs <;> rfl

theorem isWon_iff {c : Controller} :
    c.isWon = true ↔ ∀ i < c.cardArray.length, (c.cardAt i).isMatched = true := by
  unfold isWon
  rw [List.all_eq_true]
  constructor
  · intro h i hi
    obtain ⟨r, hr⟩ := exists_ref hi
    rw [cardAt_eq hr]
    exact h r (List.mem_of_getElem? hr)
  · intro h r hr
    obtain ⟨i, hi⟩ := List.mem_iff_getElem?.mp hr
    rw [← cardAt_eq hi]
    exact h i (lt_of_ref hi)

end Controller

@[simp] theorem checkGameEnded_heap (m : ModeSettings) (c : Controller) :
    (checkGameEnded m c).heap = c.heap := by
  unfold checkGameEnded
  split_ifs <;> rfl

@[simp] theorem checkGameEnded_cardArray (m : ModeSettings) (c : Controller) :
    (checkGameEnded m c).cardArray = c.cardArray := by
  unfold checkGameEnded
  split_ifs <;> rfl

@[simp] theorem checkGameEnded_milliseconds (m : ModeSettings) (c : Controller) :
    (checkGameEnded m c).milliseconds = c.milliseconds := by
  unfold checkGameEnded
  split_ifs <;> rfl

@[simp] theorem checkGameEnded_first (m : ModeSettings) (c : Controller) :
    (checkGameEnded m c).firstFlippedCardIndex = c.firstFlippedCardIndex := by
  unfold checkGameEnded
  split_ifs <;> rfl

/-- The four things a tap on a row with an on-screen cell can do, to the game and
to the collection view. -/
inductive TapEffect (m : ModeSettings) (row : ℕ) (c : Controller) (v : CollectionView) :
    Controller → CollectionView → Prop
  | ignored
      (why : c.milliseconds ≤ 0 ∨ (c.cardAt row).isFlipped = true ∨
        (c.cardAt row).isMatched = true) :
      TapEffect m row c v c v
  | opens {cell : CellRef} {r : CardRef}
      (time : 0 < c.milliseconds) (hcell : v.cellForItem row = some cell)
      (href : c.cardArray[row]? = some r)
      (unflipped : (c.cardAt row).isFlipped = false)
      (unmatched : (c.cardAt row).isMatched = false)
      (first : c.firstFlippedCardIndex = none) :
      TapEffect m row c v (c.opened row r) (v.flip cell)
  | closes {cell : CellRef} {r q : CardRef} {p : ℕ}
      (time : 0 < c.milliseconds) (hcell : v.cellForItem row = some cell)
      (href : c.cardArray[row]? = some r)
      (unflipped : (c.cardAt row).isFlipped = false)
      (unmatched : (c.cardAt row).isMatched = false)
      (first : c.firstFlippedCardIndex = some p) (hfirst : c.cardArray[p]? = some q)
      (names : (c.cardAt p).imageName ≠ (c.cardAt row).imageName) :
      TapEffect m row c v (c.mismatched q r)
        (((v.flip cell).flipBack (v.cellForItem p)).flipBack (some cell))
  | pairs {cell : CellRef} {r q : CardRef} {p : ℕ}
      (time : 0 < c.milliseconds) (hcell : v.cellForItem row = some cell)
      (href : c.cardArray[row]? = some r)
      (unflipped : (c.cardAt row).isFlipped = false)
      (unmatched : (c.cardAt row).isMatched = false)
      (first : c.firstFlippedCardIndex = some p) (hfirst : c.cardArray[p]? = some q)
      (names : (c.cardAt p).imageName = (c.cardAt row).imageName) :
      TapEffect m row c v { checkGameEnded m (c.paired q r) with firstFlippedCardIndex := none }
        (((v.flip cell).remove (v.cellForItem p)).remove (some cell))

/-- The name of a card is never written by the game. -/
theorem setFlipped_imageName (c : Controller) (r s : CardRef) (b : Bool) :
    ((c.setFlipped r b).heap.card s).imageName = (c.heap.card s).imageName := by
  simp only [Controller.setFlipped, Heap.modify_card]
  split_ifs <;> rfl

theorem checkForMatches_eq {m : ModeSettings} {row p : ℕ} {c : Controller} {v : CollectionView}
    {q r : CardRef} (hp : c.firstFlippedCardIndex = some p)
    (hq : c.cardArray[p]? = some q) (hr : c.cardArray[row]? = some r) :
    checkForMatches m row c v = .ok
      (if (c.heap.card q).imageName = (c.heap.card r).imageName then
        ({ checkGameEnded m ((c.setMatched q).setMatched r) with firstFlippedCardIndex := none },
          (v.remove (v.cellForItem p)).remove (v.cellForItem row))
      else
        ({ (c.setFlipped q false).setFlipped r false with firstFlippedCardIndex := none },
          (v.flipBack (v.cellForItem p)).flipBack (v.cellForItem row))) := by
  have hp' : (checkGameEnded m ((c.setMatched q).setMatched r)).firstFlippedCardIndex =
      some p := (checkGameEnded_first m _).trans hp
  have hp'' : ((c.setFlipped q false).setFlipped r false).firstFlippedCardIndex = some p := hp
  unfold checkForMatches
  simp only [hp, unwrap, element_eq_ok hq, element_eq_ok hr, bind, Except.bind, pure, Except.pure]
  -- The reload of the first card's row happens only when that row is off screen.
  by_cases hcell : v.cellForItem p = none
  · by_cases hname : (c.heap.card q).imageName = (c.heap.card r).imageName
    · simp only [hcell, hname, if_true, hp']
      rw [CollectionView.reloadItems_of_none (by simpa using hcell)]
    · simp only [hcell, hname, if_true, if_false, hp'']
      rw [CollectionView.reloadItems_of_none (by simpa using hcell)]
  · by_cases hname : (c.heap.card q).imageName = (c.heap.card r).imageName
    · simp only [hcell, hname, if_true, if_false]
    · simp only [hcell, hname, if_false]

/-- A tap on an on-screen row never traps and has one of the four effects. -/
theorem didSelectItemAt_effect {m : ModeSettings} {row : ℕ} {c : Controller}
    {v : CollectionView} (hrow : row < c.cardArray.length) (hcell : v.cellForItem row ≠ none)
    (hfirst : ∀ p, c.firstFlippedCardIndex = some p → p < c.cardArray.length) :
    ∃ c' v', didSelectItemAt m row c v = .ok (c', v') ∧ TapEffect m row c v c' v' := by
  obtain ⟨cell, hcell⟩ := Option.ne_none_iff_exists'.mp hcell
  obtain ⟨r, hr⟩ := Controller.exists_ref hrow
  have hat := Controller.cardAt_eq hr
  unfold didSelectItemAt
  by_cases ht : c.milliseconds ≤ 0
  · exact ⟨c, v, by simp [ht, pure, Except.pure], .ignored (Or.inl ht)⟩
  have ht' : 0 < c.milliseconds := by omega
  simp only [ht, if_false, hcell, castCell, element_eq_ok hr, bind, Except.bind]
  by_cases hopen : (c.heap.card r).isFlipped = false ∧ (c.heap.card r).isMatched = false
  · obtain ⟨hf, hm⟩ := hopen
    simp only [hf, hm, and_self, if_true]
    cases hp : c.firstFlippedCardIndex with
    | none =>
      have hp' : (c.setFlipped r true).firstFlippedCardIndex = none := hp
      simp only [hp', if_true, pure, Except.pure]
      exact ⟨_, _, rfl, .opens ht' hcell hr (by rwa [hat]) (by rwa [hat]) hp⟩
    | some p =>
      obtain ⟨q, hq⟩ := Controller.exists_ref (hfirst p hp)
      have hatp := Controller.cardAt_eq hq
      have hp' : (c.setFlipped r true).firstFlippedCardIndex = some p := hp
      have heq := checkForMatches_eq (m := m) (v := v.flip cell) hp' hq hr
      simp only [setFlipped_imageName, CollectionView.flip_cellForItem, hcell] at heq
      simp only [hp', reduceCtorEq, if_false, heq]
      by_cases hname : (c.heap.card q).imageName = (c.heap.card r).imageName
      · refine ⟨_, _, congrArg Except.ok (if_pos hname), ?_⟩
        exact .pairs ht' hcell hr (by rwa [hat]) (by rwa [hat]) hp hq (by rwa [hat, hatp])
      · refine ⟨_, _, congrArg Except.ok (if_neg hname), ?_⟩
        exact .closes ht' hcell hr (by rwa [hat]) (by rwa [hat]) hp hq (by rwa [hat, hatp])
  · refine ⟨c, v, by simp only [hopen, if_false, pure, Except.pure], .ignored (Or.inr ?_)⟩
    rw [hat]
    cases hf : (c.heap.card r).isFlipped <;> cases hm : (c.heap.card r).isMatched <;> simp_all

/-- A step of one game: the player taps a row that is on screen, or the valid timer
fires. UIKit shows any rows it likes at a tap, so the view is not part of the state. -/
inductive Step (m : ModeSettings) : Controller → Event ℕ → Controller → Prop
  | tap {c c' : Controller} {row : ℕ} {v v' : CollectionView}
      (hrow : row < c.cardArray.length) (hcell : v.cellForItem row ≠ none)
      (h : didSelectItemAt m row c v = .ok (c', v')) : Step m c (.tap row) c'
  | tick {c : Controller} (hvalid : c.timerValid) : Step m c .tick (timerElapsed m c)

/-- A view in which every row has a cell. -/
def wholeBoard : CollectionView := ⟨fun _ => {}, fun row => some ⟨row⟩, []⟩

/-- The step function behind `Step`, for runs on which every row is on screen. -/
def playEvent (m : ModeSettings) (c : Controller) : Event ℕ → Option Controller
  | .tap row =>
    if row < c.cardArray.length then
      match didSelectItemAt m row c wholeBoard with
      | .ok (c', _) => some c'
      | .error _ => none
    else none
  | .tick => if c.timer = some ⟨true⟩ then some (timerElapsed m c) else none

theorem playEvent_step {m : ModeSettings} {c c' : Controller} {e : Event ℕ}
    (h : playEvent m c e = some c') : Step m c e c' := by
  cases e with
  | tap row =>
    simp only [playEvent] at h
    split_ifs at h with hrow
    split at h
    · next d v hd =>
      obtain rfl := Option.some.inj h
      exact Step.tap hrow (by simp [wholeBoard]) hd
    · cases h
  | tick =>
    simp only [playEvent] at h
    split_ifs at h with hvalid
    obtain rfl := Option.some.inj h
    exact Step.tick hvalid

theorem playEvents_run {m : ModeSettings} {c c' : Controller} {es : List (Event ℕ)}
    (h : es.foldlM (playEvent m) c = some c') : Run (Step m) c es c' := by
  induction es generalizing c with
  | nil =>
    obtain rfl := Option.some.inj h
    exact Run.nil c
  | cons e es ih =>
    rw [List.foldlM_cons] at h
    obtain ⟨d, hd, hrest⟩ := Option.bind_eq_some_iff.mp h
    exact Run.cons (playEvent_step hd) (ih hrest)

end CardPang.GameController
