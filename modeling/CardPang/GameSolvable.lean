import CardPang.GameClock

/-! No game runs into a dead end. The number of taps that are missing is the
number of unmatched cards, less the one that is open; it is attained by some taps
and undercut by none. Both halves are the memory game's, carried over by the
simulation. -/
namespace CardPang.GameController
open CardModel LabelledRun MemoryGame

/-- The number of cards with `isMatched` false. -/
def unmatchedCount (c : Controller) : ℕ :=
  c.cardArray.countP fun r => !(c.heap.card r).isMatched

def openCount (c : Controller) : ℕ := if c.firstFlippedCardIndex = none then 0 else 1

section Deficit

variable {name : ℕ → String} {c : Controller} {g : State ℕ String}

theorem Refines.unmatchedCount_eq (h : Refines name c g) :
    unmatchedCount c = (unmatched (Finset.range c.cardArray.length) name g).card := by
  rw [unmatchedCount, countP_eq_card_filter _ _ ⟨0⟩, unmatched]
  congr 1
  apply Finset.filter_congr
  intro i hi
  have hm := h.matched i (Finset.mem_range.mp hi)
  rw [← hm]
  simp [Controller.cardAt]

theorem Refines.deficit_eq (h : Refines name c g) :
    deficit (Finset.range c.cardArray.length) name g = unmatchedCount c - openCount c := by
  rw [deficit, h.unmatchedCount_eq, openCount, h.first]

theorem Refines.isWon_iff_unmatched (h : Refines name c g) :
    c.isWon = true ↔ unmatched (Finset.range c.cardArray.length) name g = ∅ := by
  rw [h.isWon_iff, unmatched, Finset.filter_eq_empty_iff]
  simp

end Deficit

/-- From every state with time left, exactly `u - b` taps are needed and enough. -/
theorem shortest_win (mode : GameMode) {tape rest : List ℕ} {c₀ c : Controller}
    {es : List (Event ℕ)} (hload : viewDidLoad mode.settings tape = .ok (c₀, rest))
    (hrun : Run (Step mode.settings) c₀ es c) (htime : 0 < c.milliseconds) :
    (∃ rows : List ℕ, rows.length = unmatchedCount c - openCount c ∧
      ∃ d, Run (Step mode.settings) c (rows.map .tap) d ∧
        (∀ i < d.cardArray.length, (d.cardAt i).isMatched = true) ∧
        ∃ a ∈ d.alerts, a.title = mode.settings.wonTitle) ∧
    ∀ (rows : List ℕ) (d : Controller), Run (Step mode.settings) c (rows.map .tap) d →
      (∀ i < d.cardArray.length, (d.cardAt i).isMatched = true) →
        unmatchedCount c - openCount c ≤ rows.length := by
  have h := refines_run (refines_initial hload) hrun
  have hcards := run_cardArray (refines_initial hload) hrun
  constructor
  · obtain ⟨rows, hmem, hlen, hempty⟩ := exists_winning_taps h.paired h.legal (h.time ▸ htime)
    have htaps : ∀ e ∈ rows.map Event.tap, ∃ row < c.cardArray.length, e = .tap row := by
      intro e he
      obtain ⟨row, hrow, rfl⟩ := List.mem_map.mp he
      exact ⟨row, Finset.mem_range.mp (hmem row hrow), rfl⟩
    obtain ⟨d, hd⟩ := exists_run_taps hload hrun htaps
    have hdr := refines_run h hd
    have hwon : d.isWon = true := by
      rw [hdr.isWon_iff_unmatched, run_cardArray h hd, play_map_tap]
      exact hempty
    refine ⟨rows, hlen.trans h.deficit_eq, d, hd, Controller.isWon_iff.mp hwon, ?_⟩
    exact (run_phase hload (hrun.trans hd)).won_alert_iff.mpr hwon
  · intro rows d hd hall
    have hdr := refines_run h hd
    have hmem : ∀ row ∈ rows, row ∈ Finset.range c.cardArray.length := by
      intro row hrow
      rw [Finset.mem_range, hcards]
      exact run_tap_lt hload (hrun.trans hd) (by simp [hrow])
    have hle := deficit_le_taps (g := play (faces c₀) (initialState c₀) es) h.paired rows hmem
    have hempty := hdr.isWon_iff_unmatched.mp (Controller.isWon_iff.mpr hall)
    rw [run_cardArray h hd, play_map_tap] at hempty
    rw [(deficit_eq_zero_iff h.paired).mpr hempty, h.deficit_eq] at hle
    omega

theorem shortest_win_ordered :
    ∃ c, Run (Step GameMode.normal.settings) (orderedDeal .normal)
        [.tap 0, .tap 3, .tick, .tap 4] c ∧
      unmatchedCount c - openCount c = 15 ∧
      ∃ rows : List ℕ, rows.length = 15 ∧ ∃ d,
        Run (Step GameMode.normal.settings) c (rows.map .tap) d ∧
        ∀ i < d.cardArray.length, (d.cardAt i).isMatched = true := by
  have hrun : Run (Step GameMode.normal.settings) (orderedDeal .normal)
      [.tap 0, .tap 3, .tick, .tap 4] _ := playEvents_run rfl
  obtain ⟨⟨rows, hlen, d, hd, hall, -⟩, -⟩ :=
    shortest_win .normal (orderedDeal_load .normal) hrun (by decide)
  exact ⟨_, hrun, rfl, rows, hlen, d, hd, hall⟩

end CardPang.GameController
