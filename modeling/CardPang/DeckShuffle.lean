import CardPang.DeckGeneration
import CardPang.SwapShuffle

/-!
# The shuffle of the three generators

Position after position is swapped with one drawn from the whole array, so the
loop rearranges the cards by the product of its swaps. Every arrangement can come
out; they cannot all come out equally often.
-/
namespace CardPang.CardModel
open GameController SwapShuffle

section Loop

variable {m : ℕ}

/-- The loop over some positions rearranges the cards by the product of the swaps. -/
theorem shuffleAt_ofFn (f : Fin m → Fin m) (is : List (Fin m)) (g : Fin m → CardRef)
    (rest : List ℕ) :
    shuffleAt (is.map Fin.val) (List.ofFn g) (is.map (fun i => (f i : ℕ)) ++ rest) =
      .ok (List.ofFn (g ∘ swapProduct f is), rest) := by
  induction is generalizing g with
  | nil => simp [shuffleAt, swapProduct]
  | cons i is ih =>
    have hi : (i : ℕ) < (List.ofFn g).length := by simp
    have hd : (f i : ℕ) < (List.ofFn g).length := by simp
    have hswap : ((List.ofFn g).set i (List.ofFn g)[(f i : ℕ)]).set (f i) (List.ofFn g)[(i : ℕ)] =
        List.ofFn (g ∘ Equiv.swap i (f i)) := by
      simpa using ofFn_set_set g i (f i)
    rw [List.map_cons, List.map_cons, List.cons_append, shuffleAt_cons hi hd, hswap, ih,
      swapProduct_cons]
    rfl

/-- What the shuffle returns on the swap indices `f`. -/
theorem shuffle_ofFn {cards : List CardRef} (hpos : 0 < cards.length)
    (f : Fin cards.length → Fin cards.length) (rest : List ℕ) :
    shuffle cards (List.ofFn (fun i => (f i : ℕ)) ++ rest) =
      .ok (List.ofFn fun i => cards.get (rearrangement f i), rest) := by
  have hrange : List.range cards.length = (List.finRange cards.length).map Fin.val :=
    List.map_coe_finRange_eq_range.symm
  have hloop := shuffleAt_ofFn f (List.finRange cards.length) cards.get rest
  rw [List.ofFn_get, ← hrange, ← List.ofFn_eq_map] at hloop
  rw [shuffle, if_neg hpos.ne', hloop]
  rfl

end Loop

/-- The orders of names that a deck can have. -/
structure Arrangement (pairs : ℕ) (names : List String) : Prop where
  length : names.length = 2 * pairs
  different : names.toFinset.card = pairs
  faces : ∀ x ∈ names, ∃ k, 1 ≤ k ∧ k ≤ 13 ∧ x = cardName k
  paired : ∀ x ∈ names, names.count x = 2

/-- The results of `arc4random_uniform` that make a generator return: the generation loop
stops on them, and the shuffle finds an index below its bound for every position. -/
def Supplies (pairs : ℕ) (heap : Heap) (tape : List ℕ) : Prop :=
  ∃ s rest, generate pairs tape ⟨[], [], heap⟩ = .ok (s, rest) ∧ 2 * pairs ≤ rest.length ∧
    ∀ d ∈ rest.take (2 * pairs), d < 2 * pairs

section Exact

variable {pairs : ℕ} {heap : Heap} {tape rest : List ℕ} {cards : List CardRef}
  {names : List String} {s : Generation}

theorem Deck.arrangement (h : Deck pairs cards heap) :
    Arrangement pairs (cards.map fun r => (heap.card r).imageName) := by
  have hlength : (cards.map fun r => (heap.card r).imageName).length = 2 * pairs := by
    rw [List.length_map, h.length]
  have hpaired : ∀ x ∈ cards.map fun r => (heap.card r).imageName,
      (cards.map fun r => (heap.card r).imageName).count x = 2 := by
    intro x hx
    obtain ⟨r, hr, rfl⟩ := List.mem_map.mp hx
    exact h.paired r hr
  refine ⟨hlength, ?_, ?_, hpaired⟩
  · have hsum := List.sum_toFinset_count_eq_length (cards.map fun r => (heap.card r).imageName)
    rw [Finset.sum_congr rfl fun x hx => hpaired x (List.mem_toFinset.mp hx), Finset.sum_const,
      hlength, smul_eq_mul] at hsum
    omega
  · intro x hx
    obtain ⟨r, hr, rfl⟩ := List.mem_map.mp hx
    exact h.faces r hr

/-- The numbers of the faces that occur. -/
theorem Arrangement.exists_numbers (h : Arrangement pairs names) :
    ∃ ks : List ℕ, ks.Nodup ∧ (∀ k ∈ ks, 1 ≤ k ∧ k ≤ 13) ∧ ks.length = pairs ∧
      ∀ x, x ∈ ks.map cardName ↔ x ∈ names := by
  let S : Finset ℕ := (Finset.Icc 1 13).filter fun k => cardName k ∈ names
  have himage : S.image cardName = names.toFinset := by
    ext x
    simp only [S, Finset.mem_image, Finset.mem_filter, Finset.mem_Icc, List.mem_toFinset]
    constructor
    · rintro ⟨k, ⟨-, hk⟩, rfl⟩
      exact hk
    · intro hx
      obtain ⟨k, h1, h13, rfl⟩ := h.faces x hx
      exact ⟨k, ⟨⟨h1, h13⟩, hx⟩, rfl⟩
  refine ⟨S.toList, S.nodup_toList, ?_, ?_, ?_⟩
  · intro k hk
    exact Finset.mem_Icc.mp (Finset.mem_filter.mp (Finset.mem_toList.mp hk)).1
  · rw [Finset.length_toList, ← Finset.card_image_of_injective S cardName_injective, himage,
      h.different]
  · intro x
    rw [← List.mem_toFinset (l := names), ← himage]
    simp

theorem Arrangement.perm (h : Arrangement pairs names) {ks : List ℕ} (hn : ks.Nodup)
    (hmem : ∀ x, x ∈ ks.map cardName ↔ x ∈ names) :
    names.Perm (ks.flatMap fun n => [cardName n, cardName n]) := by
  apply List.perm_iff_count.mpr
  intro x
  rw [count_flatMap_twice]
  by_cases hx : x ∈ names
  · rw [h.paired x hx, List.count_eq_one_of_mem (hn.map cardName_injective) ((hmem x).mpr hx)]
  · rw [List.count_eq_zero_of_not_mem hx, List.count_eq_zero_of_not_mem (mt (hmem x).mp hx)]

/-- The shuffle returns on every tape with enough indices. -/
theorem exists_shuffle_ok (hpos : 0 < cards.length) (hlen : cards.length ≤ rest.length)
    (hlt : ∀ d ∈ rest.take cards.length, d < cards.length) :
    ∃ out, shuffle cards rest = .ok (out, rest.drop cards.length) := by
  have hindex : ∀ i : Fin cards.length, rest[i] < cards.length := by
    intro i
    exact hlt _ (List.mem_take_iff_getElem.mpr ⟨i, by omega, rfl⟩)
  let f : Fin cards.length → Fin cards.length := fun i => ⟨rest[i], hindex i⟩
  have htake : List.ofFn (fun i => (f i : ℕ)) = rest.take cards.length := by
    apply List.ext_getElem
    · simpa using hlen
    · intro k hk hk'
      simp [f]
  have hshuffle := shuffle_ofFn hpos f (rest.drop cards.length)
  rw [htake, List.take_append_drop] at hshuffle
  exact ⟨_, hshuffle⟩

theorem generate_ne_trap (t : Trap) : generate pairs tape s ≠ .error (.trap t) := by
  induction tape generalizing s with
  | nil =>
    simp only [generate]
    split_ifs <;> simp
  | cons d tape ih =>
    simp only [generate]
    split_ifs
    · exact ih
    · simp
    · simp

/-- Whatever is drawn, and also when the draws end, no index is out of range. -/
theorem getCards_ne_trap (hpos : 0 < pairs) (t : Trap) :
    getCards pairs tape heap ≠ .error (.trap t) := by
  intro h
  simp only [getCards, bind_eq_error, pure, Except.pure] at h
  rcases h with h | ⟨⟨s, rest⟩, hgen, h | ⟨_, _, h⟩⟩
  · exact generate_ne_trap t h
  · have hlen := (generate_deck hgen).length
    have hne : ¬ s.generatedCardsArray.length = 0 := by omega
    rw [shuffle, if_neg hne] at h
    exact shuffleAt_ne_trap (by simp) t h
  · cases h

theorem Supplies.exists_deck (hpos : 0 < pairs) (h : Supplies pairs heap tape) :
    ∃ cards heap' rest, getCards pairs tape heap = .ok (cards, heap', rest) ∧
      Deck pairs cards heap' := by
  obtain ⟨s, rest, hgen, hlen, hlt⟩ := h
  have hcards := (generate_deck hgen).length
  rw [← hcards] at hlen hlt
  obtain ⟨out, hshuffle⟩ := exists_shuffle_ok (by omega) hlen hlt
  have hget := getCards_eq_ok_iff.mpr ⟨s, rest, hgen, hshuffle, rfl⟩
  exact ⟨_, _, _, hget, getCards_deck hget⟩

/-- The tape first draws the faces and then the swaps that bring the cards in order. -/
theorem Arrangement.exists_tape (hpos : 0 < pairs) (h : Arrangement pairs names) (heap : Heap) :
    ∃ tape cards heap', Supplies pairs heap tape ∧
      getCards pairs tape heap = .ok (cards, heap', []) ∧
      cards.map (fun r => (heap'.card r).imageName) = names := by
  obtain ⟨ks, hn, hrange, hlen, hmem⟩ := h.exists_numbers
  obtain ⟨t, hgen, hnumbers⟩ := generate_distinct (s := ⟨[], [], heap⟩) (by simpa using hn)
    hrange (by simpa using hlen)
  have hvalid := (generate_valid (generation_valid_initial heap) (by simp) (hgen [])).1
  have hdeck := generate_deck (hgen [])
  have hcards : t.generatedCardsArray.length = 2 * pairs := hdeck.length
  have hperm : names.Perm (t.generatedCardsArray.map fun r => (t.heap.card r).imageName) := by
    rw [hvalid.names, hnumbers]
    exact h.perm hn hmem
  obtain ⟨out, hout, hnames⟩ := exists_perm_map_eq hperm
  obtain ⟨σ, hσ⟩ := exists_perm_eq_ofFn hdeck.nodup hout
  obtain ⟨f, rfl⟩ := rearrangement_surjective σ
  have hshuffle := shuffle_ofFn (by omega) f []
  rw [List.append_nil, ← hσ] at hshuffle
  refine ⟨_, out, t.heap, ⟨t, _, hgen _, ?_, ?_⟩,
    getCards_eq_ok_iff.mpr ⟨t, _, hgen _, hshuffle, rfl⟩, hnames⟩
  · rw [List.length_ofFn, hcards]
  · intro d hd
    obtain ⟨i, rfl⟩ := List.mem_ofFn.mp (List.mem_of_mem_take hd)
    exact hcards ▸ (f i).isLt

/-- The generators return exactly the valid decks: no index traps, on all results of
`arc4random_uniform` that make the loop stop the array is a deck, and every arrangement of
the names of a deck is returned on some. -/
theorem getCards_exact (mode : GameMode) :
    (∀ tape heap t, mode.settings.getCards tape heap ≠ .error (.trap t)) ∧
    (∀ tape heap, Supplies mode.pairs heap tape → ∃ cards heap' rest,
      mode.settings.getCards tape heap = .ok (cards, heap', rest) ∧ Deck mode.pairs cards heap' ∧
      Arrangement mode.pairs (cards.map fun r => (heap'.card r).imageName)) ∧
    ∀ names heap, Arrangement mode.pairs names → ∃ tape cards heap',
      Supplies mode.pairs heap tape ∧
      mode.settings.getCards tape heap = .ok (cards, heap', []) ∧
      cards.map (fun r => (heap'.card r).imageName) = names := by
  have hpos := mode.pairs_pos
  rw [mode.getCards_eq]
  refine ⟨fun tape heap t => getCards_ne_trap hpos t, ?_, ?_⟩
  · intro tape heap h
    obtain ⟨cards, heap', rest, hget, hdeck⟩ := h.exists_deck hpos
    exact ⟨cards, heap', rest, hget, hdeck, hdeck.arrangement⟩
  · intro names heap h
    exact h.exists_tape hpos heap

/-- The easy game with the pairs `7, …, 12` laid out in a row, and backwards. -/
theorem getCards_exact_easy :
    Supplies 6 Heap.empty ([6, 7, 8, 9, 10, 11] ++ List.range 12) ∧
    (∃ cards heap rest, getEasyCards ([6, 7, 8, 9, 10, 11] ++ List.range 12) Heap.empty =
      .ok (cards, heap, rest) ∧ Deck 6 cards heap) ∧
    ∃ tape cards heap, getEasyCards tape Heap.empty = .ok (cards, heap, []) ∧
      cards.map (fun r => (heap.card r).imageName) =
        [12, 11, 10, 9, 8, 7, 7, 8, 9, 10, 11, 12].map cardName := by
  have hsupplies : Supplies 6 Heap.empty ([6, 7, 8, 9, 10, 11] ++ List.range 12) :=
    ⟨_, _, rfl, by decide, by decide⟩
  have harrangement : Arrangement 6 ([12, 11, 10, 9, 8, 7, 7, 8, 9, 10, 11, 12].map cardName) := by
    refine ⟨rfl, ?_, ?_, ?_⟩
    · rw [DistinctDraws.toFinset_map, Finset.card_image_of_injective _ cardName_injective]
      decide
    · intro x hx
      obtain ⟨k, hk, rfl⟩ := List.mem_map.mp hx
      refine ⟨k, ?_, ?_, rfl⟩ <;> revert k <;> decide
    · intro x hx
      obtain ⟨k, hk, rfl⟩ := List.mem_map.mp hx
      rw [List.count_map_of_injective _ _ cardName_injective]
      revert k
      decide
  obtain ⟨-, hsound, hcomplete⟩ := getCards_exact .easy
  obtain ⟨cards, heap, rest, hget, hdeck, -⟩ := hsound _ _ hsupplies
  obtain ⟨tape, cards', heap', -, hget', hnames⟩ := hcomplete _ Heap.empty harrangement
  exact ⟨hsupplies, ⟨cards, heap, rest, hget, hdeck⟩, tape, cards', heap', hget', hnames⟩

end Exact

section Fair

/-- The sequences of swap indices on which the shuffle rearranges the cards by `s`: position
`i` then holds the card of position `s i`. -/
def swapSequences (cards : List CardRef) (s : Equiv.Perm (Fin cards.length)) :
    Finset (Fin cards.length → Fin cards.length) :=
  Finset.univ.filter fun f =>
    (shuffle cards (List.ofFn fun i => (f i : ℕ))).toOption =
      some (List.ofFn fun i => cards.get (s i), [])

variable {cards : List CardRef}

theorem swapSequences_eq (hpos : 0 < cards.length) (hn : cards.Nodup)
    (s : Equiv.Perm (Fin cards.length)) :
    swapSequences cards s = Finset.univ.filter fun f => rearrangement f = s := by
  apply Finset.filter_congr
  intro f _
  have hshuffle := shuffle_ofFn hpos f []
  rw [List.append_nil] at hshuffle
  rw [hshuffle]
  simp only [Except.toOption, Option.some.injEq, Prod.mk.injEq, and_true]
  constructor
  · intro h
    ext i
    have hget := congrFun (List.ofFn_injective h) i
    exact congrArg Fin.val (List.nodup_iff_injective_get.mp hn hget)
  · rintro rfl
    rfl

/-- Whatever the rearrangement, some other one comes up more or less often. -/
theorem exists_swapSequences_ne (mode : GameMode) {tape rest : List ℕ} {heap : Heap}
    {s : Generation} (hgen : generate mode.pairs tape ⟨[], [], heap⟩ = .ok (s, rest))
    (σ : Equiv.Perm (Fin s.generatedCardsArray.length)) :
    ∃ τ, (swapSequences s.generatedCardsArray σ).card ≠
      (swapSequences s.generatedCardsArray τ).card := by
  have hdeck := generate_deck hgen
  have hlen : 3 ≤ s.generatedCardsArray.length := by
    rw [hdeck.length]
    cases mode <;> decide
  have hpos : 0 < s.generatedCardsArray.length := by omega
  obtain ⟨τ, hτ⟩ := exists_card_fiber_ne hlen rearrangement σ
  exact ⟨τ, by rwa [swapSequences_eq hpos hdeck.nodup, swapSequences_eq hpos hdeck.nodup]⟩

/-- In none of the generators does the shuffle give all rearrangements equally often:
it swaps with a position of the whole array, not with one of those still to be filled. -/
theorem shuffle_never_fair (mode : GameMode) {tape rest : List ℕ} {heap : Heap} {s : Generation}
    (hgen : generate mode.pairs tape ⟨[], [], heap⟩ = .ok (s, rest)) :
    ¬ ∀ σ τ, (swapSequences s.generatedCardsArray σ).card =
      (swapSequences s.generatedCardsArray τ).card := by
  intro hfair
  obtain ⟨τ, hτ⟩ := exists_swapSequences_ne mode hgen 1
  exact hτ (hfair 1 τ)

theorem shuffle_never_fair_hard :
    ∃ s, generate GameMode.hard.pairs (orderedTape 10) ⟨[], [], Heap.empty⟩ =
        .ok (s, List.range 20) ∧
      ¬ ∀ σ τ, (swapSequences s.generatedCardsArray σ).card =
        (swapSequences s.generatedCardsArray τ).card := by
  have hgen : ∃ s, generate GameMode.hard.pairs (orderedTape 10) ⟨[], [], Heap.empty⟩ =
      .ok (s, List.range 20) := ⟨_, rfl⟩
  obtain ⟨s, hgen⟩ := hgen
  exact ⟨s, hgen, shuffle_never_fair .hard hgen⟩

/-- The twelve cards of an easy game: `12 ^ 12` sequences of swap indices cannot be spread
evenly over `12!` rearrangements. -/
theorem shuffle_unfair_easy :
    ∃ s, generate GameMode.easy.pairs (orderedTape 6) ⟨[], [], Heap.empty⟩ =
        .ok (s, List.range 12) ∧
      ∃ σ τ, (swapSequences s.generatedCardsArray σ).card ≠
        (swapSequences s.generatedCardsArray τ).card := by
  have hgen : ∃ s, generate GameMode.easy.pairs (orderedTape 6) ⟨[], [], Heap.empty⟩ =
      .ok (s, List.range 12) := ⟨_, rfl⟩
  obtain ⟨s, hgen⟩ := hgen
  exact ⟨s, hgen, 1, exists_swapSequences_ne .easy hgen 1⟩

end Fair

end CardPang.CardModel
