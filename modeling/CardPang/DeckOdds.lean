import CardPang.DeckShuffle
import CardPang.DrawCounts
import CardPang.ShuffleCounts

/-!
# How often each deck comes up

What can be said of the generators where `arc4random_uniform` gives independent and
uniform values: how long the generation takes, that no face is preferred to another,
and what the swaps of the shuffle prefer.
-/
namespace CardPang.CardModel
open DistinctDraws GameController SwapShuffle Finset

section Draws

/-- The sequences of `l` results of `arc4random_uniform(13)` within which the generation
loop has not stopped. -/
def unstoppedSequences (pairs : ℕ) (heap : Heap) (l : ℕ) : Finset (Fin l → Fin 13) :=
  univ.filter fun run =>
    (generate pairs (List.ofFn fun i => (run i : ℕ)) ⟨[], [], heap⟩).toOption.isNone

theorem drawn_lt {l : ℕ} (run : Fin l → Fin 13) : ∀ d ∈ List.ofFn fun i => (run i : ℕ), d < 13 := by
  intro d hd
  obtain ⟨i, rfl⟩ := List.mem_ofFn.mp hd
  exact (run i).isLt

/-- The loop on the results of `arc4random_uniform(13)` is the abstract one on the
faces they stand for. -/
theorem generate_faces (pairs : ℕ) (heap : Heap) {l : ℕ} (run : Fin l → Fin 13) :
    (generate pairs (List.ofFn fun i => (run i : ℕ)) ⟨[], [], heap⟩).toOption.map
        (fun p => (p.1.generatedNumbersArray, p.2.map (· + 1))) =
      (collect pairs [] (List.ofFn run)).map
        (Prod.map (List.map cardNumber) (List.map cardNumber)) := by
  have hmap : (List.ofFn fun i => (run i : ℕ)).map (· + 1) = (List.ofFn run).map cardNumber := by
    rw [List.map_ofFn, List.map_ofFn]
    rfl
  rw [generate_collect pairs (drawn_lt run), hmap]
  exact collect_map cardNumber_injective pairs [] (List.ofFn run)

theorem unstoppedSequences_eq (pairs : ℕ) (heap : Heap) (l : ℕ) :
    unstoppedSequences pairs heap l = runsUnstopped (Fin 13) pairs l := by
  apply filter_congr
  intro run _
  have hnone := congrArg Option.isNone (generate_faces pairs heap run)
  rw [Option.isNone_map, Option.isNone_map] at hnone
  rw [hnone, Option.isNone_iff_eq_none]

/-- The share of the draws on which a generator is still in its loop sums, over the
number of draws, to `13 / 13 + 13 / 12 + …`: this is how many draws the loop makes on
average, and it goes on forever with probability zero. -/
theorem generation_mean_draws (mode : GameMode) (heap : Heap) :
    HasSum (fun l => ((unstoppedSequences mode.pairs heap l).card : ℝ) / 13 ^ l)
      (∑ i ∈ range mode.pairs, (13 : ℝ) / (13 - i)) ∧
    Filter.Tendsto (fun l => ((unstoppedSequences mode.pairs heap l).card : ℝ) / 13 ^ l)
      Filter.atTop (nhds 0) := by
  have hpairs : mode.pairs ≤ Fintype.card (Fin 13) := by
    cases mode <;> decide
  have hsum := hasSum_runsUnstopped hpairs
  simp only [Fintype.card_fin, ← unstoppedSequences_eq _ heap, Nat.cast_ofNat] at hsum
  exact ⟨hsum, hsum.summable.tendsto_atTop_zero⟩

end Draws

section Tape

variable {pairs : ℕ}

theorem generate_rest_length_le {tape rest : List ℕ} {s t : Generation}
    (h : generate pairs tape s = .ok (t, rest)) : rest.length ≤ tape.length := by
  induction tape generalizing s with
  | nil =>
    simp only [generate] at h
    split_ifs at h
    obtain ⟨-, rfl⟩ := Prod.mk.inj (Except.ok.inj h)
    exact le_rfl
  | cons d tape ih =>
    simp only [generate] at h
    split_ifs at h
    · have hle := ih h
      rw [List.length_cons]
      omega
    · obtain ⟨-, rfl⟩ := Prod.mk.inj (Except.ok.inj h)
      exact le_rfl

/-- Draws that the loop leaves over are not looked at. -/
theorem generate_append {a b : List ℕ} {s t : Generation}
    (h : generate pairs a s = .ok (t, [])) : generate pairs (a ++ b) s = .ok (t, b) := by
  induction a generalizing s with
  | nil =>
    simp only [generate] at h
    split_ifs at h with hlt
    obtain ⟨rfl, -⟩ := Prod.mk.inj (Except.ok.inj h)
    cases b <;> simp [generate, hlt]
  | cons d a ih =>
    simp only [generate] at h
    split_ifs at h with hlt hd
    · simp only [List.cons_append, generate, if_pos hlt, if_pos hd]
      exact ih h
    · cases h

/-- A loop that leaves over as many draws as stand behind `a` has consumed `a`. -/
theorem generate_append_inv {a b rest : List ℕ} {s t : Generation}
    (h : generate pairs (a ++ b) s = .ok (t, rest)) (hlen : rest.length = b.length) :
    rest = b ∧ generate pairs a s = .ok (t, []) := by
  induction a generalizing s with
  | nil =>
    by_cases hlt : s.generatedNumbersArray.length < pairs
    · cases b with
      | nil => simp [generate, hlt] at h
      | cons d b =>
        simp only [List.nil_append, generate, if_pos hlt] at h
        split_ifs at h
        have hle := generate_rest_length_le h
        rw [List.length_cons] at hlen
        omega
    · have hb : generate pairs ([] ++ b) s = .ok (s, b) := by
        cases b <;> simp [generate, hlt]
      obtain ⟨rfl, rfl⟩ := Prod.mk.inj (Except.ok.inj (hb.symm.trans h))
      exact ⟨rfl, by simp [generate, hlt]⟩
  | cons d a ih =>
    simp only [List.cons_append, generate] at h
    split_ifs at h with hlt hd
    · obtain ⟨hrest, hgen⟩ := ih h
      exact ⟨hrest, by simpa only [generate, if_pos hlt, if_pos hd] using hgen⟩
    · obtain ⟨-, rfl⟩ := Prod.mk.inj (Except.ok.inj h)
      simp only [List.length_cons, List.length_append] at hlen
      omega

theorem shuffleAt_length {is tape rest : List ℕ} {cards out : List CardRef}
    (his : ∀ i ∈ is, i < cards.length) (h : shuffleAt is cards tape = .ok (out, rest)) :
    tape.length = is.length + rest.length := by
  induction is generalizing cards tape with
  | nil =>
    obtain ⟨-, rfl⟩ := Prod.mk.inj (Except.ok.inj h)
    simp
  | cons i is ih =>
    have hi := his i List.mem_cons_self
    rcases shuffleAt_cases hi with ⟨d, tape', hd, htape, hstep⟩ | hstep
    · rw [hstep] at h
      subst htape
      have hrest : ∀ k ∈ is, k < ((cards.set i cards[d]).set d cards[i]).length := by
        intro k hk
        simpa using his k (List.mem_cons_of_mem i hk)
      have hlen := ih hrest h
      simp only [List.length_cons, hlen]
      omega
    · rw [hstep] at h
      cases h

theorem shuffle_length {tape rest : List ℕ} {cards out : List CardRef}
    (h : shuffle cards tape = .ok (out, rest)) : tape.length = cards.length + rest.length := by
  simp only [shuffle] at h
  split_ifs at h
  simpa using shuffleAt_length (by simp) h

/-- The shuffle on the swap indices `f`, entry by entry. -/
theorem shuffle_entries {m : ℕ} {cards : List CardRef} (hm : cards.length = m) (hpos : 0 < m)
    (f : Fin m → Fin m) :
    ∃ out, shuffle cards (List.ofFn fun i => (f i : ℕ)) = .ok (out, []) ∧
      out = (List.finRange m).filterMap fun i => cards[(rearrangement f i : ℕ)]? := by
  subst hm
  have hshuffle := shuffle_ofFn hpos f []
  rw [List.append_nil] at hshuffle
  refine ⟨_, hshuffle, ?_⟩
  rw [List.ofFn_eq_map, ← List.filterMap_eq_map]
  apply List.filterMap_congr
  intro i _
  simp

end Tape

section Relabel

variable {pairs k : ℕ}

def faceName (d : Fin 13) : String := cardName (cardNumber d)

theorem faceName_injective : Function.Injective faceName :=
  cardName_injective.comp cardNumber_injective

/-- The results of `arc4random_uniform`, `k` for the faces and one for each swap, on which
a generator returns cards of these names and has consumed them all. -/
def deckSequences (pairs : ℕ) (heap : Heap) (k : ℕ) (names : List String) :
    Finset ((Fin k → Fin 13) × (Fin (2 * pairs) → Fin (2 * pairs))) :=
  univ.filter fun p =>
    (getCards pairs (List.ofFn (fun i => (p.1 i : ℕ)) ++ List.ofFn fun i => (p.2 i : ℕ))
      heap).toOption.map (fun r => (r.1.map fun c => (r.2.1.card c).imageName, r.2.2)) =
        some (names, [])

/-- The order in which the swaps leave two cards of each face. -/
def dealt {m : ℕ} (faces : List (Fin 13)) (f : Fin m → Fin m) : List (Fin 13) :=
  (List.finRange m).filterMap fun i =>
    (faces.flatMap fun d => [d, d])[(rearrangement f i : ℕ)]?

theorem dealt_map {m : ℕ} (σ : Fin 13 → Fin 13) (faces : List (Fin 13)) (f : Fin m → Fin m) :
    dealt (faces.map σ) f = (dealt faces f).map σ := by
  have htwice : (faces.map σ).flatMap (fun d => [d, d]) =
      (faces.flatMap fun d => [d, d]).map σ := by
    rw [List.flatMap_map, List.map_flatMap]
    rfl
  rw [dealt, dealt, htwice, List.map_filterMap]
  simp only [List.getElem?_map]

theorem getCards_of_collect (hpos : 0 < pairs) (heap : Heap) {run : Fin k → Fin 13}
    {faces : List (Fin 13)} (h : collect pairs [] (List.ofFn run) = some (faces, []))
    (f : Fin (2 * pairs) → Fin (2 * pairs)) :
    ∃ cards heap', getCards pairs
        (List.ofFn (fun i => (run i : ℕ)) ++ List.ofFn fun i => (f i : ℕ)) heap =
          .ok (cards, heap', []) ∧
      cards.map (fun c => (heap'.card c).imageName) = (dealt faces f).map faceName := by
  have hfaces := generate_faces pairs heap run
  rw [h] at hfaces
  cases hgen : generate pairs (List.ofFn fun i => (run i : ℕ)) ⟨[], [], heap⟩ with
  | error e => simp [hgen, Except.toOption] at hfaces
  | ok p =>
    obtain ⟨s, rest⟩ := p
    simp only [hgen, Except.toOption, Option.map_some, Option.some.injEq, Prod.mk.injEq,
      Prod.map_apply, List.map_nil, List.map_eq_nil_iff] at hfaces
    obtain ⟨hnumbers, rfl⟩ := hfaces
    obtain ⟨out, hshuffle, hout⟩ := shuffle_entries (generate_deck hgen).length (by omega) f
    refine ⟨out, s.heap, getCards_eq_ok_iff.mpr ⟨s, _, generate_append hgen, hshuffle, rfl⟩, ?_⟩
    have hnames := (generate_valid (generation_valid_initial heap) (by simp) hgen).1.names
    have htwice : s.generatedNumbersArray.flatMap (fun n => [cardName n, cardName n]) =
        (faces.flatMap fun d => [d, d]).map faceName := by
      rw [hnumbers, List.flatMap_map, List.map_flatMap]
      rfl
    rw [htwice] at hnames
    rw [hout, dealt, List.map_filterMap, List.map_filterMap]
    simp only [← List.getElem?_map, hnames]

theorem collect_of_getCards {heap heap' : Heap} {run : Fin k → Fin 13}
    {f : Fin (2 * pairs) → Fin (2 * pairs)} {cards : List CardRef}
    (h : getCards pairs (List.ofFn (fun i => (run i : ℕ)) ++ List.ofFn fun i => (f i : ℕ)) heap =
      .ok (cards, heap', [])) :
    ∃ faces, collect pairs [] (List.ofFn run) = some (faces, []) := by
  obtain ⟨s, rest, hgen, hshuffle, -⟩ := getCards_eq_ok_iff.mp h
  have hlen := shuffle_length hshuffle
  rw [(generate_deck hgen).length, List.length_nil, add_zero] at hlen
  obtain ⟨-, hrun⟩ := generate_append_inv hgen (by rw [hlen, List.length_ofFn])
  have hfaces := generate_faces pairs heap run
  rw [hrun] at hfaces
  obtain ⟨⟨faces, left⟩, hcollect, hpair⟩ := Option.map_eq_some_iff.mp hfaces.symm
  obtain rfl : left = [] := by simpa using congrArg Prod.snd hpair
  exact ⟨faces, hcollect⟩

theorem mem_deckSequences_iff (hpos : 0 < pairs) (heap : Heap) {run : Fin k → Fin 13}
    {f : Fin (2 * pairs) → Fin (2 * pairs)} {faces : List (Fin 13)} :
    (run, f) ∈ deckSequences pairs heap k (faces.map faceName) ↔
      ∃ drawn, collect pairs [] (List.ofFn run) = some (drawn, []) ∧ dealt drawn f = faces := by
  simp only [deckSequences, mem_filter, mem_univ, true_and]
  constructor
  · intro h
    cases hget : getCards pairs
      (List.ofFn (fun i => (run i : ℕ)) ++ List.ofFn fun i => (f i : ℕ)) heap with
    | error e => simp [hget, Except.toOption] at h
    | ok r =>
      obtain ⟨cards, heap', rest⟩ := r
      simp only [hget, Except.toOption, Option.map_some, Option.some.injEq, Prod.mk.injEq] at h
      obtain ⟨hnames, rfl⟩ := h
      obtain ⟨drawn, hcollect⟩ := collect_of_getCards hget
      refine ⟨drawn, hcollect, ?_⟩
      obtain ⟨cards', heap'', hget', hnames'⟩ := getCards_of_collect hpos heap hcollect f
      obtain ⟨rfl, rfl, -⟩ : cards = cards' ∧ heap' = heap'' ∧ True := by
        simpa using hget.symm.trans hget'
      exact List.map_injective_iff.mpr faceName_injective (hnames'.symm.trans hnames)
  · rintro ⟨drawn, hcollect, rfl⟩
    obtain ⟨cards, heap', hget, hnames⟩ := getCards_of_collect hpos heap hcollect f
    simp [hget, Except.toOption, hnames]

/-- No generator prefers a face: whatever order of faces a deck shows, and however many
draws it has taken, the deck with the faces exchanged by `σ` comes up as often. -/
theorem deck_faces_interchangeable (mode : GameMode) (heap : Heap) (k : ℕ)
    (σ : Equiv.Perm (Fin 13)) (faces : List (Fin 13)) :
    (deckSequences mode.pairs heap k (faces.map faceName)).card =
      (deckSequences mode.pairs heap k ((faces.map σ).map faceName)).card := by
  refine Finset.card_equiv ((Equiv.arrowCongr (Equiv.refl _) σ).prodCongr (Equiv.refl _)) ?_
  rintro ⟨run, f⟩
  change _ ↔ (⇑σ ∘ run, f) ∈ _
  rw [mem_deckSequences_iff mode.pairs_pos, mem_deckSequences_iff mode.pairs_pos]
  have hmap := collect_map σ.injective mode.pairs [] (List.ofFn run)
  rw [List.map_nil, List.map_ofFn] at hmap
  rw [hmap]
  constructor
  · rintro ⟨drawn, hcollect, rfl⟩
    exact ⟨drawn.map σ, by rw [hcollect]; rfl, dealt_map σ drawn f⟩
  · rintro ⟨drawn', hcollect, hfaces⟩
    obtain ⟨⟨drawn, left⟩, hdrawn, hpair⟩ := Option.map_eq_some_iff.mp hcollect
    obtain ⟨rfl, hleft⟩ := Prod.mk.inj hpair
    rw [List.map_eq_nil_iff.mp hleft] at hdrawn
    refine ⟨drawn, hdrawn, ?_⟩
    rw [dealt_map] at hfaces
    exact List.map_injective_iff.mpr σ.injective hfaces

end Relabel

section Swaps

variable {cards : List CardRef}

/-- The sequences of swap indices on which the shuffle takes the card of position `a` to
position `b`. -/
def movingSequences (cards : List CardRef) (a b : Fin cards.length) :
    Finset (Fin cards.length → Fin cards.length) :=
  univ.filter fun f =>
    (shuffle cards (List.ofFn fun i => (f i : ℕ))).toOption.bind (fun p => p.1[(b : ℕ)]?) =
      some (cards.get a)

theorem movingSequences_eq (hn : cards.Nodup) (a b : Fin cards.length) :
    movingSequences cards a b = univ.filter fun f => rearrangement f b = a := by
  apply filter_congr
  intro f _
  have hshuffle := shuffle_ofFn a.pos f []
  rw [List.append_nil] at hshuffle
  rw [hshuffle]
  simp only [Except.toOption, Option.bind_some, List.getElem?_ofFn, b.isLt, dite_true,
    Option.some.injEq]
  exact (List.nodup_iff_injective_get.mp hn).eq_iff

/-- The sequences of swap indices on which the shuffle rearranges the cards by some
permutation of the given sign. -/
def paritySequences (cards : List CardRef) (sign : ℤˣ) :
    Finset (Fin cards.length → Fin cards.length) :=
  (univ.filter fun s => Equiv.Perm.sign s = sign).biUnion (swapSequences cards)

theorem paritySequences_eq (hpos : 0 < cards.length) (hn : cards.Nodup) (sign : ℤˣ) :
    paritySequences cards sign =
      univ.filter fun f => Equiv.Perm.sign (rearrangement f) = sign := by
  ext f
  simp [paritySequences, swapSequences_eq hpos hn]

variable (mode : GameMode) {tape rest : List ℕ} {heap : Heap} {s : Generation}

theorem three_le_length (hdeck : Deck mode.pairs cards heap) : 3 ≤ cards.length := by
  rw [hdeck.length]
  cases mode <;> decide

/-- The share of the swap sequences that take a card from one position to another has a
closed form. It is the fair share exactly for the first card and for the last position. -/
theorem shuffle_position_shares
    (hgen : generate mode.pairs tape ⟨[], [], heap⟩ = .ok (s, rest))
    (a b : Fin s.generatedCardsArray.length) :
    ((movingSequences s.generatedCardsArray a b).card : ℚ) /
        ((2 * mode.pairs : ℕ) : ℚ) ^ (2 * mode.pairs) = placeShare (2 * mode.pairs) a b ∧
    (placeShare (2 * mode.pairs) a b = 1 / (2 * mode.pairs : ℕ) ↔
      (a : ℕ) = 0 ∨ (b : ℕ) = 2 * mode.pairs - 1) := by
  have hdeck := generate_deck hgen
  have hlen := hdeck.length
  constructor
  · have hshare := share_rearrangement a b
    rw [← movingSequences_eq hdeck.nodup] at hshare
    have hpow := congrArg (fun n : ℕ => (n : ℚ) ^ n) hlen
    have hplace := congrArg (fun n => placeShare n a b) hlen
    rwa [← hpow, ← hplace]
  · have hm : 3 ≤ 2 * mode.pairs := hlen ▸ three_le_length mode hdeck
    exact placeShare_eq_iff hm (hlen ▸ a.isLt) (hlen ▸ b.isLt)

theorem shuffle_position_shares_easy :
    ∃ s, generate GameMode.easy.pairs (orderedTape 6) ⟨[], [], Heap.empty⟩ =
        .ok (s, List.range 12) ∧
      ∀ a b : Fin s.generatedCardsArray.length,
        ((movingSequences s.generatedCardsArray a b).card : ℚ) / (12 : ℕ) ^ 12 =
          placeShare 12 a b := by
  have hgen : ∃ s, generate GameMode.easy.pairs (orderedTape 6) ⟨[], [], Heap.empty⟩ =
      .ok (s, List.range 12) := ⟨_, rfl⟩
  obtain ⟨s, hgen⟩ := hgen
  exact ⟨s, hgen, fun a b => (shuffle_position_shares .easy hgen a b).1⟩

/-- With `m` cards the shuffle gives even rearrangements on `(m - 2) ^ m` sequences more
than odd ones. -/
theorem shuffle_prefers_even
    (hgen : generate mode.pairs tape ⟨[], [], heap⟩ = .ok (s, rest)) :
    (paritySequences s.generatedCardsArray 1).card =
      (paritySequences s.generatedCardsArray (-1)).card +
        (2 * mode.pairs - 2) ^ (2 * mode.pairs) := by
  have hdeck := generate_deck hgen
  have hlen := hdeck.length
  have hthree := three_le_length mode hdeck
  have heven : Even s.generatedCardsArray.length := hlen ▸ even_two_mul mode.pairs
  rw [paritySequences_eq (by omega) hdeck.nodup, paritySequences_eq (by omega) hdeck.nodup,
    card_sign_rearrangement heven (by omega)]
  exact congrArg (_ + ·) (congrArg (fun n => (n - 2) ^ n) hlen)

theorem shuffle_prefers_even_hard :
    ∃ s, generate GameMode.hard.pairs (orderedTape 10) ⟨[], [], Heap.empty⟩ =
        .ok (s, List.range 20) ∧
      (paritySequences s.generatedCardsArray 1).card =
        (paritySequences s.generatedCardsArray (-1)).card + 18 ^ 20 := by
  have hgen : ∃ s, generate GameMode.hard.pairs (orderedTape 10) ⟨[], [], Heap.empty⟩ =
      .ok (s, List.range 20) := ⟨_, rfl⟩
  obtain ⟨s, hgen⟩ := hgen
  exact ⟨s, hgen, shuffle_prefers_even .hard hgen⟩

end Swaps

end CardPang.CardModel
