import CardPang.Card

/-!
# The deck generators

A generator draws numbers from 1 to 13 until enough different ones have come up,
makes two cards for each, and swaps every position with a drawn one. The results
of `arc4random_uniform` are read from a tape, so that one tape is one execution;
a tape that ends, or that holds a value the call cannot give, leaves the call
without a result.
-/
namespace CardPang.CardModel

inductive Halt
  | trap (t : Trap)
  | noDraw
  deriving DecidableEq, Repr

def orTrap {α : Type*} : Except Trap α → Except Halt α
  | .ok a => .ok a
  | .error t => .error (.trap t)

def arc4randomUniform (upperBound : ℕ) : List ℕ → Except Halt (ℕ × List ℕ)
  | [] => .error .noDraw
  | d :: tape => if d < upperBound then .ok (d, tape) else .error .noDraw

structure Generation where
  generatedNumbersArray : List ℕ
  generatedCardsArray : List CardRef
  heap : Heap

def cardName (randomNumber : ℕ) : String := "card" ++ toString randomNumber

def appendCard (randomNumber : ℕ) (s : Generation) : Generation :=
  let (card, heap) := s.heap.new
  { s with
    generatedCardsArray := s.generatedCardsArray ++ [card]
    heap := heap.modify card fun c => { c with imageName := cardName randomNumber } }

/-- The body of the `while` loop after the draw. -/
def generateOne (randomNumber : ℕ) (s : Generation) : Generation :=
  if s.generatedNumbersArray.contains randomNumber = false then
    appendCard randomNumber (appendCard randomNumber
      { s with generatedNumbersArray := s.generatedNumbersArray ++ [randomNumber] })
  else s

/-- `while generatedNumbersArray.count < pairs`. -/
def generate (pairs : ℕ) : List ℕ → Generation → Except Halt (Generation × List ℕ)
  | [], s =>
    if s.generatedNumbersArray.length < pairs then .error .noDraw else .ok (s, [])
  | d :: tape, s =>
    if s.generatedNumbersArray.length < pairs then
      if d < 13 then generate pairs tape (generateOne (d + 1) s) else .error .noDraw
    else .ok (s, d :: tape)

def swapCards (cards : List CardRef) (i randomNumber : ℕ) : Except Trap (List CardRef) := do
  let temporaryStorage ← element cards i
  let other ← element cards randomNumber
  let cards ← assign cards i other
  assign cards randomNumber temporaryStorage

def shuffleAt : List ℕ → List CardRef → List ℕ → Except Halt (List CardRef × List ℕ)
  | [], cards, tape => .ok (cards, tape)
  | i :: is, cards, tape => do
    let (randomNumber, tape) ← arc4randomUniform cards.length tape
    let cards ← orTrap (swapCards cards i randomNumber)
    shuffleAt is cards tape

/-- `for i in 0...generatedCardsArray.count - 1`; the closed range of an empty array traps. -/
def shuffle (cards : List CardRef) (tape : List ℕ) : Except Halt (List CardRef × List ℕ) :=
  if cards.length = 0 then .error (.trap .invalidRange)
  else shuffleAt (List.range cards.length) cards tape

def getCards (pairs : ℕ) (tape : List ℕ) (heap : Heap) :
    Except Halt (List CardRef × Heap × List ℕ) := do
  let (s, tape) ← generate pairs tape ⟨[], [], heap⟩
  let (cards, tape) ← shuffle s.generatedCardsArray tape
  return (cards, s.heap, tape)

def getEasyCards : List ℕ → Heap → Except Halt (List CardRef × Heap × List ℕ) := getCards 6

def getNormalCards : List ℕ → Heap → Except Halt (List CardRef × Heap × List ℕ) := getCards 8

def getHardCards : List ℕ → Heap → Except Halt (List CardRef × Heap × List ℕ) := getCards 10

theorem cardName_injective : Function.Injective cardName := by
  intro a b h
  exact Nat.repr_injective ((String.append_right_inj "card").mp h)

/-- The loop invariant of the generation: no number twice, two closed cards of
its own for each number, in the order of the numbers. -/
structure Generation.Valid (s : Generation) : Prop where
  numbers_nodup : s.generatedNumbersArray.Nodup
  numbers_range : ∀ n ∈ s.generatedNumbersArray, 1 ≤ n ∧ n ≤ 13
  cards_nodup : s.generatedCardsArray.Nodup
  cards_lt : ∀ r ∈ s.generatedCardsArray, r.address < s.heap.next
  names : s.generatedCardsArray.map (fun r => (s.heap.card r).imageName) =
    s.generatedNumbersArray.flatMap (fun n => [cardName n, cardName n])
  closed : ∀ r ∈ s.generatedCardsArray,
    (s.heap.card r).isFlipped = false ∧ (s.heap.card r).isMatched = false

theorem appendCard_heap (n : ℕ) (s : Generation) (r : CardRef) :
    (appendCard n s).heap.card r =
      if r = ⟨s.heap.next⟩ then { imageName := cardName n } else s.heap.card r := by
  by_cases h : r = ⟨s.heap.next⟩
  · subst h
    simp [appendCard, Heap.new]
  · simp [appendCard, Heap.new, Heap.modify, h]

theorem appendCard_old {n : ℕ} {s : Generation} {r : CardRef} (hr : r.address < s.heap.next) :
    (appendCard n s).heap.card r = s.heap.card r := by
  have hne : r ≠ ⟨s.heap.next⟩ := by
    rintro rfl
    exact lt_irrefl _ hr
  rw [appendCard_heap, if_neg hne]

@[simp] theorem appendCard_next (n : ℕ) (s : Generation) :
    (appendCard n s).heap.next = s.heap.next + 1 := rfl

@[simp] theorem appendCard_cards (n : ℕ) (s : Generation) :
    (appendCard n s).generatedCardsArray = s.generatedCardsArray ++ [⟨s.heap.next⟩] := rfl

@[simp] theorem appendCard_numbers (n : ℕ) (s : Generation) :
    (appendCard n s).generatedNumbersArray = s.generatedNumbersArray := rfl

theorem generateOne_new {n : ℕ} {s : Generation} (h : n ∉ s.generatedNumbersArray) :
    generateOne n s = appendCard n (appendCard n
      { s with generatedNumbersArray := s.generatedNumbersArray ++ [n] }) := by
  simp [generateOne, h]

theorem generateOne_old {n : ℕ} {s : Generation} (h : n ∈ s.generatedNumbersArray) :
    generateOne n s = s := by
  simp [generateOne, h]

/-- The part of the invariant that is about the card objects. -/
structure Generation.CardsValid (s : Generation) : Prop where
  nodup : s.generatedCardsArray.Nodup
  lt : ∀ r ∈ s.generatedCardsArray, r.address < s.heap.next
  closed : ∀ r ∈ s.generatedCardsArray,
    (s.heap.card r).isFlipped = false ∧ (s.heap.card r).isMatched = false

theorem appendCard_valid {s : Generation} (hs : s.CardsValid) (n : ℕ) :
    (appendCard n s).CardsValid := by
  constructor
  · rw [appendCard_cards]
    refine List.nodup_append.mpr ⟨hs.nodup, List.nodup_singleton _, ?_⟩
    rintro a ha b hb rfl
    obtain rfl := List.mem_singleton.mp hb
    exact lt_irrefl _ (hs.lt _ ha)
  · intro r hr
    rw [appendCard_next]
    rcases List.mem_append.mp hr with hr | hr
    · have hlt := hs.lt r hr
      omega
    · obtain rfl := List.mem_singleton.mp hr
      exact Nat.lt_succ_self _
  · intro r hr
    rcases List.mem_append.mp hr with hr | hr
    · rw [appendCard_old (hs.lt r hr)]
      exact hs.closed r hr
    · obtain rfl := List.mem_singleton.mp hr
      rw [appendCard_heap, if_pos rfl]
      exact ⟨rfl, rfl⟩

theorem appendCard_names {s : Generation} (hs : s.CardsValid) (n : ℕ) :
    (appendCard n s).generatedCardsArray.map (fun r => ((appendCard n s).heap.card r).imageName) =
      s.generatedCardsArray.map (fun r => (s.heap.card r).imageName) ++ [cardName n] := by
  have hold : s.generatedCardsArray.map (fun r => ((appendCard n s).heap.card r).imageName) =
      s.generatedCardsArray.map (fun r => (s.heap.card r).imageName) :=
    List.map_congr_left fun r hr => by rw [appendCard_old (hs.lt r hr)]
  rw [appendCard_cards, List.map_append, hold]
  simp [appendCard_heap]

/-- One draw keeps the loop invariant. -/
theorem generateOne_valid {n : ℕ} {s : Generation} (hs : s.Valid) (hn : 1 ≤ n ∧ n ≤ 13) :
    (generateOne n s).Valid := by
  by_cases hm : n ∈ s.generatedNumbersArray
  · rwa [generateOne_old hm]
  rw [generateOne_new hm]
  set s' : Generation := { s with generatedNumbersArray := s.generatedNumbersArray ++ [n] }
  have h0 : s'.CardsValid := ⟨hs.cards_nodup, hs.cards_lt, hs.closed⟩
  have h1 := appendCard_valid h0 n
  have h2 := appendCard_valid h1 n
  refine ⟨?_, ?_, h2.nodup, h2.lt, ?_, h2.closed⟩
  · have hne : ∀ a ∈ s.generatedNumbersArray, a ≠ n := fun a ha => ne_of_mem_of_not_mem ha hm
    simpa [s', List.nodup_append, hs.numbers_nodup] using hne
  · intro m hmem
    rcases List.mem_append.mp (show m ∈ s.generatedNumbersArray ++ [n] from hmem) with h | h
    · exact hs.numbers_range m h
    · simpa [List.mem_singleton.mp h] using hn
  · calc
      _ = s.generatedCardsArray.map (fun r => (s.heap.card r).imageName) ++
          [cardName n] ++ [cardName n] := by rw [appendCard_names h1, appendCard_names h0]
      _ = s.generatedNumbersArray.flatMap (fun n => [cardName n, cardName n]) ++
          [cardName n] ++ [cardName n] := by rw [hs.names]
      _ = _ := by simp [s']

theorem generateOne_length (n : ℕ) (s : Generation) :
    (generateOne n s).generatedNumbersArray.length ≤ s.generatedNumbersArray.length + 1 := by
  by_cases hm : n ∈ s.generatedNumbersArray
  · simp [generateOne_old hm]
  · simp [generateOne_new hm]

/-- When the loop stops it has exactly the wanted number of different numbers. -/
theorem generate_valid {pairs : ℕ} {tape rest : List ℕ} {s t : Generation}
    (hs : s.Valid) (hle : s.generatedNumbersArray.length ≤ pairs)
    (h : generate pairs tape s = .ok (t, rest)) :
    t.Valid ∧ t.generatedNumbersArray.length = pairs := by
  induction tape generalizing s with
  | nil =>
    simp only [generate] at h
    split_ifs at h with hlt
    obtain ⟨rfl, -⟩ := Prod.mk.inj (Except.ok.inj h)
    exact ⟨hs, by omega⟩
  | cons d tape ih =>
    simp only [generate] at h
    split_ifs at h with hlt hd
    · have hl := generateOne_length (d + 1) s
      exact ih (generateOne_valid hs (by omega)) (by omega) h
    · obtain ⟨rfl, -⟩ := Prod.mk.inj (Except.ok.inj h)
      exact ⟨hs, by omega⟩

theorem swapCards_of_lt {cards : List CardRef} {i j : ℕ} (hi : i < cards.length)
    (hj : j < cards.length) :
    swapCards cards i j = .ok ((cards.set i cards[j]).set j cards[i]) := by
  have hj' : j < (cards.set i cards[j]).length := by simpa using hj
  unfold swapCards
  rw [element_of_lt hi, element_of_lt hj]
  change (do let cs ← assign cards i cards[j]; assign cs j cards[i]) = _
  rw [assign_of_lt hi]
  exact assign_of_lt hj' _

theorem shuffleAt_cons {i d : ℕ} {is rest : List ℕ} {cards : List CardRef}
    (hi : i < cards.length) (hd : d < cards.length) :
    shuffleAt (i :: is) cards (d :: rest) =
      shuffleAt is ((cards.set i cards[d]).set d cards[i]) rest := by
  simp only [shuffleAt, arc4randomUniform, if_pos hd, bind, Except.bind,
    swapCards_of_lt hi hd, orTrap]

/-- At a position of the array the loop swaps and goes on, or it has no draw. -/
theorem shuffleAt_cases {i : ℕ} {is tape : List ℕ} {cards : List CardRef}
    (hi : i < cards.length) :
    (∃ d rest, ∃ hd : d < cards.length, tape = d :: rest ∧ shuffleAt (i :: is) cards tape =
      shuffleAt is ((cards.set i cards[d]).set d cards[i]) rest) ∨
    shuffleAt (i :: is) cards tape = .error .noDraw := by
  cases tape with
  | nil => exact Or.inr rfl
  | cons d rest =>
    by_cases hd : d < cards.length
    · exact Or.inl ⟨d, rest, hd, rfl, shuffleAt_cons hi hd⟩
    · right
      simp [shuffleAt, arc4randomUniform, hd, bind, Except.bind]

/-- The shuffle only rearranges the cards. -/
theorem shuffleAt_perm {is : List ℕ} {cards out : List CardRef} {tape rest : List ℕ}
    (his : ∀ i ∈ is, i < cards.length) (h : shuffleAt is cards tape = .ok (out, rest)) :
    out.Perm cards := by
  induction is generalizing cards tape with
  | nil =>
    obtain ⟨rfl, -⟩ := Prod.mk.inj (Except.ok.inj h)
    exact List.Perm.refl _
  | cons i is ih =>
    have hi := his i (by simp)
    rcases shuffleAt_cases hi with ⟨d, tape', hd, -, hstep⟩ | hstep
    · rw [hstep] at h
      have hrest : ∀ k ∈ is, k < ((cards.set i cards[d]).set d cards[i]).length := by
        intro k hk
        simpa using his k (by simp [hk])
      exact (ih hrest h).trans (List.set_set_perm hi hd)
    · rw [hstep] at h
      cases h

/-- Every index of the shuffle is in range. -/
theorem shuffleAt_ne_trap {is tape : List ℕ} {cards : List CardRef}
    (his : ∀ i ∈ is, i < cards.length) (t : Trap) :
    shuffleAt is cards tape ≠ .error (.trap t) := by
  induction is generalizing cards tape with
  | nil => simp [shuffleAt]
  | cons i is ih =>
    rcases shuffleAt_cases (his i List.mem_cons_self) with ⟨d, tape', hd, -, hstep⟩ | hstep
    · rw [hstep]
      apply ih
      intro k hk
      simpa using his k (List.mem_cons_of_mem i hk)
    · simp [hstep]

/-- What a generator returns: `2 * pairs` different card objects, all closed and
unmatched, in which every occurring name is the name of a face and occurs twice. -/
structure Deck (pairs : ℕ) (cards : List CardRef) (heap : Heap) : Prop where
  length : cards.length = 2 * pairs
  nodup : cards.Nodup
  closed : ∀ r ∈ cards, (heap.card r).isFlipped = false ∧ (heap.card r).isMatched = false
  faces : ∀ r ∈ cards, ∃ k, 1 ≤ k ∧ k ≤ 13 ∧ (heap.card r).imageName = cardName k
  paired : ∀ r ∈ cards,
    (cards.map fun s => (heap.card s).imageName).count (heap.card r).imageName = 2

lemma length_flatMap_twice {α β : Type*} (f : α → β) (l : List α) :
    (l.flatMap fun n => [f n, f n]).length = 2 * l.length := by
  induction l with
  | nil => rfl
  | cons n l ih =>
    simp only [List.flatMap_cons, List.length_append, List.length_cons, List.length_nil, ih]
    omega

lemma count_flatMap_twice {α β : Type*} [DecidableEq β] (f : α → β) (l : List α) (x : β) :
    (l.flatMap fun n => [f n, f n]).count x = 2 * (l.map f).count x := by
  induction l with
  | nil => rfl
  | cons n l ih =>
    simp only [List.flatMap_cons, List.count_append, List.count_cons, List.count_nil,
      List.map_cons, ih]
    omega

theorem Generation.Valid.deck {s : Generation} {pairs : ℕ} (hs : s.Valid)
    (hlen : s.generatedNumbersArray.length = pairs) :
    Deck pairs s.generatedCardsArray s.heap := by
  have hface : ∀ r ∈ s.generatedCardsArray,
      ∃ k ∈ s.generatedNumbersArray, (s.heap.card r).imageName = cardName k := by
    intro r hr
    have hm := List.mem_map_of_mem (f := fun r => (s.heap.card r).imageName) hr
    rw [hs.names] at hm
    obtain ⟨k, hk, hx⟩ := List.mem_flatMap.mp hm
    exact ⟨k, hk, by simpa using hx⟩
  refine ⟨?_, hs.cards_nodup, hs.closed, ?_, ?_⟩
  · have hl := congrArg List.length hs.names
    rw [length_flatMap_twice, List.length_map] at hl
    rw [hl, hlen]
  · intro r hr
    obtain ⟨k, hk, he⟩ := hface r hr
    obtain ⟨h1, h13⟩ := hs.numbers_range k hk
    exact ⟨k, h1, h13, he⟩
  · intro r hr
    obtain ⟨k, hk, he⟩ := hface r hr
    rw [hs.names, count_flatMap_twice, he,
      List.count_eq_one_of_mem (hs.numbers_nodup.map cardName_injective)
        (List.mem_map_of_mem hk)]

theorem Deck.perm {pairs : ℕ} {cards out : List CardRef} {heap : Heap}
    (hd : Deck pairs cards heap) (hp : out.Perm cards) : Deck pairs out heap := by
  refine ⟨hp.length_eq.trans hd.length, hp.nodup_iff.mpr hd.nodup, ?_, ?_, ?_⟩
  · exact fun r hr => hd.closed r (hp.mem_iff.mp hr)
  · exact fun r hr => hd.faces r (hp.mem_iff.mp hr)
  · intro r hr
    rw [(hp.map _).count_eq]
    exact hd.paired r (hp.mem_iff.mp hr)

theorem generation_valid_initial (heap : Heap) : Generation.Valid ⟨[], [], heap⟩ := by
  constructor <;> simp

theorem generate_deck {pairs : ℕ} {tape rest : List ℕ} {heap : Heap} {s : Generation}
    (h : generate pairs tape ⟨[], [], heap⟩ = .ok (s, rest)) :
    Deck pairs s.generatedCardsArray s.heap := by
  obtain ⟨hvalid, hlen⟩ := generate_valid (generation_valid_initial heap) (by simp) h
  exact hvalid.deck hlen

theorem getCards_eq_ok_iff {pairs : ℕ} {tape rest' : List ℕ} {heap heap' : Heap}
    {cards : List CardRef} :
    getCards pairs tape heap = .ok (cards, heap', rest') ↔
      ∃ s rest, generate pairs tape ⟨[], [], heap⟩ = .ok (s, rest) ∧
        shuffle s.generatedCardsArray rest = .ok (cards, rest') ∧ heap' = s.heap := by
  simp only [getCards, bind_eq_ok, pure, Except.pure, Except.ok.injEq, Prod.mk.injEq]
  constructor
  · rintro ⟨⟨s, rest⟩, hgen, ⟨out, rest''⟩, hshuffle, rfl, rfl, rfl⟩
    exact ⟨s, rest, hgen, hshuffle, rfl⟩
  · rintro ⟨s, rest, hgen, hshuffle, rfl⟩
    exact ⟨(s, rest), hgen, (cards, rest'), hshuffle, rfl, rfl, rfl⟩

/-- Every array that a generator returns is a deck. -/
theorem getCards_deck {pairs : ℕ} {tape rest : List ℕ} {heap heap' : Heap}
    {cards : List CardRef} (h : getCards pairs tape heap = .ok (cards, heap', rest)) :
    Deck pairs cards heap' := by
  obtain ⟨s, tape', hgen, hshuffle, rfl⟩ := getCards_eq_ok_iff.mp h
  simp only [shuffle] at hshuffle
  split_ifs at hshuffle
  exact (generate_deck hgen).perm (shuffleAt_perm (by simp) hshuffle)

end CardPang.CardModel
