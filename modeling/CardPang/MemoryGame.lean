import Mathlib

/-!
# The memory game

Faces lie on a board and each face occurs on two positions. A player opens
positions one after the other; two open positions with the same face are matched
and leave the game, two different ones are closed again. The module gives the
rules and the exact number of taps that still separates a position from a win.
-/
namespace CardPang.MemoryGame

structure State (ι Name : Type*) where
  matched : Finset Name
  opened : Option ι
  time : ℤ
  deriving DecidableEq

inductive Event (ι : Type*)
  | tap (i : ι)
  | tick
  deriving DecidableEq, Repr

section Events

variable {ι : Type*}

def ticks : List (Event ι) → ℕ
  | [] => 0
  | .tap _ :: es => ticks es
  | .tick :: es => ticks es + 1

/-- The taps that come before the `n`-th tick. -/
def tapsBefore : ℕ → List (Event ι) → List (Event ι)
  | _, [] => []
  | n, .tap i :: es => .tap i :: tapsBefore n es
  | n, .tick :: es => if n ≤ 1 then [] else tapsBefore (n - 1) es

theorem ticks_append (es fs : List (Event ι)) : ticks (es ++ fs) = ticks es + ticks fs := by
  induction es with
  | nil => simp [ticks]
  | cons e es ih =>
    cases e with
    | tap i => exact ih
    | tick =>
      simp only [List.cons_append, ticks, ih]
      omega

theorem ticks_tapsBefore (n : ℕ) (es : List (Event ι)) : ticks (tapsBefore n es) = 0 := by
  induction es generalizing n with
  | nil => rfl
  | cons e es ih =>
    cases e with
    | tap i => exact ih n
    | tick =>
      simp only [tapsBefore]
      split_ifs
      · rfl
      · exact ih (n - 1)

theorem mem_tapsBefore {n : ℕ} {es : List (Event ι)} {e : Event ι} (h : e ∈ tapsBefore n es) :
    e ∈ es := by
  induction es generalizing n with
  | nil => simp [tapsBefore] at h
  | cons f es ih =>
    cases f with
    | tap i =>
      rcases List.mem_cons.mp h with rfl | h
      · simp
      · simp [ih h]
    | tick =>
      simp only [tapsBefore] at h
      split_ifs at h
      · simp at h
      · simp [ih h]

end Events

variable {ι Name : Type*} [DecidableEq ι] [DecidableEq Name]

def tap (name : ι → Name) (g : State ι Name) (i : ι) : State ι Name :=
  if g.time ≤ 0 ∨ name i ∈ g.matched ∨ g.opened = some i then g
  else match g.opened with
    | none => { g with opened := some i }
    | some p =>
      if name p = name i then
        { g with opened := none, matched := insert (name i) g.matched }
      else { g with opened := none }

def tick (g : State ι Name) : State ι Name := { g with time := g.time - 1 }

def handle (name : ι → Name) (g : State ι Name) : Event ι → State ι Name
  | .tap i => tap name g i
  | .tick => tick g

def play (name : ι → Name) (g : State ι Name) (es : List (Event ι)) : State ι Name :=
  es.foldl (handle name) g

theorem play_append_singleton (name : ι → Name) (g : State ι Name) (es : List (Event ι))
    (e : Event ι) : play name g (es ++ [e]) = handle name (play name g es) e := by
  simp [play]

/-- Everything one tap can do. -/
theorem tap_cases (name : ι → Name) (g : State ι Name) (i : ι) :
    ((g.time ≤ 0 ∨ name i ∈ g.matched ∨ g.opened = some i) ∧ tap name g i = g) ∨
    (0 < g.time ∧ name i ∉ g.matched ∧ g.opened = none ∧
      tap name g i = { g with opened := some i }) ∨
    (∃ p, 0 < g.time ∧ name i ∉ g.matched ∧ g.opened = some p ∧ p ≠ i ∧ name p ≠ name i ∧
      tap name g i = { g with opened := none }) ∨
    (∃ p, 0 < g.time ∧ name i ∉ g.matched ∧ g.opened = some p ∧ p ≠ i ∧ name p = name i ∧
      tap name g i = { g with opened := none, matched := insert (name i) g.matched }) := by
  by_cases hi : g.time ≤ 0 ∨ name i ∈ g.matched ∨ g.opened = some i
  · exact Or.inl ⟨hi, by simp [tap, hi]⟩
  · obtain ⟨ht, hm, ho⟩ : ¬ g.time ≤ 0 ∧ name i ∉ g.matched ∧ g.opened ≠ some i := by tauto
    right
    cases hp : g.opened with
    | none => exact Or.inl ⟨by omega, hm, rfl, by simp [tap, ht, hm, hp]⟩
    | some p =>
      have hne : p ≠ i := by
        rintro rfl
        exact ho hp
      right
      by_cases hn : name p = name i
      · exact Or.inr ⟨p, by omega, hm, rfl, hne, hn, by simp [tap, ht, hm, hp, hne, hn]⟩
      · exact Or.inl ⟨p, by omega, hm, rfl, hne, hn, by simp [tap, ht, hm, hp, hne, hn]⟩

@[simp] theorem tap_time (name : ι → Name) (g : State ι Name) (i : ι) :
    (tap name g i).time = g.time := by
  obtain ⟨_, h⟩ | ⟨_, _, _, h⟩ | ⟨_, _, _, _, _, _, h⟩ | ⟨_, _, _, _, _, _, h⟩ :=
    tap_cases name g i <;> rw [h]

theorem play_time (name : ι → Name) (g : State ι Name) (es : List (Event ι)) :
    (play name g es).time = g.time - ticks es := by
  induction es generalizing g with
  | nil => simp [play, ticks]
  | cons e es ih =>
    change (play name (handle name g e) es).time = _
    rw [ih]
    cases e with
    | tap i => simp [handle, ticks]
    | tick =>
      simp only [handle, tick, ticks]
      push_cast
      ring

theorem play_map_tap (name : ι → Name) (g : State ι Name) (is : List ι) :
    play name g (is.map .tap) = is.foldl (tap name) g := by
  simp [play, List.foldl_map, handle]

/-- The part of a state that the clock does not show. -/
def SameCards (g h : State ι Name) : Prop := g.matched = h.matched ∧ g.opened = h.opened

theorem tap_sameCards {name : ι → Name} {g h : State ι Name} (hs : SameCards g h)
    (hg : 0 < g.time) (hh : 0 < h.time) (i : ι) : SameCards (tap name g i) (tap name h i) := by
  obtain ⟨gm, go, gt⟩ := g
  obtain ⟨hm, ho, ht⟩ := h
  obtain ⟨rfl, rfl⟩ : gm = hm ∧ go = ho := hs
  have h1 : ¬ gt ≤ 0 := not_le.mpr hg
  have h2 : ¬ ht ≤ 0 := not_le.mpr hh
  unfold tap
  simp only [h1, h2, false_or]
  split_ifs with hi
  · exact ⟨rfl, rfl⟩
  · cases go with
    | none => exact ⟨rfl, rfl⟩
    | some p =>
      dsimp only
      split_ifs <;> exact ⟨rfl, rfl⟩

theorem play_taps_sameCards {name : ι → Name} {g h : State ι Name} {es : List (Event ι)}
    (hs : SameCards g h) (hg : 0 < g.time) (hh : 0 < h.time) (he : ticks es = 0) :
    SameCards (play name g es) (play name h es) := by
  induction es generalizing g h with
  | nil => exact hs
  | cons e es ih =>
    cases e with
    | tap i =>
      refine ih (tap_sameCards hs hg hh i) ?_ ?_ he
      · rwa [handle, tap_time]
      · rwa [handle, tap_time]
    | tick => simp [ticks] at he

theorem play_late_sameCards {name : ι → Name} {g : State ι Name} {es : List (Event ι)}
    (hg : g.time ≤ 0) : SameCards (play name g es) g := by
  induction es generalizing g with
  | nil => exact ⟨rfl, rfl⟩
  | cons e es ih =>
    cases e with
    | tap i =>
      have : tap name g i = g := by simp [tap, hg]
      change SameCards (play name (tap name g i) es) g
      rw [this]
      exact ih hg
    | tick =>
      have hlate : (tick g).time ≤ 0 := by
        simp only [tick]
        omega
      exact ih hlate

/-- Only the taps before the time is up matter, wherever the ticks fall between them. -/
theorem play_tapsBefore_sameCards {name : ι → Name} {g : State ι Name} (hg : 0 < g.time)
    (es : List (Event ι)) :
    SameCards (play name g es) (play name g (tapsBefore g.time.toNat es)) := by
  induction es generalizing g with
  | nil => exact ⟨rfl, rfl⟩
  | cons e es ih =>
    cases e with
    | tap i =>
      have h := ih (g := tap name g i) (by simpa using hg)
      rw [tap_time] at h
      exact h
    | tick =>
      change SameCards (play name (tick g) es) _
      simp only [tapsBefore]
      split_ifs with hone
      · refine play_late_sameCards ?_
        simp only [tick]
        omega
      · have hpos : 0 < (tick g).time := by
          simp only [tick]
          omega
        have hn : (tick g).time.toNat = g.time.toNat - 1 := by
          simp only [tick]
          omega
        have h1 := ih hpos
        rw [hn] at h1
        have h2 : SameCards (play name (tick g) (tapsBefore (g.time.toNat - 1) es))
            (play name g (tapsBefore (g.time.toNat - 1) es)) :=
          play_taps_sameCards ⟨rfl, rfl⟩ hpos hg (ticks_tapsBefore _ es)
        exact ⟨h1.1.trans h2.1, h1.2.trans h2.2⟩

/-- Every face lies on exactly two positions of the board. -/
def Paired (board : Finset ι) (name : ι → Name) : Prop :=
  ∀ i ∈ board, (board.filter (fun j => name j = name i)).card = 2

/-- The open position, if any, is on the board and its face is still in the game. -/
def Legal (board : Finset ι) (name : ι → Name) (g : State ι Name) : Prop :=
  ∀ p, g.opened = some p → p ∈ board ∧ name p ∉ g.matched

def unmatched (board : Finset ι) (name : ι → Name) (g : State ι Name) : Finset ι :=
  board.filter (fun i => name i ∉ g.matched)

/-- The number of taps that are still needed to match everything. -/
def deficit (board : Finset ι) (name : ι → Name) (g : State ι Name) : ℕ :=
  (unmatched board name g).card - (if g.opened = none then 0 else 1)

section Board

variable {board : Finset ι} {name : ι → Name} {g : State ι Name}

theorem tap_legal {i : ι} (hi : i ∈ board) (h : Legal board name g) :
    Legal board name (tap name g i) := by
  obtain ⟨_, he⟩ | ⟨_, hm, _, he⟩ | ⟨_, _, _, _, _, _, he⟩ | ⟨_, _, _, _, _, _, he⟩ :=
    tap_cases name g i
  · rwa [he]
  · rw [he]
    rintro p hp
    obtain rfl : i = p := by simpa using hp
    exact ⟨hi, hm⟩
  · rw [he]
    simp [Legal]
  · rw [he]
    simp [Legal]

/-- The other position with the same face. -/
theorem Paired.partner (hp : Paired board name) {i : ι} (hi : i ∈ board) :
    ∃ j ∈ board, j ≠ i ∧ name j = name i ∧
      ∀ k ∈ board, name k = name i → k = i ∨ k = j := by
  obtain ⟨a, b, hab, hs⟩ := Finset.card_eq_two.mp (hp i hi)
  have hmem : ∀ k, (k ∈ board ∧ name k = name i) ↔ (k = a ∨ k = b) := by
    intro k
    have hk : k ∈ board.filter (fun j => name j = name i) ↔ k ∈ ({a, b} : Finset ι) := by rw [hs]
    simpa using hk
  rcases (hmem i).mp ⟨hi, rfl⟩ with rfl | rfl
  · obtain ⟨hb, hn⟩ := (hmem b).mpr (Or.inr rfl)
    exact ⟨b, hb, hab.symm, hn, fun k hk hkn => (hmem k).mp ⟨hk, hkn⟩⟩
  · obtain ⟨ha, hn⟩ := (hmem a).mpr (Or.inl rfl)
    exact ⟨a, ha, hab, hn, fun k hk hkn => ((hmem k).mp ⟨hk, hkn⟩).symm⟩

/-- Matching the face of an unmatched position removes exactly two positions. -/
theorem unmatched_insert_card (hp : Paired board name) {i : ι} (hi : i ∈ board)
    (hm : name i ∉ g.matched) (o : Option ι) :
    (unmatched board name
      { g with opened := o, matched := insert (name i) g.matched }).card + 2 =
      (unmatched board name g).card := by
  have hsub : board.filter (fun j => name j = name i) ⊆ unmatched board name g := by
    intro j hj
    obtain ⟨hj, hn⟩ := Finset.mem_filter.mp hj
    exact Finset.mem_filter.mpr ⟨hj, by rwa [hn]⟩
  have he : unmatched board name
      { g with opened := o, matched := insert (name i) g.matched } =
        unmatched board name g \ board.filter (fun j => name j = name i) := by
    ext j
    simp only [unmatched, Finset.mem_filter, Finset.mem_insert, Finset.mem_sdiff]
    tauto
  rw [he, ← hp i hi]
  exact Finset.card_sdiff_add_card_eq_card hsub

/-- No tap saves more than one tap. -/
theorem deficit_le_tap (hp : Paired board name) {i : ι} (hi : i ∈ board) :
    deficit board name g ≤ deficit board name (tap name g i) + 1 := by
  obtain ⟨_, he⟩ | ⟨_, _, ho, he⟩ | ⟨p, _, _, ho, _, _, he⟩ | ⟨p, _, hm, ho, _, _, he⟩ :=
    tap_cases name g i
  · rw [he]
    omega
  · rw [he]
    simp only [deficit, unmatched, ho, reduceCtorEq, if_true, if_false]
    omega
  · rw [he]
    simp only [deficit, unmatched, ho, reduceCtorEq, if_true, if_false]
    omega
  · have hc := unmatched_insert_card hp hi hm none
    rw [he]
    simp only [deficit, ho, reduceCtorEq, if_true, if_false]
    omega

theorem deficit_le_taps (hp : Paired board name) (is : List ι) (hi : ∀ i ∈ is, i ∈ board) :
    deficit board name g ≤ deficit board name (is.foldl (tap name) g) + is.length := by
  induction is generalizing g with
  | nil => simp
  | cons i is ih =>
    have h1 := deficit_le_tap (g := g) hp (hi i (by simp))
    have h2 := ih (g := tap name g i) (fun j hj => hi j (by simp [hj]))
    simp only [List.foldl_cons, List.length_cons]
    omega

theorem deficit_eq_zero_iff (hp : Paired board name) :
    deficit board name g = 0 ↔ unmatched board name g = ∅ := by
  constructor
  · intro hd
    by_contra hne
    obtain ⟨i, hi⟩ := Finset.nonempty_iff_ne_empty.mpr hne
    obtain ⟨hb, hm⟩ := Finset.mem_filter.mp hi
    have hc := unmatched_insert_card hp hb hm none
    unfold deficit at hd
    split_ifs at hd <;> omega
  · intro he
    simp [deficit, he]

/-- As long as something is unmatched and time is left, some tap saves a tap. -/
theorem exists_saving_tap (hp : Paired board name) (hl : Legal board name g) (ht : 0 < g.time)
    (hu : unmatched board name g ≠ ∅) :
    ∃ i ∈ board, deficit board name (tap name g i) + 1 = deficit board name g := by
  cases ho : g.opened with
  | none =>
    obtain ⟨i, hi⟩ := Finset.nonempty_iff_ne_empty.mpr hu
    obtain ⟨hb, hm⟩ := Finset.mem_filter.mp hi
    have hcard : 0 < (unmatched board name g).card := Finset.card_pos.mpr ⟨i, hi⟩
    have he : tap name g i = { g with opened := some i } := by
      simp [tap, ho, hm, ht]
    refine ⟨i, hb, ?_⟩
    rw [he]
    simp only [deficit, unmatched, ho, reduceCtorEq, if_true, if_false] at hcard ⊢
    omega
  | some p =>
    -- The partner of the open position closes the pair.
    obtain ⟨hb, hm⟩ := hl p ho
    obtain ⟨j, hj, hne, hn, _⟩ := hp.partner hb
    have hmj : name j ∉ g.matched := by rwa [hn]
    have he : tap name g j =
        { g with opened := none, matched := insert (name j) g.matched } := by
      simp [tap, ho, hm, ht, hne.symm, hn]
    have hc := unmatched_insert_card hp hj hmj none
    refine ⟨j, hj, ?_⟩
    rw [he]
    simp only [deficit, ho, reduceCtorEq, if_true, if_false] at hc ⊢
    omega

/-- The deficit is attained: that many taps match the whole board. -/
theorem exists_winning_taps (hp : Paired board name) (hl : Legal board name g)
    (ht : 0 < g.time) :
    ∃ is : List ι, (∀ i ∈ is, i ∈ board) ∧ is.length = deficit board name g ∧
      unmatched board name (is.foldl (tap name) g) = ∅ := by
  generalize hd : deficit board name g = d
  induction d generalizing g with
  | zero => exact ⟨[], by simp, rfl, (deficit_eq_zero_iff hp).mp hd⟩
  | succ d ih =>
    have hu : unmatched board name g ≠ ∅ := fun he => by
      rw [(deficit_eq_zero_iff hp).mpr he] at hd
      omega
    obtain ⟨i, hi, hs⟩ := exists_saving_tap hp hl ht hu
    obtain ⟨is, hb, hlen, hw⟩ := ih (tap_legal hi hl) (by simpa using ht) (by omega)
    refine ⟨i :: is, ?_, by simp [hlen], hw⟩
    intro j hj
    rcases List.mem_cons.mp hj with rfl | hj
    · exact hi
    · exact hb j hj

end Board

end CardPang.MemoryGame
