import CardPang.DistinctDraws
import CardPang.GameRefinement

/-!
# The generation loop of the three generators

The loop has no counter. It collects the first occurrences among its draws, so
where it stops, what it has collected by then and how often each choice of faces
comes up are those of `DistinctDraws.collect`.
-/
namespace CardPang.CardModel
open DistinctDraws GameController

theorem generateOne_numbers (n : ℕ) (s : Generation) :
    (generateOne n s).generatedNumbersArray = keep s.generatedNumbersArray n := by
  unfold keep
  split_ifs with h
  · rw [generateOne_old h]
  · rw [generateOne_new h, appendCard_numbers, appendCard_numbers]

/-- The numbers and the draws left over are those of the abstract loop on the faces
drawn. -/
theorem generate_collect (pairs : ℕ) {tape : List ℕ} (htape : ∀ d ∈ tape, d < 13)
    (s : Generation) :
    (generate pairs tape s).toOption.map
        (fun p => (p.1.generatedNumbersArray, p.2.map (· + 1))) =
      collect pairs s.generatedNumbersArray (tape.map (· + 1)) := by
  induction tape generalizing s with
  | nil =>
    simp only [generate, List.map_nil, collect]
    split_ifs <;> rfl
  | cons d tape ih =>
    have hd : d < 13 := htape d List.mem_cons_self
    have hrest : ∀ e ∈ tape, e < 13 := fun e he => htape e (List.mem_cons_of_mem d he)
    simp only [generate, List.map_cons, collect, if_pos hd]
    split_ifs
    · rw [ih hrest, generateOne_numbers]
    · rfl

theorem generate_collect_ok {pairs : ℕ} {tape rest : List ℕ} {s t : Generation}
    (htape : ∀ d ∈ tape, d < 13) (h : generate pairs tape s = .ok (t, rest)) :
    collect pairs s.generatedNumbersArray (tape.map (· + 1)) =
      some (t.generatedNumbersArray, rest.map (· + 1)) := by
  rw [← generate_collect pairs htape s, h]
  rfl

theorem exists_generate_ok {pairs : ℕ} {tape numbers rest : List ℕ} {s : Generation}
    (htape : ∀ d ∈ tape, d < 13)
    (h : collect pairs s.generatedNumbersArray (tape.map (· + 1)) = some (numbers, rest)) :
    ∃ t rest', generate pairs tape s = .ok (t, rest') ∧ t.generatedNumbersArray = numbers ∧
      rest'.map (· + 1) = rest := by
  rw [← generate_collect pairs htape s] at h
  cases hg : generate pairs tape s with
  | error e => simp [hg, Except.toOption] at h
  | ok p =>
    simp only [hg, Except.toOption, Option.map_some, Option.some.injEq, Prod.mk.injEq] at h
    exact ⟨p.1, p.2, rfl, h.1, h.2⟩

/-- Draws that are all different are all kept. -/
theorem generate_distinct {pairs : ℕ} {ks : List ℕ} {s : Generation}
    (hn : (s.generatedNumbersArray ++ ks).Nodup) (hrange : ∀ k ∈ ks, 1 ≤ k ∧ k ≤ 13)
    (hlen : s.generatedNumbersArray.length + ks.length = pairs) :
    ∃ t, (∀ rest, generate pairs (ks.map (· - 1) ++ rest) s = .ok (t, rest)) ∧
      t.generatedNumbersArray = s.generatedNumbersArray ++ ks := by
  induction ks generalizing s with
  | nil =>
    have hfull : ¬ s.generatedNumbersArray.length < pairs := by
      simp only [List.length_nil] at hlen
      omega
    refine ⟨s, ?_, (List.append_nil _).symm⟩
    intro rest
    cases rest <;> simp [generate, hfull]
  | cons k ks ih =>
    obtain ⟨h1, h13⟩ := hrange k List.mem_cons_self
    have hnew : k ∉ s.generatedNumbersArray := by
      intro hk
      exact (List.nodup_append.mp hn).2.2 k hk k List.mem_cons_self rfl
    have hnumbers : (generateOne k s).generatedNumbersArray = s.generatedNumbersArray ++ [k] := by
      rw [generateOne_numbers, keep, if_neg hnew]
    rw [List.length_cons] at hlen
    have hlt : s.generatedNumbersArray.length < pairs := by omega
    have hdraw : k - 1 < 13 := by omega
    obtain ⟨t, hgen, ht⟩ := ih (s := generateOne k s)
      (by rw [hnumbers, List.append_assoc]; exact hn)
      (fun j hj => hrange j (List.mem_cons_of_mem k hj))
      (by rw [hnumbers, List.length_append, List.length_singleton]; omega)
    refine ⟨t, ?_, ?_⟩
    · intro rest
      simp only [List.map_cons, List.cons_append, generate, if_pos hlt, if_pos hdraw,
        Nat.sub_add_cancel h1]
      exact hgen rest
    · rw [ht, hnumbers, List.append_assoc]
      rfl

section Stream

/-- The results of `arc4random_uniform(13)` behind the first draws of a stream. -/
def drawTape (draws : ℕ → ℕ) (l : ℕ) : List ℕ := (firstDraws draws l).map (· - 1)

/-- The loop stops in the state `s` when it has consumed `k` draws of the stream. -/
def StopsAfter (pairs : ℕ) (draws : ℕ → ℕ) (heap : Heap) (k : ℕ) (s : Generation) : Prop :=
  ∃ l, k ≤ l ∧ generate pairs (drawTape draws l) ⟨[], [], heap⟩ =
    .ok (s, (drawTape draws l).drop k)

variable {pairs : ℕ} {draws : ℕ → ℕ} {heap : Heap} {k : ℕ} {s : Generation}

theorem drawTape_lt (hdraws : ∀ i, 1 ≤ draws i ∧ draws i ≤ 13) (l : ℕ) :
    ∀ d ∈ drawTape draws l, d < 13 := by
  intro d hd
  simp only [drawTape, firstDraws, List.map_map, List.mem_map, Function.comp_apply] at hd
  obtain ⟨i, -, rfl⟩ := hd
  have := hdraws i
  omega

theorem drawTape_map (hdraws : ∀ i, 1 ≤ draws i ∧ draws i ≤ 13) (l : ℕ) :
    (drawTape draws l).map (· + 1) = firstDraws draws l := by
  simp only [drawTape, firstDraws, List.map_map]
  apply List.map_congr_left
  intro i _
  exact Nat.sub_add_cancel (hdraws i).1

theorem StopsAfter.spec (hdraws : ∀ i, 1 ≤ draws i ∧ draws i ≤ 13)
    (h : StopsAfter pairs draws heap k s) :
    IsLeast {k | pairs ≤ (firstDraws draws k).toFinset.card} k ∧
      s.generatedNumbersArray = (firstDraws draws k).eraseDups := by
  obtain ⟨l, hk, hgen⟩ := h
  have hcollect := generate_collect_ok (drawTape_lt hdraws l) hgen
  rw [List.map_drop, drawTape_map hdraws] at hcollect
  obtain ⟨j, hj, hleast, hout, hrest⟩ := collect_firstDraws_iff.mp hcollect
  -- Both numbers of consumed draws leave the same rest.
  have hlength := congrArg List.length hrest
  simp only [List.length_drop, length_firstDraws] at hlength
  obtain rfl : k = j := by omega
  exact ⟨hleast, hout⟩

theorem exists_stopsAfter (hdraws : ∀ i, 1 ≤ draws i ∧ draws i ≤ 13) (heap : Heap)
    (h : ∃ k, pairs ≤ (firstDraws draws k).toFinset.card) :
    ∃ k s, StopsAfter pairs draws heap k s := by
  classical
  have hleast : IsLeast {k | pairs ≤ (firstDraws draws k).toFinset.card} (Nat.find h) :=
    ⟨Nat.find_spec h, fun j hj => Nat.find_min' h hj⟩
  have hcollect := collect_firstDraws_iff.mpr ⟨Nat.find h, le_refl _, hleast, rfl, rfl⟩
  rw [← drawTape_map hdraws] at hcollect
  obtain ⟨s, rest, hgen, -, hrest⟩ :=
    exists_generate_ok (s := ⟨[], [], heap⟩) (drawTape_lt hdraws _) hcollect
  have hnil : rest = [] := by
    rw [← List.map_eq_nil_iff (f := (· + 1)), hrest, drawTape_map hdraws]
    simp [length_firstDraws]
  refine ⟨Nat.find h, s, Nat.find h, le_refl _, ?_⟩
  rw [hgen, hnil, List.drop_of_length_le (by simp [drawTape, length_firstDraws])]

/-- On every stream of draws the loop stops iff enough different faces come up; it then
has consumed the least number of draws that brings them, has their numbers in the order
of the first occurrences and two cards for each in a row. -/
theorem generation_stops_iff (mode : GameMode) (heap : Heap) {draws : ℕ → ℕ}
    (hdraws : ∀ i, 1 ≤ draws i ∧ draws i ≤ 13) :
    ((∃ k s, StopsAfter mode.pairs draws heap k s) ↔
      (mode.pairs : ℕ∞) ≤ (Set.range draws).encard) ∧
    ∀ k s, StopsAfter mode.pairs draws heap k s →
      IsLeast {k | mode.pairs ≤ (firstDraws draws k).toFinset.card} k ∧
      s.generatedNumbersArray = (firstDraws draws k).eraseDups ∧
      s.generatedCardsArray.map (fun r => (s.heap.card r).imageName) =
        (firstDraws draws k).eraseDups.flatMap (fun n => [cardName n, cardName n]) := by
  constructor
  · rw [← exists_firstDraws_iff]
    constructor
    · rintro ⟨k, s, h⟩
      exact ⟨k, (h.spec hdraws).1.1⟩
    · exact exists_stopsAfter hdraws heap
  · intro k s h
    obtain ⟨hleast, hnumbers⟩ := h.spec hdraws
    obtain ⟨l, -, hgen⟩ := h
    have hvalid := (generate_valid (generation_valid_initial heap) (by simp) hgen).1
    refine ⟨hleast, hnumbers, ?_⟩
    rw [hvalid.names, hnumbers]

/-- The stream `1, 1, 2, 2, …` of which every second draw is rejected. -/
theorem generation_stops_doubled :
    ∃ s, StopsAfter GameMode.easy.pairs (fun i => i / 2 % 13 + 1) Heap.empty 11 s ∧
      IsLeast {k | 6 ≤ (firstDraws (fun i => i / 2 % 13 + 1) k).toFinset.card} 11 ∧
      s.generatedNumbersArray = [1, 2, 3, 4, 5, 6] := by
  have hstop : ∃ s, StopsAfter GameMode.easy.pairs (fun i => i / 2 % 13 + 1) Heap.empty 11 s :=
    ⟨_, 11, le_refl 11, rfl⟩
  obtain ⟨s, hstop⟩ := hstop
  have hdraws : ∀ i, 1 ≤ i / 2 % 13 + 1 ∧ i / 2 % 13 + 1 ≤ 13 := fun i => by omega
  obtain ⟨hleast, hnumbers, -⟩ := (generation_stops_iff .easy Heap.empty hdraws).2 11 s hstop
  exact ⟨s, hstop, hleast, hnumbers⟩

end Stream

section Fair

/-- The numbers with which the loop stops on the tape. -/
def drawnNumbers (pairs : ℕ) (heap : Heap) (tape : List ℕ) : Option (Finset ℕ) :=
  (generate pairs tape ⟨[], [], heap⟩).toOption.map fun p => p.1.generatedNumbersArray.toFinset

/-- The sequences of `l` results of `arc4random_uniform(13)` within which the loop stops
with exactly the numbers of `S`. -/
def drawSequences (pairs : ℕ) (heap : Heap) (l : ℕ) (S : Finset ℕ) : Finset (Fin l → Fin 13) :=
  Finset.univ.filter fun run => drawnNumbers pairs heap (List.ofFn fun i => (run i : ℕ)) = some S

/-- The number of the card that a result of `arc4random_uniform(13)` stands for. -/
def cardNumber (d : Fin 13) : ℕ := d + 1

theorem cardNumber_injective : Function.Injective cardNumber := by
  intro a b h
  exact Fin.ext (Nat.succ_injective h)

theorem image_cardNumber {S : Finset ℕ} (hS : S ⊆ Finset.Icc 1 13) :
    (Finset.univ.filter fun d => cardNumber d ∈ S).image cardNumber = S := by
  ext n
  simp only [Finset.mem_image, Finset.mem_filter, Finset.mem_univ, true_and]
  constructor
  · rintro ⟨d, hd, rfl⟩
    exact hd
  · intro hn
    obtain ⟨h1, h13⟩ := Finset.mem_Icc.mp (hS hn)
    have hd : cardNumber ⟨n - 1, by omega⟩ = n := Nat.sub_add_cancel h1
    exact ⟨⟨n - 1, by omega⟩, by rwa [hd], hd⟩

theorem drawnNumbers_eq (pairs : ℕ) (heap : Heap) {l : ℕ} (run : Fin l → Fin 13) :
    drawnNumbers pairs heap (List.ofFn fun i => (run i : ℕ)) =
      (collect pairs [] (List.ofFn run)).map fun p => p.1.toFinset.image cardNumber := by
  have htape : ∀ d ∈ List.ofFn fun i => (run i : ℕ), d < 13 := by
    intro d hd
    obtain ⟨i, rfl⟩ := List.mem_ofFn.mp hd
    exact (run i).isLt
  have hmap : (List.ofFn fun i => (run i : ℕ)).map (· + 1) = (List.ofFn run).map cardNumber := by
    rw [List.map_ofFn, List.map_ofFn]
    rfl
  have hcollect := generate_collect pairs htape ⟨[], [], heap⟩
  rw [hmap, ← List.map_nil, collect_map cardNumber_injective] at hcollect
  have hnumbers := congrArg (Option.map fun p => p.1.toFinset) hcollect
  rw [Option.map_map, Option.map_map] at hnumbers
  rw [drawnNumbers]
  refine hnumbers.trans (congrFun (congrArg Option.map ?_) _)
  funext p
  exact toFinset_map cardNumber p.1

theorem drawSequences_eq (pairs : ℕ) (heap : Heap) (l : ℕ) {S : Finset ℕ}
    (hS : S ⊆ Finset.Icc 1 13) :
    drawSequences pairs heap l S =
      runsCollecting pairs l (Finset.univ.filter fun d => cardNumber d ∈ S) := by
  apply Finset.filter_congr
  intro run _
  rw [drawnNumbers_eq]
  nth_rewrite 1 [← image_cardNumber hS]
  cases collect pairs [] (List.ofFn run) with
  | none => simp
  | some p =>
    simp only [Option.map_some, Option.some.injEq]
    exact (Finset.image_injective cardNumber_injective).eq_iff

/-- Every choice of faces comes up in equally many sequences of draws. -/
theorem face_choice_fair (mode : GameMode) (heap : Heap) (l : ℕ) {S T : Finset ℕ}
    (hS : S ⊆ Finset.Icc 1 13) (hT : T ⊆ Finset.Icc 1 13) (hSn : S.card = mode.pairs)
    (hTn : T.card = mode.pairs) :
    (drawSequences mode.pairs heap l S).card = (drawSequences mode.pairs heap l T).card := by
  rw [drawSequences_eq _ _ _ hS, drawSequences_eq _ _ _ hT]
  apply card_runsCollecting_eq
  rw [← Finset.card_image_of_injective _ cardNumber_injective, image_cardNumber hS, hSn,
    ← Finset.card_image_of_injective _ cardNumber_injective, image_cardNumber hT, hTn]

/-- The eight lowest and the eight highest faces within twenty draws: both choices come up. -/
theorem face_choice_fair_normal :
    (drawSequences GameMode.normal.pairs Heap.empty 20 (Finset.Icc 1 8)).card =
      (drawSequences GameMode.normal.pairs Heap.empty 20 (Finset.Icc 6 13)).card ∧
    0 < (drawSequences GameMode.normal.pairs Heap.empty 20 (Finset.Icc 1 8)).card := by
  refine ⟨face_choice_fair .normal Heap.empty 20 (by decide) (by decide) (by decide) (by decide), ?_⟩
  -- The eight faces in order, whatever comes after them.
  refine Finset.card_pos.mpr ⟨fun i => if h : (i : ℕ) < 8 then ⟨i, by omega⟩ else 0, ?_⟩
  refine Finset.mem_filter.mpr ⟨Finset.mem_univ _, ?_⟩
  decide +kernel

end Fair

end CardPang.CardModel
