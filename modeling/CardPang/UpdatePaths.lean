import CardPang.CompoundWrite
import CardPang.SortedPaths

/-!
# The paths of an update

`updateChildValues` takes a dictionary from path strings to values. Its paths are sorted by
`FPath.compare`, which reads keys as integers where it can, and an update whose neighbouring
paths lie below each other is refused.
-/
namespace CardPang.Database
open PathLayer SortedPaths

/-- `componentsSeparatedByString:`, for a single character. -/
def componentsSeparatedBy (separator : Char) : List Char → List (List Char)
  | [] => [[]]
  | c :: rest =>
    if c = separator then [] :: componentsSeparatedBy separator rest
    else
      match componentsSeparatedBy separator rest with
      | [] => [[c]]
      | piece :: pieces => (c :: piece) :: pieces

/-- `initWith:` of `FPath`. -/
def pathWithString (path : String) : FPath :=
  ((componentsSeparatedBy '/' path.toList).map String.ofList).filter fun piece => piece.length > 0

/-- `toString` of `FPath`. -/
def pathToString (path : FPath) : String :=
  if path = [] then "/" else String.join (path.map fun piece => "/" ++ piece)

/-- The loop over the characters of `tryParseStringToInt`. -/
def parseDigits (value : Nat) : List Char → Option Nat
  | [] => some value
  | c :: rest =>
    if c < '0' ∨ c > '9' then none else parseDigits (value * 10 + (c.toNat - '0'.toNat)) rest

def tryParseStringToInt (str : String) : Option Int :=
  let length := str.length
  if length > 11 ∨ length = 0 then none
  else
    let negative := str.toList.head? = some '-'
    if negative ∧ length = 1 then none
    else
      match parseDigits 0 (if negative then str.toList.tail else str.toList) with
      | none => none
      | some magnitude =>
        let value : Int := if negative then -magnitude else magnitude
        if value < -2147483648 ∨ value > 2147483647 then none else some value

/-- `compareKey:toKey:`, for keys other than the two bounds of a query. -/
def compareKey (a b : String) : Ordering :=
  match tryParseStringToInt a, tryParseStringToInt b with
  | some aAsInt, some bAsInt =>
    if aAsInt > bAsInt then .gt
    else if aAsInt < bAsInt then .lt
    else if a.length > b.length then .gt
    else if a.length < b.length then .lt
    else .eq
  | some _, none => .lt
  | none, some _ => .gt
  | none, none => compare a b

/-- `compare:` of `FPath`. -/
def comparePath : FPath → FPath → Ordering := List.compareLex compareKey

/-- `sortUsingComparator:`. -/
def sortPaths (paths : List FPath) : List FPath :=
  paths.insertionSort fun p q => (comparePath p q).isLE = true

structure FException where
  name : String
  reason : String
  deriving DecidableEq, Repr

def ancestorException (fn : String) (prevPath path : FPath) : FException where
  name := "InvalidFirebaseData"
  reason := "(" ++ fn ++ ") Invalid path in object. Path (" ++ pathToString prevPath ++
    ") is an ancestor of (" ++ pathToString path ++ ")."

/-- The loop over the sorted paths. -/
def checkPaths (fn : String) (prevPath : Option FPath) : List FPath → Except FException Unit
  | [] => .ok ()
  | path :: rest =>
    match prevPath with
    | none => checkPaths fn (some path) rest
    | some prev =>
      if prev <+: path then .error (ancestorException fn prev path)
      else checkPaths fn (some path) rest

/-- `compoundWriteFromDictionary:withValidationFrom:`, from the nodes of the values on. -/
def compoundWriteFromDictionaryWithValidation {V : Type} (fn : String)
    (values : List (String × FNode V)) : Except FException (FCompoundWrite V) := do
  let writes := values.map fun x => (pathWithString x.1, x.2)
  checkPaths fn none (sortPaths (writes.map Prod.fst))
  pure (FCompoundWrite.compoundWriteFromDictionary writes)

section Keys

theorem parseDigits_injective {v w n : Nat} {cs ds : List Char} (hc : parseDigits v cs = some n)
    (hd : parseDigits w ds = some n) (hlength : cs.length = ds.length) : v = w ∧ cs = ds := by
  induction cs generalizing v w ds with
  | nil =>
    obtain rfl := List.length_eq_zero_iff.mp hlength.symm
    exact ⟨Option.some.inj (hc.trans hd.symm), rfl⟩
  | cons c cs ih =>
    cases ds with
    | nil => cases hlength
    | cons d ds =>
      rw [parseDigits] at hc hd
      split_ifs at hc hd with hcd hdd
      obtain ⟨hvalue, rfl⟩ := ih hc hd (Nat.succ.inj hlength)
      have hc0 : '0'.toNat ≤ c.toNat := not_lt.mp fun h => hcd (Or.inl h)
      have hc9 : c.toNat ≤ '9'.toNat := not_lt.mp fun h => hcd (Or.inr h)
      have hd0 : '0'.toNat ≤ d.toNat := not_lt.mp fun h => hdd (Or.inl h)
      have hd9 : d.toNat ≤ '9'.toNat := not_lt.mp fun h => hdd (Or.inr h)
      have h0 : '0'.toNat = 48 := rfl
      have h9 : '9'.toNat = 57 := rfl
      have hsame : c.toNat = d.toNat := by omega
      exact ⟨by omega, by rw [Char.toNat_inj.mp hsame]⟩

/-- A minus sign and zeros only: a key that reads as the integer zero, as the zeros alone do. -/
def MinusZero (key : String) : Prop :=
  key.toList.head? = some '-' ∧ tryParseStringToInt key = some 0

theorem tryParseStringToInt_eq_some {key : String} {x : Int}
    (h : tryParseStringToInt key = some x) :
    ∃ n : Nat, (key.toList.head? ≠ some '-' ∧ x = n ∧ parseDigits 0 key.toList = some n) ∨
      (key.toList.head? = some '-' ∧ x = -n ∧ parseDigits 0 key.toList.tail = some n) := by
  simp only [tryParseStringToInt] at h
  by_cases hneg : key.toList.head? = some '-'
  · simp only [hneg, if_true, true_and] at h
    cases hd : parseDigits 0 key.toList.tail with
    | none => simp [hd] at h
    | some n =>
      simp only [hd] at h
      split_ifs at h
      exact ⟨n, Or.inr ⟨hneg, (Option.some.inj h).symm, rfl⟩⟩
  · simp only [hneg, if_false, false_and] at h
    cases hd : parseDigits 0 key.toList with
    | none => simp [hd] at h
    | some n =>
      simp only [hd] at h
      split_ifs at h
      exact ⟨n, Or.inl ⟨hneg, (Option.some.inj h).symm, rfl⟩⟩

/-- Integers are compared by value and length, and come before all other keys. -/
theorem compareKey_isLE (a b : String) :
    (compareKey a b).isLE = true ↔
      match tryParseStringToInt a, tryParseStringToInt b with
      | some x, some y => x < y ∨ x = y ∧ a.length ≤ b.length
      | some _, none => True
      | none, some _ => False
      | none, none => (compare a b).isLE = true := by
  rw [compareKey]
  cases tryParseStringToInt a with
  | none => cases tryParseStringToInt b <;> simp
  | some x =>
    cases tryParseStringToInt b with
    | none => simp
    | some y =>
      simp only
      split_ifs <;> simp <;> omega

theorem compareKey_swap (a b : String) : compareKey a b = (compareKey b a).swap := by
  rw [compareKey, compareKey]
  cases tryParseStringToInt a with
  | none =>
    cases tryParseStringToInt b with
    | none => exact (Std.OrientedCmp.eq_swap : compare a b = (compare b a).swap)
    | some y => rfl
  | some x =>
    cases tryParseStringToInt b with
    | none => rfl
    | some y =>
      simp only
      split_ifs <;> first | rfl | omega

instance : Std.TransCmp compareKey where
  eq_swap := compareKey_swap _ _
  isLE_trans {a b c} hab hbc := by
    rw [compareKey_isLE] at hab hbc ⊢
    generalize tryParseStringToInt a = x at hab ⊢
    generalize tryParseStringToInt b = y at hab hbc
    generalize tryParseStringToInt c = z at hbc ⊢
    cases x with
    | none =>
      cases y with
      | some y => exact False.elim hab
      | none =>
        cases z with
        | some z => exact False.elim hbc
        | none => exact Std.TransCmp.isLE_trans (b := b) hab hbc
    | some x =>
      cases z with
      | none => trivial
      | some z =>
        cases y with
        | none => exact False.elim hbc
        | some y =>
          simp only at hab hbc ⊢
          omega

instance (key : String) : Decidable (MinusZero key) := inferInstanceAs (Decidable (_ ∧ _))

instance : Std.TransCmp comparePath := inferInstanceAs (Std.TransCmp (List.compareLex compareKey))

theorem toList_of_head {key : String} (h : key.toList.head? = some '-') :
    key.toList = '-' :: key.toList.tail := by
  cases hl : key.toList with
  | nil =>
    rw [hl] at h
    cases h
  | cons c rest =>
    rw [hl] at h
    rw [Option.some.inj h]
    rfl

/-- Keys that compare as equal are equal, unless one is a minus sign and zeros. -/
theorem eq_of_compareKey {a b : String} (ha : ¬ MinusZero a) (hb : ¬ MinusZero b)
    (h : compareKey a b = .eq) : a = b := by
  rw [compareKey] at h
  cases hx : tryParseStringToInt a with
  | none =>
    rw [hx] at h
    cases hy : tryParseStringToInt b with
    | some y =>
      rw [hy] at h
      cases h
    | none =>
      rw [hy] at h
      exact Std.LawfulEqCmp.eq_of_compare (show compare a b = .eq from h)
  | some x =>
    rw [hx] at h
    cases hy : tryParseStringToInt b with
    | none =>
      rw [hy] at h
      cases h
    | some y =>
      rw [hy] at h
      have hvalue : x = y ∧ a.length = b.length := by
        simp only at h
        split_ifs at h
        omega
      obtain ⟨rfl, hlength⟩ := hvalue
      have hlist : a.toList.length = b.toList.length := by
        rw [String.length_toList, String.length_toList, hlength]
      obtain ⟨m, hm⟩ := tryParseStringToInt_eq_some hx
      obtain ⟨n, hn⟩ := tryParseStringToInt_eq_some hy
      have hzero : ∀ key, key.toList.head? = some '-' → tryParseStringToInt key = some x →
          ¬ MinusZero key → x ≠ 0 := by
        intro key hhead hkey hnot h0
        exact hnot ⟨hhead, h0 ▸ hkey⟩
      obtain ⟨-, hxm, hda⟩ | ⟨hheada, hxm, hda⟩ := hm
      · obtain ⟨-, hxn, hdb⟩ | ⟨hheadb, hxn, hdb⟩ := hn
        · have hmn : m = n := by omega
          exact String.toList_inj.mp (parseDigits_injective hda (hmn ▸ hdb) hlist).2
        · have hne := hzero b hheadb hy hb
          omega
      · have hne := hzero a hheada hx ha
        obtain ⟨-, hxn, hdb⟩ | ⟨hheadb, hxn, hdb⟩ := hn
        · omega
        · have hmn : m = n := by omega
          have htail : a.toList.tail.length = b.toList.tail.length := by
            simp only [List.length_tail, hlist]
          have hsame := (parseDigits_injective hda (hmn ▸ hdb) htail).2
          exact String.toList_inj.mp (by rw [toList_of_head hheada, toList_of_head hheadb, hsame])

end Keys

section Validation

variable {V : Type}

theorem checkPaths_some (fn : String) (prevPath : FPath) (paths : List FPath) :
    checkPaths fn (some prevPath) paths = .ok () ↔
      (prevPath :: paths).IsChain fun p q => ¬ p <+: q := by
  induction paths generalizing prevPath with
  | nil => simp [checkPaths]
  | cons path rest ih =>
    rw [checkPaths, List.isChain_cons_cons]
    by_cases hpre : prevPath <+: path
    · simp [hpre]
    · simp [hpre, ih]

theorem checkPaths_none (fn : String) (paths : List FPath) :
    checkPaths fn none paths = .ok () ↔ paths.IsChain fun p q => ¬ p <+: q := by
  cases paths with
  | nil => simp [checkPaths]
  | cons path rest => exact checkPaths_some fn path rest

theorem sortPaths_perm (paths : List FPath) : (sortPaths paths).Perm paths :=
  List.perm_insertionSort _ paths

theorem sortPaths_sorted (paths : List FPath) : Sorted compareKey (sortPaths paths) := by
  have htotal : Std.Total fun p q : FPath => (comparePath p q).isLE = true := by
    constructor
    intro p q
    have hswap : comparePath p q = (comparePath q p).swap := Std.OrientedCmp.eq_swap
    rw [hswap]
    cases comparePath q p <;> simp
  have htrans : IsTrans FPath fun p q => (comparePath p q).isLE = true :=
    ⟨fun _ _ _ => Std.TransCmp.isLE_trans⟩
  change (sortPaths paths).Pairwise fun p q => (comparePath p q).isLE = true
  exact List.pairwise_insertionSort _ paths

theorem isChain_of_pairwise {paths : List FPath} (h : paths.Pairwise Apart) :
    paths.IsChain fun p q => ¬ p <+: q :=
  h.isChain.imp fun _ _ hpq => hpq.1

/-- The writes of an update, and its paths as they are checked. -/
def updateWrites (values : List (String × FNode V)) : List (FPath × FNode V) :=
  values.map fun x => (pathWithString x.1, x.2)

theorem accepted_iff {fn : String} {values : List (String × FNode V)} {w : FCompoundWrite V} :
    compoundWriteFromDictionaryWithValidation fn values = .ok w ↔
      (sortPaths ((updateWrites values).map Prod.fst)).IsChain (fun p q => ¬ p <+: q) ∧
      w = FCompoundWrite.compoundWriteFromDictionary (updateWrites values) := by
  rw [← checkPaths_none fn, updateWrites, compoundWriteFromDictionaryWithValidation]
  cases checkPaths fn none (sortPaths ((values.map fun x => (pathWithString x.1, x.2)).map
    Prod.fst)) with
  | error e => simp [bind, Except.bind]
  | ok u => simp [bind, Except.bind, pure, Except.pure, eq_comm]

-- The two spellings of zero compare as equal, and a path below another one gets through.
example : (compoundWriteFromDictionaryWithValidation "updateChildValues:"
    [("-0", FNode.leaf "x" .empty), ("00/x", .leaf "y" .empty), ("-0/y", .leaf "z" .empty)]).toOption.isSome =
    true := by decide +kernel

end Validation

end CardPang.Database
