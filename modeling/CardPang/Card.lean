import Mathlib

/-! The `Card` objects of a game. `Card` is a class, so an array of cards holds
references and two references to one object would share their flags. The heap
below keeps the objects apart from the references to them; the operations on
arrays trap where the language's do. -/
namespace CardPang

/-- The ways in which a step of the app can be stopped by the runtime. -/
inductive Trap
  | indexOutOfRange
  | nilUnwrapped
  | castFailed
  | invalidRange
  deriving DecidableEq, Repr

structure Card where
  imageName : String := ""
  isFlipped : Bool := false
  isMatched : Bool := false
  deriving DecidableEq, Repr

structure CardRef where
  address : ℕ
  deriving DecidableEq, Repr

structure Heap where
  card : CardRef → Card
  next : ℕ

def Heap.empty : Heap := ⟨fun _ => {}, 0⟩

/-- `Card()`. -/
def Heap.new (h : Heap) : CardRef × Heap :=
  (⟨h.next⟩, ⟨Function.update h.card ⟨h.next⟩ {}, h.next + 1⟩)

def Heap.modify (h : Heap) (r : CardRef) (f : Card → Card) : Heap :=
  { h with card := Function.update h.card r (f (h.card r)) }

theorem Heap.modify_card (h : Heap) (r s : CardRef) (f : Card → Card) :
    (h.modify r f).card s = if s = r then f (h.card s) else h.card s := by
  by_cases he : s = r
  · subst he
    simp [Heap.modify]
  · simp [Heap.modify, he]

@[simp] theorem Heap.modify_self (h : Heap) (r : CardRef) (f : Card → Card) :
    (h.modify r f).card r = f (h.card r) := by
  simp [Heap.modify]

/-- `xs[i]` on the right of an assignment. -/
def element {α : Type*} (xs : List α) (i : ℕ) : Except Trap α :=
  match xs[i]? with
  | some x => .ok x
  | none => .error .indexOutOfRange

/-- `xs[i] = x`. -/
def assign {α : Type*} (xs : List α) (i : ℕ) (x : α) : Except Trap (List α) :=
  if i < xs.length then .ok (xs.set i x) else .error .indexOutOfRange

theorem element_eq_ok {α : Type*} {xs : List α} {i : ℕ} {x : α} (h : xs[i]? = some x) :
    element xs i = .ok x := by
  simp [element, h]

theorem element_of_lt {α : Type*} {xs : List α} {i : ℕ} (h : i < xs.length) :
    element xs i = .ok xs[i] :=
  element_eq_ok (List.getElem?_eq_getElem h)

theorem assign_of_lt {α : Type*} {xs : List α} {i : ℕ} (h : i < xs.length) (x : α) :
    assign xs i x = .ok (xs.set i x) := by
  simp [assign, h]

section Bind

variable {ε α β : Type} {x : Except ε α} {f : α → Except ε β}

theorem bind_eq_ok {b : β} : (x >>= f) = .ok b ↔ ∃ a, x = .ok a ∧ f a = .ok b := by
  cases x <;> simp [bind, Except.bind]

theorem bind_eq_error {e : ε} :
    (x >>= f) = .error e ↔ x = .error e ∨ ∃ a, x = .ok a ∧ f a = .error e := by
  cases x <;> simp [bind, Except.bind]

end Bind

end CardPang
