import Mathlib

/-!
# The progress HUD

`JGProgressHUD` as the app uses it: without a minimum display time, and with the fade
animation it creates itself. An animation that has started finishes at some later step.
The target view is held weakly, so the HUD loses it when the view is released.
-/
namespace CardPang.ProgressHUD

variable {V : Type}

structure HUD (V : Type) where
  targetView : Option V
  superview : Option V
  isHidden : Bool
  alpha : ℕ
  transitioning : Bool
  dismissAfterTransitionFinished : Bool
  dismissAfterTransitionFinishedWithAnimation : Bool
  /-- `_presenting` of the animation. -/
  presenting : Bool
  /-- The animations that have not finished yet. -/
  animations : ℕ
  deriving DecidableEq, Repr

def HUD.initial : HUD V := ⟨none, none, true, 1, false, false, false, false, 0⟩

namespace HUD

/-- `JGProgressHUDFadeAnimation.show`. -/
def animateShow (h : HUD V) : HUD V :=
  { h with presenting := true, alpha := 1, isHidden := false, animations := h.animations + 1 }

/-- `JGProgressHUDFadeAnimation.hide`. -/
def animateHide (h : HUD V) : HUD V :=
  { h with presenting := false, alpha := 0, animations := h.animations + 1 }

def cleanUpAfterDismissal (h : HUD V) : HUD V :=
  { h with
    isHidden := true
    superview := none
    transitioning := false
    dismissAfterTransitionFinished := false
    dismissAfterTransitionFinishedWithAnimation := false
    targetView := none }

def dismissAnimated (animated : Bool) (h : HUD V) : HUD V :=
  if h.transitioning then
    { h with
      dismissAfterTransitionFinished := true
      dismissAfterTransitionFinishedWithAnimation := animated }
  else if h.targetView.isNone then h
  else if animated then animateHide { h with transitioning := true }
  else cleanUpAfterDismissal { h with transitioning := true }

def dismiss (h : HUD V) : HUD V := dismissAnimated true h

def cleanUpAfterPresentation (h : HUD V) : HUD V :=
  let h := { h with isHidden := false, transitioning := false }
  if h.dismissAfterTransitionFinished then
    { dismissAnimated h.dismissAfterTransitionFinishedWithAnimation h with
      dismissAfterTransitionFinished := false
      dismissAfterTransitionFinishedWithAnimation := false }
  else h

def showInView (view : V) (h : HUD V) : HUD V :=
  if h.transitioning then h
  else if h.targetView.isSome then h
  else animateShow { h with targetView := some view, superview := some view, transitioning := true }

def animationDidFinish (presenting : Bool) (h : HUD V) : HUD V :=
  if presenting then cleanUpAfterPresentation h else cleanUpAfterDismissal h

def animationFinished (h : HUD V) : HUD V :=
  animationDidFinish h.presenting { h with animations := h.animations - 1 }

/-- The view is released: the weak reference to it is cleared, and its subview is gone. -/
def viewReleased [DecidableEq V] (view : V) (h : HUD V) : HUD V :=
  if h.targetView = some view then { h with targetView := none, superview := none } else h

/-- The HUD takes the touches on the view. While it is animated nothing is promised. -/
def Blocks (h : HUD V) (view : V) : Prop :=
  h.superview = some view ∧ h.isHidden = false ∧ h.alpha ≠ 0 ∧ h.transitioning = false

instance [DecidableEq V] (h : HUD V) (view : V) : Decidable (h.Blocks view) := inferInstanceAs (Decidable (_ ∧ _))

end HUD

/-- Where the HUD is in its life. A HUD that is presented may have been told to leave, and
may have lost its view. -/
inductive Phase (V : Type)
  | idle
  | presenting (view : Option V) (leaving : Bool)
  | shown (view : V)
  | dismissing
  deriving DecidableEq, Repr

namespace Phase

def present (view : V) : Phase V → Phase V
  | .idle => .presenting (some view) false
  | p => p

def dismiss : Phase V → Phase V
  | .presenting view _ => .presenting view true
  | .shown _ => .dismissing
  | p => p

def finish : Phase V → Phase V
  | .presenting (some view) false => .shown view
  | .presenting (some _) true => .dismissing
  | _ => .idle

def release [DecidableEq V] (view : V) : Phase V → Phase V
  | .presenting (some v) leaving => .presenting (if v = view then none else some v) leaving
  | .shown v => if v = view then .idle else .shown v
  | p => p

/-- The view that the HUD stays on until it is dismissed. -/
def engaged : Phase V → Option V
  | .presenting (some view) false => some view
  | .shown view => some view
  | _ => none

end Phase

namespace HUD

def phase (h : HUD V) : Phase V :=
  if h.transitioning then
    if h.presenting then .presenting h.targetView h.dismissAfterTransitionFinished else .dismissing
  else
    match h.targetView with
    | none => .idle
    | some view => .shown view

/-- What holds of the HUD in every state of the app. -/
structure Orderly (h : HUD V) : Prop where
  animations : h.animations = if h.transitioning then 1 else 0
  waits : h.dismissAfterTransitionFinished = true → h.transitioning = true
  animated : h.dismissAfterTransitionFinished = true →
    h.dismissAfterTransitionFinishedWithAnimation = true
  superview : h.superview = h.targetView
  visible : h.targetView ≠ none → (h.transitioning = true → h.presenting = true) →
    h.isHidden = false ∧ h.alpha = 1

variable {h : HUD V} (view : V)

theorem initial_orderly : (initial : HUD V).Orderly := by
  constructor <;> simp [initial]

theorem Orderly.not_waiting (ho : h.Orderly) (ht : h.transitioning = false) :
    h.dismissAfterTransitionFinished = false := by
  by_contra hne
  simpa [ht] using ho.waits (by simpa using hne)

section Show

theorem showInView_orderly (ho : h.Orderly) : (h.showInView view).Orderly := by
  cases ht : h.transitioning with
  | true => simpa [showInView, ht] using ho
  | false =>
    cases hv : h.targetView with
    | some v => simpa [showInView, ht, hv] using ho
    | none =>
      have hanim := ho.animations
      have hflag := ho.not_waiting ht
      constructor <;> simp_all [showInView, animateShow]

theorem showInView_phase (ho : h.Orderly) : (h.showInView view).phase = h.phase.present view := by
  cases ht : h.transitioning with
  | true => cases hp : h.presenting <;> simp [showInView, phase, Phase.present, ht, hp]
  | false =>
    have hflag := ho.not_waiting ht
    cases hv : h.targetView with
    | none => simp [showInView, animateShow, phase, Phase.present, ht, hv, hflag]
    | some v => simp [showInView, phase, Phase.present, ht, hv]

end Show

section Dismiss

theorem dismiss_orderly (ho : h.Orderly) : h.dismiss.Orderly := by
  cases ht : h.transitioning with
  | true =>
    have hanim := ho.animations
    have hsuper := ho.superview
    have hvisible := ho.visible
    constructor <;> simp_all [dismiss, dismissAnimated]
  | false =>
    have hflag := ho.not_waiting ht
    cases hv : h.targetView with
    | none => simpa [dismiss, dismissAnimated, ht, hv] using ho
    | some v =>
      have hanim := ho.animations
      have hsuper := ho.superview
      constructor <;> simp_all [dismiss, dismissAnimated, animateHide]

theorem dismiss_phase : h.dismiss.phase = h.phase.dismiss := by
  cases ht : h.transitioning with
  | true =>
    cases hp : h.presenting <;> simp [dismiss, dismissAnimated, phase, Phase.dismiss, ht, hp]
  | false =>
    cases hv : h.targetView with
    | none => simp [dismiss, dismissAnimated, phase, Phase.dismiss, ht, hv]
    | some v => simp [dismiss, dismissAnimated, animateHide, phase, Phase.dismiss, ht, hv]

end Dismiss

section Finish

variable (ht : h.transitioning = true)
include ht

theorem animationFinished_orderly (ho : h.Orderly) : h.animationFinished.Orderly := by
  have hanim := ho.animations
  have hsuper := ho.superview
  have hanimated := ho.animated
  have hvisible := ho.visible
  cases hp : h.presenting with
  | false =>
    constructor <;> simp_all [animationFinished, animationDidFinish, cleanUpAfterDismissal]
  | true =>
    cases hflag : h.dismissAfterTransitionFinished with
    | false =>
      constructor <;> simp_all [animationFinished, animationDidFinish, cleanUpAfterPresentation]
    | true =>
      cases hv : h.targetView with
      | none =>
        constructor <;>
          simp_all [animationFinished, animationDidFinish, cleanUpAfterPresentation,
            dismissAnimated]
      | some v =>
        constructor <;>
          simp_all [animationFinished, animationDidFinish, cleanUpAfterPresentation,
            dismissAnimated, animateHide]

theorem animationFinished_phase (ho : h.Orderly) :
    h.animationFinished.phase = h.phase.finish := by
  have hanimated := ho.animated
  cases hp : h.presenting with
  | false =>
    simp [animationFinished, animationDidFinish, cleanUpAfterDismissal, phase, Phase.finish, ht, hp]
  | true =>
    cases hv : h.targetView <;> cases hflag : h.dismissAfterTransitionFinished <;>
      simp_all [animationFinished, animationDidFinish, cleanUpAfterPresentation, dismissAnimated,
        animateHide, phase, Phase.finish]

end Finish

section Release

variable [DecidableEq V]

theorem viewReleased_orderly (ho : h.Orderly) : (h.viewReleased view).Orderly := by
  unfold viewReleased
  split_ifs with hv
  · exact ⟨ho.animations, ho.waits, ho.animated, rfl, fun hne => absurd rfl hne⟩
  · exact ho

theorem viewReleased_phase : (h.viewReleased view).phase = h.phase.release view := by
  cases ht : h.transitioning <;> cases hp : h.presenting <;> cases hv : h.targetView with
  | none => simp [viewReleased, phase, Phase.release, ht, hp, hv]
  | some v =>
    by_cases hvv : v = view <;> simp [viewReleased, phase, Phase.release, ht, hp, hv, hvv]

end Release

theorem Orderly.pending_iff (ho : h.Orderly) : 0 < h.animations ↔ h.transitioning = true := by
  rw [ho.animations]
  cases h.transitioning <;> simp

theorem Orderly.blocks_iff (ho : h.Orderly) : h.Blocks view ↔ h.phase = .shown view := by
  have hvisible := ho.visible
  cases ht : h.transitioning with
  | true =>
    cases hp : h.presenting <;> simp [Blocks, phase, ht, hp]
  | false =>
    cases hv : h.targetView with
    | none => simp [Blocks, phase, ht, hv, ho.superview]
    | some v =>
      simp only [hv, ht] at hvisible
      simp [Blocks, phase, ht, hv, ho.superview, hvisible]

end HUD

end CardPang.ProgressHUD
