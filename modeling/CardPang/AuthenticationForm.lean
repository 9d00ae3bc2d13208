import Mathlib

/-!
# The forms of the screens that sign a user in

`LoginController`, `RegistrationController` and `ResetPasswordController` each have text
fields, a view model that is told every edit, and a button that follows the view model.
-/
namespace CardPang.Authentication

/-- Red, green, blue and alpha. -/
structure Color where
  red : ℚ
  green : ℚ
  blue : ℚ
  alpha : ℚ
  deriving DecidableEq, Repr

def white : Color := ⟨1, 1, 1, 1⟩
def fadedWhite : Color := ⟨1, 1, 1, 0.67⟩
def enabledPurple : Color := ⟨0.3647058904, 0.06666667014, 0.9686274529, 1⟩
def disabledPurple : Color := ⟨0.5568627715, 0.3529411852, 0.9686274529, 1⟩

inductive Field
  | email
  | password
  | fullname
  deriving DecidableEq, Repr

/-- The screens. -/
inductive FormKind
  | login
  | registration
  | resetPassword
  deriving DecidableEq, Repr

/-- The text fields of each screen. -/
def FormKind.fields : FormKind → List Field
  | .login => [.email, .password]
  | .registration => [.email, .password, .fullname]
  | .resetPassword => [.email]

abbrev ViewModel := Field → Option String

/-- `text?.isEmpty == false` for each of the fields. -/
def allFilled (fields : List Field) (viewModel : ViewModel) : Bool :=
  fields.all fun f => (viewModel f).map String.isEmpty == some false

def LoginViewModel.formIsValid : ViewModel → Bool := allFilled [.email, .password]

def RegisterationViewModel.formIsValid : ViewModel → Bool :=
  allFilled [.email, .password, .fullname]

def ResetPasswordViewModel.formIsValid : ViewModel → Bool := allFilled [.email]

def formIsValid : FormKind → ViewModel → Bool
  | .login => LoginViewModel.formIsValid
  | .registration => RegisterationViewModel.formIsValid
  | .resetPassword => ResetPasswordViewModel.formIsValid

def shouldEnableButton (kind : FormKind) (viewModel : ViewModel) : Bool :=
  formIsValid kind viewModel

def buttonTitleColor (kind : FormKind) (viewModel : ViewModel) : Color :=
  if formIsValid kind viewModel then white else fadedWhite

def buttonBackgroundColor (kind : FormKind) (viewModel : ViewModel) : Color :=
  if formIsValid kind viewModel then enabledPurple else disabledPurple

structure AuthButton where
  isEnabled : Bool
  backgroundColor : Color
  titleColor : Color
  deriving DecidableEq, Repr

/-- `AuthButton.init(frame:)`. -/
def AuthButton.created : AuthButton := ⟨false, disabledPurple, fadedWhite⟩

/-- The texts in the fields, the view model and the button of a screen. -/
structure Form where
  text : Field → String
  viewModel : ViewModel
  button : AuthButton

def Form.loaded : Form := ⟨fun _ => "", fun _ => none, AuthButton.created⟩

def updateForm (kind : FormKind) (form : Form) : Form :=
  { form with
    button :=
      { isEnabled := shouldEnableButton kind form.viewModel
        backgroundColor := buttonBackgroundColor kind form.viewModel
        titleColor := buttonTitleColor kind form.viewModel } }

def Form.tell (form : Form) (field : Field) (text : String) : Form :=
  { form with viewModel := Function.update form.viewModel field (some text) }

/-- `textDidChange` of the three screens. -/
def textDidChange (kind : FormKind) (sender : Field) (form : Form) : Form :=
  let text := form.text sender
  updateForm kind <|
    match kind with
    | .login => if sender = .email then form.tell .email text else form.tell .password text
    | .registration =>
      if sender = .email then form.tell .email text
      else if sender = .password then form.tell .password text
      else form.tell .fullname text
    | .resetPassword => if sender = .email then form.tell .email text else form

/-- The user changes the text of a field, which reports it. -/
def edit (kind : FormKind) (field : Field) (text : String) (form : Form) : Form :=
  textDidChange kind field { form with text := Function.update form.text field text }

/-- `ResetPasswordController.loadEmail`. -/
def loadEmail (email : Option String) (form : Form) : Form :=
  match email with
  | none => form
  | some email =>
    updateForm .resetPassword
      { form.tell .email email with text := Function.update form.text .email email }

/-- The view model knows the texts, and the button follows the view model. -/
structure Form.Follows (kind : FormKind) (form : Form) : Prop where
  viewModel : ∀ f ∈ kind.fields, (form.viewModel f).getD "" = form.text f
  button : updateForm kind form = form

theorem formIsValid_eq (kind : FormKind) : formIsValid kind = allFilled kind.fields := by
  cases kind <;> rfl

theorem allFilled_iff {fields : List Field} {viewModel : ViewModel} :
    allFilled fields viewModel = true ↔ ∀ f ∈ fields, (viewModel f).getD "" ≠ "" := by
  simp only [allFilled, List.all_eq_true]
  refine forall₂_congr fun f _ => ?_
  cases viewModel f with
  | none => simp
  | some text => simp

variable {kind : FormKind} {form : Form}

theorem Form.Follows.isEnabled_iff (h : form.Follows kind) :
    form.button.isEnabled = true ↔ ∀ f ∈ kind.fields, form.text f ≠ "" := by
  rw [← h.button]
  change formIsValid kind form.viewModel = true ↔ _
  rw [formIsValid_eq, allFilled_iff]
  refine forall₂_congr fun f hf => ?_
  rw [h.viewModel f hf]
  rfl

theorem loaded_follows (kind : FormKind) : Form.loaded.Follows kind := by
  constructor
  · intro f _
    rfl
  · cases kind <;> rfl

theorem updateForm_follows (h : ∀ f ∈ kind.fields, (form.viewModel f).getD "" = form.text f) :
    (updateForm kind form).Follows kind :=
  ⟨h, rfl⟩

/-- An edit of one of its fields reaches the view model's field of the same name. -/
theorem textDidChange_eq {sender : Field} (hs : sender ∈ kind.fields) :
    textDidChange kind sender form = updateForm kind (form.tell sender (form.text sender)) := by
  cases kind <;> cases sender <;> first | rfl | simp [FormKind.fields] at hs

theorem edit_follows {field : Field} (text : String) (hf : field ∈ kind.fields)
    (h : form.Follows kind) : (edit kind field text form).Follows kind := by
  rw [edit, textDidChange_eq hf]
  refine updateForm_follows ?_
  intro f hmem
  by_cases hff : f = field
  · subst hff
    simp [Form.tell]
  · simpa [Form.tell, hff] using h.viewModel f hmem

theorem loadEmail_follows (email : Option String) :
    (loadEmail email Form.loaded).Follows .resetPassword := by
  cases email with
  | none => exact loaded_follows _
  | some email =>
    refine updateForm_follows ?_
    intro f hmem
    obtain rfl : f = .email := by simpa [FormKind.fields] using hmem
    simp [Form.tell]

end CardPang.Authentication
