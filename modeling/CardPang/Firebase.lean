import CardPang.CallbackProgram

/-!
# The backend as the app uses it

Accounts, the nodes under `users`, and the requests that the app makes. A request
that fails changes nothing; a failed read is never answered, because the app gives
`observeSingleEvent` no cancel block. A read brings the node as the client shows it, with
the writes of this client that have no answer yet over the data of the server.
-/
namespace CardPang.Firebase
open CallbackProgram

structure BackendError where
  localizedDescription : String
  deriving DecidableEq, Repr

/-- A stored value, by the casts that succeed on it. -/
inductive Value
  | string (s : String)
  | bool (b : Bool)
  | other
  deriving DecidableEq, Repr

def asString : Option Value → Option String
  | some (.string s) => some s
  | _ => none

def asBool : Option Value → Option Bool
  | some (.bool b) => some b
  | _ => none

/-- What stands at an existing node: a dictionary, or something that is none. -/
inductive Node
  | leaf
  | dictionary (fields : String → Option Value)

def children : Option Node → String → Option Value
  | some (.dictionary fields) => fields
  | _ => fun _ => none

def updateChildValues (node : Option Node) (values : List (String × Value)) : Option Node :=
  some (.dictionary fun key => (values.lookup key).or (children node key))

def setValue (node : Option Node) (key : String) (value : Value) : Option Node :=
  some (.dictionary (Function.update (children node) key (some value)))

structure DatabaseReference where
  path : List String
  deriving DecidableEq, Repr

def DatabaseReference.child (ref : DatabaseReference) (key : String) : DatabaseReference :=
  ⟨ref.path ++ [key]⟩

/-- `REF_USERS`. -/
def refUsers : DatabaseReference := ⟨["users"]⟩

structure Credential where
  idToken : String
  accessToken : String
  deriving DecidableEq, Repr

structure AuthDataResult where
  uid : String
  email : Option String
  displayName : Option String
  deriving DecidableEq, Repr

/-- The arguments of an `AuthDataResultCallback`: a result or an error, never both. -/
structure AuthReply where
  result : Option AuthDataResult
  error : Option BackendError
  given : error = none ↔ result.isSome = true
  deriving DecidableEq, Repr

def AuthReply.failed (error : BackendError) : AuthReply := ⟨none, some error, by simp⟩

def AuthReply.succeeded (result : AuthDataResult) : AuthReply := ⟨some result, none, by simp⟩

structure DataSnapshot where
  key : String
  value : Option Node

structure WriteReply where
  error : Option BackendError
  ref : DatabaseReference
  deriving DecidableEq, Repr

/-- The function of the app that reads a user's node. -/
inductive Reader
  | signInWithGoogle
  | fetchUser
  deriving DecidableEq, Repr

inductive Request
  | signIn (email password : String)
  | createUser (email password : String)
  | signInWithCredential (credential : Credential)
  | observeSingleEvent (reader : Reader) (uid : String)
  | updateChildValues (uid : String) (values : List (String × Value))
  | setValue (uid key : String) (value : Value)
  deriving DecidableEq, Repr

def Reply : Request → Type
  | .signIn _ _ => AuthReply
  | .createUser _ _ => AuthReply
  | .signInWithCredential _ => AuthReply
  | .observeSingleEvent _ _ => DataSnapshot
  | .updateChildValues _ _ => WriteReply
  | .setValue _ _ _ => WriteReply

structure Backend where
  accounts : Finset String
  users : String → Option Node

def Backend.addAccount (b : Backend) (uid : String) : Backend :=
  { b with accounts := insert uid b.accounts }

def Backend.setUser (b : Backend) (uid : String) (node : Option Node) : Backend :=
  { b with users := Function.update b.users uid node }

@[simp] theorem Backend.setUser_users_self (b : Backend) (uid : String) (node : Option Node) :
    (b.setUser uid node).users uid = node := by
  simp [setUser]

theorem Backend.setUser_users_of_ne (b : Backend) {uid other : String} (h : other ≠ uid)
    (node : Option Node) : (b.setUser uid node).users other = b.users other := by
  simp [setUser, h]

/-- How the backend decides a request. -/
inductive Answer
  | fail (error : BackendError)
  | succeed
  | signIn (result : AuthDataResult)
  deriving DecidableEq, Repr

/-- What a request writes at the node of a user. -/
def Request.written (uid : String) : Request → Option Node → Option Node
  | .updateChildValues other values, node =>
    if other = uid then Firebase.updateChildValues node values else node
  | .setValue other key value, node =>
    if other = uid then Firebase.setValue node key value else node
  | _, node => node

/-- The node of a user as a client shows it, where the server has `node` and the requests of
the client that wait for an answer are `pending`. -/
def eventCache (pending : List Request) (uid : String) (node : Option Node) : Option Node :=
  pending.foldl (fun node r => r.written uid node) node

/-- A new account gets a fresh uid; the first credential sign-in creates the account. A read is
answered with what the server has, under the writes of the client that wait at that moment. -/
def serve : Answer → (r : Request) → List Request → Backend → Option (Backend × Option (Reply r))
  | .fail error, .signIn _ _, _, b => some (b, some (AuthReply.failed error))
  | .fail error, .createUser _ _, _, b => some (b, some (AuthReply.failed error))
  | .fail error, .signInWithCredential _, _, b => some (b, some (AuthReply.failed error))
  | .fail _, .observeSingleEvent _ _, _, b => some (b, none)
  | .fail error, .updateChildValues uid _, _, b => some (b, some ⟨some error, refUsers.child uid⟩)
  | .fail error, .setValue uid key _, _, b =>
    some (b, some ⟨some error, (refUsers.child uid).child key⟩)
  | .signIn result, .signIn _ _, _, b =>
    if result.uid ∈ b.accounts then some (b, some (AuthReply.succeeded result)) else none
  | .signIn result, .createUser _ _, _, b =>
    if result.uid ∉ b.accounts ∧ (b.users result.uid).isNone then
      some (b.addAccount result.uid, some (AuthReply.succeeded result))
    else none
  | .signIn result, .signInWithCredential _, _, b =>
    some (b.addAccount result.uid, some (AuthReply.succeeded result))
  | .succeed, .observeSingleEvent _ uid, pending, b =>
    some (b, some ⟨uid, eventCache pending uid (b.users uid)⟩)
  | .succeed, .updateChildValues uid values, _, b =>
    some (b.setUser uid (updateChildValues (b.users uid) values),
      some ⟨none, refUsers.child uid⟩)
  | .succeed, .setValue uid key value, _, b =>
    some (b.setUser uid (setValue (b.users uid) key value),
      some ⟨none, (refUsers.child uid).child key⟩)
  | _, _, _, _ => none

/-- A running app: `Auth.auth().currentUser?.uid` and what the app itself keeps. -/
structure Device (α : Type) where
  currentUser : Option String
  app : α

variable {A α : Type}

def Device.signedIn (d : Device α) (reply : AuthReply) : Device α :=
  match reply.result with
  | some result => { d with currentUser := some result.uid }
  | none => d

/-- A sign-in has set the session before its callback runs. -/
def receive : (r : Request) → Reply r → Device α → Device α
  | .signIn _ _, reply, d => d.signedIn reply
  | .createUser _ _, reply, d => d.signedIn reply
  | .signInWithCredential _, reply, d => d.signedIn reply
  | .observeSingleEvent _ _, _, d => d
  | .updateChildValues _ _, _, d => d
  | .setValue _ _ _, _, d => d

section Serve

variable {o : Answer} {b b' : Backend} {email password uid key : String}
  {credential : Credential} {reader : Reader} {values : List (String × Value)} {value : Value}
  {pending : List Request} {node : Option Node}

/-- What holds of the node and is kept by every write that waits holds of what is shown. -/
theorem eventCache_invariant {I : Option Node → Prop} (h : I node)
    (hwritten : ∀ r ∈ pending, ∀ n, I n → I (r.written uid n)) :
    I (eventCache pending uid node) :=
  List.foldlRecOn pending _ h fun n hn r hr => hwritten r hr n hn

/-- A client shows no node only where the server has none. -/
theorem eventCache_eq_none (h : eventCache pending uid node = none) : node = none := by
  refine eventCache_invariant (I := fun n => n = none → node = none) id ?_ h
  intro r _ n hn
  cases r with
  | updateChildValues other values =>
    simp only [Request.written]
    split_ifs
    · exact fun h => nomatch h
    · exact hn
  | setValue other key value =>
    simp only [Request.written]
    split_ifs
    · exact fun h => nomatch h
    · exact hn
  | _ => exact hn

theorem serve_signIn {answer : Option AuthReply}
    (h : serve o (.signIn email password) pending b = some (b', answer)) :
    b' = b ∧ ((∃ error, o = .fail error ∧ answer = some (.failed error)) ∨
      ∃ result, o = .signIn result ∧ answer = some (.succeeded result)) := by
  cases o with
  | fail error =>
    cases h
    exact ⟨rfl, Or.inl ⟨error, rfl, rfl⟩⟩
  | succeed => cases h
  | signIn result =>
    simp only [serve] at h
    split_ifs at h
    cases h
    exact ⟨rfl, Or.inr ⟨result, rfl, rfl⟩⟩

theorem serve_createUser {answer : Option AuthReply}
    (h : serve o (.createUser email password) pending b = some (b', answer)) :
    (∃ error, o = .fail error ∧ b' = b ∧ answer = some (.failed error)) ∨
    ∃ result, o = .signIn result ∧ result.uid ∉ b.accounts ∧ b.users result.uid = none ∧
      b' = b.addAccount result.uid ∧
      answer = some (.succeeded result) := by
  cases o with
  | fail error =>
    cases h
    exact Or.inl ⟨error, rfl, rfl, rfl⟩
  | succeed => cases h
  | signIn result =>
    simp only [serve] at h
    split_ifs at h with hfresh
    cases h
    exact Or.inr ⟨result, rfl, hfresh.1, Option.isNone_iff_eq_none.mp hfresh.2, rfl, rfl⟩

theorem serve_signInWithCredential {answer : Option AuthReply}
    (h : serve o (.signInWithCredential credential) pending b = some (b', answer)) :
    (∃ error, o = .fail error ∧ b' = b ∧ answer = some (.failed error)) ∨
    ∃ result, o = .signIn result ∧ b' = b.addAccount result.uid ∧
      answer = some (.succeeded result) := by
  cases o with
  | fail error =>
    cases h
    exact Or.inl ⟨error, rfl, rfl, rfl⟩
  | succeed => cases h
  | signIn result =>
    cases h
    exact Or.inr ⟨result, rfl, rfl, rfl⟩

theorem serve_observeSingleEvent {answer : Option DataSnapshot}
    (h : serve o (.observeSingleEvent reader uid) pending b = some (b', answer)) :
    b' = b ∧ ((∃ error, o = .fail error ∧ answer = none) ∨
      o = .succeed ∧ answer = some ⟨uid, eventCache pending uid (b.users uid)⟩) := by
  cases o with
  | fail error =>
    cases h
    exact ⟨rfl, Or.inl ⟨error, rfl, rfl⟩⟩
  | succeed =>
    cases h
    exact ⟨rfl, Or.inr ⟨rfl, rfl⟩⟩
  | signIn result => cases h

theorem serve_updateChildValues {answer : Option WriteReply}
    (h : serve o (.updateChildValues uid values) pending b = some (b', answer)) :
    (∃ error, o = .fail error ∧ b' = b ∧ answer = some ⟨some error, refUsers.child uid⟩) ∨
    (o = .succeed ∧ b' = b.setUser uid (updateChildValues (b.users uid) values) ∧
      answer = some ⟨none, refUsers.child uid⟩) := by
  cases o with
  | fail error =>
    cases h
    exact Or.inl ⟨error, rfl, rfl, rfl⟩
  | succeed =>
    cases h
    exact Or.inr ⟨rfl, rfl, rfl⟩
  | signIn result => cases h

theorem serve_setValue {answer : Option WriteReply}
    (h : serve o (.setValue uid key value) pending b = some (b', answer)) :
    (∃ error, o = .fail error ∧ b' = b ∧
      answer = some ⟨some error, (refUsers.child uid).child key⟩) ∨
    (o = .succeed ∧ b' = b.setUser uid (setValue (b.users uid) key value) ∧
      answer = some ⟨none, (refUsers.child uid).child key⟩) := by
  cases o with
  | fail error =>
    cases h
    exact Or.inl ⟨error, rfl, rfl, rfl⟩
  | succeed =>
    cases h
    exact Or.inr ⟨rfl, rfl, rfl⟩
  | signIn result => cases h

/-- Only the two writes change the database. -/
theorem serve_users {r : Request} {answer : Option (Reply r)}
    (h : serve o r pending b = some (b', answer)) :
    b'.users = b.users ∨
    (∃ uid values, o = .succeed ∧ r = .updateChildValues uid values ∧
      b' = b.setUser uid (updateChildValues (b.users uid) values)) ∨
    (∃ uid key value, o = .succeed ∧ r = .setValue uid key value ∧
      b' = b.setUser uid (setValue (b.users uid) key value)) := by
  cases r with
  | signIn _ _ =>
    obtain ⟨rfl, -⟩ := serve_signIn h
    exact Or.inl rfl
  | createUser _ _ =>
    rcases serve_createUser h with ⟨_, -, rfl, -⟩ | ⟨_, -, -, -, rfl, -⟩ <;> exact Or.inl rfl
  | signInWithCredential _ =>
    rcases serve_signInWithCredential h with ⟨_, -, rfl, -⟩ | ⟨_, -, rfl, -⟩ <;> exact Or.inl rfl
  | observeSingleEvent _ _ =>
    obtain ⟨rfl, -⟩ := serve_observeSingleEvent h
    exact Or.inl rfl
  | updateChildValues uid values =>
    rcases serve_updateChildValues h with ⟨_, -, rfl, -⟩ | ⟨rfl, rfl, -⟩
    · exact Or.inl rfl
    · exact Or.inr (Or.inl ⟨uid, values, rfl, rfl, rfl⟩)
  | setValue uid key value =>
    rcases serve_setValue h with ⟨_, -, rfl, -⟩ | ⟨rfl, rfl, -⟩
    · exact Or.inl rfl
    · exact Or.inr (Or.inr ⟨uid, key, value, rfl, rfl, rfl⟩)

end Serve

end CardPang.Firebase
