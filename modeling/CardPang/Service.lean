import CardPang.Firebase

/-! The functions of `Service`, as programs over any app. A completion block is a
function from its arguments to the program it runs. -/
namespace CardPang.Service
open CallbackProgram Firebase

structure User where
  email : String
  fullname : String
  hasSeenOnboarding : Bool
  uid : String
  deriving DecidableEq, Repr

/-- `User.init(uid:dictionary:)`. -/
def User.ofDictionary (uid : String) (dictionary : String → Option Value) : User where
  uid := uid
  email := (asString (dictionary "email")).getD ""
  fullname := (asString (dictionary "fullname")).getD ""
  hasSeenOnboarding := (asBool (dictionary "hasSeenOnboarding")).getD false

structure Authentication where
  idToken : String
  accessToken : String
  deriving DecidableEq, Repr

structure GIDGoogleUser where
  authentication : Option Authentication
  deriving DecidableEq, Repr

abbrev Program (A α : Type) := Prog Reply A (Device α)

variable {A α : Type}

/-- The values of a new record. -/
def newUser (email fullname : String) : List (String × Value) :=
  [("email", .string email), ("fullname", .string fullname), ("hasSeenOnboarding", .bool false)]

def logUserIn (email password : String) (completion : AuthReply → Program A α) : Program A α :=
  .call (.signIn email password) completion .done

def registerUserWithFirebase (email password fullname : String)
    (completion : Option BackendError → DatabaseReference → Program A α) : Program A α :=
  .call (.createUser email password)
    (fun reply : AuthReply =>
      match reply.error with
      | some error => completion (some error) refUsers
      | none =>
        match reply.result with
        | none => .done
        | some result =>
          .call (.updateChildValues result.uid (newUser email fullname))
            (fun reply : WriteReply => completion reply.error reply.ref) .done)
    .done

def signInWithGoogle (user : GIDGoogleUser)
    (completion : Option BackendError → DatabaseReference → Program A α) : Program A α :=
  match user.authentication with
  | none => .done
  | some authentication =>
    .call (.signInWithCredential ⟨authentication.idToken, authentication.accessToken⟩)
      (fun reply : AuthReply =>
        match reply.error with
        | some error => completion (some error) refUsers
        | none =>
          match reply.result with
          | none => .done
          | some result =>
            .call (.observeSingleEvent .signInWithGoogle result.uid)
              (fun snapshot : DataSnapshot =>
                match snapshot.value with
                | none =>
                  match result.email with
                  | none => .done
                  | some email =>
                    match result.displayName with
                    | none => .done
                    | some fullname =>
                      .call (.updateChildValues result.uid (newUser email fullname))
                        (fun reply : WriteReply => completion reply.error reply.ref) .done
                | some _ => completion reply.error (refUsers.child result.uid))
              .done)
      .done

def fetchUser (completion : User → Program A α) : Program A α :=
  .read fun d =>
    match d.currentUser with
    | none => .done
    | some uid =>
      .call (.observeSingleEvent .fetchUser uid)
        (fun snapshot : DataSnapshot =>
          match snapshot.value with
          | some (.dictionary dictionary) => completion (User.ofDictionary snapshot.key dictionary)
          | _ => .done)
        .done

def updateUserHasSeenOnboarding
    (completion : Option BackendError → DatabaseReference → Program A α) : Program A α :=
  .read fun d =>
    match d.currentUser with
    | none => .done
    | some uid =>
      .call (.setValue uid "hasSeenOnboarding" (.bool true))
        (fun reply : WriteReply => completion reply.error reply.ref) .done

end CardPang.Service
