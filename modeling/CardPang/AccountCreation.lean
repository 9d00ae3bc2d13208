import CardPang.Service
import CardPang.SoleClient

/-!
# Creating an account

`registerUserWithFirebase` and `signInWithGoogle` on a device that does nothing else,
with a completion that only notes its calls. A run ends when every call of the
backend has returned.
-/
namespace CardPang.Service
open CallbackProgram Firebase LabelledRun

/-- One call of a completion. -/
structure Completed where
  error : Option BackendError
  ref : DatabaseReference
  deriving DecidableEq, Repr

/-- The two operations; a Google user always carries its authentication. -/
inductive Creation
  | register (email password fullname : String)
  | google (authentication : Authentication)
  deriving DecidableEq, Repr

def note (error : Option BackendError) (ref : DatabaseReference) :
    Program Completed (List Completed) :=
  .act ⟨error, ref⟩ .done

def create : Creation → Program Completed (List Completed)
  | .register email password fullname => registerUserWithFirebase email password fullname note
  | .google authentication => signInWithGoogle ⟨some authentication⟩ note

def creationPlatform :
    Platform Reply Completed (Device (List Completed)) Backend Answer Creation where
  act := fun c d => { d with app := d.app ++ [c] }
  receive := receive
  serve := serve
  handler := create

/-- A device with nothing in flight. -/
def device (b : Backend) (session : Option String) (completed : List Completed) :
    World Reply Completed (Device (List Completed)) Backend Unit :=
  sole b (Client.start ⟨session, completed⟩)

/-- `email`, `fullname` and `hasSeenOnboarding` are there. -/
def HoldsRecord (node : Option Node) : Prop :=
  ∃ fields, node = some (.dictionary fields) ∧ (fields "email").isSome ∧
    (fields "fullname").isSome ∧ (fields "hasSeenOnboarding").isSome

def AllRecordsComplete (b : Backend) : Prop :=
  ∀ uid, b.users uid ≠ none → HoldsRecord (b.users uid)

/-- One completion; with an error everything is as before, without one the session is
that of the account just signed in, which has its record. -/
def AllOrNothing (b : Backend) (session : Option String) (os : List Answer)
    (w : World Reply Completed (Device (List Completed)) Backend Unit) : Prop :=
  ∃ c, (w.client ()).state.app = [c] ∧
    (c.error ≠ none → w.server = b ∧ (w.client ()).state.currentUser = session) ∧
    (c.error = none → ∃ result, .signIn result ∈ os ∧
      (w.client ()).state.currentUser = some result.uid ∧ HoldsRecord (w.server.users result.uid))

/-- When the outcomes of the backend's calls leave nothing half done. -/
def GoesThrough (b : Backend) (session : Option String) : Creation → List Answer → Prop
  | .register _ _ _, os => (∃ error, os = [.fail error]) ∨ ∃ result, os = [.signIn result, .succeed]
  | .google _, os =>
    (∃ error, os = [.fail error]) ∨
    ∃ result, os.take 2 = [.signIn result, .succeed] ∧
      (b.users result.uid ≠ none ∨
        (result.email.isSome ∧ result.displayName.isSome ∧
          (os[2]? = some .succeed ∨ (result.uid ∈ b.accounts ∧ session = some result.uid))))

section Ends

variable {b : Backend} {session : Option String} {es : List (Event Answer Creation Unit)}
  {w : World Reply Completed (Device (List Completed)) Backend Unit}

theorem holdsRecord_newUser (node : Option Node) (email fullname : String) :
    HoldsRecord (updateChildValues node (newUser email fullname)) :=
  ⟨_, rfl, by simp [newUser], by simp [newUser, List.lookup],
    by simp [newUser, List.lookup]⟩

/-- How the write of a new record ends, with which both operations close. -/
inductive WriteEnd (b : Backend) (session : Option String) (uid : String)
    (values : List (String × Value)) :
    List Answer → World Reply Completed (Device (List Completed)) Backend Unit → Prop
  | failed (error : BackendError) :
    WriteEnd b session uid values [.fail error]
      (device b session [⟨some error, refUsers.child uid⟩])
  | written :
    WriteEnd b session uid values [.succeed]
      (device (b.setUser uid (updateChildValues (b.users uid) values)) session
        [⟨none, refUsers.child uid⟩])

inductive RegisterEnd (b : Backend) (session : Option String) (email fullname : String) :
    List Answer → World Reply Completed (Device (List Completed)) Backend Unit → Prop
  | refused (error : BackendError) :
    RegisterEnd b session email fullname [.fail error]
      (device b session [⟨some error, refUsers⟩])
  | created {result : AuthDataResult} {os : List Answer}
      {w : World Reply Completed (Device (List Completed)) Backend Unit}
      (fresh : result.uid ∉ b.accounts)
      (write : WriteEnd (b.addAccount result.uid) (some result.uid) result.uid
        (newUser email fullname) os w) :
    RegisterEnd b session email fullname (.signIn result :: os) w

/-- How `signInWithGoogle` goes on from the read of the user's record. -/
inductive ReadEnd (b : Backend) (result : AuthDataResult) :
    List Answer → World Reply Completed (Device (List Completed)) Backend Unit → Prop
  | unanswered (error : BackendError) :
    ReadEnd b result [.fail error] (device b (some result.uid) [])
  | found (present : b.users result.uid ≠ none) :
    ReadEnd b result [.succeed]
      (device b (some result.uid) [⟨none, refUsers.child result.uid⟩])
  | nameless (absent : b.users result.uid = none)
      (missing : result.email = none ∨ result.displayName = none) :
    ReadEnd b result [.succeed] (device b (some result.uid) [])
  | fresh {email fullname : String} {os : List Answer}
      {w : World Reply Completed (Device (List Completed)) Backend Unit}
      (absent : b.users result.uid = none) (hasEmail : result.email = some email)
      (hasName : result.displayName = some fullname)
      (write : WriteEnd b (some result.uid) result.uid (newUser email fullname) os w) :
    ReadEnd b result (.succeed :: os) w

inductive GoogleEnd (b : Backend) (session : Option String) :
    List Answer → World Reply Completed (Device (List Completed)) Backend Unit → Prop
  | refused (error : BackendError) :
    GoogleEnd b session [.fail error] (device b session [⟨some error, refUsers⟩])
  | signedIn {result : AuthDataResult} {os : List Answer}
      {w : World Reply Completed (Device (List Completed)) Backend Unit}
      (read : ReadEnd (b.addAccount result.uid) result os w) :
    GoogleEnd b session (.signIn result :: os) w

theorem write_ends {uid : String} {values : List (String × Value)} {t : List (Σ r, Reply r)}
    (hrun : Run (Step creationPlatform) (sole b ⟨⟨session, []⟩, [⟨.updateChildValues uid values,
      fun reply : WriteReply => note reply.error reply.ref, t⟩], []⟩) es w)
    (hes : NoInput es) (hq : (w.client ()).Quiet) :
    WriteEnd b session uid values (outcomes es) w := by
  obtain ⟨o, b', ⟨hserve, -, -⟩ | ⟨reply, s', cs', es', hserve, hexec, hout, hes', hrun⟩⟩ :=
    sole_call hrun hes hq
  · rcases serve_updateChildValues hserve with ⟨_, _, _, h⟩ | ⟨_, _, h⟩ <;> cases h
  rw [hout]
  rcases serve_updateChildValues hserve with ⟨error, rfl, rfl, hreply⟩ | ⟨rfl, rfl, hreply⟩
  · obtain rfl := Option.some.inj hreply
    cases hexec
    obtain ⟨rfl, rfl⟩ := sole_idle hrun hes'
    exact .failed error
  · obtain rfl := Option.some.inj hreply
    cases hexec
    obtain ⟨rfl, rfl⟩ := sole_idle hrun hes'
    exact .written

theorem register_ends {email password fullname : String}
    (hrun : Run (Step creationPlatform) (device b session [])
      (.input () (.register email password fullname) :: es) w)
    (hes : NoInput es) (hq : (w.client ()).Quiet) :
    RegisterEnd b session email fullname (outcomes es) w := by
  obtain ⟨w₁, hs, hrun⟩ := hrun.uncons
  obtain ⟨s, cs, hexec, rfl⟩ := sole_input hs
  cases hexec
  obtain ⟨o, b₁, ⟨hserve, -, -⟩ | ⟨reply, s₁, cs₁, es₁, hserve, hexec, hout, hes₁, hrun⟩⟩ :=
    sole_call hrun hes hq
  · rcases serve_createUser hserve with ⟨_, _, _, h⟩ | ⟨_, _, _, _, _, h⟩ <;> cases h
  rw [hout]
  rcases serve_createUser hserve with ⟨error, rfl, rfl, hreply⟩ |
    ⟨result, rfl, hfresh, -, rfl, hreply⟩
  · obtain rfl := Option.some.inj hreply
    cases hexec
    obtain ⟨rfl, rfl⟩ := sole_idle hrun hes₁
    exact .refused error
  · obtain rfl := Option.some.inj hreply
    cases hexec
    exact .created hfresh (write_ends hrun hes₁ hq)

/-- The read that follows on a sign-in; its callback writes the record of a new user. -/
theorem read_ends {result : AuthDataResult} {t : List (Σ r, Reply r)}
    (hrun : Run (Step creationPlatform) (sole b ⟨⟨some result.uid, []⟩,
      [⟨.observeSingleEvent .signInWithGoogle result.uid, fun snapshot : DataSnapshot =>
        match snapshot.value with
        | none =>
          match result.email with
          | none => .done
          | some email =>
            match result.displayName with
            | none => .done
            | some fullname =>
              .call (.updateChildValues result.uid (newUser email fullname))
                (fun reply : WriteReply => note reply.error reply.ref) .done
        | some _ => note none (refUsers.child result.uid), t⟩], []⟩) es w)
    (hes : NoInput es) (hq : (w.client ()).Quiet) : ReadEnd b result (outcomes es) w := by
  -- A failed read has no answer; after any other the callback sees the record as it is, for no
  -- write of the device waits.
  obtain ⟨o, b', ⟨hserve, hout, rfl⟩ | ⟨snapshot, s', cs', es', hserve, hexec, hout, hes', hrun⟩⟩ :=
    sole_call hrun hes hq
  · obtain ⟨rfl, ⟨error, rfl, -⟩ | ⟨-, h⟩⟩ := serve_observeSingleEvent hserve
    · rw [hout]
      exact .unanswered error
    · cases h
  obtain ⟨rfl, ⟨error, -, h⟩ | ⟨rfl, hsnapshot⟩⟩ := serve_observeSingleEvent hserve
  · cases h
  obtain rfl := Option.some.inj hsnapshot
  rw [hout]
  cases hnode : b'.users result.uid with
  | some node =>
    simp only [hnode] at hexec
    cases hexec
    obtain ⟨rfl, rfl⟩ := sole_idle hrun hes'
    exact .found (by simp [hnode])
  | none =>
    obtain ⟨uid, email, displayName⟩ := result
    simp only [hnode] at hexec
    cases email with
    | none =>
      cases hexec
      obtain ⟨rfl, rfl⟩ := sole_idle hrun hes'
      exact .nameless hnode (Or.inl rfl)
    | some email =>
      cases displayName with
      | none =>
        cases hexec
        obtain ⟨rfl, rfl⟩ := sole_idle hrun hes'
        exact .nameless hnode (Or.inr rfl)
      | some fullname =>
        cases hexec
        exact .fresh hnode rfl rfl (write_ends hrun hes' hq)

theorem google_ends {authentication : Authentication}
    (hrun : Run (Step creationPlatform) (device b session [])
      (.input () (.google authentication) :: es) w)
    (hes : NoInput es) (hq : (w.client ()).Quiet) :
    GoogleEnd b session (outcomes es) w := by
  obtain ⟨w₁, hs, hrun⟩ := hrun.uncons
  obtain ⟨s, cs, hexec, rfl⟩ := sole_input hs
  cases hexec
  obtain ⟨o, b₁, ⟨hserve, -, -⟩ | ⟨reply, s₁, cs₁, es₁, hserve, hexec, hout, hes₁, hrun⟩⟩ :=
    sole_call hrun hes hq
  · rcases serve_signInWithCredential hserve with ⟨_, _, _, h⟩ | ⟨_, _, _, h⟩ <;> cases h
  rw [hout]
  rcases serve_signInWithCredential hserve with ⟨error, rfl, rfl, hreply⟩ |
    ⟨result, rfl, rfl, hreply⟩
  · obtain rfl := Option.some.inj hreply
    cases hexec
    obtain ⟨rfl, rfl⟩ := sole_idle hrun hes₁
    exact .refused error
  obtain rfl := Option.some.inj hreply
  cases hexec
  exact .signedIn (read_ends hrun hes₁ hq)

theorem addAccount_eq_self_iff {uid : String} : b.addAccount uid = b ↔ uid ∈ b.accounts := by
  unfold Backend.addAccount
  constructor
  · intro h
    have haccounts := congrArg Backend.accounts h
    exact Finset.insert_eq_self.mp haccounts
  · intro h
    rw [Finset.insert_eq_self.mpr h]

theorem not_allOrNothing_nil {b' : Backend} {session' : Option String} {os : List Answer} :
    ¬ AllOrNothing b session os (device b' session' []) := by
  rintro ⟨c, hc, -⟩
  cases hc

theorem allOrNothing_error_iff {b' : Backend} {session' : Option String} {os : List Answer}
    {error : BackendError} {ref : DatabaseReference} :
    AllOrNothing b session os (device b' session' [⟨some error, ref⟩]) ↔
      b' = b ∧ session' = session := by
  constructor
  · rintro ⟨c, hc, hfailed, -⟩
    obtain rfl := List.singleton_inj.mp hc
    exact hfailed (by simp)
  · intro h
    exact ⟨_, rfl, fun _ => h, fun hn => nomatch hn⟩

theorem allOrNothing_signedIn {b' : Backend} {os : List Answer} {result : AuthDataResult}
    {ref : DatabaseReference} (hos : .signIn result ∈ os)
    (hrecord : HoldsRecord (b'.users result.uid)) :
    AllOrNothing b session os (device b' (some result.uid) [⟨none, ref⟩]) :=
  ⟨_, rfl, fun hn => absurd rfl hn, fun _ => ⟨result, hos, rfl, hrecord⟩⟩

theorem RegisterEnd.allOrNothing_iff {os : List Answer} {email fullname : String}
    (h : RegisterEnd b session email fullname os w) (password : String) :
    AllOrNothing b session os w ↔
      GoesThrough b session (.register email password fullname) os := by
  cases h with
  | refused error =>
    rw [allOrNothing_error_iff]
    simp [GoesThrough]
  | created hfresh hwrite =>
    cases hwrite with
    | failed error =>
      -- The account is new, so that the write's error cannot leave everything as before.
      rw [allOrNothing_error_iff, addAccount_eq_self_iff]
      simp [GoesThrough, hfresh]
    | written =>
      refine iff_of_true (allOrNothing_signedIn (by simp) ?_) (by simp [GoesThrough])
      rw [Backend.setUser_users_self]
      exact holdsRecord_newUser _ email fullname

theorem GoogleEnd.allOrNothing_iff {os : List Answer} (hb : AllRecordsComplete b)
    (h : GoogleEnd b session os w) (authentication : Authentication) :
    AllOrNothing b session os w ↔ GoesThrough b session (.google authentication) os := by
  cases h with
  | refused error =>
    rw [allOrNothing_error_iff]
    simp [GoesThrough]
  | @signedIn result _ _ hread =>
    have husers : (b.addAccount result.uid).users = b.users := rfl
    cases hread with
    | unanswered error =>
      refine iff_of_false not_allOrNothing_nil ?_
      simp [GoesThrough]
    | found hnode =>
      rw [husers] at hnode
      refine iff_of_true (allOrNothing_signedIn (by simp) (hb _ hnode)) ?_
      simp [GoesThrough, hnode]
    | nameless hnode hmissing =>
      rw [husers] at hnode
      refine iff_of_false not_allOrNothing_nil ?_
      rcases hmissing with h | h <;> simp [GoesThrough, hnode, h]
    | @fresh email fullname _ _ hnode hemail hname hwrite =>
      rw [husers] at hnode
      cases hwrite with
      | failed error =>
        -- Here the account may be an old one, and the session its own.
        rw [allOrNothing_error_iff, addAccount_eq_self_iff, eq_comm (b := session)]
        simp [GoesThrough, hnode, hemail, hname]
      | written =>
        refine iff_of_true (allOrNothing_signedIn (by simp) ?_) ?_
        · rw [Backend.setUser_users_self]
          exact holdsRecord_newUser _ email fullname
        · simp [GoesThrough, hemail, hname]

end Ends

/-- The creation of an account is all or nothing exactly when it goes through. -/
theorem creation_all_or_nothing_iff {b : Backend} {session : Option String} {creation : Creation}
    {es : List (Event Answer Creation Unit)}
    {w : World Reply Completed (Device (List Completed)) Backend Unit}
    (hb : AllRecordsComplete b)
    (hrun : Run (Step creationPlatform) (device b session []) (.input () creation :: es) w)
    (hes : NoInput es) (hq : (w.client ()).Quiet) :
    AllOrNothing b session (outcomes es) w ↔ GoesThrough b session creation (outcomes es) := by
  cases creation with
  | register email password fullname =>
    have hend := register_ends hrun hes hq
    exact hend.allOrNothing_iff password
  | google authentication =>
    have hend := google_ends hrun hes hq
    exact hend.allOrNothing_iff hb authentication

/-- A registration whose record is written. -/
theorem registration_all_or_nothing :
    ∃ w, Run (Step creationPlatform) (device ⟨∅, fun _ => none⟩ none [])
        [.input () (.register "kim@card.pang" "secret" "Kim"),
          .serve () 0 (.signIn ⟨"kim", some "kim@card.pang", none⟩), .deliver () 0,
          .serve () 0 .succeed, .deliver () 0] w ∧
      AllOrNothing ⟨∅, fun _ => none⟩ none
        [.signIn ⟨"kim", some "kim@card.pang", none⟩, .succeed] w := by
  have hrun : ∃ w, Run (Step creationPlatform) (device ⟨∅, fun _ => none⟩ none [])
      [.input () (.register "kim@card.pang" "secret" "Kim"),
        .serve () 0 (.signIn ⟨"kim", some "kim@card.pang", none⟩), .deliver () 0,
        .serve () 0 .succeed, .deliver () 0] w ∧ (w.client ()).Quiet :=
    ⟨_, World.next_run rfl, rfl, rfl⟩
  obtain ⟨w, hrun, hq⟩ := hrun
  exact ⟨w, hrun, (creation_all_or_nothing_iff (fun _ h => absurd rfl h) hrun
    (by simp [NoInput]) hq).mpr (Or.inr ⟨_, rfl⟩)⟩

/-- The account is created, and the write of its record fails. -/
theorem registration_half_done :
    ∃ w, Run (Step creationPlatform) (device ⟨∅, fun _ => none⟩ none [])
        [.input () (.register "kim@card.pang" "secret" "Kim"),
          .serve () 0 (.signIn ⟨"kim", some "kim@card.pang", none⟩), .deliver () 0,
          .serve () 0 (.fail ⟨"permission denied"⟩), .deliver () 0] w ∧ (w.client ()).Quiet ∧
      ¬ AllOrNothing ⟨∅, fun _ => none⟩ none
        [.signIn ⟨"kim", some "kim@card.pang", none⟩, .fail ⟨"permission denied"⟩] w := by
  refine ⟨_, World.next_run rfl, ⟨rfl, rfl⟩, ?_⟩
  rintro ⟨c, hc, hfailed, -⟩
  obtain rfl := List.singleton_inj.mp hc
  cases (hfailed (by simp)).2

end CardPang.Service
