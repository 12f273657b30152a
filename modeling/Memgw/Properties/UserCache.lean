-- SUMMARY: When the users that the Zep adapter knows exist at Zep, whatever calls overlap and whatever the client raises.
import Memgw.Adapters.Zep
import Mathlib.Data.Set.Insert

/-!
# The known users

The adapter learns of a user from the answer to `user.add`, and unlearns it from the
answer to `user.delete`. Zep has carried a request out when its answer comes, and the
call that waits for it goes on later. An action of the client is the moment at which Zep
carries the request out. What the call does with the answer are its next actions, and
other calls may act in between.
-/

namespace Memgw.Zep

/-- Zep keeps users, and only the adapter's `user.add` and `user.delete` change them. A
    request that raises may have been carried out all the same. -/
structure Client.KeepsUsers {κ : Type} (client : Client κ) (users : κ → Set String) : Prop where
  added : ∀ user s, (client.answer (.userAdd user) s).1 = .ok () →
    users (client.answer (.userAdd user) s).2 = insert user (users s)
  addRaised : ∀ user s e, (client.answer (.userAdd user) s).1 = .error e →
    users (client.answer (.userAdd user) s).2 = users s ∨
      users (client.answer (.userAdd user) s).2 = insert user (users s)
  deleted : ∀ user s, (client.answer (.userDelete user) s).1 = .ok () →
    users (client.answer (.userDelete user) s).2 = users s \ {user}
  deleteRaised : ∀ user s e, (client.answer (.userDelete user) s).1 = .error e →
    users (client.answer (.userDelete user) s).2 = users s ∨
      users (client.answer (.userDelete user) s).2 = users s \ {user}
  others : ∀ op s, (∀ user, op ≠ .userAdd user) → (∀ user, op ≠ .userDelete user) →
    users (client.answer op s).2 = users s

/-! ## Calls -/

/-- A call of the adapter, with whatever it returns left out. -/
def callProg (statusCode : Exc → Option Nat) (op : AdapterOp) : ZepProg Unit :=
  (program statusCode op).bind fun _ => .ret ()

abbrev CallStep : Type := Step Action.Ans Exc

abbrev History (ι : Type) : Type := List (Event Action.Ans Exc ι)

/-- Zep has answered that the user is deleted. -/
def deletedStep (user : String) : CallStep := ⟨.ask (.userDelete user), .ok ()⟩

/-- After the deletion of a user, the next thing that a call does is to forget it. -/
def ForgetsNext {α : Type} (st : CallStep) (rest : ZepProg α) : Prop :=
  ∀ user, st = deletedStep user → ∃ k, rest = .act (.forget user) k

/-- A call remembers a user right after it was added, or was said to be there. -/
def RemembersAdded (statusCode : Exc → Option Nat) {α : Type} (st : CallStep)
    (rest : ZepProg α) : Prop :=
  ∀ user k, rest = .act (.remember user) k → ∃ r, st = ⟨.ask (.userAdd user), r⟩ ∧
    ∀ e, r = .error e → isConflict statusCode e = true

/-- An action that deletes no user. -/
def Spares : Action → Prop
  | .ask (.userDelete _) => False
  | _ => True

/-- An action that has nothing to do with users. -/
def Plain : Action → Prop
  | .ask (.userAdd _) | .ask (.userDelete _) | .remember _ | .forget _ => False
  | _ => True

theorem Plain.spares {a : Action} (h : Plain a) : Spares a := by
  unfold Plain at h
  unfold Spares
  split at h <;> simp_all

/-- The operations that neither write nor erase. -/
def Aside : AdapterOp → Prop
  | .ingest .. | .upsert .. | .deleteScope _ => False
  | _ => True

section

variable (statusCode : Exc → Option Nat)

theorem ask_within {A : Action → Prop} {op : ClientOp} (h : A (.ask op)) : (ask op).Within A :=
  Prog.within_perform h

theorem program_plain {op : AdapterOp} (h : Aside op) :
    (program statusCode op).Within Plain := by
  cases op with
  | ingest | upsert | deleteScope => exact h.elim
  | update => trivial
  | search query scope =>
    simp only [program, search]
    split
    · trivial
    · exact Prog.within_bind (ask_within trivial) fun _ => trivial
  | listScope | get | delete => exact Prog.within_bind (ask_within trivial) fun _ => trivial
  | health =>
    refine Prog.within_tryCatch (Prog.within_bind (ask_within trivial) fun _ => trivial) fun e => ?_
    split
    · trivial
    · split <;> trivial

/-! ### Deletions -/

theorem ensureUser_spares {scope : Scope} : (ensureUser statusCode scope).Within Spares := by
  refine Prog.within_bind (Prog.within_perform trivial) fun known => ?_
  split
  · trivial
  · refine Prog.within_bind (Prog.within_tryCatch (ask_within trivial) fun e => ?_) fun _ =>
      Prog.within_bind (Prog.within_perform trivial) fun _ => trivial
    split <;> trivial

theorem add_spares {data : String} {scope : Scope} : (add statusCode data scope).Within Spares := by
  refine Prog.within_bind (ensureUser_spares statusCode) fun user =>
    Prog.within_bind (ask_within trivial) fun raw => ?_
  split <;> trivial

theorem upsert_spares {facts : List String} {scope : Scope} :
    (upsert statusCode facts scope).Within Spares := by
  induction facts with
  | nil => trivial
  | cons fact facts ih =>
    exact Prog.within_bind (add_spares statusCode) fun _ => Prog.within_bind ih fun _ => trivial

theorem forgetsNext_of_spares {α : Type} {p : ZepProg α} (hp : p.Within Spares) :
    (p.bind fun _ => .ret ()).Leads ForgetsNext := by
  have hwhole : (p.bind fun _ => .ret ()).Within Spares := Prog.within_bind hp fun _ => trivial
  refine hwhole.leads fun st rest hst _ user h => ?_
  rw [h] at hst
  exact hst.elim

theorem callProg_forgetsNext (op : AdapterOp) : (callProg statusCode op).Leads ForgetsNext := by
  cases op with
  | ingest episode scope => exact forgetsNext_of_spares (add_spares statusCode)
  | upsert facts scope => exact forgetsNext_of_spares (upsert_spares statusCode)
  | deleteScope scope =>
    have hcount : (Prog.tryCatch (do
        let doomed ← ask (.edgesOf (userId scope) 1000)
        return (doomed.getD []).length) fun e => if e.isException then .ret 0 else .raise e :
          ZepProg Nat).Within Spares := by
      refine Prog.within_tryCatch (Prog.within_bind (ask_within trivial) fun _ => trivial)
        fun e => ?_
      split <;> trivial
    simp only [callProg, program, deleteScope, Prog.bind_eq, Prog.pure_eq] at hcount ⊢
    rw [Prog.bind_assoc]
    refine Prog.leads_bind (hcount.leads fun st rest hst _ user h => ?_) fun removed r => ?_
    · rw [h] at hst
      exact hst.elim
    · cases r with
      | ok u =>
        refine ⟨fun user h => ?_, fun r => ⟨fun user h => ?_, ?_⟩⟩
        · cases h
          exact ⟨_, rfl⟩
        · cases h
        · cases r <;> trivial
      | error e => exact ⟨fun user h => (by cases h), trivial⟩
  | update | search | listScope | get | delete | health =>
    refine forgetsNext_of_spares ((program_plain statusCode ?_).mono fun _ => Plain.spares)
    trivial

/-! ### Additions -/

variable {statusCode}

/-- What follows a program and does not start by remembering does no harm. -/
theorem RemembersAdded.bind {α β : Type} {st : CallStep} {rest : ZepProg α} {f : α → ZepProg β}
    (h : RemembersAdded statusCode st rest)
    (hf : ∀ a user k, f a ≠ .act (.remember user) k) :
    RemembersAdded statusCode st (rest.bind f) := by
  intro user k hrest
  cases rest with
  | ret a => exact absurd hrest (hf a user k)
  | raise e => cases hrest
  | act op k' =>
    obtain ⟨rfl, -⟩ := Prog.act.inj hrest
    exact h user k' rfl

theorem leads_bind_remembersAdded {α β : Type} {p : ZepProg α} {f : α → ZepProg β}
    (hp : p.Leads (RemembersAdded statusCode))
    (hf : ∀ a, (f a).Leads (RemembersAdded statusCode))
    (hstart : ∀ a user k, f a ≠ .act (.remember user) k) :
    (p.bind f).Leads (RemembersAdded statusCode) :=
  Prog.leads_bind (hp.mono fun _ _ h => h.bind hstart) hf

variable (statusCode)

theorem perform_remembersAdded {a : Action} :
    (Prog.perform a : ZepProg a.Ans).Leads (RemembersAdded statusCode) := by
  intro r
  cases r with
  | ok answer => exact ⟨fun _ _ h => (by cases h), trivial⟩
  | error e => exact ⟨fun _ _ h => (by cases h), trivial⟩

theorem ensureUser_remembersAdded {scope : Scope} :
    (ensureUser statusCode scope).Leads (RemembersAdded statusCode) := by
  refine leads_bind_remembersAdded (perform_remembersAdded statusCode) (fun known => ?_)
    fun known user k => ?_
  · cases known with
    | true => trivial
    | false =>
      have htail : ((Prog.perform (Action.remember (userId scope))).bind fun _ =>
          (.ret (userId scope) : ZepProg String)).Leads (RemembersAdded statusCode) :=
        leads_bind_remembersAdded (perform_remembersAdded statusCode) (fun _ => trivial)
          fun _ _ _ h => by cases h
      intro r
      cases r with
      | ok u =>
        refine ⟨fun user k h => ?_, htail⟩
        cases h
        exact ⟨_, rfl, fun e he => by cases he⟩
      | error e =>
        -- an exception that does not say that the user is there is passed on
        simp only [Prog.attempt, Prog.ret_bind]
        split
        · rename_i hconflict
          refine ⟨fun user k h => ?_, htail⟩
          cases h
          refine ⟨_, rfl, fun e' he => ?_⟩
          obtain rfl := Except.error.inj he
          exact (Bool.and_eq_true_iff.mp hconflict).2
        · exact ⟨fun user k h => (by cases h), trivial⟩
  · intro h
    cases known <;> cases h

theorem add_remembersAdded {data : String} {scope : Scope} :
    (add statusCode data scope).Leads (RemembersAdded statusCode) := by
  refine leads_bind_remembersAdded (ensureUser_remembersAdded statusCode) (fun user => ?_)
    fun user user' k h => nomatch h
  refine leads_bind_remembersAdded (perform_remembersAdded statusCode) (fun raw => ?_)
    fun raw user' k => ?_
  · split <;> trivial
  · split <;> exact fun h => nomatch h

theorem upsert_remembersAdded {facts : List String} {scope : Scope} :
    (upsert statusCode facts scope).Leads (RemembersAdded statusCode) := by
  induction facts with
  | nil => trivial
  | cons fact facts ih =>
    refine leads_bind_remembersAdded (add_remembersAdded statusCode) (fun added => ?_)
      fun added user k => ?_
    · exact leads_bind_remembersAdded ih (fun _ => trivial) fun _ _ _ h => nomatch h
    · cases facts <;> exact fun h => nomatch h

theorem callProg_remembersAdded (op : AdapterOp) :
    (callProg statusCode op).Leads (RemembersAdded statusCode) := by
  refine leads_bind_remembersAdded ?_ (fun _ => trivial) fun _ _ _ h => nomatch h
  cases op with
  | ingest episode scope => exact add_remembersAdded statusCode
  | upsert facts scope => exact upsert_remembersAdded statusCode
  | deleteScope scope =>
    have hforgets : (deleteScope scope).Within fun a => ∀ user, a ≠ .remember user := by
      refine Prog.within_bind (Prog.within_tryCatch (Prog.within_bind
        (ask_within fun _ h => nomatch h) fun _ => trivial) fun e => ?_) fun removed => ?_
      · split <;> trivial
      · exact Prog.within_bind (ask_within fun _ h => nomatch h) fun _ =>
          Prog.within_bind (Prog.within_perform fun _ h => nomatch h) fun _ => trivial
    refine hforgets.leads fun st rest _ hrest user k h => ?_
    rw [h] at hrest
    exact absurd rfl (hrest.1 user)
  | update | search | listScope | get | delete | health =>
    refine (program_plain statusCode ?_).leads fun st rest _ hrest user k h => ?_
    · trivial
    · rw [h] at hrest
      exact hrest.1.elim

/-- No call starts by remembering a user. -/
theorem callProg_start (op : AdapterOp) (user : String)
    (k : Except Exc Unit → ZepProg Unit) : callProg statusCode op ≠ .act (.remember user) k := by
  cases op with
  | search query scope =>
    simp only [callProg, program, search]
    split <;> exact fun h => nomatch h
  | upsert facts scope => cases facts <;> exact fun h => nomatch h
  | ingest | update | listScope | get | delete | deleteScope | health => exact fun h => nomatch h

end

/-! ## Steps -/

variable {κ ι : Type} [DecidableEq ι]

/-- Zep has deleted the user for a call that has not gone on since. -/
def Removing (es : History ι) (user : String) : Prop :=
  ∃ i, (own i es).getLast? = some (deletedStep user)

/-- Each known user exists at Zep, or is about to be forgotten. -/
def Tracked (users : κ → Set String) (es : History ι) (s : State κ) : Prop :=
  ∀ user ∈ s.knownUsers, user ∈ users s.client ∨ Removing es user

/-- A user that is about to be remembered is still at Zep, and a deletion that raises has
    left a known user there, unless a call is about to forget the user. -/
def Careful (client : Client κ) (users : κ → Set String) (es : History ι)
    (e : Event Action.Ans Exc ι) (s : State κ) : Prop :=
  match e.step with
  | ⟨.remember user, _⟩ => user ∈ users s.client ∨ Removing es user
  | ⟨.ask (.userDelete user), .error _⟩ => user ∈ s.knownUsers → user ∈ users s.client →
      user ∈ users (client.answer (.userDelete user) s.client).2 ∨ Removing es user
  | _ => True

section

variable {client : Client κ} {users : κ → Set String} {es : History ι}
  {e : Event Action.Ans Exc ι} {s : State κ}

/-- A call that has had a user deleted goes on by forgetting it. -/
def Prompt (es : History ι) (e : Event Action.Ans Exc ι) : Prop :=
  ∀ user, (own e.who es).getLast? = some (deletedStep user) → e.step.1 = .forget user

theorem getLast?_own_append {i : ι} : (own i (es ++ [e])).getLast? =
    if e.who = i then some e.step else (own i es).getLast? := by
  obtain ⟨j, st⟩ := e
  rw [own_append]
  split
  · rename_i hj
    obtain rfl : j = i := hj
    rw [own_cons_self, own_nil, List.getLast?_concat]
  · rename_i hj
    rw [own_cons_ne hj, own_nil, List.append_nil]

theorem Removing.append {user : String} (h : Removing es user) (hprompt : Prompt es e)
    (hforget : e.step.1 ≠ .forget user) : Removing (es ++ [e]) user := by
  obtain ⟨i, hi⟩ := h
  refine ⟨i, ?_⟩
  rw [getLast?_own_append, if_neg]
  · exact hi
  · rintro rfl
    exact hforget (hprompt user hi)

theorem removing_append_iff {user : String} (hprompt : Prompt es e)
    (hforget : e.step.1 ≠ .forget user) :
    Removing (es ++ [e]) user ↔ e.step = deletedStep user ∨ Removing es user := by
  constructor
  · rintro ⟨i, hi⟩
    rw [getLast?_own_append] at hi
    split at hi
    · exact .inl (Option.some.inj hi)
    · exact .inr ⟨i, hi⟩
  · rintro (hst | h)
    · exact ⟨e.who, by rw [getLast?_own_append, if_pos rfl, hst]⟩
    · exact h.append hprompt hforget

/-- Only the deletion of the user and the forgetting of it change whether it is about to be
    forgotten. -/
theorem removing_kept {user : String} (hprompt : Prompt es e) (hforget : e.step.1 ≠ .forget user)
    (hdeleted : e.step ≠ deletedStep user) : Removing (es ++ [e]) user ↔ Removing es user := by
  rw [removing_append_iff hprompt hforget, or_iff_right hdeleted]

/-- Nothing goes wrong while no known user disappears and none becomes known. -/
theorem Tracked.append {s' : State κ} (h : Tracked users es s) (hprompt : Prompt es e)
    (hforget : ∀ user, e.step.1 ≠ .forget user) (hknown : s'.knownUsers = s.knownUsers)
    (husers : users s.client ⊆ users s'.client) : Tracked users (es ++ [e]) s' := by
  intro user hu
  rw [hknown] at hu
  exact (h user hu).imp (fun hin => husers hin) fun hremoving =>
    hremoving.append hprompt (hforget user)

/-- A request that deletes no user leaves those that there are. -/
theorem Client.KeepsUsers.grows (hclient : client.KeepsUsers users) {op : ClientOp}
    (hop : ∀ user, op ≠ .userDelete user) (s : κ) : users s ⊆ users (client.answer op s).2 := by
  cases op with
  | userAdd user =>
    cases hr : (client.answer (.userAdd user) s).1 with
    | ok u =>
      rw [hclient.added user s hr]
      exact Set.subset_insert ..
    | error err =>
      rcases hclient.addRaised user s err hr with hsame | hadded
      · rw [hsame]
      · rw [hadded]
        exact Set.subset_insert ..
  | userDelete user => exact absurd rfl (hop user)
  | graphAdd | graphSearch | edgesOf | edgeGet | edgeDelete =>
    refine (hclient.others _ s ?_ ?_).ge <;> exact fun _ h => nomatch h

/-- The deletion of a user leaves the others, whether it is answered or raises. -/
theorem Client.KeepsUsers.spares (hclient : client.KeepsUsers users) {user user' : String} {s : κ}
    (hne : user ≠ user') (hin : user ∈ users s) :
    user ∈ users (client.answer (.userDelete user') s).2 := by
  cases hr : (client.answer (.userDelete user') s).1 with
  | ok u =>
    rw [hclient.deleted user' s hr]
    exact ⟨hin, hne⟩
  | error err =>
    rcases hclient.deleteRaised user' s err hr with hsame | hdeleted
    · rwa [hsame]
    · rw [hdeleted]
      exact ⟨hin, hne⟩

/-- A deletion that is answered takes the user away, and its call is about to forget it. -/
theorem tracked_deleted {i : ι} {user : String} (hclient : client.KeepsUsers users)
    (hprompt : Prompt es ⟨i, deletedStep user⟩) (h : Tracked users es s) :
    Tracked users (es ++ [⟨i, deletedStep user⟩])
      (client.handle (.ask (.userDelete user)) s).2 := by
  intro user' hu
  by_cases hne : user' = user
  · refine .inr ((removing_append_iff hprompt fun h => nomatch h).mpr (.inl ?_))
    rw [hne]
  · exact (h user' hu).imp (fun hin => hclient.spares hne hin) fun hremoving =>
      hremoving.append hprompt fun h => nomatch h

/-- A deletion that raises leaves things as they should be exactly when it has not taken
    a known user away for good. -/
theorem tracked_deleteRaised_iff {i : ι} {user : String} {err : Exc}
    (hclient : client.KeepsUsers users)
    (hprompt : Prompt es ⟨i, ⟨.ask (.userDelete user), .error err⟩⟩) (h : Tracked users es s) :
    Tracked users (es ++ [⟨i, ⟨.ask (.userDelete user), .error err⟩⟩])
        (client.handle (.ask (.userDelete user)) s).2 ↔
      (user ∈ s.knownUsers → user ∈ users s.client →
        user ∈ users (client.answer (.userDelete user) s.client).2 ∨ Removing es user) := by
  have hremoving : ∀ user', Removing (es ++ [⟨i, ⟨.ask (.userDelete user), .error err⟩⟩]) user' ↔
      Removing es user' :=
    fun user' => removing_kept hprompt (fun h => by cases h) fun h => by cases h
  constructor
  · intro hafter hu _
    exact (hafter user hu).imp_right (hremoving user).mp
  · intro hcareful user' hu
    rw [hremoving]
    rcases h user' hu with hin | hgone
    · by_cases hne : user' = user
      · obtain rfl := hne
        exact hcareful hu hin
      · exact .inl (hclient.spares hne hin)
    · exact .inr hgone

/-- One step leaves a user that is neither there nor about to be forgotten exactly when it
    is not a careful one. -/
theorem tracked_step (hclient : client.KeepsUsers users)
    (hans : e.step.2 = (client.handle e.step.1 s).1) (hprompt : Prompt es e)
    (h : Tracked users es s) :
    Tracked users (es ++ [e]) (client.handle e.step.1 s).2 ↔ Careful client users es e s := by
  obtain ⟨i, op, r⟩ := e
  cases op with
  | knows user =>
    exact iff_of_true (h.append hprompt (fun _ h => nomatch h) rfl subset_rfl) trivial
  | forget user =>
    refine iff_of_true (fun user' hu => ?_) trivial
    obtain ⟨hu, hne⟩ := List.mem_filter.mp hu
    refine (h user' hu).imp_right fun hremoving => hremoving.append hprompt ?_
    rintro ⟨⟩
    simp at hne
  | remember user =>
    have hremoving : ∀ user', Removing (es ++ [⟨i, ⟨.remember user, r⟩⟩]) user' ↔
        Removing es user' :=
      fun user' => removing_kept hprompt (fun h => by cases h) fun h => by cases h
    constructor
    · intro hafter
      exact (hafter user (List.mem_insert_self ..)).imp_right (hremoving user).mp
    · intro hcareful user' hu
      rw [hremoving]
      rcases List.mem_insert_iff.mp hu with rfl | hu
      · exact hcareful
      · exact h user' hu
  | ask op =>
    cases op with
    | userDelete user =>
      obtain rfl : r = (client.answer (.userDelete user) s.client).1 := hans
      cases hr : (client.answer (.userDelete user) s.client).1 with
      | ok u =>
        rw [hr] at hprompt
        exact iff_of_true (tracked_deleted hclient hprompt h) trivial
      | error err =>
        rw [hr] at hprompt
        exact tracked_deleteRaised_iff hclient hprompt h
    | userAdd | graphAdd | graphSearch | edgesOf | edgeGet | edgeDelete =>
      refine iff_of_true (h.append hprompt (fun _ h => nomatch h) rfl
        (hclient.grows ?_ s.client)) trivial
      exact fun _ h => nomatch h

/-! ## Runs -/

variable {calls : ι → AdapterOp} {pool : ι → ZepProg Unit} {s₀ : State κ}

/-- The calls of a run, each as it was when it was made. -/
def atStart (client : Client κ) (calls : ι → AdapterOp) (i : ι) : ZepProg Unit :=
  callProg client.statusCode (calls i)

/-- Each call has ended, or has not begun. -/
def NoneInFlight (es : History ι) (pool : ι → ZepProg Unit) : Prop :=
  ∀ i, own i es = [] ∨ (pool i).Ended

theorem prompt_of_exec {es₁ es₂ : History ι}
    (hx : Exec client.handle (atStart client calls) s₀ (es₁ ++ e :: es₂) pool s) :
    Prompt es₁ e := by
  intro user hlast
  obtain ⟨pool₁, s₁, k, hx₁, hk, -⟩ := hx.split
  obtain ⟨k', hforget⟩ :=
    hx₁.leads (callProg_forgetsNext client.statusCode (calls e.who)) hlast user rfl
  exact (Prog.act.inj (hk.symm.trans hforget)).1

/-- Where no call is in flight, none is about to forget a user. -/
theorem NoneInFlight.not_removing (h : NoneInFlight es pool) {user : String}
    (hx : Exec client.handle (atStart client calls) s₀ es pool s) : ¬ Removing es user := by
  rintro ⟨i, hlast⟩
  obtain ⟨k, hk⟩ := hx.leads (callProg_forgetsNext client.statusCode (calls i)) hlast user rfl
  rcases h i with hnil | hended
  · simp [hnil] at hlast
  · rw [hk] at hended
    exact hended

/-- Every step of the history is careful. -/
def CarefulRun (client : Client κ) (users : κ → Set String) (s₀ : State κ) (es : History ι) :
    Prop :=
  ∀ es₁ e es₂, es = es₁ ++ e :: es₂ → Careful client users es₁ e (replay client.handle es₁ s₀)

theorem tracked_of_careful (hclient : client.KeepsUsers users) (hstart : s₀.knownUsers = [])
    (hx : Exec client.handle (atStart client calls) s₀ es pool s)
    (hcareful : CarefulRun client users s₀ es) {es₁ es₂ : History ι} (hes : es = es₁ ++ es₂) :
    Tracked users es₁ (replay client.handle es₁ s₀) := by
  refine replay_prefixes (fun user hu => ?_) (fun es₁ e es₂ hes htracked => ?_) es₁ es₂ hes
  · rw [hstart] at hu
    cases hu
  · have hnext := hcareful es₁ e es₂ hes
    subst hes
    exact (tracked_step hclient (faithful_append.mp hx.faithful).2.1 (prompt_of_exec hx)
      htracked).mpr hnext

/-- In a run of careful steps the known users exist whenever no call is in flight. -/
theorem exist_of_careful (hclient : client.KeepsUsers users) (hstart : s₀.knownUsers = [])
    (hx : Exec client.handle (atStart client calls) s₀ es pool s)
    (hcareful : CarefulRun client users s₀ es) (hnone : NoneInFlight es pool) :
    ∀ user ∈ s.knownUsers, user ∈ users s.client := by
  intro user hu
  rw [hx.replay] at hu ⊢
  have htracked := tracked_of_careful hclient hstart hx hcareful (List.append_nil es).symm
  exact (htracked user hu).resolve_right (hnone.not_removing hx)

/-- The steps of a run are careful exactly when at every moment of it each known user
    exists at Zep or is about to be forgotten. The known users of such a run exist at
    every moment at which no call is in flight. -/
theorem knownUsers_exist_iff (hclient : client.KeepsUsers users) (hstart : s₀.knownUsers = [])
    (hx : Exec client.handle (atStart client calls) s₀ es pool s) :
    (CarefulRun client users s₀ es ↔
      ∀ es₁ es₂, es = es₁ ++ es₂ → Tracked users es₁ (replay client.handle es₁ s₀)) ∧
    (CarefulRun client users s₀ es → ∀ es₁ es₂ pool₁ s₁, es = es₁ ++ es₂ →
      Exec client.handle (atStart client calls) s₀ es₁ pool₁ s₁ → NoneInFlight es₁ pool₁ →
        ∀ user ∈ s₁.knownUsers, user ∈ users s₁.client) := by
  refine ⟨⟨fun h es₁ es₂ hes => tracked_of_careful hclient hstart hx h hes,
    fun h es₁ e es₂ hes => ?_⟩, ?_⟩
  · have hbefore := h es₁ _ hes
    have hafter := h (es₁ ++ [e]) es₂ (by simp [hes])
    rw [replay_append] at hafter
    subst hes
    exact (tracked_step hclient (faithful_append.mp hx.faithful).2.1 (prompt_of_exec hx)
      hbefore).mp hafter
  · rintro h es₁ es₂ pool₁ s₁ rfl hx₁ hnone
    refine exist_of_careful hclient hstart hx₁ (fun es₃ e es₄ hes => ?_) hnone
    exact h es₃ e (es₄ ++ es₂) (by simp [hes])

/-! ## Taking turns -/

/-- The client says that a user exists only when it does, a deletion that raises has left
    the user in place, and none is carried out between the addition of a user and the
    moment at which its call remembers the user. -/
structure Orderly (client : Client κ) (users : κ → Set String) (s₀ : State κ) (es : History ι) :
    Prop where
  conflicts : ∀ es₁ i user e es₂, es = es₁ ++ ⟨i, ⟨.ask (.userAdd user), .error e⟩⟩ :: es₂ →
    isConflict client.statusCode e = true → user ∈ users (replay client.handle es₁ s₀).client
  deletions : ∀ es₁ i user e es₂, es = es₁ ++ ⟨i, ⟨.ask (.userDelete user), .error e⟩⟩ :: es₂ →
    user ∈ users (replay client.handle es₁ s₀).client →
      user ∈ users (client.answer (.userDelete user) (replay client.handle es₁ s₀).client).2
  turns : ∀ es₁ i user r mid r' es₂, es = es₁ ++ ⟨i, ⟨.ask (.userAdd user), r⟩⟩ ::
      (mid ++ ⟨i, ⟨.remember user, r'⟩⟩ :: es₂) → own i mid = [] →
    ∀ e ∈ mid, e.step.1 ≠ .ask (.userDelete user)

/-- What a call remembers was added, or said to be there, by its step before. -/
theorem remembers_added {i : ι} {user : String} {r : Except Exc Unit} {es₁ es₂ : History ι}
    (hx : Exec client.handle (atStart client calls) s₀
      (es₁ ++ ⟨i, ⟨.remember user, r⟩⟩ :: es₂) pool s) :
    ∃ front r' mid, es₁ = front ++ ⟨i, ⟨.ask (.userAdd user), r'⟩⟩ :: mid ∧ own i mid = [] ∧
      ∀ e, r' = .error e → isConflict client.statusCode e = true := by
  obtain ⟨pool₁, s₁, k, hx₁, hk, -⟩ := hx.split
  cases hlast : (own i es₁).getLast? with
  | none =>
    have hstart := hx₁.untouched (List.getLast?_eq_none_iff.mp hlast)
    exact absurd (hstart.symm.trans hk) (callProg_start client.statusCode (calls i) user k)
  | some st =>
    obtain ⟨r', rfl, hanswer⟩ :=
      hx₁.leads (callProg_remembersAdded client.statusCode (calls i)) hlast user k hk
    obtain ⟨before, hown⟩ := List.getLast?_eq_some_iff.mp hlast
    obtain ⟨front, mid, rfl, -, hmid⟩ := own_split (P := fun _ => true)
      (by rw [List.filter_true, hown])
    exact ⟨front, r', mid, rfl, by rwa [List.filter_true] at hmid, hanswer⟩

omit [DecidableEq ι] in
/-- A user stays for as long as nobody has it deleted. -/
theorem user_stays (hclient : client.KeepsUsers users) {user : String}
    (hfaithful : Faithful client.handle es s)
    (hspared : ∀ e ∈ es, e.step.1 ≠ .ask (.userDelete user)) (hin : user ∈ users s.client) :
    user ∈ users (replay client.handle es s).client := by
  refine replay_invariant (I := fun s => user ∈ users s.client) hfaithful
    (fun e he t hans hin => ?_) hin
  obtain ⟨i, op, r⟩ := e
  cases op with
  | knows | remember | forget => exact hin
  | ask op =>
    cases op with
    | userDelete user' =>
      have hne : user ≠ user' := by
        rintro rfl
        exact hspared _ he rfl
      exact hclient.spares hne hin
    | userAdd | graphAdd | graphSearch | edgesOf | edgeGet | edgeDelete =>
      refine hclient.grows ?_ t.client hin
      exact fun _ h => nomatch h

theorem careful_of_orderly (hclient : client.KeepsUsers users)
    (hx : Exec client.handle (atStart client calls) s₀ es pool s)
    (horderly : Orderly client users s₀ es) : CarefulRun client users s₀ es := by
  rintro es₁ ⟨i, op, r⟩ es₂ rfl
  unfold Careful
  split
  · rename_i user r' hstep
    obtain rfl : op = .remember user := congrArg Sigma.fst hstep
    obtain ⟨front, r'', mid, rfl, hmid, hanswer⟩ := remembers_added hx
    have hfaithful := (faithful_append.mp hx.faithful).1
    obtain ⟨-, hans, hrest⟩ := faithful_append.mp hfaithful
    have hspared := horderly.turns front i user r'' mid r es₂ (by simp) hmid
    -- the user was there when its call was told so, and nothing has taken it away
    have hadded : user ∈ users
        (client.answer (.userAdd user) (replay client.handle front s₀).client).2 := by
      replace hans : r'' =
          (client.answer (.userAdd user) (replay client.handle front s₀).client).1 := hans
      cases r'' with
      | ok u =>
        rw [hclient.added user _ hans.symm]
        exact Set.mem_insert ..
      | error err =>
        have hthere := horderly.conflicts front i user err
          (mid ++ ⟨i, ⟨.remember user, r⟩⟩ :: es₂) (by simp) (hanswer err rfl)
        refine hclient.grows ?_ _ hthere
        exact fun _ h => nomatch h
    left
    rw [replay_append, replay_cons]
    exact user_stays hclient hrest hspared hadded
  · rename_i user err hstep
    obtain ⟨rfl, hr⟩ := Sigma.mk.inj hstep
    obtain rfl := eq_of_heq hr
    exact fun _ hin => .inl (horderly.deletions es₁ i user err es₂ rfl hin)
  · trivial

/-- Where additions and deletions of a user take turns, and the errors of the client tell
    the truth, the known users exist whenever no call is in flight. -/
theorem exist_of_orderly (hclient : client.KeepsUsers users) (hstart : s₀.knownUsers = [])
    (hx : Exec client.handle (atStart client calls) s₀ es pool s)
    (horderly : Orderly client users s₀ es) (hnone : NoneInFlight es pool) :
    ∀ user ∈ s.knownUsers, user ∈ users s.client :=
  exist_of_careful hclient hstart hx (careful_of_orderly hclient hx horderly) hnone

end

/-! ## Two stale users -/

/-- A Zep of which the users are all that matters. -/
def roster : Client (List String) where
  answer
    | .userAdd user, users =>
      if user ∈ users then (.error (.other "BadRequestError" "user already exists"), users)
      else (.ok (), user :: users)
    | .userDelete user, users =>
      if user ∈ users then (.ok (), users.filter (· ≠ user))
      else (.error (.other "NotFoundError" "user not found"), users)
    | .graphAdd user data, users =>
      if user ∈ users then (.ok { uuid_ := some data }, users)
      else (.error (.other "NotFoundError" "user not found"), users)
    | .graphSearch .., users | .edgesOf .., users | .edgeGet _, users => (.ok none, users)
    | .edgeDelete _, users => (.ok (), users)
  statusCode
    | .other "BadRequestError" _ => some 400
    | .other "NotFoundError" _ => some 404
    | _ => none

/-- The same, but it takes no user. -/
def full : Client (List String) where
  answer
    | .userAdd _, users => (.error (.other "BadRequestError" "too many users"), users)
    | op, users => roster.answer op users
  statusCode := roster.statusCode

theorem roster_keepsUsers : roster.KeepsUsers fun users => { user | user ∈ users } where
  added user s h := by
    simp only [roster] at h ⊢
    split at h
    · cases h
    · rename_i hnew
      rw [if_neg hnew]
      ext user'
      simp
  addRaised user s e h := by
    simp only [roster] at h ⊢
    split at h
    · rename_i hin
      rw [if_pos hin]
      exact .inl rfl
    · cases h
  deleted user s h := by
    simp only [roster] at h ⊢
    split at h
    · rename_i hin
      rw [if_pos hin]
      ext user'
      simp
    · cases h
  deleteRaised user s e h := by
    simp only [roster] at h ⊢
    split at h
    · cases h
    · rename_i hnot
      rw [if_neg hnot]
      exact .inl rfl
  others op s hadd hdelete := by
    cases op with
    | userAdd user => exact absurd rfl (hadd user)
    | userDelete user => exact absurd rfl (hdelete user)
    | graphAdd user data =>
      simp only [roster]
      split <;> rfl
    | graphSearch | edgesOf | edgeGet | edgeDelete => rfl

def someone : Scope := { subject := ⟨"u", u_mustBeReal⟩ }

/-- A write and an erasure of one user. -/
def overlap : Bool → AdapterOp
  | false => .upsert ["fact"] someone
  | true => .deleteScope someone

/-- An adapter that knows no user, at a Zep that has none. -/
def fresh : State (List String) := ⟨[], []⟩

/-- The write by itself. -/
def lone := play roster.handle [(), (), (), ()] (atStart roster fun _ => overlap false) fresh

theorem lone_write_knows_its_user :
    lone.2.2.knownUsers = ["u"] ∧ "u" ∈ lone.2.2.client := by
  have hrun : lone.1 = [⟨(), ⟨.knows "u", .ok false⟩⟩, ⟨(), ⟨.ask (.userAdd "u"), .ok ()⟩⟩,
      ⟨(), ⟨.remember "u", .ok ()⟩⟩,
      ⟨(), ⟨.ask (.graphAdd "u" "fact"), .ok { uuid_ := some "fact" }⟩⟩] := rfl
  have hcareful : CarefulRun roster (fun users => { user | user ∈ users }) fresh lone.1 := by
    intro es₁ e es₂ hes
    rw [hrun] at hes
    rcases es₁ with _ | ⟨e₁, _ | ⟨e₂, _ | ⟨e₃, _ | ⟨e₄, es₁⟩⟩⟩⟩
    · cases hes
      trivial
    · cases hes
      trivial
    · cases hes
      exact .inl (List.mem_singleton_self "u")
    · cases hes
      trivial
    · simp at hes
  have hx : Exec roster.handle (atStart roster fun _ => overlap false) fresh lone.1 lone.2.1
      lone.2.2 := play_exec _ _ fresh
  exact ⟨rfl, (knownUsers_exist_iff roster_keepsUsers rfl hx).2 hcareful lone.1 [] _ _
    (List.append_nil _).symm hx (fun _ => .inr trivial) "u" (List.mem_singleton_self "u")⟩

/-- The user is added for the write, deleted for the erasure and forgotten by it, and only
    then remembered by the write. -/
def overlapping := play roster.handle [false, false, true, true, true, false, false]
  (atStart roster overlap) fresh

/-- The write asks for a user, and is refused. -/
def refused := play full.handle [(), (), (), ()] (atStart full fun _ => overlap false) fresh

theorem stale_user_stays_known :
    (NoneInFlight overlapping.1 overlapping.2.1 ∧
      overlapping.2.2.knownUsers = ["u"] ∧ overlapping.2.2.client = []) ∧
    (NoneInFlight refused.1 refused.2.1 ∧
      refused.2.2.knownUsers = ["u"] ∧ refused.2.2.client = []) := by
  refine ⟨⟨fun i => ?_, rfl, rfl⟩, fun i => .inr trivial, rfl, rfl⟩
  cases i <;> exact .inr trivial

end Memgw.Zep
