import ServiceRegistry.Proofs.Store.Ready

/-! # Calls that fail

A call is refused if its session is not live and connected, it meets an injected failure, or the
tree does not allow it (`Store.Upshot`). In all of these cases it leaves the store as it was, but
for the counter of its kind, and only the second takes an injected failure away. So the failures
injected for a kind of call are those that were returned and then those that still wait, in the
order of their injection. -/

namespace ServiceRegistry

open Store

/-- The kind of a call. The end of a read is none of its own. -/
def Request.call? : Request → Option Call
  | list _ _ => some .children
  | beginRead _ => some .data
  | finishRead _ => none
  | probe _ => some .exists
  | create _ _ _ => some .create
  | delete _ => some .delete

namespace Store

/-! ### Calls among the deeds -/

/-- The kind of call that a deed is, if it is one. -/
def Deed.call? : Deed → Option Call
  | connect => some .connect
  | serve _ r => r.call?
  | _ => none

/-- The failure that a deed injects for a kind of call. -/
def Deed.injects? (c : Call) : Deed → Option StoreError.Code
  | failNext c' code => if c' = c then some code else none
  | _ => none

/-- The error in an answer. -/
def answerError? {α : Type} : Except StoreError α → Option StoreError
  | .ok _ => none
  | .error e => some e

variable (s : Store)

/-- The error that a call is answered with. -/
def error? : Deed → Option StoreError
  | .connect => answerError? s.connect.1
  | .serve id r => answerError? (s.serve id r).1
  | _ => none

/-- Is a call let in? For a call of a session, it must be live and connected. -/
def admits : Deed → Bool
  | .connect => true
  | .serve id _ => (s.session? id).any (·.isConnected)
  | _ => false

/-! ### Injected failures -/

/-- The failures that wait for calls of a kind, the oldest first. -/
def pending (c : Call) : List StoreError.Code := (s.failures.filter (·.1 = c)).map (·.2)

/-- The injected failure that a deed meets if it is a call of the kind. -/
def met? (c : Call) (d : Deed) : Option StoreError.Code :=
  if d.call? = some c ∧ s.admits d = true then (s.pending c).head? else none

/-- The injected failures that calls of a kind meet, one after the other. -/
def returned (c : Call) : Store → List Deed → List StoreError.Code
  | _, [] => []
  | s, d :: ds => (s.met? c d).toList ++ returned c (s.perform d) ds

/-- The failure that waits first, with those before it and after it. -/
structure IsFirst (c : Call) (code : StoreError.Code)
    (pre post fs : List (Call × StoreError.Code)) : Prop where
  failures_eq : fs = pre ++ (c, code) :: post
  first : ∀ f ∈ pre, f.1 ≠ c

theorem takeFailure_cases (c : Call) (fs : List (Call × StoreError.Code)) :
    ((∀ f ∈ fs, f.1 ≠ c) ∧ takeFailure c fs = none) ∨
      ∃ code pre post, IsFirst c code pre post fs ∧
        takeFailure c fs = some (code, pre ++ post) := by
  induction fs with
  | nil => exact .inl ⟨List.forall_mem_nil _, rfl⟩
  | cons f fs ih =>
      by_cases hf : f.1 = c
      · obtain ⟨c', code⟩ := f
        obtain rfl : c' = c := hf
        refine .inr ⟨code, [], fs, ⟨rfl, fun _ h => by cases h⟩, ?_⟩
        rw [takeFailure, if_pos rfl]
        rfl
      · rcases ih with ⟨hnone, htake⟩ | ⟨code, pre, post, ⟨rfl, hfirst⟩, htake⟩
        · refine .inl ⟨List.forall_mem_cons.mpr ⟨hf, hnone⟩, ?_⟩
          rw [takeFailure, if_neg hf, htake]
          rfl
        · refine .inr ⟨code, f :: pre, post, ⟨rfl, List.forall_mem_cons.mpr ⟨hf, hfirst⟩⟩, ?_⟩
          rw [takeFailure, if_neg hf, htake]
          rfl

variable {s} {s' : Store} {c c' : Call} {d : Deed} {e : StoreError}

theorem pending_congr (h : s'.failures = s.failures) (c : Call) : s'.pending c = s.pending c := by
  rw [pending, h, pending]

theorem pending_eq_nil (h : ∀ f ∈ s.failures, f.1 ≠ c) : s.pending c = [] := by
  rw [pending, List.filter_eq_nil_iff.mpr fun f hf => by simpa using h f hf]
  rfl

namespace IsFirst

variable {code : StoreError.Code} {pre post : List (Call × StoreError.Code)}

theorem pending_eq (h : IsFirst c code pre post s.failures) (s' : Store)
    (hs' : s'.failures = pre ++ post) : s.pending c = code :: s'.pending c := by
  have hpre : pre.filter (·.1 = c) = [] :=
    List.filter_eq_nil_iff.mpr fun f hf => by simpa using h.first f hf
  simp [pending, h.failures_eq, hs', List.filter_append, hpre]

theorem pending_of_ne (h : IsFirst c code pre post s.failures) (hs' : s'.failures = pre ++ post)
    (hne : c' ≠ c) : s'.pending c' = s.pending c' := by
  simp [pending, h.failures_eq, hs', List.filter_append, Ne.symm hne]

end IsFirst

/-! ### How a call comes out -/

/-- How a call of a kind comes out, and what it leaves. -/
inductive Upshot (s : Store) (c : Call) (admitted : Bool) : Option StoreError → Store → Prop
  | refused (h : admitted = false) (e : StoreError) : Upshot s c admitted (some e) (s.count c)
  | met (h : admitted = true) {code : StoreError.Code} {pre post : List (Call × StoreError.Code)}
      (first : IsFirst c code pre post s.failures) (path : String) :
      Upshot s c admitted (some ⟨code, path⟩) { s.count c with failures := pre ++ post }
  | failed (h : admitted = true) (unhindered : ∀ f ∈ s.failures, f.1 ≠ c) (e : StoreError) :
      Upshot s c admitted (some e) (s.count c)
  | answered (h : admitted = true) (unhindered : ∀ f ∈ s.failures, f.1 ≠ c) {s' : Store}
      (failures_eq : s'.failures = s.failures) : Upshot s c admitted none s'

/-- What a call is for leaves the injected failures, and the whole store if it fails. -/
def Proper {α : Type} (next : Store → Except StoreError α × Store) : Prop :=
  ∀ s, (∃ e, next s = (.error e, s)) ∨ ∃ a s', next s = (.ok a, s') ∧ s'.failures = s.failures

section Upshots

variable {α : Type} {next : Store → Except StoreError α × Store}

theorem outcome_unlessInjected (s : Store) (c : Call) (path : String) (hnext : Proper next) :
    Upshot s c true (answerError? ((s.count c).unlessInjected c path next).1)
      ((s.count c).unlessInjected c path next).2 := by
  have hfailures : (s.count c).failures = s.failures := rfl
  rw [unlessInjected, hfailures]
  rcases takeFailure_cases c s.failures with ⟨hnone, htake⟩ | ⟨code, pre, post, hfirst, htake⟩
  · rw [htake]
    rcases hnext (s.count c) with ⟨e, hfail⟩ | ⟨a, s', hok, hs'⟩
    · simp only [hfail]
      exact .failed rfl hnone e
    · simp only [hok]
      exact .answered rfl hnone hs'
  · rw [htake]
    exact .met rfl hfirst path

theorem outcome_call (s : Store) (c : Call) (id : SessionId) (path : String)
    (hnext : Proper next) : Upshot s c ((s.session? id).any (·.isConnected))
      (answerError? (s.call c id path next).1) (s.call c id path next).2 := by
  have hsession : (s.count c).session? id = s.session? id := rfl
  unfold call
  dsimp only
  rw [hsession]
  cases s.session? id with
  | none => exact .refused rfl _
  | some session =>
      cases hconnected : session.isConnected with
      | false =>
          simp only [hconnected, Bool.false_eq_true, ↓reduceIte]
          exact .refused (by simp [hconnected]) _
      | true =>
          simp only [hconnected, ↓reduceIte, Option.any_some]
          exact outcome_unlessInjected s c path hnext

end Upshots

theorem outcome_connect (s : Store) :
    Upshot s .connect true (answerError? s.connect.1) s.connect.2 :=
  outcome_unlessInjected s .connect Path.root fun _ => .inr ⟨_, _, rfl, rfl⟩

theorem outcome_serve (s : Store) (id : SessionId) {r : Request} (hc : r.call? = some c) :
    Upshot s c ((s.session? id).any (·.isConnected)) (answerError? (s.serve id r).1)
      (s.serve id r).2 := by
  cases r with
  | list path watching =>
      cases hc
      refine outcome_call s .children id path fun s => ?_
      cases s.has path with
      | false => exact .inl ⟨_, rfl⟩
      | true =>
          cases watching with
          | false => exact .inr ⟨_, _, rfl, rfl⟩
          | true => exact .inr ⟨_, _, rfl, s.failures_watch path id⟩
  | beginRead path =>
      cases hc
      exact outcome_call s .data id path fun _ => .inr ⟨_, _, rfl, rfl⟩
  | finishRead path => cases hc
  | probe path =>
      cases hc
      exact outcome_call s .exists id path fun _ => .inr ⟨_, _, rfl, rfl⟩
  | create path data mode =>
      cases hc
      refine outcome_call s .create id path fun s => ?_
      cases s.has path with
      | true => exact .inl ⟨_, rfl⟩
      | false =>
          cases s.has (Path.parent path) with
          | false => exact .inl ⟨_, rfl⟩
          | true => exact .inr ⟨_, _, rfl, rfl⟩
  | delete path =>
      cases hc
      refine outcome_call s .delete id path fun s => ?_
      cases s.nodes.contains path with
      | false => exact .inl ⟨_, rfl⟩
      | true =>
          cases (s.childPaths path).isEmpty with
          | false => exact .inl ⟨_, rfl⟩
          | true => exact .inr ⟨_, _, rfl, rfl⟩

theorem outcome_of_call? (s : Store) (hc : d.call? = some c) :
    Upshot s c (s.admits d) (s.error? d) (s.perform d) := by
  cases d with
  | connect =>
      cases hc
      exact s.outcome_connect
  | serve id r => exact s.outcome_serve id hc
  | _ => cases hc

/-! ### Failures that wait -/

theorem failures_put (s : Store) (path : String) (data : Bytes) :
    (s.put path data).failures = s.failures := by
  have hensure : ∀ (paths : List String) (s : Store),
      (paths.foldl ensure s).failures = s.failures := by
    intro paths
    induction paths with
    | nil => exact fun _ => rfl
    | cons p paths ih =>
        intro s
        refine (ih (s.ensure p)).trans ?_
        unfold ensure
        split <;> rfl
  refine Eq.trans ?_ (hensure (Path.chain (Path.elements path)) s)
  unfold put
  dsimp only
  split <;> rfl

theorem failures_endSession (s : Store) (id : SessionId) :
    (s.endSession id).failures = s.failures := failures_foldl_drop _ _

theorem failures_setConnected (s : Store) (id : SessionId) (on : Bool) :
    (s.setConnected id on).failures = s.failures := by
  unfold setConnected
  split <;> rfl

/-- Other deeds than calls only add failures. -/
theorem failures_perform_of_not_call (s : Store) (hd : d.call? = none)
    (hf : ∀ call code, d ≠ .failNext call code) : (s.perform d).failures = s.failures := by
  cases d with
  | put path data => exact s.failures_put path data
  | remove path =>
      simp only [perform, remove]
      split <;> rfl
  | failNext call code => exact absurd rfl (hf call code)
  | delayReads ms => rfl
  | connect => cases hd
  | close id =>
      simp only [perform, close]
      split
      · exact s.failures_endSession id
      · rfl
  | expire id =>
      simp only [perform, expire]
      split
      · exact failures_endSession _ id
      · rfl
  | disconnect id => exact s.failures_setConnected id false
  | reconnect id => exact s.failures_setConnected id true
  | serve id r =>
      cases r with
      | finishRead path => rfl
      | _ => cases hd
  | takeEvents id => rfl

namespace Upshot

variable {admitted : Bool} {answer : Option StoreError}

/-- Of the failures for a call that is let in, the oldest goes. -/
theorem pending_eq (h : Upshot s c admitted answer s') :
    s.pending c = (if admitted = true then (s.pending c).head? else none).toList ++
      s'.pending c := by
  cases h with
  | refused hadmitted e =>
      rw [if_neg (by simp [hadmitted])]
      rfl
  | met hadmitted first path =>
      rw [if_pos hadmitted, first.pending_eq { s.count c with failures := _ } rfl]
      rfl
  | failed hadmitted unhindered e =>
      rw [if_pos hadmitted, pending_eq_nil unhindered]
      exact (pending_eq_nil unhindered).symm
  | answered hadmitted unhindered failures_eq =>
      rw [if_pos hadmitted, pending_congr failures_eq, pending_eq_nil unhindered]
      rfl

theorem pending_of_ne (h : Upshot s c admitted answer s') (hne : c' ≠ c) :
    s'.pending c' = s.pending c' := by
  cases h with
  | refused hadmitted e => rfl
  | met hadmitted first path => exact first.pending_of_ne rfl hne
  | failed hadmitted unhindered e => rfl
  | answered hadmitted unhindered failures_eq => exact pending_congr failures_eq c'

end Upshot

/-- One deed: what waits and what it injects are what it returns and what waits then. -/
theorem pending_perform (s : Store) (c : Call) (d : Deed) :
    s.pending c ++ (d.injects? c).toList = (s.met? c d).toList ++ (s.perform d).pending c := by
  cases hd : d.call? with
  | some c' =>
      have hinjects : d.injects? c = none := by
        cases d with
        | failNext call code => cases hd
        | _ => rfl
      have houtcome := s.outcome_of_call? hd
      rw [hinjects, met?, hd]
      by_cases hc : c' = c
      · subst hc
        simpa using houtcome.pending_eq
      · rw [houtcome.pending_of_ne (Ne.symm hc), if_neg fun h => hc (Option.some.inj h.1)]
        simp
  | none =>
      have hmet : s.met? c d = none := if_neg fun h => by simp [hd] at h
      rw [hmet]
      by_cases hf : ∃ call code, d = .failNext call code
      · obtain ⟨call, code, rfl⟩ := hf
        by_cases hc : call = c <;> simp [pending, perform, failNext, Deed.injects?, hc]
      · have hinjects : d.injects? c = none := by
          cases d with
          | failNext call code => exact absurd ⟨call, code, rfl⟩ hf
          | _ => rfl
        have hfailures := s.failures_perform_of_not_call hd fun call code h => hf ⟨call, code, h⟩
        rw [hinjects, pending_congr hfailures]
        simp

/-- Any number of deeds. -/
theorem pending_foldl_perform (s : Store) (c : Call) (ds : List Deed) :
    s.pending c ++ ds.filterMap (·.injects? c) =
      returned c s ds ++ (ds.foldl perform s).pending c := by
  induction ds generalizing s with
  | nil => simp [returned]
  | cons d ds ih =>
      have hinjects : (d :: ds).filterMap (·.injects? c) =
          (d.injects? c).toList ++ ds.filterMap (·.injects? c) := by
        cases h : d.injects? c <;> simp [h]
      calc s.pending c ++ (d :: ds).filterMap (·.injects? c)
        _ = (s.pending c ++ (d.injects? c).toList) ++ ds.filterMap (·.injects? c) := by
            rw [hinjects, List.append_assoc]
        _ = (s.met? c d).toList ++ ((s.perform d).pending c ++ ds.filterMap (·.injects? c)) := by
            rw [pending_perform, List.append_assoc]
        _ = returned c s (d :: ds) ++ ((d :: ds).foldl perform s).pending c := by
            rw [ih, ← List.append_assoc]
            rfl

/-! ### Failed calls -/

/-- A call failed alone: it was counted at most, and at most the oldest failure that was injected
for it was used up, which is then the error; that takes a call that was let in. -/
structure FailsAlone (s : Store) (d : Deed) (e : StoreError) (s' : Store) : Prop
    extends Alike s s' where
  counters_eq : s'.counters = d.call?.elim s.counters s.counters.count
  failures_cases : s'.failures = s.failures ∨ ∃ c pre post, d.call? = some c ∧
    s.admits d = true ∧ IsFirst c e.code pre post s.failures ∧ s'.failures = pre ++ post

theorem Upshot.failsAlone (hd : d.call? = some c)
    (h : Upshot s c (s.admits d) (some e) s') : FailsAlone s d e s' := by
  have hcounters : d.call?.elim s.counters s.counters.count = s.counters.count c := by rw [hd]; rfl
  cases h with
  | refused hadmitted e =>
      exact { alike_count c with counters_eq := hcounters.symm, failures_cases := .inl rfl }
  | @met hadmitted code pre post first path =>
      have hsubset : pre ++ post ⊆ s.failures := by
        rw [first.failures_eq]
        exact List.append_subset.mpr ⟨List.subset_append_left _ _,
          fun _ h => List.mem_append_right _ (List.mem_cons_of_mem _ h)⟩
      exact {
        nodes_eq := rfl
        sessions_eq := rfl
        watches_eq := rfl
        inboxes_eq := rfl
        opened_eq := rfl
        readDelay_eq := rfl
        failures_subset := hsubset
        counters_eq := hcounters.symm
        failures_cases := .inr ⟨c, pre, post, hd, hadmitted, first, rfl⟩ }
  | failed hadmitted unhindered e =>
      exact { alike_count c with counters_eq := hcounters.symm, failures_cases := .inl rfl }

theorem failsAlone_of_error? (h : s.error? d = some e) : FailsAlone s d e (s.perform d) := by
  cases hd : d.call? with
  | some c => exact (h ▸ s.outcome_of_call? hd).failsAlone hd
  | none =>
      -- Only the end of a read fails without being a call of a kind, and it changes nothing.
      have hsame : s.perform d = s := by
        cases d with
        | connect => cases hd
        | serve id r =>
            cases r with
            | finishRead path => rfl
            | _ => cases hd
        | _ => cases h
      rw [hsame]
      exact ⟨⟨rfl, rfl, rfl, rfl, rfl, rfl, fun _ hf => hf⟩, by rw [hd]; rfl, .inl rfl⟩

theorem Upshot.error_of_pending {admitted : Bool} {answer : Option StoreError}
    (h : Upshot s c admitted answer s') (hadmitted : admitted = true) {code : StoreError.Code}
    (hcode : (s.pending c).head? = some code) : ∃ path, answer = some ⟨code, path⟩ := by
  cases h with
  | refused hrefused e => exact Bool.noConfusion (hrefused.symm.trans hadmitted)
  | met _ first path =>
      rw [first.pending_eq { s.count c with failures := _ } rfl] at hcode
      cases hcode
      exact ⟨path, rfl⟩
  | failed _ unhindered e => simp [pending_eq_nil unhindered] at hcode
  | answered _ unhindered failures_eq => simp [pending_eq_nil unhindered] at hcode

theorem error?_of_met? {code : StoreError.Code} (h : s.met? c d = some code) :
    ∃ path, s.error? d = some ⟨code, path⟩ := by
  unfold met? at h
  split at h
  · next hcall => exact (s.outcome_of_call? hcall.1).error_of_pending hcall.2 h
  · cases h

theorem beginRead_of_ok {id : SessionId} {path : String} {delay : Option Nat}
    (h : (s.beginRead id path).1 = .ok delay) : (s.beginRead id path).2 = s.count .data := by
  rcases s.call_cases .data id path _ with ⟨code, s', hfail, -⟩ | ⟨hcall, -⟩
  · rw [beginRead, hfail] at h
    cases h
  · exact congrArg Prod.snd hcall

/-- A call that fails leaves the store as it was, and a read that fails at its end had only been
counted. A call that is let in returns the oldest failure that was injected for its kind, and takes
it away; so, whatever is done to a store, the failures returned and those that wait are those that
waited and those injected, in this order and each once. -/
theorem failed_calls_leave_the_store (s : Store) :
    (∀ d e, s.error? d = some e → FailsAlone s d e (s.perform d)) ∧
    (∀ id path delay, (s.beginRead id path).1 = .ok delay →
      (s.beginRead id path).2 = s.count .data) ∧
    (∀ c d code, s.met? c d = some code → ∃ path, s.error? d = some ⟨code, path⟩) ∧
    ∀ c ds, s.pending c ++ ds.filterMap (·.injects? c) =
      returned c s ds ++ (ds.foldl perform s).pending c :=
  ⟨fun _ _ => failsAlone_of_error?, fun _ _ _ => beginRead_of_ok, fun _ _ _ => error?_of_met?,
    s.pending_foldl_perform⟩

/-- A session over one node, with two failures of its next deletions. -/
def failingStore : Store :=
  (((({} : Store).put "/srv" []).perform .connect).failNext .delete .connectionLoss).failNext
    .delete (.other "Busy")

theorem failed_calls_leave_the_failingStore :
    FailsAlone failingStore (.serve 1 (.delete "/srv")) ⟨.connectionLoss, "/srv"⟩
      (failingStore.perform (.serve 1 (.delete "/srv"))) ∧
    (failingStore.beginRead 1 "/srv").2 = failingStore.count .data ∧
    (∃ path, failingStore.error? (.serve 1 (.delete "/srv")) = some ⟨.connectionLoss, path⟩) ∧
    returned .delete failingStore
      [.serve 1 (.delete "/srv"), .serve 1 (.delete "/srv"), .serve 1 (.delete "/srv")] =
        [.connectionLoss, .other "Busy"] := by
  obtain ⟨hfails, hreads, hmeets, -⟩ := failed_calls_leave_the_store failingStore
  exact ⟨hfails _ _ rfl, hreads 1 "/srv" none rfl, hmeets .delete _ _ rfl, rfl⟩

end Store

end ServiceRegistry
