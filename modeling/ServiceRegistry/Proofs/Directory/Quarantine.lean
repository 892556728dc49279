import ServiceRegistry.Proofs.Directory.Reading
import ServiceRegistry.Proofs.Script.Timed

/-! # Serving a quarantine

A payload that is no record keeps its node from being read for the penalty time, counted from the
moment at which it was found out (`Follower.FailedAt`, `Follower.Serves`). What a visit does to the
times at which quarantines end is `Follower.Sentences`; over any number of visits the times that a
follower remembers agree with what failed so far (`Follower.Remembers`). So a penalty is served to
the end and no longer, whatever happens to the node meanwhile, and is then forgotten
(`Follower.quarantine_is_served_exactly`). -/

namespace ServiceRegistry

namespace Follower

/-! ### Failures and penalties -/

/-- A payload that is not empty and holds no record. -/
def IsBad (data : Bytes) : Prop := data ≠ [] ∧ ∀ fresh r, Record.decode fresh data ≠ .ok r

/-- A node brought a payload at a time that holds no record. -/
def FailedAt (ms : List Moment) (path : String) (t : Nat) : Prop :=
  ∃ data, IsBad data ∧ ⟨⟨.finishRead path, .ok data⟩, t⟩ ∈ ms

/-- A node serves a penalty at a time. -/
def Serves (penalty : Nat) (ms : List Moment) (now : Nat) (path : String) : Prop :=
  ∃ t, FailedAt ms path t ∧ now < t + penalty

/-- The data of a node is asked for. -/
def IsRequested (ms : List Moment) (path : String) : Prop :=
  ∃ m ∈ ms, m.exchange.request = .beginRead path

variable {c c' : Catalog} {f f' : Follower} {ms ms' past : List Moment} {now start stop t : Nat}
  {path : String} {penalty : Nat} {q q' q'' : Dict Nat} {children : List String}
  {result : Except StoreError Unit}

theorem failedAt_append_iff :
    FailedAt (ms ++ ms') path t ↔ FailedAt ms path t ∨ FailedAt ms' path t := by
  simp only [FailedAt, List.mem_append, and_or_left, exists_or]

theorem FailedAt.exists_mem (h : FailedAt ms path t) : ∃ m ∈ ms, m.time = t := by
  obtain ⟨data, -, hmem⟩ := h
  exact ⟨_, hmem, rfl⟩

theorem not_failedAt_nil : ¬FailedAt [] path t := fun ⟨_, _, hmem⟩ => nomatch hmem

theorem failedAt_payload_iff {path' : String} {data : Bytes} :
    FailedAt [⟨⟨.finishRead path, .ok data⟩, now⟩] path' t ↔
      path' = path ∧ t = now ∧ IsBad data := by
  constructor
  · rintro ⟨data', hbad, hmem⟩
    cases List.mem_singleton.mp hmem
    exact ⟨rfl, rfl, hbad⟩
  · rintro ⟨rfl, rfl, hbad⟩
    exact ⟨data, hbad, List.mem_singleton_self _⟩

/-- One attempt to decode a payload tells whether it is bad. -/
theorem isBad_of_decode {data : Bytes} {drawn : InstanceId} {e : Record.DecodeError}
    (hne : data ≠ []) (h : Record.decode drawn data = .error e) : IsBad data := by
  refine ⟨hne, fun fresh r hr => ?_⟩
  obtain ⟨r', hr'⟩ := Record.exists_decode hr drawn
  cases h.symm.trans hr'

theorem isRequested_iff :
    IsRequested ms path ↔ path ∈ (begun (ms.map (·.exchange))).map (·.1) := by
  have hbegun : ∀ e : Exchange, e.begun?.map (·.1) = some path ↔ e.request = .beginRead path := by
    rintro ⟨r, answer⟩
    cases r with
    | beginRead path' => rcases answer with e | _ | ms <;> simp [Exchange.begun?]
    | _ => simp [Exchange.begun?]
  simp only [IsRequested, begun, List.map_filterMap, List.mem_filterMap, List.mem_map, hbegun,
    exists_exists_and_eq_and]

/-! ### Sentences -/

/-- What some answers do to the times at which quarantines end: a node that failed is in quarantine
for the penalty time from its last failure on, and one that did not keeps its time. -/
def Sentences (penalty : Nat) (ms : List Moment) (q q' : Dict Nat) : Prop :=
  ∀ path,
    (∃ last, FailedAt ms path last ∧ (∀ t, FailedAt ms path t → t ≤ last) ∧
      q'.find? path = some (last + penalty)) ∨
    ((∀ t, ¬FailedAt ms path t) ∧ q'.find? path = q.find? path)

theorem Sentences.refl (h : ∀ path t, ¬FailedAt ms path t) : Sentences penalty ms q q :=
  fun path => .inr ⟨h path, rfl⟩

theorem Sentences.nil : Sentences penalty [] q q := .refl fun _ _ => not_failedAt_nil

/-- Later answers overrule earlier ones. -/
theorem Sentences.trans (h : Sentences penalty ms q q') (h' : Sentences penalty ms' q' q'')
    (hle : ∀ m ∈ ms, m.time ≤ now) (hle' : ∀ m ∈ ms', now ≤ m.time) :
    Sentences penalty (ms ++ ms') q q'' := by
  intro path
  rcases h' path with ⟨last, hlast, hmax, hfind'⟩ | ⟨hnone', hfind'⟩
  · refine .inl ⟨last, failedAt_append_iff.mpr (.inr hlast), fun t ht => ?_, hfind'⟩
    rcases failedAt_append_iff.mp ht with ht | ht
    · obtain ⟨m, hm, rfl⟩ := ht.exists_mem
      obtain ⟨m', hm', rfl⟩ := hlast.exists_mem
      exact Nat.le_trans (hle m hm) (hle' m' hm')
    · exact hmax t ht
  · have hfirst : ∀ t, FailedAt (ms ++ ms') path t → FailedAt ms path t :=
      fun t ht => (failedAt_append_iff.mp ht).resolve_right (hnone' t)
    rcases h path with ⟨last, hlast, hmax, hfind⟩ | ⟨hnone, hfind⟩
    · exact .inl ⟨last, failedAt_append_iff.mpr (.inl hlast), fun t ht => hmax t (hfirst t ht),
        hfind'.trans hfind⟩
    · exact .inr ⟨fun t ht => hnone t (hfirst t ht), hfind'.trans hfind⟩

/-- An answer that brings no bad payload changes nothing. -/
theorem Sentences.cons {e : Exchange} (h : Sentences penalty ms q q')
    (he : ∀ path data, IsBad data → e ≠ ⟨.finishRead path, .ok data⟩) :
    Sentences penalty (⟨e, t⟩ :: ms) q q' := by
  have hiff : ∀ path t', FailedAt (⟨e, t⟩ :: ms) path t' ↔ FailedAt ms path t' := by
    refine fun path t' => ⟨?_, fun ⟨data, hbad, hmem⟩ => ⟨data, hbad, List.mem_cons_of_mem _ hmem⟩⟩
    rintro ⟨data, hbad, hmem⟩
    rcases List.mem_cons.mp hmem with hm | hmem
    · cases hm
      exact (he path data hbad rfl).elim
    · exact ⟨data, hbad, hmem⟩
  simpa only [Sentences, hiff] using h

/-- A bad payload puts its node into quarantine. -/
theorem Sentences.of_isBad {data : Bytes} (hbad : IsBad data) (q : Dict Nat) :
    Sentences penalty [⟨⟨.finishRead path, .ok data⟩, now⟩] q (q.insert path (now + penalty)) := by
  intro path'
  rw [Dict.find?_insert]
  by_cases hpath : path = path'
  · subst hpath
    refine .inl ⟨now, failedAt_payload_iff.mpr ⟨rfl, rfl, hbad⟩, fun t ht => ?_, if_pos rfl⟩
    exact Nat.le_of_eq (failedAt_payload_iff.mp ht).2.1
  · exact .inr ⟨fun t ht => hpath (failedAt_payload_iff.mp ht).1.symm, if_neg hpath⟩

theorem sentences_of_reap {data : Bytes} {h h' : Harvest}
    (hpasses : (reap penalty path data h).Passes c now ms h' c' stop) : ms = [] ∧
      Sentences penalty [⟨⟨.finishRead path, .ok data⟩, now⟩] h.quarantine h'.quarantine := by
  have hgood (hdata : ¬IsBad data) (q : Dict Nat) :
      Sentences penalty [⟨⟨.finishRead path, .ok data⟩, now⟩] q q :=
    .refl fun path' t hfailed => hdata (failedAt_payload_iff.mp hfailed).2.2
  unfold reap at hpasses
  split at hpasses
  · next hnil =>
    cases hpasses with
    | done => exact ⟨rfl, hgood (fun hbad => hbad.1 hnil) _⟩
  · next hne =>
    cases hpasses with
    | fresh drawn _ rest =>
        cases hdecode : Record.decode drawn data with
        | ok r =>
            simp only [hdecode] at rest
            cases rest with
            | done => exact ⟨rfl, hgood (fun hbad => hbad.2 drawn r hdecode) _⟩
        | error e =>
            simp only [hdecode] at rest
            cases rest with
            | clock _ rest =>
                cases rest with
                | done => exact ⟨rfl, .of_isBad (isBad_of_decode hne hdecode) _⟩

theorem sentences_of_collect {h h' : Harvest}
    (hpasses : (collect penalty path h).Passes c now ms (h', result) c' stop) :
    Sentences penalty ms h.quarantine h'.quarantine := by
  cases hpasses with
  | call _ _ answer _ rest =>
      cases answer with
      | error e =>
          cases rest with
          | done => exact Sentences.nil.cons fun _ _ _ => nofun
      | ok data =>
          obtain ⟨ms₁, h₁, c₁, between, ms₂, rfl, hreap, hdone⟩ := Script.passes_bind rest
          obtain ⟨rfl, hsentences⟩ := sentences_of_reap hreap
          cases hdone with
          | done => exact hsentences

theorem sentences_of_begin {paths : List String} {slow : List (String × Nat)} {h h' : Harvest}
    {result : Except StoreError (List (String × Nat))}
    (hpasses : (begin' penalty paths slow h).Passes c now ms (h', result) c' stop) :
    Sentences penalty ms h.quarantine h'.quarantine := by
  induction paths generalizing c now ms slow h with
  | nil =>
      cases hpasses with
      | done => exact .nil
  | cons path paths ih =>
      cases hpasses with
      | call _ _ answer _ rest =>
          refine Sentences.cons ?_ fun _ _ _ => nofun
          rcases answer with e | _ | ms
          · dsimp only at rest
            split at rest
            · cases rest with
              | done => exact .nil
            · exact ih rest
          · obtain ⟨ms₁, ⟨h₁, result₁⟩, c₁, between, ms₂, rfl, hfirst, hrest⟩ :=
              Script.passes_bind rest
            refine (sentences_of_collect hfirst).trans ?_ hfirst.time_le hrest.le_time
            cases result₁ with
            | error e =>
                cases hrest with
                | done => exact .nil
            | ok => exact ih hrest
          · exact ih rest

/-- A pause makes no calls. -/
theorem passes_pauseFor {α : Type} {pause : Nat} {x : Script Catalog α} {a : α}
    (h : (Script.pauseFor pause x).Passes c now ms a c' stop) :
    ∃ later, x.Passes c later ms a c' stop := by
  unfold Script.pauseFor at h
  split at h
  · exact ⟨now, h⟩
  · cases h with
    | wait _ _ _ rest => exact ⟨_, rest⟩

theorem sentences_of_finish {slow : List (String × Nat)} {passed : Nat} {h h' : Harvest}
    (hpasses : (f.finish passed slow h).Passes c now ms (h', result) c' stop) :
    Sentences f.penalty ms h.quarantine h'.quarantine := by
  induction slow generalizing c now ms passed h with
  | nil =>
      cases hpasses with
      | done => exact .nil
  | cons next slow ih =>
      unfold finish at hpasses
      split at hpasses
      · obtain ⟨later, hrest⟩ := passes_pauseFor hpasses
        obtain ⟨ms₁, ⟨h₁, result₁⟩, c₁, between, ms₂, rfl, hfirst, hrest⟩ :=
          Script.passes_bind hrest
        refine (sentences_of_collect hfirst).trans ?_ hfirst.time_le hrest.le_time
        cases result₁ with
        | error e =>
            cases hrest with
            | done => exact .nil
        | ok => exact ih hrest
      · obtain ⟨later, hrest⟩ := passes_pauseFor hpasses
        cases hrest with
        | done => exact .nil

/-- What is kept of the quarantine when a visit begins. -/
def serving (f : Follower) (now : Nat) : Dict Nat :=
  f.quarantine.filter fun _ until' => now < until'

theorem find?_serving_eq_some_iff {until' : Nat} : (f.serving now).find? path = some until' ↔
    f.quarantine.find? path = some until' ∧ now < until' := by
  rw [serving, Dict.find?_filter, Option.filter_eq_some_iff, decide_eq_true_eq]

theorem contains_serving (f : Follower) (now : Nat) (path : String) :
    (f.serving now).contains path = f.isQuarantined now path := by
  rw [Dict.contains, serving, Dict.find?_filter, isQuarantined]
  cases f.quarantine.find? path with
  | none => rfl
  | some until' => by_cases hlt : now < until' <;> simp [Option.filter, hlt]

/-- A visit drops the penalties that are served when it begins; what fails in it is put into
quarantine. -/
theorem sentences_of_visitAt
    (hpasses : (f.visitAt start children).Passes c now ms (f', result) c' stop) :
    f'.penalty = f.penalty ∧ Sentences f.penalty ms (f.serving start) f'.quarantine := by
  obtain ⟨ms₁, ⟨h₁, result₁⟩, c₁, between, ms₂, rfl, hbegin, hrest⟩ := Script.passes_bind hpasses
  cases result₁ with
  | error e =>
      cases hrest with
      | done =>
          rw [List.append_nil]
          exact ⟨rfl, sentences_of_begin hbegin⟩
  | ok slow =>
      obtain ⟨ms₃, ⟨h₂, result₂⟩, c₂, between', ms₄, rfl, hfinish, hend⟩ := Script.passes_bind hrest
      have hsentences := (sentences_of_begin hbegin).trans (sentences_of_finish hfinish)
        hbegin.time_le hfinish.le_time
      cases result₂ with
      | error e =>
          cases hend with
          | done =>
              rw [List.append_nil]
              exact ⟨rfl, hsentences⟩
      | ok =>
          cases hend with
          | change _ _ hdone =>
              cases hdone with
              | done =>
                  rw [List.append_nil]
                  exact ⟨rfl, hsentences⟩

/-! ### One visit after another -/

/-- The visits that a follower has made until a time, one after the other, with every answer and its
time, and the follower after them. What is listed at each of them and what the reads bring can be
anything. -/
inductive Rounds : List Moment → Nat → Follower → Prop
  | none {f : Follower} (empty : f.quarantine = .empty) (now : Nat) : Rounds [] now f
  | visit {past ms : List Moment} {now start stop : Nat} {f f' : Follower} {c c' : Catalog}
      {children : List String} {result : Except StoreError Unit} (before : Rounds past now f)
      (le : now ≤ start) (visit : (f.visit children).Passes c start ms (f', result) c' stop) :
      Rounds (past ++ ms) stop f'

/-- The times that a follower remembers agree with what failed so far. -/
structure Remembers (f : Follower) (past : List Moment) (now : Nat) : Prop where
  past_le : ∀ m ∈ past, m.time ≤ now
  /-- Nothing is in quarantine without a reason, or for longer than there is one. -/
  sentenced : ∀ path until', f.quarantine.find? path = some until' →
    ∃ t, FailedAt past path t ∧ until' = t + f.penalty
  /-- No penalty is forgotten before it is served. -/
  kept : ∀ path t, FailedAt past path t → now < t + f.penalty →
    ∃ until', f.quarantine.find? path = some until' ∧ t + f.penalty ≤ until'

theorem Remembers.isQuarantined_iff (h : f.Remembers past now) (le : now ≤ start) :
    f.isQuarantined start path = true ↔ Serves f.penalty past start path := by
  unfold isQuarantined
  constructor
  · intro hquarantined
    split at hquarantined
    · next until' hfind =>
      obtain ⟨t, hfailed, rfl⟩ := h.sentenced path until' hfind
      exact ⟨t, hfailed, of_decide_eq_true hquarantined⟩
    · cases hquarantined
  · rintro ⟨t, hfailed, hlt⟩
    obtain ⟨until', hfind, hle⟩ := h.kept path t hfailed (by omega)
    rw [hfind]
    exact decide_eq_true (by omega)

theorem Remembers.visit (h : f.Remembers past now) (le : now ≤ start)
    (hpasses : (f.visit children).Passes c start ms (f', result) c' stop) :
    f'.Remembers (past ++ ms) stop := by
  have hlong := hpasses.le
  have hafter := hpasses.le_time
  have hbefore := hpasses.time_le
  cases hpasses with
  | clock _ hpasses =>
      obtain ⟨hpenalty, hsentences⟩ := sentences_of_visitAt hpasses
      refine ⟨fun m hm => ?_, fun path until' hfind => ?_, fun path t hfailed hserves => ?_⟩
      · rcases List.mem_append.mp hm with hm | hm
        · have := h.past_le m hm
          omega
        · exact hbefore m hm
      · rw [hpenalty]
        rcases hsentences path with ⟨last, hlast, -, hfind'⟩ | ⟨-, hfind'⟩
        · exact ⟨last, failedAt_append_iff.mpr (.inr hlast),
            Option.some.inj (hfind.symm.trans hfind')⟩
        · rw [hfind'] at hfind
          obtain ⟨t, ht, huntil⟩ := h.sentenced path until' (find?_serving_eq_some_iff.mp hfind).1
          exact ⟨t, failedAt_append_iff.mpr (.inl ht), huntil⟩
      · rw [hpenalty] at hserves ⊢
        rcases hsentences path with ⟨last, hlast, hmax, hfind⟩ | ⟨hnone, hfind⟩
        · -- What fails in the visit fails after all that failed before it.
          refine ⟨_, hfind, Nat.add_le_add_right ?_ _⟩
          rcases failedAt_append_iff.mp hfailed with hfailed | hfailed
          · obtain ⟨m, hm, rfl⟩ := hfailed.exists_mem
            obtain ⟨m', hm', rfl⟩ := hlast.exists_mem
            have := h.past_le m hm
            have := hafter m' hm'
            omega
          · exact hmax t hfailed
        · -- A penalty that is not served at the end was not at the beginning either, so it stays.
          have hearlier := (failedAt_append_iff.mp hfailed).resolve_right (hnone t)
          obtain ⟨until', hfind', hle⟩ := h.kept path t hearlier (by omega)
          exact ⟨until', hfind.trans (find?_serving_eq_some_iff.mpr ⟨hfind', by omega⟩), hle⟩

theorem Rounds.remembers (h : Rounds past now f) : f.Remembers past now := by
  induction h with
  | none empty now =>
      refine ⟨fun m hm => (nomatch hm), fun path until' hfind => ?_, fun path t hfailed => ?_⟩
      · rw [empty, Dict.find?_empty] at hfind
        cases hfind
      · exact (not_failedAt_nil hfailed).elim
  | visit before le visit ih => exact ih.visit le visit

/-- What a visit asks for, among the listed nodes that are not in quarantine. -/
theorem isRequested_of_visit (path : String)
    (hpasses : (f.visit children).Passes c start ms (f', result) c' stop) :
    (IsRequested ms path → path ∈ f.admitted start children) ∧
      (result = .ok () → path ∈ f.admitted start children → IsRequested ms path) := by
  cases hpasses with
  | clock _ hpasses =>
      obtain ⟨hvisits, -⟩ := visits_of_ends hpasses.ends
      rw [isRequested_iff]
      exact ⟨fun hmem => hvisits.begun_prefix.subset hmem,
        fun hok hmem => (hvisits.all hok).1 ▸ hmem⟩

/-- What a visit remembers: what was still in quarantine when it began, and what failed in it. -/
theorem contains_of_visit
    (hpasses : (f.visit children).Passes c start ms (f', result) c' stop) :
    f'.quarantine.contains path = true ↔
      f.isQuarantined start path = true ∨ ∃ t, FailedAt ms path t := by
  cases hpasses with
  | clock _ hpasses =>
      obtain ⟨-, hsentences⟩ := sentences_of_visitAt hpasses
      rcases hsentences path with ⟨last, hlast, -, hfind⟩ | ⟨hnone, hfind⟩
      · simp only [Dict.contains, hfind, Option.isSome_some, true_iff]
        exact .inr ⟨last, hlast⟩
      · rw [or_iff_left (not_exists.mpr hnone), Dict.contains, hfind, ← contains_serving,
          Dict.contains]

/-- A penalty is served exactly. After any visits, with any listings, payloads and failures, a
visit asks for the data of no node that it does not list, and of none of which a payload failed
less than the penalty time before the visit begins. Of all other listed nodes it asks for the data,
unless it is broken off. After the visit, the nodes are remembered that still served a penalty when
it began and those that failed in it, and no others. -/
theorem quarantine_is_served_exactly (hrounds : Rounds past now f) (hle : now ≤ start)
    (hvisit : (f.visit children).Passes c start ms (f', result) c' stop) (path : String) :
    (IsRequested ms path →
      path ∈ children.map (Path.child f.root) ∧ ¬Serves f.penalty past start path) ∧
    (result = .ok () → (IsRequested ms path ↔
      path ∈ children.map (Path.child f.root) ∧ ¬Serves f.penalty past start path)) ∧
    (f'.quarantine.contains path = true ↔
      Serves f.penalty past start path ∨ ∃ t, FailedAt ms path t) := by
  have hremembers := hrounds.remembers
  have hadmitted : path ∈ f.admitted start children ↔
      path ∈ children.map (Path.child f.root) ∧ ¬Serves f.penalty past start path := by
    rw [admitted, List.mem_filter, Bool.not_eq_true', ← Bool.not_eq_true,
      hremembers.isQuarantined_iff hle]
  obtain ⟨hasked, hall⟩ := isRequested_of_visit path hvisit
  refine ⟨fun h => hadmitted.mp (hasked h),
    fun hok => ⟨fun h => hadmitted.mp (hasked h), fun h => hall hok (hadmitted.mpr h)⟩, ?_⟩
  rw [contains_of_visit hvisit, hremembers.isQuarantined_iff hle]

/-! ### A node that is repaired at once -/

/-- A visit to a node in quarantine asks for nothing. -/
theorem passes_visit_of_isQuarantined (f : Follower) (now : Nat) (child : String)
    (h : f.isQuarantined now (Path.child f.root child) = true) :
    (f.visit [child]).Passes c now [] ({ f with quarantine := f.serving now }, .ok ())
      (c.publish f.layout []) now := by
  refine .clock _ ?_
  simp only [visitAt, List.map_cons, List.map_nil, h, Bool.not_true, Bool.false_eq_true,
    not_false_eq_true, List.filter_cons_of_neg, List.filter_nil]
  exact .change _ _ (.done _ _ _)

/-- A visit to a node that is not in quarantine and whose read takes no time. -/
theorem passes_visit_of_reap (f : Follower) (now : Nat) (child : String) {data : Bytes}
    {h : Harvest} (hfree : f.isQuarantined now (Path.child f.root child) = false)
    (hreap : (reap f.penalty (Path.child f.root child) data
      { quarantine := f.serving now }).Passes c now [] h c now) :
    (f.visit [child]).Passes c now
      [⟨⟨.beginRead (Path.child f.root child), .ok none⟩, now⟩,
        ⟨⟨.finishRead (Path.child f.root child), .ok data⟩, now⟩]
      ({ f with quarantine := h.quarantine }, .ok ()) (c.publish f.layout h.records) now := by
  refine .clock _ ?_
  simp only [visitAt, List.map_cons, List.map_nil, hfree, Bool.not_false,
    List.filter_cons_of_pos, List.filter_nil]
  have hcollect : (collect f.penalty (Path.child f.root child)
      { quarantine := f.serving now }).Passes c now
      [⟨⟨.finishRead (Path.child f.root child), .ok data⟩, now⟩] (h, .ok ()) c now := by
    unfold collect
    refine .call (.finishRead _) _ (.ok data) (Nat.le_refl _) ?_
    exact hreap.bind (.done _ _ _)
  have hbegin : (begin' f.penalty [Path.child f.root child] []
      { quarantine := f.serving now }).Passes c now
      [⟨⟨.beginRead (Path.child f.root child), .ok none⟩, now⟩,
        ⟨⟨.finishRead (Path.child f.root child), .ok data⟩, now⟩] (h, .ok []) c now := by
    unfold begin'
    refine .call (.beginRead _) _ (.ok none) (Nat.le_refl _) ?_
    exact hcollect.bind (.done _ _ _)
  exact hbegin.bind (.change _ _ (.done _ _ _))

/-- A text that is no record. -/
def garbage : Bytes := [0x78]

theorem isBad_garbage : IsBad garbage := ⟨by decide, fun _ _ => nofun⟩

/-- The calls of a visit that finds garbage at a node at time 0. -/
def discovery : List Moment :=
  [⟨⟨.beginRead "/services/a", .ok none⟩, 0⟩, ⟨⟨.finishRead "/services/a", .ok garbage⟩, 0⟩]

/-- The follower after that visit. -/
def warned : Follower :=
  { reader with quarantine := Dict.empty.insert "/services/a" 600000 }

theorem discovery_passes : (reader.visit ["a"]).Passes {} 0 discovery (warned, .ok ())
    (Catalog.publish reader.layout {} []) 0 := by
  have hreap : (reap reader.penalty "/services/a" garbage { quarantine := .empty }).Passes {} 0 []
      { quarantine := Dict.empty.insert "/services/a" 600000 } {} 0 :=
    .fresh default _ (.clock _ (.done _ _ _))
  exact passes_visit_of_reap reader 0 "a" rfl hreap

theorem rounds_discovery : Rounds discovery 0 warned :=
  (Rounds.none rfl 0).visit (Nat.le_refl 0) discovery_passes

theorem failedAt_discovery_iff : FailedAt discovery "/services/a" t ↔ t = 0 := by
  constructor
  · intro hfailed
    obtain ⟨m, hm, rfl⟩ := hfailed.exists_mem
    exact Nat.le_zero.mp (discovery_passes.time_le m hm)
  · rintro rfl
    exact ⟨garbage, isBad_garbage, List.mem_cons_of_mem _ (List.mem_singleton_self _)⟩

theorem serves_discovery_iff : Serves 600000 discovery now "/services/a" ↔ now < 600000 := by
  simp [Serves, failedAt_discovery_iff]

/-- Garbage that is replaced at once keeps its node from being read for ten minutes, to the
millisecond. -/
theorem quarantine_is_served_for_ten_minutes :
    ∃ (early late : List Moment) (f₁ f₂ : Follower) (c₁ c₂ : Catalog),
      (warned.visit ["a"]).Passes {} 599999 early (f₁, .ok ()) c₁ 599999 ∧
      ¬IsRequested early "/services/a" ∧ f₁.quarantine.contains "/services/a" = true ∧
      (warned.visit ["a"]).Passes {} 600000 late (f₂, .ok ()) c₂ 600000 ∧
      IsRequested late "/services/a" ∧ f₂.quarantine.contains "/services/a" = false := by
  have hreap : (reap warned.penalty "/services/a" (queueAt "10.0.0.1").encode
      { quarantine := .empty }).Passes {} 600000 []
      { records := [queueAt "10.0.0.1"], quarantine := .empty } {} 600000 := by
    rw [reap_encode]
    exact .fresh default _ (.done _ _ _)
  have hearly := passes_visit_of_isQuarantined (c := {}) warned 599999 "a" rfl
  have hlate := passes_visit_of_reap warned 600000 "a" rfl hreap
  obtain ⟨hasked₁, -, hkept₁⟩ :=
    quarantine_is_served_exactly rounds_discovery (Nat.zero_le 599999) hearly "/services/a"
  obtain ⟨-, hasked₂, hkept₂⟩ :=
    quarantine_is_served_exactly rounds_discovery (Nat.zero_le 600000) hlate "/services/a"
  refine ⟨_, _, _, _, _, _, hearly, ?_, ?_, hlate, ?_, ?_⟩
  · exact fun hasked => (hasked₁ hasked).2 (serves_discovery_iff.mpr (by decide))
  · exact hkept₁.mpr (.inl (serves_discovery_iff.mpr (by decide)))
  · refine (hasked₂ rfl).mpr ⟨List.mem_singleton_self _, fun hserves => ?_⟩
    exact Nat.lt_irrefl _ (serves_discovery_iff.mp hserves)
  · rw [← Bool.not_eq_true, hkept₂]
    rintro (hserves | ⟨t, data, hbad, hmem⟩)
    · exact Nat.lt_irrefl _ (serves_discovery_iff.mp hserves)
    · rcases List.mem_pair.mp hmem with h | h
      · cases h
      · cases h
        exact hbad.2 default _ (Record.decode_encode default _)

end Follower

end ServiceRegistry
