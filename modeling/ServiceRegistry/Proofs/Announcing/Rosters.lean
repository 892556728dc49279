import ServiceRegistry.Proofs.Announcing.Convergence

/-! # What becomes of a roster

A roster is asked for changes while visits of a publisher go on, and a visit drops a static record
once its node is gone. A visit stands still only as long as it waits for the answer to a call, and
what it does to the roster comes at once after an answer (`Script.goOn`), so a change is asked for
before the answer or after it, and never in between. The answers can be any. Every change is made in
one go here; what a client comes to when its single steps take turns with those of others is another
matter (`Roster.touch`).

Whatever happens in this way, the roster can be told from what happened (`rosters_are_consistent`):
a record is desired exactly if it was announced and not withdrawn since, and a record is to be
removed exactly if it is static, was withdrawn, and was not announced since nor cleared by a visit.
A visit clears a record when it asked for the deletion of the record's node as of one that should be
removed, and the node was deleted or found gone. Sweeping may delete the same node for the sake of
another record of that name, which clears nothing. -/

namespace ServiceRegistry

/-! ### Going on -/

namespace Script

variable {σ α : Type}

/-- Go on until there is a call to be answered, with the shared state at hand. -/
def goOn : Script σ α → σ → Script σ α × σ
  | look next, y => (next y).goOn y
  | change f next, y => next.goOn (f y)
  | x, y => (x, y)

end Script

/-! ### The last part of a visit -/

namespace Publisher

/-- What is left of a visit while these records are still to be removed. -/
def removal (p : Publisher) (rs : List Record) :
    Script Roster (Publisher × Except StoreError Unit) :=
  (removeStatic p.root rs).bind fun _ => .done (p, .ok ())

/-- What is left of it once the first deletion is answered. -/
def afterRemoval (p : Publisher) (r : Record) (rs : List Record) :
    Except StoreError Unit → Script Roster (Publisher × Except StoreError Unit)
  | .ok _ => .change (·.unqueue r) (p.removal rs)
  | .error e => if e.isNoNode then .change (·.unqueue r) (p.removal rs) else p.removal rs

theorem removal_cons (p : Publisher) (r : Record) (rs : List Record) : p.removal (r :: rs) =
    .call (.delete (Path.child p.root r.nodeName)) (p.afterRemoval r rs) := by
  refine congrArg (Script.call _) (funext fun answer => ?_)
  cases answer with
  | ok _ => rfl
  | error e =>
      dsimp only [afterRemoval]
      split <;> rfl

/-- The node that was to be deleted is gone: it was deleted, or there was none. -/
def IsCleared (answer : Except StoreError Unit) : Prop :=
  ∀ e, answer = .error e → e.isNoNode = true

/-- The record is dropped if its node is gone, and otherwise it stays. -/
theorem afterRemoval_cases (p : Publisher) (r : Record) (rs : List Record)
    (answer : Except StoreError Unit) :
    (IsCleared answer ∧ p.afterRemoval r rs answer = .change (·.unqueue r) (p.removal rs)) ∨
      (¬IsCleared answer ∧ p.afterRemoval r rs answer = p.removal rs) := by
  cases answer with
  | ok _ => exact .inl ⟨nofun, rfl⟩
  | error e =>
      cases hgone : e.isNoNode with
      | true => exact .inl ⟨fun _ he => by cases he; exact hgone, if_pos hgone⟩
      | false =>
          refine .inr ⟨fun hcleared => ?_, if_neg (by simp [hgone])⟩
          cases hgone.symm.trans (hcleared e rfl)

/-- The script is about to ask for the deletion of a record's node, as the record should be
removed. -/
def IsRemoval (root : String) (r : Record)
    (x : Script Roster (Publisher × Except StoreError Unit)) : Prop :=
  ∃ (p : Publisher) (rs : List Record), p.root = root ∧ x = p.removal (r :: rs)

/-- Which record the next call is to remove, if any. -/
def Concerns (root : String) (x : Script Roster (Publisher × Except StoreError Unit)) :
    Option Record → Prop
  | some r => IsRemoval root r x
  | none => ∀ r, ¬IsRemoval root r x

end Publisher

namespace Roster

open Publisher (IsCleared IsRemoval Concerns)

/-! ### What happens to a roster -/

/-- A change that a roster is asked for. -/
inductive Wish where
  | announce (r : Record)
  | withdraw (r : Record)
  | withdrawAll

/-- The roster after a change that it was asked for. -/
def heed (t : Roster) : Wish → Roster
  | .announce r => t.announce r
  | .withdraw r => t.withdraw r
  | .withdrawAll => t.withdrawAll

/-- A roster is asked for a change, or a call of a visit is answered; `removing` is the record that
the call was to remove, if it was made for that. -/
inductive Event where
  | asked (w : Wish)
  | heard (removing : Option Record) (e : Exchange)

/-- Is it a change that was asked for? -/
def Event.isAsked : Event → Bool
  | asked _ => true
  | heard _ _ => false

/-- A roster and the visit that goes on, if one does. -/
structure Office where
  roster : Roster := {}
  /-- What is left of the visit. -/
  visit : Option (Script Roster (Publisher × Except StoreError Unit)) := none

/-- The visit goes on until its next call. -/
def Office.goOn (o : Office) (x : Script Roster (Publisher × Except StoreError Unit)) : Office where
  roster := (x.goOn o.roster).2
  visit := some (x.goOn o.roster).1

/-- What can happen to a new roster. Its publishers have the same root, and nothing else is known of
them; a visit ends, or it is given up. -/
inductive Office.History (root : String) : List Event → Office → Prop
  | start : History root [] {}
  | ask {es : List Event} {o : Office} (h : History root es o) (w : Wish) :
      History root (es ++ [.asked w]) { o with roster := o.roster.heed w }
  | visit {es : List Event} {o : Office} {p : Publisher} (h : History root es o)
      (idle : o.visit = none) (root_eq : p.root = root) (names : List String) (generation : Nat) :
      History root es (o.goOn (p.visit names generation))
  | answer {es : List Event} {o : Office} {r : Request}
      {next : Except StoreError r.Answer → Script Roster (Publisher × Except StoreError Unit)}
      {removing : Option Record} (h : History root es o) (waits : o.visit = some (.call r next))
      (concerns : Concerns root (.call r next) removing) (answer : Except StoreError r.Answer) :
      History root (es ++ [.heard removing ⟨r, answer⟩]) (o.goOn (next answer))
  | leave {es : List Event} {o : Office} (h : History root es o) :
      History root es { o with visit := none }

/-! ### What was and has been so since -/

/-- Something happened, and nothing since that ends it. What it is may depend on what happened
before. -/
def Since (begins : List Event → Event → Prop) (ends : Event → Prop) (es : List Event) : Prop :=
  ∃ before e later, es = before ++ e :: later ∧ begins before e ∧ ∀ x ∈ later, ¬ends x

section Since

variable {begins : List Event → Event → Prop} {ends : Event → Prop} {es : List Event} {e : Event}

theorem not_since_nil : ¬Since begins ends [] := by
  rintro ⟨before, e, later, hes, -⟩
  simp at hes

theorem since_concat_iff :
    Since begins ends (es ++ [e]) ↔ begins es e ∨ Since begins ends es ∧ ¬ends e := by
  constructor
  · rintro ⟨before, first, later, hes, hbegins, hlater⟩
    rcases List.eq_nil_or_concat' later with rfl | ⟨later, last, rfl⟩
    · obtain ⟨rfl, hsame⟩ := List.append_inj' hes rfl
      cases hsame
      exact .inl hbegins
    · have hcut : es ++ [e] = (before ++ first :: later) ++ [last] := by simpa using hes
      obtain ⟨rfl, hsame⟩ := List.append_inj' hcut rfl
      cases hsame
      have hearlier : ∀ x ∈ later, ¬ends x := fun x hx => hlater x (List.mem_append_left _ hx)
      exact .inr ⟨⟨before, first, later, rfl, hbegins, hearlier⟩, hlater e (by simp)⟩
  · rintro (hbegins | ⟨⟨before, first, later, rfl, hbegins, hlater⟩, hlast⟩)
    · exact ⟨es, e, [], rfl, hbegins, fun x hx => by cases hx⟩
    · refine ⟨before, first, later ++ [e], by simp, hbegins, fun x hx => ?_⟩
      rcases List.mem_append.mp hx with hx | hx
      · exact hlater x hx
      · exact List.mem_singleton.mp hx ▸ hlast

end Since

/-- A record was announced, and neither it nor everything was withdrawn since. -/
def IsWanted (r : Record) (es : List Event) : Prop :=
  Since (fun _ e => e = .asked (.announce r))
    (fun e => e = .asked (.withdraw r) ∨ e = .asked .withdrawAll) es

/-- A record is withdrawn, alone or with all that are wanted. -/
def Withdraws (r : Record) (es : List Event) (e : Event) : Prop :=
  e = .asked (.withdraw r) ∨ e = .asked .withdrawAll ∧ IsWanted r es

/-- The node of a record was to be deleted to remove the record, and it was deleted, or was gone
already. -/
def Clears (root : String) (r : Record) (e : Event) : Prop :=
  ∃ answer, e = .heard (some r) ⟨.delete (Path.child root r.nodeName), answer⟩ ∧ IsCleared answer

/-- A record was withdrawn, and since then it was neither announced nor cleared. -/
def IsOwed (root : String) (r : Record) (es : List Event) : Prop :=
  Since (Withdraws r) (fun e => e = .asked (.announce r) ∨ Clears root r e) es

/-! ### How a visit comes to its removals -/

/-- The script changes nothing before it comes to its removals. -/
def ComesToRemovals (root : String) : Script Roster (Publisher × Except StoreError Unit) → Prop
  | .done _ => True
  | .call r next =>
    (∃ x, IsRemoval root x (.call r next)) ∨ ∀ answer, ComesToRemovals root (next answer)
  | .look next => ∀ t, ComesToRemovals root (next t)
  | .change _ _ => False
  | .clock next => ∀ now, ComesToRemovals root (next now)
  | .fresh next => ∀ id, ComesToRemovals root (next id)
  | .wait _ next => ComesToRemovals root next

section Coming

variable {root : String} {α : Type}

/-- No changes at all. -/
def unchanging : Script.Terms Roster where
  changes _ _ := False

theorem comesToRemovals_bind {ends : α → Prop} {x : Script Roster α}
    {f : α → Script Roster (Publisher × Except StoreError Unit)} (hx : x.Keeps unchanging ends)
    (hf : ∀ a, ends a → ComesToRemovals root (f a)) : ComesToRemovals root (x.bind f) := by
  induction x with
  | done a => exact hf a hx
  | call r next ih => exact .inr fun answer => ih answer (hx.2 answer trivial)
  | look next ih => exact fun t => ih t (hx t trivial)
  | change g next ih => exact (hx.1 {} trivial).2
  | clock next ih => exact fun now => ih now (hx now)
  | fresh next ih => exact fun id => ih id (hx id)
  | wait ms next ih => exact ih hx

theorem comesToRemovals_removal {p : Publisher} (hp : p.root = root) (rs : List Record) :
    ComesToRemovals root (p.removal rs) := by
  cases rs with
  | nil => trivial
  | cons r rs =>
      rw [Publisher.removal_cons]
      exact .inl ⟨r, p, rs, hp, (p.removal_cons r rs).symm⟩

theorem comesToRemovals_afterMaking {p : Publisher} (hp : p.root = root) (generation : Nat) :
    ComesToRemovals root (p.afterMaking generation) := by
  have hsweep : (Publisher.sweep (p.stale generation) p).Keeps unchanging
      fun out => out.1.root = root :=
    (@Publisher.keeps_sweep unchanging (fun _ => True) _ _ trivial (fun _ _ _ => trivial)
      fun _ _ => trivial).mono fun _ hout => hout.2.trans hp
  refine comesToRemovals_bind hsweep fun out hout => ?_
  obtain ⟨q, result⟩ := out
  cases result with
  | error e => trivial
  | ok _ => exact fun t => comesToRemovals_removal hout t.removals

theorem comesToRemovals_visit {p : Publisher} (hp : p.root = root) (names : List String)
    (generation : Nat) : ComesToRemovals root (p.visit names generation) := by
  rw [Publisher.visit_eq]
  intro t
  have hmake : (Publisher.makeMissing names generation t.desired p).Keeps unchanging
      fun out => out.1.root = root :=
    (@Publisher.keeps_makeMissing unchanging (fun _ => True) _ names _ _ trivial
      (fun _ _ _ _ => trivial) fun _ _ => trivial).mono fun _ hout => hout.2.1.trans hp
  refine comesToRemovals_bind hmake fun out hout => ?_
  obtain ⟨q, result⟩ := out
  cases result with
  | error e => trivial
  | ok _ => exact comesToRemovals_afterMaking hout generation

/-- Until then it goes on without a change. -/
theorem goOn_of_comesToRemovals {x : Script Roster (Publisher × Except StoreError Unit)}
    (h : ComesToRemovals root x) (t : Roster) :
    ComesToRemovals root (x.goOn t).1 ∧ (x.goOn t).2 = t := by
  induction x generalizing t with
  | look next ih => exact ih t (h t) t
  | change f next ih => exact h.elim
  | _ => exact ⟨h, rfl⟩

end Coming

/-! ### Changes that were asked for -/

theorem mem_desired_heed {t : Roster} {w : Wish} {r : Record} :
    r ∈ (t.heed w).desired ↔
      w = .announce r ∨ r ∈ t.desired ∧ ¬(w = .withdraw r ∨ w = .withdrawAll) := by
  cases w with
  | announce x => simp [heed, @eq_comm _ r x]
  | withdraw x => simp [heed, @eq_comm _ r x]
  | withdrawAll => simp [heed, Roster.withdrawAll]

theorem mem_removals_heed {t : Roster} {w : Wish} {r : Record} :
    r ∈ (t.heed w).removals ↔
      r.isStatic = true ∧ (w = .withdraw r ∨ w = .withdrawAll ∧ r ∈ t.desired) ∨
        r ∈ t.removals ∧ w ≠ .announce r := by
  cases w with
  | announce x => simp [heed, @eq_comm _ r x]
  | withdraw x =>
      rw [heed, mem_removals_withdraw]
      simp only [Wish.withdraw.injEq, reduceCtorEq, false_and, or_false, ne_eq, not_false_eq_true,
        and_true]
      refine or_congr_left ⟨?_, ?_⟩
      · rintro ⟨rfl, hs⟩
        exact ⟨hs, rfl⟩
      · rintro ⟨hs, rfl⟩
        exact ⟨rfl, hs⟩
  | withdrawAll =>
      rw [heed, mem_removals_withdrawAll]
      simp [and_comm, or_comm]

theorem generation_heed (t : Roster) (w : Wish) : (t.heed w).generation = t.generation + 1 := by
  cases w <;> rfl

theorem IsOrderly.heed {t : Roster} (h : t.IsOrderly fun _ => True) (w : Wish) :
    (t.heed w).IsOrderly fun _ => True := by
  cases w with
  | announce r => exact h.announce trivial
  | withdraw r => exact h.withdraw trivial
  | withdrawAll => exact h.withdrawAll

/-- The same records are desired, and the same are to be removed. -/
structure Agrees (t t' : Roster) : Prop where
  desired_iff : ∀ r, r ∈ t.desired ↔ r ∈ t'.desired
  removals_iff : ∀ r, r ∈ t.removals ↔ r ∈ t'.removals

theorem mem_desired_foldl_withdraw {rs : List Record} {t : Roster} {r : Record} :
    r ∈ (rs.foldl withdraw t).desired ↔ r ∈ t.desired ∧ r ∉ rs := by
  induction rs generalizing t with
  | nil => simp
  | cons r' rs ih =>
      rw [List.foldl_cons, ih, mem_desired_withdraw, List.mem_cons]
      tauto

theorem mem_removals_foldl_withdraw {rs : List Record} {t : Roster} {r : Record} :
    r ∈ (rs.foldl withdraw t).removals ↔ r ∈ t.removals ∨ (r ∈ rs ∧ r.isStatic = true) := by
  induction rs generalizing t with
  | nil => simp
  | cons r' rs ih =>
      rw [List.foldl_cons, ih, mem_removals_withdraw, List.mem_cons]
      constructor
      · rintro ((⟨rfl, hs⟩ | hremoval) | ⟨hmem, hs⟩)
        · exact .inr ⟨.inl rfl, hs⟩
        · exact .inl hremoval
        · exact .inr ⟨.inr hmem, hs⟩
      · rintro (hremoval | ⟨rfl | hmem, hs⟩)
        · exact .inl (.inr hremoval)
        · exact .inl (.inl ⟨rfl, hs⟩)
        · exact .inr ⟨hmem, hs⟩

/-- All records are withdrawn at once as they are one by one. -/
theorem agrees_foldl_withdraw (t : Roster) {rs : List Record} (h : ∀ r, r ∈ rs ↔ r ∈ t.desired) :
    Agrees (rs.foldl withdraw t) t.withdrawAll where
  desired_iff r := by
    rw [mem_desired_foldl_withdraw, h]
    simp [withdrawAll]
  removals_iff r := by rw [mem_removals_foldl_withdraw, mem_removals_withdrawAll, h]

/-! ### What was asked for, and what was heard -/

section Events

variable {root : String} {es : List Event} {w : Wish} {removing : Option Record} {e : Exchange}
  {r x : Record}

theorem isWanted_asked_iff :
    IsWanted r (es ++ [.asked w]) ↔
      w = .announce r ∨ IsWanted r es ∧ ¬(w = .withdraw r ∨ w = .withdrawAll) := by
  rw [IsWanted, since_concat_iff]
  simp only [Event.asked.injEq]
  rfl

theorem isWanted_heard_iff : IsWanted r (es ++ [.heard removing e]) ↔ IsWanted r es := by
  rw [IsWanted, since_concat_iff]
  simp [IsWanted]

theorem isOwed_asked_iff :
    IsOwed root r (es ++ [.asked w]) ↔
      (w = .withdraw r ∨ w = .withdrawAll ∧ IsWanted r es) ∨
        IsOwed root r es ∧ w ≠ .announce r := by
  rw [IsOwed, since_concat_iff]
  simp [IsOwed, Withdraws, Clears]

theorem isOwed_heard_iff :
    IsOwed root r (es ++ [.heard removing e]) ↔
      IsOwed root r es ∧ ¬Clears root r (.heard removing e) := by
  rw [IsOwed, since_concat_iff]
  simp [IsOwed, Withdraws]

theorem not_clears_none : ¬Clears root r (.heard none e) := by
  rintro ⟨answer, heq, -⟩
  cases heq

theorem clears_removal_iff {answer : Except StoreError Unit} :
    Clears root r (.heard (some x) ⟨.delete (Path.child root x.nodeName), answer⟩) ↔
      r = x ∧ IsCleared answer := by
  constructor
  · rintro ⟨answer', heq, hcleared⟩
    cases heq
    exact ⟨rfl, hcleared⟩
  · rintro ⟨rfl, hcleared⟩
    exact ⟨answer, rfl, hcleared⟩

end Events

/-! ### Every history -/

variable {root : String}

/-- What holds of a roster, and of the visit that goes on. -/
structure Office.IsSound (root : String) (es : List Event) (o : Office) : Prop where
  orderly : o.roster.IsOrderly fun _ => True
  generation_eq : o.roster.generation = 1 + es.countP Event.isAsked
  desired_iff : ∀ r, r ∈ o.roster.desired ↔ IsWanted r es
  removals_iff : ∀ r, r ∈ o.roster.removals ↔ r.isStatic = true ∧ IsOwed root r es
  comes : ∀ x ∈ o.visit, ComesToRemovals root x

namespace Office

variable {es : List Event} {o : Office}

theorem isSound_start (root : String) : IsSound root [] {} where
  orderly := ⟨fun _ _ => trivial, fun r hr => by cases hr⟩
  generation_eq := rfl
  desired_iff r := iff_of_false List.not_mem_nil not_since_nil
  removals_iff r := iff_of_false List.not_mem_nil fun h => not_since_nil h.2
  comes x hx := by cases hx

namespace IsSound

theorem ask (h : IsSound root es o) (w : Wish) :
    IsSound root (es ++ [.asked w]) { o with roster := o.roster.heed w } where
  orderly := h.orderly.heed w
  generation_eq := by
    rw [generation_heed, h.generation_eq, List.countP_append]
    rfl
  desired_iff r := by rw [mem_desired_heed, isWanted_asked_iff, h.desired_iff]
  removals_iff r := by
    rw [mem_removals_heed, isOwed_asked_iff, h.desired_iff, h.removals_iff, and_assoc,
      ← and_or_left]
  comes := h.comes

/-- What was heard clears no record, so the roster stays as it is. -/
theorem hear (h : IsSound root es o) {removing : Option Record} {e : Exchange}
    (hkept : ∀ r, ¬Clears root r (.heard removing e)) :
    IsSound root (es ++ [.heard removing e]) o where
  orderly := h.orderly
  generation_eq := by
    rw [h.generation_eq, List.countP_append]
    rfl
  desired_iff r := by rw [isWanted_heard_iff, h.desired_iff]
  removals_iff r := by
    rw [isOwed_heard_iff, h.removals_iff]
    exact and_congr_right fun _ => (and_iff_left (hkept r)).symm
  comes := h.comes

/-- What was heard clears a record, which is dropped. -/
theorem clear (h : IsSound root es o) (x : Record) {answer : Except StoreError Unit}
    (hcleared : IsCleared answer) :
    IsSound root (es ++ [.heard (some x) ⟨.delete (Path.child root x.nodeName), answer⟩])
      { o with roster := o.roster.unqueue x } where
  orderly := h.orderly.unqueue x
  generation_eq := by
    refine h.generation_eq.trans ?_
    rw [List.countP_append]
    rfl
  desired_iff r := by
    rw [isWanted_heard_iff]
    exact h.desired_iff r
  removals_iff r := by
    rw [isOwed_heard_iff, clears_removal_iff, mem_removals_unqueue, h.removals_iff, and_assoc]
    simp [hcleared]
  comes := h.comes

theorem goOn (h : IsSound root es o) {x : Script Roster (Publisher × Except StoreError Unit)}
    (hx : ComesToRemovals root x) : IsSound root es (o.goOn x) := by
  obtain ⟨hcomes, hsame⟩ := goOn_of_comesToRemovals hx o.roster
  have hroster : (o.goOn x).roster = o.roster := hsame
  refine ⟨hroster ▸ h.orderly, hroster ▸ h.generation_eq, hroster ▸ h.desired_iff,
    hroster ▸ h.removals_iff, fun y hy => ?_⟩
  obtain rfl : (x.goOn o.roster).1 = y := Option.some.inj hy
  exact hcomes

theorem leave (h : IsSound root es o) : IsSound root es { o with visit := none } :=
  { h with comes := fun x hx => by cases hx }

/-- A visit goes on after the answer to a call. -/
theorem answer (h : IsSound root es o) {r : Request}
    {next : Except StoreError r.Answer → Script Roster (Publisher × Except StoreError Unit)}
    {removing : Option Record} (waits : o.visit = some (.call r next))
    (concerns : Concerns root (.call r next) removing) (answer : Except StoreError r.Answer) :
    IsSound root (es ++ [.heard removing ⟨r, answer⟩]) (o.goOn (next answer)) := by
  cases removing with
  | none =>
      have hnext : ∀ answer, ComesToRemovals root (next answer) :=
        (h.comes _ waits).resolve_left fun ⟨x, hx⟩ => concerns x hx
      exact (h.hear fun _ => not_clears_none).goOn (hnext answer)
  | some x =>
      obtain ⟨p, rs, rfl, hcall⟩ := concerns
      rw [Publisher.removal_cons] at hcall
      cases hcall
      have hrest := comesToRemovals_removal (rfl : p.root = p.root) rs
      rcases p.afterRemoval_cases x rs answer with ⟨hcleared, hnext⟩ | ⟨hkept, hnext⟩
      · rw [hnext]
        exact (h.clear x hcleared).goOn hrest
      · rw [hnext]
        exact (h.hear fun r hclears => hkept (clears_removal_iff.mp hclears).2).goOn hrest

end IsSound

theorem History.isSound (h : History root es o) : IsSound root es o := by
  induction h with
  | start => exact isSound_start root
  | ask _ w ih => exact ih.ask w
  | visit _ _ root_eq names generation ih =>
      exact ih.goOn (comesToRemovals_visit root_eq names generation)
  | answer _ waits concerns answer ih => exact ih.answer waits concerns answer
  | leave _ ih => exact ih.leave

end Office

/-- A roster can be told from what happened to it. -/
structure IsConsistent (root : String) (es : List Event) (t : Roster) : Prop where
  /-- What should be removed is static, and it is not desired. -/
  removals_static : ∀ r ∈ t.removals, r.isStatic = true ∧ r ∉ t.desired
  /-- The generation counts the changes that were asked for. -/
  generation_eq : t.generation = 1 + es.countP Event.isAsked
  /-- So every further one raises it. -/
  generation_lt : ∀ w, t.generation < (t.heed w).generation
  desired_iff : ∀ r, r ∈ t.desired ↔ IsWanted r es
  /-- A static record that was withdrawn is to be removed until it is announced again, or a visit
  asked to delete its node for that and was answered that it is deleted or was gone; and no other
  record is to be removed. -/
  removals_iff : ∀ r, r ∈ t.removals ↔ r.isStatic = true ∧ IsOwed root r es
  /-- All records are withdrawn at once as they are one by one, in any order. -/
  withdrawAll_agrees : ∀ rs : List Record, (∀ r, r ∈ rs ↔ r ∈ t.desired) →
    Agrees (rs.foldl withdraw t) t.withdrawAll

/-- Whatever changes a roster is asked for, whatever visits are made in between, and whatever these
hear: the roster is consistent with it. -/
theorem rosters_are_consistent {root : String} {es : List Event} {o : Office}
    (h : Office.History root es o) : IsConsistent root es o.roster where
  removals_static r hr := (h.isSound.orderly.removals_static r hr).2
  generation_eq := h.isSound.generation_eq
  generation_lt w := by
    rw [generation_heed]
    exact Nat.lt_succ_self _
  desired_iff := h.isSound.desired_iff
  removals_iff := h.isSound.removals_iff
  withdrawAll_agrees _ := agrees_foldl_withdraw o.roster

/-- The answer to the deletion of the node of a static record, which was to be removed. -/
def removalHeard (answer : Except StoreError Unit) : Event :=
  .heard (some Publisher.queueRecord)
    ⟨.delete (Path.child "/srv" Publisher.queueRecord.nodeName), answer⟩

/-- A static record was announced, all were withdrawn, and the deletion of its node failed. -/
def failedRemoval : List Event :=
  [.asked (.announce Publisher.queueRecord), .asked .withdrawAll,
    removalHeard (.error ⟨.other "BadVersion", "/srv/queue"⟩)]

/-- After the failure the record is still to be removed, and after the next visit it is not. -/
theorem rosters_are_consistent_after_failedRemoval :
    (∃ o, Office.History "/srv" failedRemoval o ∧ IsConsistent "/srv" failedRemoval o.roster ∧
      o.roster.removals = [Publisher.queueRecord]) ∧
    ∃ o, Office.History "/srv" (failedRemoval ++ [removalHeard (.ok ())]) o ∧
      IsConsistent "/srv" (failedRemoval ++ [removalHeard (.ok ())]) o.roster ∧
      o.roster.removals = [] := by
  have hstart : Office.History "/srv" [] {} := .start
  have hannounced := hstart.ask (.announce Publisher.queueRecord)
  have hvisited := (hannounced.ask .withdrawAll).visit (p := { root := "/srv" }) rfl rfl [] 1
  have hfailed := hvisited.answer rfl
    (show Concerns "/srv" _ (some Publisher.queueRecord) from ⟨{ root := "/srv" }, [], rfl, rfl⟩)
    (.error ⟨.other "BadVersion", "/srv/queue"⟩)
  have hagain := hfailed.leave.visit (p := { root := "/srv" }) rfl rfl [] 1
  have hcleared := hagain.answer rfl
    (show Concerns "/srv" _ (some Publisher.queueRecord) from ⟨{ root := "/srv" }, [], rfl, rfl⟩)
    (.ok ())
  exact ⟨⟨_, hfailed, rosters_are_consistent hfailed, rfl⟩,
    ⟨_, hcleared, rosters_are_consistent hcleared, rfl⟩⟩

end Roster

end ServiceRegistry
