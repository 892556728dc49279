import ServiceRegistry.Proofs.Client.Desk

/-! # Static records that should be removed

A publisher asks for the deletion of every static record that should be removed, at the end of each
visit that comes that far. A deletion that is refused leaves its record for a later visit, and the
pass is complete all the same. What happens in the store between any two steps does not matter for
this, and the roster is changed by others in single steps, between any two steps of the client
(`Client.Desk`).

So when a client has nothing left to do and all changes under way have raised the generation, the
records that are still to be removed are of two kinds (`Client.pending_removals_were_refused`). The
deletion of some was asked for in vain by the last pass (`Client.removal_stays_pending`). The others
were overtaken by that pass: when it began their withdrawal had raised the generation and not queued
them yet, so the pass could notice the change and miss the record, and no other pass follows
(`Client.overtaken_removal_is_missed`). This comes of a flaw in the order of the steps of a
withdrawal: the other changes raise the generation last, and no pass overtakes them. -/

namespace ServiceRegistry

namespace Client

open Store Worker
open Roster (Touch Wish)

variable {root : String} {noticed : Nat} {overtaken : Record → Prop}

/-! ### What a pass hears -/

/-- The node of a record should have been deleted, and that failed though the node is not gone. -/
def Refused (root : String) (heard : List Exchange) (r : Record) : Prop :=
  ∃ e : StoreError, ⟨.delete (Path.child root r.nodeName), .error e⟩ ∈ heard ∧ e.isNoNode = false

theorem Refused.append {heard : List Exchange} {r : Record} (h : Refused root heard r)
    (es : List Exchange) : Refused root (heard ++ es) r := by
  obtain ⟨e, he, hgone⟩ := h
  exact ⟨e, List.mem_append_left _ he, hgone⟩

/-- All records that are still to be removed were refused, or they were overtaken. -/
def AreRefused (root : String) (overtaken : Record → Prop) (s : Shared × List Exchange) : Prop :=
  ∀ r ∈ s.1.roster.removals, Refused root s.2 r ∨ overtaken r

/-- A client during a pass, with the calls so far. Others queue no records in its roster except
those that were overtaken. -/
def hearingParty (overtaken : Record → Prop) : Script.Party (Shared × List Exchange) Shared where
  get s := s.1
  set y s := (y, s.2)
  answers s r answer s' := s' = (s.1, s.2 ++ [⟨r, answer⟩])
  drift s s' :=
    (∀ r ∈ s'.1.roster.removals, r ∈ s.1.roster.removals ∨ overtaken r) ∧ s'.2 = s.2
  drift_refl _ := ⟨fun _ => .inl, rfl⟩
  drift_trans h h' := ⟨fun r hr => (h'.1 r hr).elim (h.1 r) .inr, h'.2.trans h.2⟩

theorem AreRefused.drift {s s' : Shared × List Exchange} (h : AreRefused root overtaken s)
    (hdrift : (hearingParty overtaken).drift s s') : AreRefused root overtaken s' := by
  intro r hr
  rw [hdrift.2]
  exact (hdrift.1 r hr).elim (h r) .inr

/-- One step leads where the script leads. -/
theorem leads_hear {α : Type} {post : α → Shared × List Exchange → Prop} {x x' : Script Shared α}
    {id : SessionId} {s s' : Store} {y y' : Shared} {heard : List Exchange} {e : Option Exchange}
    (h : x.Leads (hearingParty overtaken) post (y, heard)) (hstep : x.Step id s y e x' s' y') :
    x'.Leads (hearingParty overtaken) post (y', heard ++ e.toList) := by
  refine h.step hstep rfl rfl (fun r he _ hy => ?_) fun he => ?_
  · rw [he, hy]
    rfl
  · rw [he]
    exact congrArg _ (List.append_nil heard)

/-- The same party, as the publisher sees it. -/
abbrev rosterParty (overtaken : Record → Prop) : Script.Party (Shared × List Exchange) Roster :=
  (hearingParty overtaken).zoom Shared.roster fun roster y => { y with roster }

/-- What should be removed is removed or refused, one record after the other. -/
theorem leads_removeStatic {rs : List Record} {s : Shared × List Exchange}
    (h : ∀ r ∈ s.1.roster.removals, r ∈ rs ∨ Refused root s.2 r ∨ overtaken r) :
    (Publisher.removeStatic root rs).Leads (rosterParty overtaken)
      (fun _ s' => AreRefused root overtaken s') s := by
  induction rs generalizing s with
  | nil =>
      have hrefused : AreRefused root overtaken s := fun r hr =>
        (h r hr).resolve_left List.not_mem_nil
      exact fun s' hdrift => hrefused.drift hdrift
  | cons r rs ih =>
      rintro s' hdrift answer s'' rfl
      let heard := s'.2 ++ [⟨.delete (Path.child root r.nodeName), answer⟩]
      have hrest : ∀ r' ∈ s'.1.roster.removals, r' ≠ r →
          r' ∈ rs ∨ Refused root heard r' ∨ overtaken r' := by
        intro r' hr' hne
        rcases hdrift.1 r' hr' with hbefore | hlate
        · rcases h r' hbefore with hmem | hrefused | hlate
          · exact .inl ((List.mem_cons.mp hmem).resolve_left hne)
          · exact .inr (.inl ((hdrift.2 ▸ hrefused).append _))
          · exact .inr (.inr hlate)
        · exact .inr (.inr hlate)
      -- After an answer that the node is gone now, the record is dropped.
      have hgone : (Script.change (·.unqueue r) (Publisher.removeStatic root rs)).Leads
          (rosterParty overtaken) (fun _ s' => AreRefused root overtaken s') (s'.1, heard) := by
        intro z hz
        refine ih fun r' hr' => ?_
        obtain ⟨hmem, hne⟩ := Roster.mem_drop.mp hr'
        have hheard : z.2 = heard := hz.2
        rcases hz.1 r' hmem with hbefore | hlate
        · exact (hrest r' hbefore hne).imp_right fun h' => hheard ▸ h'
        · exact .inr (.inr hlate)
      cases answer with
      | ok => exact hgone
      | error e =>
          dsimp only
          split
          · exact hgone
          · next hthere =>
            refine ih fun r' hr' => ?_
            by_cases hr : r' = r
            · subst hr
              exact .inr (.inl ⟨e, by simp, by simpa using hthere⟩)
            · exact hrest r' hr' hr

/-- After the nodes were made, a visit that succeeds asks for all removals. -/
theorem leads_afterMaking_removals {p : Publisher} (hp : p.root = root) (gen : Nat)
    (s : Shared × List Exchange) :
    (p.afterMaking gen).Leads (rosterParty overtaken)
      (fun out s' => out.2 = .ok () → AreRefused root overtaken s') s := by
  have hsweep : (Publisher.sweep (p.stale gen) p).Keeps {} fun out => out.1.root = root :=
    (@Publisher.keeps_sweep _ (·.root = root) _ p hp (fun _ _ h => h) fun _ _ => trivial).mono
      fun _ hout => hout.1
  refine Script.leads_bind ((hsweep.leads_ends s).mono ?_)
  rintro ⟨q, result⟩ z hroot
  cases result with
  | error e => exact fun z' _ => nofun
  | ok =>
      intro z' hz
      refine Script.leads_bind ((leads_removeStatic fun r hr => .inl hr).mono ?_)
      intro _ last hlast last' hdrift _
      have hrefused : AreRefused root overtaken last := hroot ▸ hlast
      exact hrefused.drift hdrift

/-- A publisher that succeeds has asked for all removals. -/
theorem leads_publisher_removals {p : Publisher} (hp : p.root = root) (names : List String)
    (id : SessionId) (gen : Nat) (s : Shared × List Exchange) :
    (Visitor.visit (Member.publisher p) names id gen).Leads (hearingParty overtaken)
      (fun out s' => out.2 = .ok () → AreRefused root overtaken s') s := by
  have hvisit : (p.visit names gen).Leads (rosterParty overtaken)
      (fun out s' => out.2 = .ok () → AreRefused root overtaken s') s := by
    intro s' _
    have hmake : (Publisher.makeMissing names gen s'.1.roster.desired p).Keeps {}
        fun out => out.1.root = root :=
      (Publisher.keeps_makeMissing names hp (fun q r _ h => (q.root_confirm r gen).trans h)
        fun _ _ => trivial).mono fun _ hout => hout.1
    refine Script.leads_bind ((hmake.leads_ends s').mono ?_)
    rintro ⟨q, result⟩ z hroot
    cases result with
    | error e => exact fun z' _ => nofun
    | ok => exact leads_afterMaking_removals hroot gen z
  refine Script.leads_bind (Script.leads_zoom (hvisit.mono fun out z hout => ?_))
  exact fun z' hdrift hok => (hout hok).drift hdrift

/-! ### The survey of a client that announces -/

/-- The survey of a client that announces; its publisher has noticed a generation of the roster. -/
def IsAnnouncing (root : String) (noticed : Nat) (t : Survey Member) : Prop :=
  ∃ f p, t.visitors = [.follower f, .publisher p] ∧ p.root = root ∧ p.noticed = noticed

theorem isAnnouncing_survey {client : Client} (h : client.announces = true) :
    IsAnnouncing client.settings.root 0 client.survey := by
  have hpublishes : (client.isWritable && client.settings.announceEnabled) = true := h
  simp only [IsAnnouncing, survey, Survey.make, hpublishes, ↓reduceIte]
  exact ⟨_, _, rfl, rfl, rfl⟩

namespace IsAnnouncing

variable {t : Survey Member}

theorem request (h : IsAnnouncing root noticed t) (y : Shared)
    (hle : noticed ≤ y.roster.generation) (tick generation : Nat) :
    ∃ noticed', noticed' ≤ y.roster.generation ∧
      IsAnnouncing root noticed' (Task.request t y tick generation).1 ∧
      ((Task.request t y tick generation).2 = generation → noticed' = noticed) := by
  obtain ⟨f, p, hvisitors, hroot, hnoticed⟩ := h
  simp only [Task.request, Survey.request]
  split
  · exact ⟨noticed, hle, ⟨f, p, hvisitors, hroot, hnoticed⟩, fun _ => rfl⟩
  · simp only [hvisitors, Survey.requestAll, Visitor.request, Publisher.request]
    split
    · refine ⟨y.roster.generation, Nat.le_refl _, ⟨f, _, rfl, hroot, rfl⟩, fun hsame => ?_⟩
      dsimp only at hsame
      omega
    · exact ⟨noticed, hle, ⟨f, p, rfl, hroot, hnoticed⟩, fun _ => rfl⟩

end IsAnnouncing

/-- What the passes of a client leave as it is. -/
def rosterTerms : Script.Terms Shared where
  changes y y' := y'.roster.generation = y.roster.generation

theorem keeps_any_follower (f : Follower) (names : List String) (id : SessionId) (gen : Nat) :
    (Visitor.visit (Member.follower f) names id gen).Keeps rosterTerms
      fun out => ∃ f', out.1 = .follower f' := by
  refine Script.keeps_bind (Script.keeps_zoom ((Script.keeps_trivial _).mono ?_) ?_ ?_ ?_ ?_)
  · exact fun out _ => ⟨out.1, rfl⟩
  · exact fun _ _ => trivial
  · exact fun _ _ _ _ _ => ⟨trivial, rfl⟩
  · exact fun _ _ => trivial
  · exact fun _ _ _ => trivial

theorem keeps_any_publisher (p : Publisher) (names : List String) (id : SessionId) (gen : Nat) :
    (Visitor.visit (Member.publisher p) names id gen).Keeps rosterTerms
      fun out => ∃ p', out.1 = .publisher p' ∧ p.IsSame p' := by
  let t : Script.Terms Roster :=
    { changes := fun roster roster' => roster'.generation = roster.generation }
  have hvisit : (p.visit names gen).Keeps t fun out => p.IsSame out.1 :=
    Publisher.keeps_visit p.IsSame names gen ⟨rfl, rfl⟩ (fun _ _ q r _ h => h.confirm r gen)
      (fun _ _ h => h) (fun _ _ _ _ => trivial) (fun _ _ _ _ => trivial)
      (fun _ _ _ => ⟨trivial, rfl⟩) fun _ _ _ _ => trivial
  refine Script.keeps_bind (Script.keeps_zoom (hvisit.mono fun out hout => ?_) ?_ ?_ ?_ ?_)
  · exact ⟨out.1, rfl, hout⟩
  · exact fun _ _ => trivial
  · exact fun _ _ _ _ hsame => ⟨trivial, hsame⟩
  · exact fun _ _ => trivial
  · exact fun _ _ _ => trivial

namespace IsAnnouncing

variable {t : Survey Member}

theorem keeps_work (h : IsAnnouncing root noticed t) (id : SessionId) (pass : Pass) :
    (Task.work t id pass).Keeps rosterTerms fun out => IsAnnouncing root noticed out.1 := by
  obtain ⟨f, p, hvisitors, hroot, hnoticed⟩ := h
  refine ⟨trivial, fun answer _ => ?_⟩
  cases answer with
  | error e => exact ⟨f, p, hvisitors, hroot, hnoticed⟩
  | ok names =>
      dsimp only
      rw [hvisitors]
      refine Script.keeps_bind (Script.keeps_bind
        ((keeps_any_follower f names id pass.generation).mono ?_))
      rintro ⟨v, result⟩ ⟨f', rfl⟩
      cases result with
      | error e => exact ⟨f', p, rfl, hroot, hnoticed⟩
      | ok =>
          refine Script.keeps_bind (Script.keeps_bind
            ((keeps_any_publisher p names id pass.generation).mono ?_))
          rintro ⟨v, result⟩ ⟨p', rfl, hsame⟩
          cases result with
          | error e => exact ⟨f', p', rfl, hsame.1.trans hroot, hsame.2.trans hnoticed⟩
          | ok => exact ⟨f', p', rfl, hsame.1.trans hroot, hsame.2.trans hnoticed⟩

/-- A pass that is complete has asked for all removals. -/
theorem leads_work (h : IsAnnouncing root noticed t) (id : SessionId) (pass : Pass)
    (s : Shared × List Exchange) :
    (Task.work t id pass).Leads (hearingParty overtaken)
      (fun out s' => Course.isComplete out.2 = true → AreRefused root overtaken s') s := by
  obtain ⟨f, p, hvisitors, hroot, -⟩ := h
  rintro s' - answer s'' -
  cases answer with
  | error e => exact fun z _ => nofun
  | ok names =>
      dsimp only
      rw [hvisitors]
      refine Script.leads_bind (Script.leads_bind ((Script.leads_trivial _ s'').mono ?_))
      rintro ⟨v, result⟩ z -
      cases result with
      | error e => exact fun z' _ z'' _ => nofun
      | ok =>
          refine Script.leads_bind (Script.leads_bind
            ((leads_publisher_removals hroot names id pass.generation z).mono ?_))
          rintro ⟨v, result⟩ last hlast
          cases result with
          | error e => exact fun z' _ z'' _ => nofun
          | ok =>
              intro z₁ hz₁ z₂ hz₂ z₃ hz₃ _
              exact (((hlast rfl).drift hz₁).drift hz₂).drift hz₃

end IsAnnouncing

/-! ### Runs -/

variable {c d : Client.Course} {b : Desk} {a : Account} {i : Nat} {f : Touch} {left : List Touch}

/-- To queue a record that was overtaken is to drift. -/
theorem drift_queue {r : Record} (hr : overtaken r) (c : Client.Course) (heard : List Exchange) :
    (hearingParty overtaken).drift (c.shared, heard)
      ((withRoster c (·.touch (.queue r))).shared, heard) :=
  ⟨fun x hx => (Roster.mem_removals_queue.mp hx).symm.imp_right
    fun (heq : x = r ∧ r.isStatic = true) => heq.1 ▸ hr, rfl⟩

/-! ### What is known of the removals in the course of a run -/

/-- What is known of the removals in the course of a run. -/
structure Removes (root : String) (noticed : Nat) (b : Desk) : Prop where
  sound : b.course.bench.Sound
  noticed_le : noticed ≤ b.course.shared.roster.generation
  announcing : IsAnnouncing root noticed b.course.bench.worker.task
  keeps : ∀ a x, b.course.bench.underway = some (a, x) →
    x.Keeps rosterTerms fun out => IsAnnouncing root noticed out.1
  calls_suffix : ∀ i, ∃ (w : Wish) (found : List Record), b.calls i <:+ w.steps found
  underway : ∀ a x, b.course.bench.underway = some (a, x) → b.IsNoticed noticed →
    (∀ r, b.IsLate r → b.overtaken a.began r) ∧ x.Leads (hearingParty (b.overtaken a.began))
      (fun out s => Course.isComplete out.2 = true → AreRefused root (b.overtaken a.began) s)
      (b.course.shared, a.heard)
  completed : ∀ a, b.course.bench.completed.head? = some a →
    a.pass.generation = b.course.bench.worker.generation → b.IsNoticed noticed →
      (∀ r, b.IsLate r → b.overtaken a.began r) ∧
        AreRefused root (b.overtaken a.began) (b.course.shared, a.heard)

namespace Removes

theorem start {client : Client} (h : client.announces = true) (s : Store) :
    Removes client.settings.root 0
      { course := Worker.Course.start client.survey s client.shared } where
  sound := .start _
  noticed_le := Nat.zero_le _
  announcing := isAnnouncing_survey h
  keeps _ _ hu := by cases hu
  calls_suffix _ := ⟨.withdrawAll, [], List.nil_suffix⟩
  underway _ _ hu := by cases hu
  completed _ ha := by cases ha

theorem others (h : Removes root noticed b) (s : Store) (catalog : Catalog) :
    Removes root noticed
      { b with course := ⟨b.course.bench, s, { b.course.shared with catalog }⟩ } := by
  have hdrift : ∀ overtaken heard, (hearingParty overtaken).drift (b.course.shared, heard)
      ({ b.course.shared with catalog }, heard) := fun _ _ => ⟨fun _ => .inl, rfl⟩
  refine ⟨h.sound, h.noticed_le, h.announcing, h.keeps, h.calls_suffix,
    fun a x hu hnoticed => ?_, fun a ha hcurrent hnoticed => ?_⟩
  · exact (h.underway a x hu hnoticed).imp_right (·.drift (hdrift _ _))
  · exact (h.completed a ha hcurrent hnoticed).imp_right (·.drift (hdrift _ _))

/-- A change that is begun has yet to raise the generation. -/
theorem call (h : Removes root noticed b) (i : Nat) (w : Wish) (found : List Record) :
    Removes root noticed { b with calls := Function.update b.calls i (w.steps found) } := by
  have hnot : ¬Desk.IsNoticed noticed
      { b with calls := Function.update b.calls i (w.steps found) } := by
    rintro ⟨-, hraised⟩
    have hi : .raise ∉ Function.update b.calls i (w.steps found) i := hraised i
    rw [Function.update_self] at hi
    exact hi (w.raise_mem_steps found)
  refine ⟨h.sound, h.noticed_le, h.announcing, h.keeps, fun j => ?_,
    fun _ _ _ hnoticed => absurd hnoticed hnot, fun _ _ _ hnoticed => absurd hnoticed hnot⟩
  by_cases hj : j = i
  · exact ⟨w, found, by simp [hj]⟩
  · simpa [hj] using h.calls_suffix j

theorem touch (h : Removes root noticed b) (hi : b.calls i = f :: left) :
    Removes root noticed (b.touched i f left) := by
  obtain ⟨w, found, hsuffix⟩ := h.calls_suffix i
  have hle : noticed ≤ (b.course.shared.roster.touch f).generation :=
    Nat.le_trans h.noticed_le (Roster.generation_le_touch f _)
  refine ⟨h.sound, hle, h.announcing, h.keeps, fun j => ?_, fun a x hu hnoticed => ?_,
    fun a ha hcurrent hnoticed => ?_⟩
  · by_cases hj : j = i
    · rw [hi] at hsuffix
      exact ⟨w, found, by simpa [Desk.touched, hj] using (List.suffix_cons f left).trans hsuffix⟩
    · simpa [Desk.touched, hj] using h.calls_suffix j
  · obtain ⟨hbefore, r, rfl, rfl⟩ := hnoticed.of_touched h.noticed_le hi hsuffix
    obtain ⟨hlate, hleads⟩ := h.underway a x hu hbefore
    exact ⟨fun r' hr' => hlate r' hr'.of_touched,
      hleads.drift (drift_queue (hlate r ⟨i, hi⟩) _ _)⟩
  · obtain ⟨hbefore, r, rfl, rfl⟩ := hnoticed.of_touched h.noticed_le hi hsuffix
    obtain ⟨hlate, hrefused⟩ := h.completed a ha hcurrent hbefore
    exact ⟨fun r' hr' => hlate r' hr'.of_touched,
      hrefused.drift (drift_queue (hlate r ⟨i, hi⟩) _ _)⟩

theorem trigger (h : Removes root noticed b) :
    Removes root noticed { b with course := b.course.trigger } := by
  refine ⟨Course.sound_trigger h.sound, h.noticed_le, h.announcing, h.keeps, h.calls_suffix,
    h.underway, fun a ha hcurrent => ?_⟩
  have hle := h.sound.le_generation (List.mem_of_mem_head? ha)
  simp only [Course.trigger, Worker.trigger] at hcurrent
  omega

theorem tick (h : Removes root noticed b) (idle : b.course.bench.IsIdle) :
    ∃ noticed', Removes root noticed' (b.moved b.course.tick) := by
  obtain ⟨noticed', hle, hannouncing, hsame⟩ :=
    request_beginTick (P := IsAnnouncing root) b.course.bench.worker b.course.store h.announcing
      h.noticed_le (h.announcing.request b.course.shared h.noticed_le)
  have hsound : b.course.tick.bench.Sound := Course.sound_tick h.sound
  have hunderway : ∀ a x, b.course.tick.bench.underway = some (a, x) →
      a.heard = [] ∧ x = Task.work b.course.tick.bench.worker.task a.session a.pass ∧
        (b.moved b.course.tick).overtaken a.began = b.IsLate := by
    intro a x hu
    have hbegins : Desk.Begins b.course b.course.tick := ⟨idle.1, by rw [hu]; rfl⟩
    rw [Desk.moved, if_pos hbegins]
    simp only [Course.tick, Option.map_eq_some_iff, Prod.mk.injEq, Prod.exists] at hu
    obtain ⟨id, pass, -, rfl, rfl⟩ := hu
    exact ⟨rfl, rfl, Function.update_self ..⟩
  refine ⟨noticed', hsound, hle, hannouncing, fun a x hu => ?_, h.calls_suffix,
    fun a x hu _ => ?_, fun a ha hcurrent hnoticed => ?_⟩
  · rw [(hunderway a x hu).2.1]
    exact hannouncing.keeps_work a.session a.pass
  · obtain ⟨-, hx, hlate⟩ := hunderway a x hu
    rw [hlate, hx]
    exact ⟨fun _ => id, hannouncing.leads_work a.session a.pass _⟩
  · cases hu : b.course.tick.bench.underway with
    | some u => exact absurd hcurrent (Nat.ne_of_lt (Attends.generation_lt hsound hu ha))
    | none =>
        have hgen := Course.generation_tick h.sound (List.mem_of_mem_head? ha) hcurrent
        obtain rfl := hsame hgen
        have hmoved : b.moved b.course.tick = { b with course := b.course.tick } :=
          Desk.moved_eq fun _ => hu
        rw [hmoved] at hnoticed ⊢
        exact h.completed a ha (hcurrent.trans hgen) hnoticed

theorem work {x x' : Rest} {e : Option Exchange} {s : Store} {y : Shared}
    (h : Removes root noticed b) (hu : b.course.bench.underway = some (a, x))
    (hstep : x.Step a.session b.course.store b.course.shared e x' s y) :
    Removes root noticed
      { b with course := ⟨{ b.course.bench with underway := some (a.hear e, x') }, s, y⟩ } := by
  obtain ⟨hkeeps, -, hchanges⟩ := (h.keeps a x hu).step hstep trivial fun _ _ _ => trivial
  have hgen : y.roster.generation = b.course.shared.roster.generation := by
    rcases hchanges with rfl | hgen
    · rfl
    · exact hgen
  refine ⟨Course.sound_work h.sound e hu, hgen ▸ h.noticed_le, h.announcing, ?_, h.calls_suffix,
    ?_, ?_⟩
  · intro a' x'' hu'
    cases hu'
    exact hkeeps
  · intro a' x'' hu' hnoticed
    cases hu'
    obtain ⟨hlate, hleads⟩ := h.underway a x hu ⟨hnoticed.1.trans hgen, hnoticed.2⟩
    exact ⟨hlate, leads_hear hleads hstep⟩
  · intro a' ha' hcurrent
    exact absurd hcurrent (Nat.ne_of_lt (Attends.generation_lt h.sound hu ha'))

theorem finish {t : Survey Member} {result : Except StoreError Bool} (h : Removes root noticed b)
    (hu : b.course.bench.underway = some (a, .done (t, result))) :
    Removes root noticed { b with course := b.course.finish a t result } := by
  have hgen : (b.course.finish a t result).bench.worker.generation =
      b.course.bench.worker.generation :=
    b.course.bench.worker.endPass_generation b.course.store a.pass t result
  refine ⟨Course.sound_finish h.sound hu, h.noticed_le, ?_, fun _ _ hu' => (nomatch hu'),
    h.calls_suffix, fun _ _ hu' => (nomatch hu'), fun a' ha' hcurrent hnoticed => ?_⟩
  · rw [show (b.course.finish a t result).bench.worker.task = t from endPass_task _ _ _ _ _]
    exact h.keeps a _ hu
  · cases hok : Course.isComplete result with
    | false =>
        have hcompleted : (b.course.finish a t result).bench.completed =
            b.course.bench.completed := if_neg (by simp [hok])
        rw [hcompleted] at ha'
        exact absurd (hcurrent.trans hgen) (Nat.ne_of_lt (Attends.generation_lt h.sound hu ha'))
    | true =>
        have hcompleted : (b.course.finish a t result).bench.completed =
            a :: b.course.bench.completed := if_pos hok
        rw [hcompleted, List.head?_cons, Option.some.injEq] at ha'
        subst ha'
        obtain ⟨hlate, hleads⟩ := h.underway a _ hu hnoticed
        exact ⟨hlate, hleads _ ((hearingParty _).drift_refl _) hok⟩

theorem stop (h : Removes root noticed b) (idle : b.course.bench.IsIdle) :
    Removes root noticed { b with course := b.course.stop } := by
  have hu : b.course.stop.bench.underway = none := idle.1
  have hgen : b.course.stop.bench.worker.generation = b.course.bench.worker.generation :=
    b.course.bench.worker.close_generation b.course.store
  refine ⟨Course.sound_stop h.sound idle, h.noticed_le, ?_, fun a x hu' => ?_, h.calls_suffix,
    fun a x hu' => ?_, fun a ha hcurrent => h.completed a ha (hcurrent.trans hgen)⟩
  · rw [show b.course.stop.bench.worker.task = b.course.bench.worker.task from
      b.course.bench.worker.close_task b.course.store]
    exact h.announcing
  · cases hu.symm.trans hu'
  · cases hu.symm.trans hu'

theorem move (h : Removes root noticed b) (hm : Course.Move b.course d) :
    ∃ noticed', Removes root noticed' (b.moved d) := by
  cases hm with
  | trigger =>
      rw [show b.moved b.course.trigger = _ from Desk.moved_eq fun idle => idle]
      exact ⟨noticed, h.trigger⟩
  | tick idle => exact h.tick idle
  | work underway step =>
      rw [Desk.moved_eq fun idle => nomatch underway.symm.trans idle]
      exact ⟨noticed, h.work underway step⟩
  | finish underway =>
      rw [Desk.moved_eq fun _ => rfl]
      exact ⟨noticed, h.finish underway⟩
  | stop idle =>
      rw [show b.moved b.course.stop = _ from Desk.moved_eq fun idle => idle]
      exact ⟨noticed, h.stop idle⟩

/-- What is known of the removals is known all through a run. -/
theorem of_reachable {client : Client} (hannounces : client.announces = true) {s : Store}
    (h : Desk.Reachable client s b) : ∃ noticed, Removes client.settings.root noticed b := by
  induction h with
  | refl => exact ⟨0, .start hannounces s⟩
  | tail _ step ih =>
      obtain ⟨noticed, h⟩ := ih
      cases step with
      | own move => exact h.move move
      | others s catalog => exact ⟨noticed, h.others s catalog⟩
      | call idle w found => exact ⟨noticed, h.call _ w found⟩
      | touch calls_eq => exact ⟨noticed, h.touch calls_eq⟩

end Removes

/-- A client that has nothing left to do. -/
structure IsResting (c : Client.Course) (id : SessionId) : Prop where
  idle : c.bench.IsIdle
  held : c.bench.worker.session = some id
  connected : c.store.IsConnected id
  inbox_eq : c.store.inbox id = []
  processed_eq : c.bench.worker.processed = c.bench.worker.generation
  noticed_eq : ∀ p, Member.publisher p ∈ c.bench.worker.task.visitors →
    p.noticed = c.shared.roster.generation

instance (c : Client.Course) (id : SessionId) : Decidable (IsResting c id) :=
  decidable_of_iff
    (c.bench.IsIdle ∧ c.bench.worker.session = some id ∧
      (c.store.session? id).any (·.isConnected) = true ∧ c.store.inbox id = [] ∧
      c.bench.worker.processed = c.bench.worker.generation ∧
      ∀ v ∈ c.bench.worker.task.visitors, ∀ p ∈ v.publisher?,
        p.noticed = c.shared.roster.generation)
    (by
      rw [Member.forall_publisher?_iff, Option.any_eq_true]
      constructor
      · rintro ⟨idle, held, connected, inbox_eq, processed_eq, noticed_eq⟩
        exact ⟨idle, held, connected, inbox_eq, processed_eq, noticed_eq⟩
      · rintro ⟨idle, held, connected, inbox_eq, processed_eq, noticed_eq⟩
        exact ⟨idle, held, connected, inbox_eq, processed_eq, noticed_eq⟩)

/-- When a client that announces has nothing left to do and every change under way has raised the
generation, the last completed pass ran for the current generation on the session that is held. A
record that is still to be removed is one whose deletion that pass asked for in vain, or one whose
withdrawal had raised the generation and not queued it yet when that pass began. So none is left if
no deletion failed and no withdrawal was overtaken. -/
theorem pending_removals_were_refused {client : Client} (hannounces : client.announces = true)
    {s : Store} (h : Desk.Reachable client s b) {id : SessionId} (resting : IsResting b.course id)
    (raised : ∀ i, .raise ∉ b.calls i) :
    ∃ a, b.course.bench.completed.head? = some a ∧ a.session = id ∧
      a.pass.generation = b.course.bench.worker.generation ∧
      ∀ r ∈ b.course.shared.roster.removals,
        Refused client.settings.root a.heard r ∨ b.overtaken a.began r := by
  obtain ⟨noticed, hremoves⟩ := Removes.of_reachable hannounces h
  obtain ⟨f, p, hvisitors, -, rfl⟩ := hremoves.announcing
  have hseen := resting.noticed_eq p (by simp [hvisitors])
  obtain ⟨a, ha, hcurrent, hid, -⟩ := hremoves.sound.served resting.processed_eq resting.held
  exact ⟨a, ha, hid, hcurrent, (hremoves.completed a ha hcurrent ⟨hseen, raised⟩).2⟩

/-! ### A deletion that fails -/

/-- A client that may announce, in the directory `/srv`. -/
def writer : Client := .make { enabled := true, root := "/srv" } true

/-- It announces a static record, which has its node after two ticks. -/
def settledWriter : Client.Course :=
  (withRoster (Worker.Course.start writer.survey (({} : Store).put "/srv" []) writer.shared)
    (·.heed (.announce Publisher.queueRecord))).round.round

/-- Then it withdraws the record, and a deletion is to fail. -/
def failingWriter : Client.Course :=
  { withRoster settledWriter (·.heed (.withdraw Publisher.queueRecord)) with
    store := settledWriter.store.failNext .delete (.other "BadVersion") }

/-- So the deletion of the node fails in the next tick. -/
def stuckWriter : Client.Course := failingWriter.round

theorem reachable_settledWriter :
    Desk.Reachable writer (({} : Store).put "/srv" []) { course := settledWriter } := by
  have hstart : Desk.Reachable writer (({} : Store).put "/srv" [])
      { course := .start writer.survey (({} : Store).put "/srv" []) writer.shared } := .refl
  have hannounced := hstart.heed (i := 0) rfl (.announce Publisher.queueRecord)
  have hmade := hannounced.moves_of_idle (Worker.Course.moves_round (by decide +kernel) 0 {})
  exact hmade.moves_of_idle (Worker.Course.moves_round (by decide +kernel) 0 {})

theorem reachable_stuckWriter :
    Desk.Reachable writer (({} : Store).put "/srv" []) { course := stuckWriter } := by
  have hwithdrawn := reachable_settledWriter.heed (i := 0) rfl (.withdraw Publisher.queueRecord)
  dsimp only at hwithdrawn
  have hfails := hwithdrawn.store (settledWriter.store.failNext .delete (.other "BadVersion"))
  have hround := Worker.Course.moves_round (c := failingWriter) (by decide +kernel) 0 {}
  exact hfails.moves_of_idle hround

/-- The record is still to be removed though nothing is left to do, and no pass begins in the next
tick. -/
theorem removal_stays_pending :
    Desk.Reachable writer (({} : Store).put "/srv" []) { course := stuckWriter } ∧
    IsResting stuckWriter 1 ∧ stuckWriter.shared.roster.removals = [Publisher.queueRecord] ∧
    stuckWriter.store.has (Path.child "/srv" Publisher.queueRecord.nodeName) = true ∧
    stuckWriter.tick.bench.underway.isNone = true :=
  ⟨reachable_stuckWriter, by decide +kernel⟩

theorem pending_removals_were_refused_of_failure :
    ∃ a, stuckWriter.bench.completed.head? = some a ∧ a.session = 1 ∧ a.pass.generation = 5 ∧
      Refused "/srv" a.heard Publisher.queueRecord := by
  obtain ⟨hresting, hgen, hpending⟩ : IsResting (Desk.course { course := stuckWriter }) 1 ∧
      stuckWriter.bench.worker.generation = 5 ∧
      Publisher.queueRecord ∈ stuckWriter.shared.roster.removals := by decide +kernel
  obtain ⟨a, ha, hid, hcurrent, hrefused⟩ :=
    pending_removals_were_refused (by decide) reachable_stuckWriter hresting
      fun _ => List.not_mem_nil
  dsimp only at ha hcurrent hrefused
  exact ⟨a, ha, hid, hcurrent.trans hgen, (hrefused _ hpending).resolve_right not_false⟩

/-! ### A removal that is missed -/

/-- A client that has nothing left to do notices nothing of the last step of a withdrawal, though a
static record is to be removed after it. -/
theorem IsResting.queue {id : SessionId} (h : IsResting c id) {r : Record}
    (hs : r.isStatic = true) : IsResting (withRoster c (·.queue r)) id ∧
      r ∈ (withRoster c (·.queue r)).shared.roster.removals :=
  ⟨⟨h.idle, h.held, h.connected, h.inbox_eq, h.processed_eq, h.noticed_eq⟩,
    Roster.mem_removals_queue.mpr (.inl ⟨rfl, hs⟩)⟩

/-- A withdrawal raised the generation, and then the client made a whole pass. -/
def hurriedWriter : Client.Course :=
  (withRoster settledWriter fun t => (t.unwant Publisher.queueRecord).raise).round

/-- At last the withdrawal queues its record. -/
def overtakenWriter : Client.Course := withRoster hurriedWriter (·.queue Publisher.queueRecord)

/-- A withdrawal is overtaken by a pass before its last step. When it is done and nothing is left to
do, the record is still to be removed and its node is there, though no pass asked to delete it, and
no pass begins in the next tick. -/
theorem overtaken_removal_is_missed :
    (∃ overtaken, Desk.Reachable writer (({} : Store).put "/srv" [])
      ⟨overtakenWriter, fun _ => [], overtaken⟩) ∧
    IsResting overtakenWriter 1 ∧
    overtakenWriter.shared.roster.removals = [Publisher.queueRecord] ∧
    overtakenWriter.store.has (Path.child "/srv" Publisher.queueRecord.nodeName) = true ∧
    (∀ a ∈ overtakenWriter.bench.completed, ∀ e ∈ a.heard,
      e.request ≠ .delete (Path.child "/srv" Publisher.queueRecord.nodeName)) ∧
    overtakenWriter.tick.bench.underway.isNone = true := by
  have hresting : IsResting hurriedWriter 1 := by decide +kernel
  have hround := Worker.Course.moves_round (c := withRoster settledWriter fun t =>
    (t.unwant Publisher.queueRecord).raise) (by decide +kernel) 0 {}
  have hdone := reachable_settledWriter.withdraw_around (d := hurriedWriter) (i := 0) rfl
    Publisher.queueRecord
  dsimp only at hdone
  exact ⟨hdone hround, (hresting.queue rfl).1, by decide +kernel⟩

end Client

end ServiceRegistry
