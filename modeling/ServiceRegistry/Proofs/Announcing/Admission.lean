import ServiceRegistry.Proofs.Announcing.Replacement

/-! # Every record is admitted

A node can be made below a directory that is there as long as its name holds no slash. So on a
session that nothing hinders a visit makes all nodes that are missing, whatever else the roster
holds (`Publisher.leads_makeMissing_of_isReady`), and the names of the desired records are listed
afterwards (`Publisher.leads_visit_lists`). What can still break a visit off is a mark whose node
has nodes below it (`Publisher.Blocks`): the sweep passes that failure on. Together they say what a
visit comes to (`Publisher.desired_records_are_listed`). -/

namespace ServiceRegistry

/-! ### Lists of children -/

namespace Store

variable {s s' : Store} {directory name : String}

/-- A name stays on the list if the node stays that puts it there. -/
theorem mem_children_of_kept (h : name ∈ s.children directory)
    (hkept : ∀ path, s.nodes.contains path = true → Path.parent path = directory →
      Path.name path = name → s'.nodes.contains path = true) : name ∈ s'.children directory := by
  obtain ⟨path, hpath, hname⟩ := List.mem_map.mp h
  obtain ⟨hc, hne, hparent⟩ := s.mem_childPaths_iff.mp hpath
  exact List.mem_map.mpr
    ⟨path, s'.mem_childPaths_iff.mpr ⟨hkept path hc hparent hname, hne, hparent⟩, hname⟩

/-- Dropping a node takes no other name off the list. -/
theorem mem_children_drop {other : String} (hd : directory ≠ "") (hne : other ≠ name)
    (h : name ∈ s.children directory) :
    name ∈ (s.drop (Path.child directory other)).children directory := by
  refine mem_children_of_kept h fun path hc hparent hname => ?_
  refine (contains_drop s _).mpr ⟨hc, ?_⟩
  rintro rfl
  rw [Path.name_child directory ((Path.parent_child_eq_iff hd).mp hparent)] at hname
  exact hne hname

end Store

namespace Publisher

open Store

variable {root name : String} {id : SessionId} {generation : Nat} {p : Publisher} {t : Roster}
  {s s' : Store} {r : Record} {rs : List Record} {children names : List String}
  {es : List Exchange}

/-! ### Visits end -/

theorem prompt_makeMissing (children : List String) (generation : Nat) (rs : List Record)
    (p : Publisher) : (makeMissing children generation rs p).Prompt := by
  induction rs generalizing p with
  | nil => trivial
  | cons r rs ih =>
      unfold makeMissing
      dsimp only
      split
      · exact ih _
      · intro answer
        cases answer with
        | ok _ => exact ih _
        | error e =>
            dsimp only
            split
            · exact ih _
            · trivial

theorem prompt_sweep (names : List String) (p : Publisher) : (sweep names p).Prompt := by
  induction names generalizing p with
  | nil => trivial
  | cons name names ih =>
      intro answer
      cases answer with
      | ok _ => exact ih _
      | error e =>
          dsimp only
          split
          · exact ih _
          · trivial

theorem prompt_removeStatic (root : String) (rs : List Record) : (removeStatic root rs).Prompt := by
  induction rs with
  | nil => trivial
  | cons r rs ih =>
      intro answer
      cases answer with
      | ok _ => exact ih
      | error e =>
          dsimp only
          split <;> exact ih

theorem prompt_afterMaking (p : Publisher) (generation : Nat) :
    (p.afterMaking generation).Prompt := by
  refine Script.prompt_bind (prompt_sweep _ _) ?_
  rintro ⟨q, result⟩
  cases result with
  | error e => trivial
  | ok _ => exact fun roster => Script.prompt_bind (prompt_removeStatic _ _) fun _ => trivial

theorem prompt_visit (p : Publisher) (children : List String) (generation : Nat) :
    (p.visit children generation).Prompt := by
  rw [visit_eq]
  refine fun roster => Script.prompt_bind (prompt_makeMissing _ _ _ _) ?_
  rintro ⟨q, result⟩
  cases result with
  | error e => trivial
  | ok _ => exact prompt_afterMaking q generation

/-! ### Making nodes -/

/-- The nodes of the records whose names are not listed were made, and no others. -/
structure Admitted (root : String) (children : List String) (id : SessionId) (t : Roster)
    (rs : List Record) (s : Store) (st : Script.Sitting Roster) : Prop where
  shared_eq : st.shared = t
  ready : st.store.IsReady id
  contains_iff : ∀ path, st.store.nodes.contains path = true ↔ s.nodes.contains path = true ∨
    ∃ r ∈ rs, r.nodeName ∉ children ∧ path = Path.child root r.nodeName

theorem Admitted.cons {st : Script.Sitting Roster} (h : Admitted root children id t rs s' st)
    (hr : ∀ path, s'.nodes.contains path = true ↔ s.nodes.contains path = true ∨
      r.nodeName ∉ children ∧ path = Path.child root r.nodeName) :
    Admitted root children id t (r :: rs) s st := by
  refine ⟨h.shared_eq, h.ready, fun path => ?_⟩
  rw [h.contains_iff, hr, or_assoc]
  simp only [List.mem_cons, exists_eq_or_imp]

theorem leads_makeMissing_of_isReady (h : s.IsReady id) (hp : p.root = root) (hroot : root ≠ "")
    (hthere : s.has root = true) (hplain : ∀ r ∈ rs, r.IsPlain) (children : List String)
    (es : List Exchange) :
    (makeMissing children generation rs p).Leads (Script.Sitting.party id)
      (fun out st => out = (p.confirmAll rs generation, .ok ()) ∧
        Admitted root children id t rs s st) ⟨s, t, es⟩ := by
  induction rs generalizing p s es with
  | nil => exact Script.leads_done ⟨rfl, rfl, h, fun path => by simp⟩
  | cons r rs ih =>
      have hp' : (p.confirm r generation).root = root := (p.root_confirm r generation).trans hp
      have hname := Record.isName_nodeName (hplain r List.mem_cons_self)
      have hrest : ∀ {s' : Store} {es : List Exchange}, s'.IsReady id → s'.has root = true →
          (∀ path, s'.nodes.contains path = true ↔ s.nodes.contains path = true ∨
            r.nodeName ∉ children ∧ path = Path.child root r.nodeName) →
          (makeMissing children generation rs (p.confirm r generation)).Leads
            (Script.Sitting.party id) (fun out st =>
              out = (p.confirmAll (r :: rs) generation, .ok ()) ∧
                Admitted root children id t (r :: rs) s st) ⟨s', t, es⟩ := by
        intro s' es hready hthere' hr
        have hplain' : ∀ r' ∈ rs, r'.IsPlain := fun r' hr' =>
          hplain r' (List.mem_cons_of_mem r hr')
        exact (ih hready hp' hthere' hplain' es).mono fun out st hout => ⟨hout.1, hout.2.cons hr⟩
      unfold makeMissing
      dsimp only
      split
      · next hlisted => exact hrest h hthere fun path => by simp [hlisted]
      · next hmissing =>
        rw [hp']
        refine Script.leads_create_of_isReady h ?_ ?_ ?_
        · intro s' hready ha hhas
          simp only [StoreError.isNodeExists, decide_true, ↓reduceIte]
          rw [s.has_child hroot] at hhas
          refine hrest hready (by rwa [has_congr ha.nodes_eq]) fun path => ?_
          rw [ha.nodes_eq]
          refine (or_iff_left_of_imp ?_).symm
          rintro ⟨-, rfl⟩
          exact hhas
        · intro s' _ _ horphan
          rw [Path.parent_child hroot hname, hthere] at horphan
          cases horphan
        · intro s' hready ha _
          have hthere' : s'.has root = true := by rwa [has_congr ha.nodes_eq]
          refine hrest (hready.grow _ _) ((has_grow _ _ _).mpr (.inl hthere')) fun path => ?_
          rw [contains_grow, ha.nodes_eq, and_iff_right hmissing]

/-! ### Sweeping -/

/-- The node of the mark can be deleted, or is gone: no nodes stand below it. -/
def IsClear (root : String) (s : Store) (name : String) : Prop :=
  s.nodes.contains (Path.child root name) = true → s.childPaths (Path.child root name) = []

/-- Dropping a node clears its own mark, and no other. -/
theorem isClear_drop_iff (hroot : root ≠ "") (hname : Path.IsName name) (ha : Alike s s')
    (hbelow : s.childPaths (Path.child root name) = []) (other : String) :
    IsClear root (s'.drop (Path.child root name)) other ↔ IsClear root s other := by
  have hcontains : ∀ path, (s'.drop (Path.child root name)).nodes.contains path = true ↔
      s.nodes.contains path = true ∧ path ≠ Path.child root name := by
    intro path
    rw [contains_drop, ha.nodes_eq]
  have hnil : (s'.drop (Path.child root name)).childPaths (Path.child root other) = [] ↔
      s.childPaths (Path.child root other) = [] := by
    -- The node that went stood in the directory, not below one of its nodes.
    have hparent : Path.parent (Path.child root name) ≠ Path.child root other := by
      rw [Path.parent_child hroot hname]
      exact (Path.child_ne_self root other).symm
    rw [childPaths_eq_nil_iff, childPaths_eq_nil_iff]
    refine forall_congr' fun path => ?_
    rw [hcontains]
    constructor
    · intro hnone hc hne hp
      exact hnone ⟨hc, fun heq => hparent (heq ▸ hp)⟩ hne hp
    · exact fun hnone hc => hnone hc.1
  rw [IsClear, IsClear, hcontains, hnil]
  constructor
  · intro hclear hthere
    by_cases hself : Path.child root other = Path.child root name
    · rw [hself, hbelow]
    · exact hclear ⟨hthere, hself⟩
  · exact fun hclear hthere => hclear hthere.1

/-- Nodes that were made in the directory stand below none of its nodes. -/
theorem Admitted.isClear_iff {st : Script.Sitting Roster}
    (h : Admitted root children id t rs s st) (hroot : root ≠ "") (hplain : ∀ r ∈ rs, r.IsPlain)
    (name : String) :
    IsClear root st.store name ↔
      (s.nodes.contains (Path.child root name) = true ∨
        ∃ r ∈ rs, r.nodeName = name ∧ name ∉ children) →
      s.childPaths (Path.child root name) = [] := by
  have hmade : (∃ r ∈ rs, r.nodeName ∉ children ∧
        Path.child root name = Path.child root r.nodeName) ↔
      ∃ r ∈ rs, r.nodeName = name ∧ name ∉ children := by
    constructor
    · rintro ⟨r, hr, hmissing, hpath⟩
      obtain rfl := Path.child_injective hpath
      exact ⟨r, hr, rfl, hmissing⟩
    · rintro ⟨r, hr, rfl, hmissing⟩
      exact ⟨r, hr, hmissing, rfl⟩
  have hnil : st.store.childPaths (Path.child root name) = [] ↔
      s.childPaths (Path.child root name) = [] := by
    rw [childPaths_eq_nil_iff, childPaths_eq_nil_iff]
    constructor
    · exact fun hnone path hc => hnone path ((h.contains_iff path).mpr (.inl hc))
    · intro hnone path hc
      rcases (h.contains_iff path).mp hc with hc | ⟨r, hr, -, rfl⟩
      · exact hnone path hc
      · intro _ hparent
        rw [Path.parent_child hroot (Record.isName_nodeName (hplain r hr))] at hparent
        exact Path.child_ne_self root name hparent.symm
  rw [IsClear, h.contains_iff, hmade, hnil]

/-- A sweep comes to its end if all marks are clear. -/
theorem leads_sweep_of_isReady (h : s.IsReady id) (hroot : p.root ≠ "")
    (hnames : ∀ name ∈ names, Path.IsName name) (es : List Exchange) :
    (sweep names p).Leads (Script.Sitting.party id)
      (fun out _ => out.2 = .ok () ↔ ∀ name ∈ names, IsClear p.root s name) ⟨s, t, es⟩ := by
  induction names generalizing p s es with
  | nil => exact Script.leads_done (by simp)
  | cons name names ih =>
      have hname := hnames name List.mem_cons_self
      have hrest : ∀ {s' : Store} {es : List Exchange}, s'.IsReady id → IsClear p.root s name →
          (∀ other, IsClear p.root s' other ↔ IsClear p.root s other) →
          (sweep names { p with confirmed := p.confirmed.erase name }).Leads
            (Script.Sitting.party id) (fun out _ =>
              out.2 = .ok () ↔ ∀ other ∈ name :: names, IsClear p.root s other) ⟨s', t, es⟩ := by
        intro s' es hready hclear hsame
        refine (@ih { p with confirmed := p.confirmed.erase name } s' hready hroot
          (fun other hother => hnames other (List.mem_cons_of_mem name hother)) es).mono
            fun out st hout => hout.trans ?_
        rw [List.forall_mem_cons]
        exact (forall₂_congr fun other _ => hsame other).trans (and_iff_right hclear).symm
      refine Script.leads_delete_of_isReady h ?_ ?_ ?_
      · intro s' hready ha hgone
        simp only [StoreError.isNoNode, decide_true, ↓reduceIte]
        refine hrest hready (fun hthere => ?_) fun other => ?_
        · cases hgone.symm.trans hthere
        · rw [IsClear, IsClear, ha.nodes_eq, ha.childPaths_eq]
      · intro s' hready ha hthere hbelow
        refine Script.leads_done ⟨fun hok => (by cases hok), fun hall => ?_⟩
        exact absurd (hall name List.mem_cons_self hthere) hbelow
      · intro s' hready ha hthere hbelow
        exact hrest (hready.drop _) (fun _ => hbelow) (isClear_drop_iff hroot hname ha hbelow)

theorem leads_afterMaking_of_isReady (h : s.IsReady id) (hroot : p.root ≠ "")
    (hnames : ∀ name ∈ p.stale generation, Path.IsName name) (es : List Exchange) :
    (p.afterMaking generation).Leads (Script.Sitting.party id)
      (fun out _ => out.2 = .ok () ↔ ∀ name ∈ p.stale generation, IsClear p.root s name)
      ⟨s, t, es⟩ := by
  refine Script.leads_bind ((leads_sweep_of_isReady h hroot hnames es).mono ?_)
  rintro ⟨q, result⟩ st hswept
  cases result with
  | error e => exact Script.leads_done hswept
  | ok _ =>
      refine Script.leads_look (Script.leads_bind ?_)
      exact (Script.leads_trivial _ _).mono fun _ _ _ => Script.leads_done hswept

/-- What comes after making takes no name off the list but those of stale marks and removals. -/
theorem leads_afterMaking_lists (hroot : p.root ≠ "") (hlisted : name ∈ s.children p.root)
    (hstale : name ∉ p.stale generation) (hremovals : ∀ r ∈ t.removals, r.nodeName ≠ name)
    (es : List Exchange) :
    (p.afterMaking generation).Leads (Script.Sitting.party id)
      (fun _ st => name ∈ st.store.children p.root) ⟨s, t, es⟩ := by
  let terms : Script.Terms Roster :=
    { shared := fun x => ∀ r ∈ x.removals, r.nodeName ≠ name
      asks := fun r => ∃ other, other ≠ name ∧ r = .delete (Path.child p.root other) }
  have hkeeps : (p.afterMaking generation).Keeps terms fun _ => True := by
    refine keeps_afterMaking (fun _ => True) generation trivial (fun _ _ h => h) ?_ ?_ ?_
    · exact fun other hother => ⟨other, fun heq => hstale (heq ▸ hother), rfl⟩
    · exact fun roster r h =>
        ⟨fun r' hr' => h r' (Roster.mem_drop.mp hr').1, trivial⟩
    · exact fun roster h r hr => ⟨r.nodeName, h r hr, rfl⟩
  refine (hkeeps.leads (fun st => terms.shared st.shared ∧ name ∈ st.store.children p.root)
    (fun _ h => h.1) ?_ ?_ (fun st y h hy => ⟨hy, h.2⟩) ⟨hremovals, hlisted⟩).mono
      fun _ _ h => h.2.2
  · rintro st _ h rfl
    exact h
  · rintro st r answer - ⟨hshared, hthere⟩ ⟨other, hne, rfl⟩ ⟨rfl, rfl⟩
    refine ⟨trivial, hshared, ?_⟩
    rcases st.store.delete_cases id (Path.child p.root other) with
      ⟨code, s', hdelete, ha, -⟩ | ⟨s', hdelete, ha, -⟩
    · rw [serve, hdelete]
      rwa [ha.children_eq]
    · rw [serve, hdelete]
      refine mem_children_drop hroot hne ?_
      rwa [ha.children_eq]

/-! ### A whole visit -/

/-- A mark that a visit can not sweep: its node is there or made by the visit, and has nodes below
it. -/
structure Blocks (p : Publisher) (t : Roster) (generation : Nat) (s : Store) (name : String) :
    Prop where
  stale : name ∈ (p.confirmAll t.desired generation).stale generation
  there : s.nodes.contains (Path.child p.root name) = true ∨
    ∃ r ∈ t.desired, r.nodeName = name ∧ name ∉ s.children p.root
  below : s.childPaths (Path.child p.root name) ≠ []

section Visiting

variable (h : s.IsReady id) (hroot : p.root ≠ "") (hthere : s.has p.root = true)
  (hplain : ∀ r ∈ t.desired, r.IsPlain)
include h hroot hthere hplain

theorem leads_visit_lists (hr : r ∈ t.desired) (hclash : ¬Clashes p t generation r) :
    (p.visit (s.children p.root) generation).Leads (Script.Sitting.party id)
      (fun _ st => r.nodeName ∈ st.store.children p.root) ⟨s, t, []⟩ := by
  have hname := Record.isName_nodeName (hplain r hr)
  have hroot' := p.root_confirmAll t.desired generation
  rw [clashes_iff_mem_doomed, doomed, List.mem_append, not_or] at hclash
  refine Script.leads_look (Script.leads_bind ((leads_makeMissing_of_isReady h rfl hroot hthere
    hplain (s.children p.root) []).mono ?_))
  rintro _ ⟨s', t', es'⟩ ⟨rfl, hadmitted⟩
  obtain rfl : t' = t := hadmitted.shared_eq
  have hlisted : r.nodeName ∈ s'.children p.root := by
    by_cases hbefore : r.nodeName ∈ s.children p.root
    · exact mem_children_of_kept hbefore fun path hc _ _ =>
        (hadmitted.contains_iff path).mpr (.inl hc)
    · refine s'.mem_children_of_contains hroot hname ?_
      exact (hadmitted.contains_iff _).mpr (.inr ⟨r, hr, hbefore, rfl⟩)
  have hremovals : ∀ r' ∈ t'.removals, r'.nodeName ≠ r.nodeName := fun r' hr' heq =>
    hclash.2 (List.mem_map.mpr ⟨r', hr', heq⟩)
  have hafter : ((p.confirmAll t'.desired generation).afterMaking generation).Leads
      (Script.Sitting.party id) (fun _ st => r.nodeName ∈
        st.store.children (p.confirmAll t'.desired generation).root) ⟨s', t', es'⟩ :=
    leads_afterMaking_lists (hroot' ▸ hroot) (hroot' ▸ hlisted) hclash.1 hremovals es'
  rw [hroot'] at hafter
  exact hafter

theorem leads_visit_of_isReady
    (hmarks : ∀ name seen, p.confirmed.find? name = some seen → Path.IsName name) :
    (p.visit (s.children p.root) generation).Leads (Script.Sitting.party id)
      (fun out _ => out.2 = .ok () ↔ ∀ name, ¬Blocks p t generation s name) ⟨s, t, []⟩ := by
  have hroot' := p.root_confirmAll t.desired generation
  have hnames : ∀ name ∈ (p.confirmAll t.desired generation).stale generation,
      Path.IsName name := by
    intro name hname
    obtain ⟨seen, hseen, -⟩ := mem_stale_confirmAll_iff.mp hname
    exact hmarks name seen hseen
  refine Script.leads_look (Script.leads_bind ((leads_makeMissing_of_isReady h rfl hroot hthere
    hplain (s.children p.root) []).mono ?_))
  rintro _ ⟨s', t', es'⟩ ⟨rfl, hadmitted⟩
  obtain rfl : t' = t := hadmitted.shared_eq
  have hafter :=
    @leads_afterMaking_of_isReady _ _ _ t' _ hadmitted.ready (hroot' ▸ hroot) hnames es'
  refine hafter.mono fun out st hout => hout.trans ?_
  rw [hroot']
  have hclear := hadmitted.isClear_iff hroot hplain
  constructor
  · intro hall name hblocks
    exact hblocks.below ((hclear name).mp (hall name hblocks.stale) hblocks.there)
  · intro hnone name hname
    refine (hclear name).mpr fun hmarked => ?_
    by_contra hbelow
    exact hnone name ⟨hname, hmarked, hbelow⟩

/-- With nothing in between, a visit of the present children ends. However it ends, the desired
records that clash with nothing are listed; and it succeeds exactly if no mark blocks its sweep. -/
theorem desired_records_are_listed (now : Nat) (ids : IdSource) :
    ∃ p' result scene, (p.visit (s.children p.root) generation).run id now ⟨s, t, ids⟩ =
        (.finished (p', result), scene) ∧
      (∀ r ∈ t.desired, ¬Clashes p t generation r →
        r.nodeName ∈ scene.store.children p.root) ∧
      ((∀ name seen, p.confirmed.find? name = some seen → Path.IsName name) →
        (result = .ok () ↔ ∀ name, ¬Blocks p t generation s name)) := by
  obtain ⟨⟨p', result⟩, scene, hrun⟩ :=
    (prompt_visit p (s.children p.root) generation).exists_run id now ⟨s, t, ids⟩
  refine ⟨p', result, scene, hrun, fun r hr hclash => ?_, fun hmarks => ?_⟩
  · exact Script.leads_run (leads_visit_lists h hroot hthere hplain hr hclash) hrun
  · exact Script.leads_run (leads_visit_of_isReady h hroot hthere hplain hmarks) hrun

end Visiting

/-- Nothing was confirmed before, so nothing clashes or blocks. -/
theorem desired_records_are_listed_of_two :
    let c := announcedSeason
    ∃ p' scene, (c.publisher.visit (c.store.children "/srv") 1).run 1 0 ⟨c.store, c.roster, {}⟩ =
        (.finished (p', .ok ()), scene) ∧
      webRecord.nodeName ∈ scene.store.children "/srv" ∧
      queueRecord.nodeName ∈ scene.store.children "/srv" := by
  intro c
  have hready : c.store.IsReady 1 := ⟨⟨⟨1, true⟩, rfl, rfl⟩, by decide⟩
  have hused : ∀ r ∈ c.roster.desired, r = webRecord ∨ r = queueRecord := by decide
  have hstale : (c.publisher.confirmAll c.roster.desired 1).stale 1 = [] := by decide
  have hdoomed : c.publisher.doomed c.roster 1 = [] := by decide
  have hclash : ∀ r, ¬Clashes c.publisher c.roster 1 r := fun r hr => by
    rw [clashes_iff_mem_doomed, hdoomed] at hr
    exact List.not_mem_nil hr
  have hadmits := @desired_records_are_listed 1 1 c.publisher c.roster c.store hready
    (by decide) (by decide) fun r hr => distinct_isWebOrQueue.plain r (hused r hr)
  obtain ⟨p', result, scene, hrun, hlisted, hresult⟩ := hadmits 0 {}
  have hok : result = .ok () := by
    refine (hresult fun name seen hseen => by cases hseen).mpr fun name hblocks => ?_
    have hname := hblocks.stale
    rw [hstale] at hname
    exact List.not_mem_nil hname
  subst hok
  exact ⟨p', scene, hrun, hlisted _ (by decide) (hclash _), hlisted _ (by decide) (hclash _)⟩

/-- An instance whose name holds a slash. -/
def apiRecord : Record := ⟨"web/api", none, .ofDigits [], .empty, false, by decide⟩

/-- A store with a directory and a session, and a node below that of an instance. -/
def lockedStore : Store :=
  announcedSeason.store.put (Path.child (Path.child "/srv" webRecord.nodeName) "lock") []

/-- A store with a session and a node at the empty path. -/
def emptyPathStore : Store := (announcedSeason.store.create 1 "" [] .persistent).2

/-- A visit is broken off where nodes stand below the one of a stale mark, and where the name of a
record holds a slash; and what is announced below the empty path is not listed there. -/
theorem some_records_are_not_listed :
    (∃ p' scene, (visit { root := "/srv", confirmed := Dict.empty.insert webRecord.nodeName 1 }
        (lockedStore.children "/srv") 2).run 1 0
          ⟨lockedStore, ({} : Roster).announce queueRecord, {}⟩ =
      (.finished (p', .error ⟨.other "NotEmpty", Path.child "/srv" webRecord.nodeName⟩), scene)) ∧
    (∃ p' scene, (visit { root := "/srv" } (announcedSeason.store.children "/srv") 1).run 1 0
          ⟨announcedSeason.store, ({} : Roster).announce apiRecord, {}⟩ =
      (.finished (p', .error ⟨.noNode, Path.child "/srv" apiRecord.nodeName⟩), scene)) ∧
    emptyPathStore.has "" = true ∧
    ∃ p' scene, (visit { root := "" } (emptyPathStore.children "") 1).run 1 0
          ⟨emptyPathStore, ({} : Roster).announce queueRecord, {}⟩ =
        (.finished (p', .ok ()), scene) ∧
      queueRecord.nodeName ∉ scene.store.children "" :=
  ⟨⟨_, _, rfl⟩, ⟨_, _, rfl⟩, by decide, _, _, rfl, by decide⟩

end Publisher

end ServiceRegistry
