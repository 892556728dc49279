import ServiceRegistry.Proofs.Store.Sessions

/-! # Sessions that nothing hinders

A session is ready if it is live and connected and no failure is injected into its calls
(`Store.IsReady`). Then each call does what the tree allows (`Store.IsReady.create_eq` and the
like), and the session stays ready (`Store.IsReady.serve`). -/

namespace ServiceRegistry.Store

variable {s : Store} {id : SessionId} {path p : String}

/-- No failure is injected into the calls of sessions. -/
def IsUnhindered (s : Store) : Prop := ∀ f ∈ s.failures, f.1 = .connect

/-- The session is live and connected, and its calls meet no injected failure. -/
structure IsReady (s : Store) (id : SessionId) : Prop where
  connected : s.IsConnected id
  unhindered : s.IsUnhindered

instance (s : Store) : Decidable s.IsUnhindered := inferInstanceAs (Decidable (∀ f ∈ _, _))

/-! ### The tree -/

theorem has_congr {s' : Store} (h : s'.nodes = s.nodes) (path : String) :
    s'.has path = s.has path := by
  rw [has, has, h]

theorem contains_grow (s : Store) (path : String) (node : Node) :
    (s.grow path node).nodes.contains p = true ↔ s.nodes.contains p = true ∨ p = path := by
  rw [nodes_grow, Dict.contains, Dict.find?_insert]
  by_cases h : path = p
  · simp [h]
  · simp [Dict.contains, h, Ne.symm h]

theorem contains_drop (s : Store) (path : String) :
    (s.drop path).nodes.contains p = true ↔ s.nodes.contains p = true ∧ p ≠ path := by
  rw [nodes_drop, Dict.contains, Dict.find?_erase]
  by_cases h : path = p
  · simp [h]
  · simp [Dict.contains, h, Ne.symm h]

theorem has_grow (s : Store) (path : String) (node : Node) :
    (s.grow path node).has p = true ↔ s.has p = true ∨ p = path := by
  rw [has, has, Bool.or_eq_true, Bool.or_eq_true, contains_grow, or_assoc]

/-! ### Calls -/

theorem takeFailure_eq_none {c : Call} {fs : List (Call × StoreError.Code)}
    (h : ∀ f ∈ fs, f.1 ≠ c) : takeFailure c fs = none := by
  induction fs with
  | nil => rfl
  | cons f fs ih =>
      rw [takeFailure, if_neg (h f List.mem_cons_self), ih fun f' hf' =>
        h f' (List.mem_cons_of_mem f hf')]
      rfl

namespace IsUnhindered

theorem serve (h : s.IsUnhindered) (id : SessionId) (r : Request) :
    (s.serve id r).2.IsUnhindered :=
  fun f hf => h f ((s.milder_serve id r).failures_subset hf)

end IsUnhindered

theorem isConnected_serve {id' : SessionId} {r : Request} :
    (s.serve id' r).2.IsConnected id ↔ s.IsConnected id := by
  rw [IsConnected, IsConnected, session?_congr s id (s.sessions_serve id' r)]

theorem Alike.isReady {s' : Store} (ha : Alike s s') (h : s.IsReady id) : s'.IsReady id := by
  refine ⟨?_, fun f hf => h.unhindered f (ha.failures_subset hf)⟩
  rw [IsConnected, ha.session?_eq]
  exact h.connected

namespace IsReady

variable (h : s.IsReady id)
include h

theorem grow (path : String) (node : Node) : (s.grow path node).IsReady id :=
  ⟨h.connected, h.unhindered⟩

theorem drop (path : String) : (s.drop path).IsReady id := ⟨h.connected, h.unhindered⟩

theorem serve (id' : SessionId) (r : Request) : (s.serve id' r).2.IsReady id :=
  ⟨isConnected_serve.mpr h.connected, h.unhindered.serve id' r⟩

theorem call_eq {α : Type} {c : Call} (hc : c ≠ .connect)
    (next : Store → Except StoreError α × Store) : s.call c id path next = next (s.count c) := by
  obtain ⟨e, he, hconnected⟩ := h.connected
  have hsession : (s.count c).session? id = some e := he
  have hfree : takeFailure c (s.count c).failures = none :=
    takeFailure_eq_none fun f hf heq => hc (heq.symm.trans (h.unhindered f hf))
  rw [call, hsession]
  simp only [hconnected, ↓reduceIte, unlessInjected, hfree]

theorem probe_eq (path : String) : s.probe id path = (.ok (s.has path), s.count .exists) :=
  h.call_eq (by decide) _

theorem list_eq (path : String) (watching : Bool) :
    (s.list id path watching).1 =
      if s.has path then .ok (s.children path) else .error ⟨.noNode, path⟩ := by
  have hhas : (s.count .children).has path = s.has path := rfl
  rw [list, h.call_eq (by decide), hhas]
  split <;> rfl

theorem create_eq (path : String) (data : Bytes) (mode : Mode) :
    s.create id path data mode =
      if s.has path then (.error ⟨.nodeExists, path⟩, s.count .create)
      else if s.has (Path.parent path) then
        (.ok (), (s.count .create).grow path ⟨data, mode.owner id⟩)
      else (.error ⟨.noNode, path⟩, s.count .create) := by
  have hhas : ∀ p, (s.count .create).has p = s.has p := fun _ => rfl
  refine (h.call_eq (by decide) _).trans ?_
  rw [hhas, hhas]
  cases s.has path <;> cases s.has (Path.parent path) <;> cases mode <;> rfl

theorem delete_eq (path : String) :
    s.delete id path =
      if s.nodes.contains path then
        if s.childPaths path = [] then (.ok (), (s.count .delete).drop path)
        else (.error ⟨.other "NotEmpty", path⟩, s.count .delete)
      else (.error ⟨.noNode, path⟩, s.count .delete) := by
  have hcontains : (s.count .delete).nodes.contains path = s.nodes.contains path := rfl
  have hbelow : (s.count .delete).childPaths path = s.childPaths path := rfl
  refine (h.call_eq (by decide) _).trans ?_
  rw [hcontains, hbelow]
  cases s.nodes.contains path <;> cases s.childPaths path <;> rfl

end IsReady

end ServiceRegistry.Store
