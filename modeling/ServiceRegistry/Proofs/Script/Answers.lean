import ServiceRegistry.Proofs.Script.Steps
import ServiceRegistry.Proofs.Store.Ready

/-! # Where scripts go on after a call

One rule for each call that scripts make on the tree, with a premise for each way in which the call
can come out. The first rules take any session, as long as no injected failure says that a node is
there already or that it is gone. On a session that is ready the tree alone decides
(`Script.leads_create_of_isReady` and the like). -/

namespace ServiceRegistry.Script

open Store

variable {σ α : Type} {post : α → Sitting σ → Prop} {id : SessionId} {path : String} {s : Store}
  {y : σ} {es : List Exchange}

/-! ### Any session -/

theorem leads_probe {next : Except StoreError Bool → Script σ α}
    (refused : ∀ code s', Alike s s' → (next (.error ⟨code, path⟩)).Leads (Sitting.party id) post
      ⟨s', y, es ++ [⟨.probe path, .error ⟨code, path⟩⟩]⟩)
    (answered : ∀ s', Alike s s' → (next (.ok (s.has path))).Leads (Sitting.party id) post
      ⟨s', y, es ++ [⟨.probe path, .ok (s.has path)⟩]⟩) :
    (call (.probe path) next).Leads (Sitting.party id) post ⟨s, y, es⟩ := by
  apply leads_call
  rcases s.probe_cases id path with ⟨code, s', h, halike⟩ | ⟨s', h, halike, -⟩
  · simp only [serve, h]
    exact refused code s' halike
  · simp only [serve, h]
    exact answered s' halike

theorem leads_create {data : Bytes} {mode : Mode} {next : Except StoreError Unit → Script σ α}
    (honest : (.create, .nodeExists) ∉ s.failures)
    (refused : ∀ code s', Alike s s' → code ≠ .nodeExists →
      (next (.error ⟨code, path⟩)).Leads (Sitting.party id) post
        ⟨s', y, es ++ [⟨.create path data mode, .error ⟨code, path⟩⟩]⟩)
    (there : ∀ s', Alike s s' → s.has path = true →
      (next (.error ⟨.nodeExists, path⟩)).Leads (Sitting.party id) post
        ⟨s', y, es ++ [⟨.create path data mode, .error ⟨.nodeExists, path⟩⟩]⟩)
    (made : ∀ s', Alike s s' → s.has path = false →
      (next (.ok ())).Leads (Sitting.party id) post
        ⟨s'.grow path ⟨data, mode.owner id⟩, y, es ++ [⟨.create path data mode, .ok ()⟩]⟩) :
    (call (.create path data mode) next).Leads (Sitting.party id) post ⟨s, y, es⟩ := by
  apply leads_call
  rcases s.create_cases id path data mode with
    ⟨code, s', h, halike, hwhy⟩ | ⟨s', h, halike, hhas, -, -⟩
  · simp only [serve, h]
    by_cases hcode : code = .nodeExists
    · subst hcode
      rcases hwhy with hrefuses | ⟨-, hhas⟩ | ⟨hcode, -⟩
      · rcases hrefuses with ⟨-, hcode⟩ | ⟨-, -, -, hcode⟩ | hinjected
        · cases hcode
        · cases hcode
        · exact absurd hinjected honest
      · exact there s' halike hhas
      · cases hcode
    · exact refused code s' halike hcode
  · simp only [serve, h]
    exact made s' halike hhas

theorem leads_delete {next : Except StoreError Unit → Script σ α}
    (honest : (.delete, .noNode) ∉ s.failures)
    (refused : ∀ code s', Alike s s' → code ≠ .noNode →
      (next (.error ⟨code, path⟩)).Leads (Sitting.party id) post
        ⟨s', y, es ++ [⟨.delete path, .error ⟨code, path⟩⟩]⟩)
    (gone : ∀ s', Alike s s' → s.nodes.contains path = false →
      (next (.error ⟨.noNode, path⟩)).Leads (Sitting.party id) post
        ⟨s', y, es ++ [⟨.delete path, .error ⟨.noNode, path⟩⟩]⟩)
    (dropped : ∀ s', Alike s s' → s.nodes.contains path = true →
      (next (.ok ())).Leads (Sitting.party id) post
        ⟨s'.drop path, y, es ++ [⟨.delete path, .ok ()⟩]⟩) :
    (call (.delete path) next).Leads (Sitting.party id) post ⟨s, y, es⟩ := by
  apply leads_call
  rcases s.delete_cases id path with ⟨code, s', h, halike, hwhy⟩ | ⟨s', h, halike, hc, -⟩
  · simp only [serve, h]
    by_cases hcode : code = .noNode
    · subst hcode
      rcases hwhy with hrefuses | ⟨-, hc⟩ | ⟨hcode, -⟩
      · rcases hrefuses with ⟨-, hcode⟩ | ⟨-, -, -, hcode⟩ | hinjected
        · cases hcode
        · cases hcode
        · exact absurd hinjected honest
      · exact gone s' halike hc
      · cases hcode
    · exact refused code s' halike hcode
  · simp only [serve, h]
    exact dropped s' halike hc

/-! ### A session that is ready -/

section Ready

variable (h : s.IsReady id)
include h

theorem leads_isReady (x : Script σ α) :
    x.Leads (Sitting.party id) (fun _ st => st.store.IsReady id) ⟨s, y, es⟩ := by
  refine ((keeps_trivial x).leads (fun st => st.store.IsReady id) (fun _ _ => trivial) ?_ ?_
    (fun _ _ hst _ => hst) h).mono fun _ _ hst => hst.2
  · rintro st _ hst rfl
    exact hst
  · rintro st r answer - hst - ⟨rfl, rfl⟩
    exact ⟨trivial, hst.serve id r⟩

theorem leads_probe_of_isReady {next : Except StoreError Bool → Script σ α}
    (answered : ∀ s', s'.IsReady id → Alike s s' →
      (next (.ok (s.has path))).Leads (Sitting.party id) post
        ⟨s', y, es ++ [⟨.probe path, .ok (s.has path)⟩]⟩) :
    (call (.probe path) next).Leads (Sitting.party id) post ⟨s, y, es⟩ := by
  have halike : Alike s (s.count .exists) := alike_count _
  apply leads_call
  simp only [Store.serve, h.probe_eq]
  exact answered _ (halike.isReady h) halike

theorem leads_create_of_isReady {data : Bytes} {mode : Mode}
    {next : Except StoreError Unit → Script σ α}
    (there : ∀ s', s'.IsReady id → Alike s s' → s.has path = true →
      (next (.error ⟨.nodeExists, path⟩)).Leads (Sitting.party id) post
        ⟨s', y, es ++ [⟨.create path data mode, .error ⟨.nodeExists, path⟩⟩]⟩)
    (orphan : ∀ s', s'.IsReady id → Alike s s' → s.has (Path.parent path) = false →
      (next (.error ⟨.noNode, path⟩)).Leads (Sitting.party id) post
        ⟨s', y, es ++ [⟨.create path data mode, .error ⟨.noNode, path⟩⟩]⟩)
    (made : ∀ s', s'.IsReady id → Alike s s' → s.has path = false →
      (next (.ok ())).Leads (Sitting.party id) post
        ⟨s'.grow path ⟨data, mode.owner id⟩, y, es ++ [⟨.create path data mode, .ok ()⟩]⟩) :
    (call (.create path data mode) next).Leads (Sitting.party id) post ⟨s, y, es⟩ := by
  have halike : Alike s (s.count .create) := alike_count _
  have hready := halike.isReady h
  apply leads_call
  simp only [Store.serve, h.create_eq]
  cases hhas : s.has path with
  | true => exact there _ hready halike hhas
  | false =>
      cases hparent : s.has (Path.parent path) with
      | true => exact made _ hready halike hhas
      | false => exact orphan _ hready halike hparent

theorem leads_delete_of_isReady {next : Except StoreError Unit → Script σ α}
    (gone : ∀ s', s'.IsReady id → Alike s s' → s.nodes.contains path = false →
      (next (.error ⟨.noNode, path⟩)).Leads (Sitting.party id) post
        ⟨s', y, es ++ [⟨.delete path, .error ⟨.noNode, path⟩⟩]⟩)
    (blocked : ∀ s', s'.IsReady id → Alike s s' → s.nodes.contains path = true →
      s.childPaths path ≠ [] →
      (next (.error ⟨.other "NotEmpty", path⟩)).Leads (Sitting.party id) post
        ⟨s', y, es ++ [⟨.delete path, .error ⟨.other "NotEmpty", path⟩⟩]⟩)
    (dropped : ∀ s', s'.IsReady id → Alike s s' → s.nodes.contains path = true →
      s.childPaths path = [] →
      (next (.ok ())).Leads (Sitting.party id) post
        ⟨s'.drop path, y, es ++ [⟨.delete path, .ok ()⟩]⟩) :
    (call (.delete path) next).Leads (Sitting.party id) post ⟨s, y, es⟩ := by
  have halike : Alike s (s.count .delete) := alike_count _
  have hready := halike.isReady h
  apply leads_call
  simp only [Store.serve, h.delete_eq]
  cases hthere : s.nodes.contains path with
  | false => exact gone _ hready halike hthere
  | true =>
      by_cases hbelow : s.childPaths path = []
      · simp only [hbelow, ↓reduceIte]
        exact dropped _ hready halike hthere hbelow
      · simp only [hbelow, ↓reduceIte]
        exact blocked _ hready halike hthere hbelow

end Ready

end ServiceRegistry.Script
