import LuaHost.Proofs.CommandLine.Chunks
import LuaHost.Proofs.Handle.Sharing

/-!
# Chunks that are well formed

A chunk that is well formed is loaded wherever there is room for its function.
Nothing but the function is put on the stack, and nothing happens to tables.
-/

namespace LuaHost

/-- A section under protection that changes nothing but the stack. -/
theorem Thread.Steady.unshielded {n handler : Nat} {th th' : Thread}
    (h : ((th.withHandler handler).guarding).Steady n th') : th.Steady n (th'.unshielded th) := by
  have hrest := congrArg (fun r : Thread => r.unshielded th) h.rest_eq
  exact ⟨hrest, h.limit_eq, h.slot_eq⟩

namespace World

variable {w w' w'' : World}

theorem aside_withClosure (w : World) (c : Closure) : w.Aside (w.withClosure c) :=
  ⟨rfl, rfl, rfl, rfl, fun _ => rfl⟩

theorem aside_withUpvalues (w : World) (s : Store Upvalue) : w.Aside (w.withUpvalues s) :=
  ⟨rfl, rfl, rfl, rfl, fun _ => rfl⟩

theorem Aside.trans (h : w.Aside w') (h' : w'.Aside w'') : w.Aside w'' :=
  ⟨h'.registry_eq.trans h.registry_eq, h'.tables_eq.trans h.tables_eq,
    h'.liveness_eq.trans h.liveness_eq, h'.main_eq.trans h.main_eq,
    fun t => (h'.live_eq t).trans (h.live_eq t)⟩

theorem Aside.globals {env : Value} (h : w.Aside w') (henv : Machine.Returns Machine.globals w env w) :
    Machine.Returns Machine.globals w' env w' := by
  have hread := Machine.returns_registryValue w (.int globalsPlace)
  rw [← (hread.unique henv).1, ← h.tables_eq, ← h.registry_eq]
  exact Machine.returns_registryValue w' (.int globalsPlace)

end World

namespace Machine

section Loading

variable {w w' : World} {t : ThreadId} {base : Nat} {us : List Value} {p : Prototype}
  {chunk source : Bytes}

/-- The chunk is well formed where the stack of calls is as deep as it is in the world: this is its
compiled form. -/
inductive Compiles (w : World) (t : ThreadId) (chunk source : Bytes) (p : Prototype) : Prop where
  | text : chunk.byte? 0 ≠ some 0x1b →
      compileText chunk source (maxNesting - 1 - (w.thread t).nesting) = .ok p →
      Compiles w t chunk source p
  | binary : chunk.byte? 0 = some 0x1b → Binary.read chunk = .ok p → Compiles w t chunk source p

namespace Compiles

theorem congr (h : Compiles w t chunk source p)
    (hnesting : (w'.thread t).nesting = (w.thread t).nesting) : Compiles w' t chunk source p := by
  cases h with
  | text htext hcompile => exact .text htext (hnesting ▸ hcompile)
  | binary hbinary hread => exact .binary hbinary hread

theorem returns (h : Compiles w t chunk source p) : Returns (prototypeOf t chunk source none) w p w := by
  unfold prototypeOf
  cases h with
  | text htext hcompile =>
      rw [if_neg (by rw [beq_iff_eq]; exact htext)]
      refine Returns.bind (Returns.pure () w) (Returns.bind (returns_thread w t) ?_)
      rw [hcompile]
      exact Returns.pure p w
  | binary hbinary hread =>
      rw [if_pos (by rw [beq_iff_eq]; exact hbinary)]
      refine Returns.bind (Returns.pure () w) ?_
      rw [hread]
      exact Returns.pure p w

end Compiles

/-- In the world `w'` a chunk with the code `p` has been loaded: its function stands above the values,
with the table of globals in its first upvalue. -/
structure Brings (t : ThreadId) (base : Nat) (us : List Value) (p : Prototype) (c : ClosureId)
    (w w' : World) : Prop where
  aside : w.Aside w'
  steady : (w.thread t).Steady 0 (w'.thread t)
  stands : w'.Stands t base (us ++ [.closure c])
  live : w'.heap.closures.live c.index = true
  closure_eq : exists ups, w'.heap.closures.get c.index = .script p ups ∧
    forall env, Returns globals w env w -> 0 < p.upvalues.size ->
      w'.heap.upvalues.get (ups.getD 0 default).index = .closed env

/-- Loading takes place in a section under protection that does not yield. -/
theorem returns_loadFrom (h : w.Stands t base us) (hp : Compiles w t chunk source p) :
    exists c w', Returns (loadFrom t (return chunk) source none) w .ok w' ∧ Brings t base us p c w w' := by
  let th := { w.thread t with unyieldable := (w.thread t).unyieldable + 1 }
  let shielded := (th.withHandler th.handler).guarding
  let w₁ := w.setThread t th
  let w₂ := w.setThread t shielded
  have hth : w₁.thread t = th := World.thread_setThread h.live th
  have hshielded : w₂.thread t = shielded := World.thread_setThread h.live shielded
  have hlive₁ : w₁.liveThread t = true := (World.liveThread_setThread w t t th).trans h.live
  have hnesting : (w₂.thread t).nesting = (w.thread t).nesting := by
    rw [hshielded]
    rfl
  have hp₂ : Compiles w₂ t chunk source p := hp.congr hnesting
  -- the chunk is compiled inside the section, whose thread differs from the one outside in its
  -- guards only
  rcases returns_pushChunk_made hp₂.returns with ⟨s, ups, hpush, henv⟩
  rw [hshielded] at hpush
  let c := w₂.nextClosure
  let u := (w₂.withUpvalues s).withClosure (.script p ups)
  have hu : u.liveThread t = true := (World.liveThread_setThread w t t shielded).trans h.live
  have hpushed : (u.setThread t (shielded.push (.closure c))).thread t = shielded.push (.closure c) :=
    World.thread_setThread hu _
  have hlive₂ : (u.setThread t (shielded.push (.closure c))).liveThread t = true :=
    (World.liveThread_setThread u t t _).trans hu
  let th' := (shielded.push (.closure c)).unshielded th
  have hprotected : Returns (runProtected t (w.thread t).top (w.thread t).handler
      (pushChunk t (return chunk) source none)) w₁ .ok (u.setThread t th') := by
    intro E
    have hbody : pushChunk t (return chunk) source none E
        (w₁.setThread t ((w₁.thread t).withHandler th.handler).guarding) =
          .ok () (u.setThread t (shielded.push (.closure c))) := by
      rw [hth, World.setThread_setThread]
      exact hpush E
    have hok := runProtected_ok (w.thread t).top hlive₁ hlive₂ hbody
    rw [hth, hpushed, World.setThread_setThread] at hok
    exact hok
  -- behind the section the thread is the one from before, with the function on top
  have hsteady : th.Steady 0 th' := (Thread.steady_push shielded (Nat.zero_le _) _).unshielded
  let th'' := { th' with unyieldable := th'.unyieldable - 1 }
  have hlast : Returns (modifyThread t fun th => { th with unyieldable := th.unyieldable - 1 })
      (u.setThread t th') () (u.setThread t th'') := returns_modifyThread_into rfl
  have hthread : (u.setThread t th'').thread t = th'' := World.thread_setThread hu th''
  refine ⟨c, u.setThread t th'', ?_, ?_, ?_, ?_, Store.live_push_next w.heap.closures _, ups,
    Store.get_push_next w.heap.closures _, fun env hglobals => henv env ?_⟩
  · exact Returns.bind (returns_thread w t) (Returns.bind (returns_modifyThread w t _)
      (Returns.bind hprotected (Returns.bind hlast (Returns.pure _ _))))
  · have haside₂ := (w.aside_setThread t shielded).trans (w₂.aside_withUpvalues s)
    exact (haside₂.trans (World.aside_withClosure _ _)).trans (u.aside_setThread t th'')
  · rw [hthread]
    have hrest := congrArg (fun r : Thread => { r with unyieldable := r.unyieldable - 1 }) hsteady.rest_eq
    exact ⟨hrest, hsteady.limit_eq, hsteady.slot_eq⟩
  · refine World.stands_setThread hu ?_
    have hshows : shielded.Shows base us := h.shows.alike ⟨rfl, rfl, rfl⟩
    exact (hshows.push _).alike ⟨rfl, rfl, rfl⟩
  · exact (w.aside_setThread t shielded).globals hglobals

end Loading

end Machine

namespace CommandLine

open Machine

theorem returns_loadBuffer {w : World} {t : ThreadId} {base : Nat} {us : List Value} {p : Prototype}
    {chunk : Bytes} {name : String} (h : w.Stands t base us)
    (hroom : (w.thread t).top + 1 ≤ (w.thread t).limit)
    (hp : Compiles w t chunk (Interface.cutName name) p) :
    exists c w', Returns (Interface.loadBuffer t chunk name none) w .ok w' ∧
      Brings t base us p c w w' := by
  rcases (Interface.needs_reserve h.live (n := 1) (by decide)).returns hroom with
    ⟨_, w₁, hreserve, hloaded⟩
  have hstands := h.loaded hloaded
  rw [List.append_nil] at hstands
  have hsteady := ((Interface.steadies_reserve (n := 1) (by decide)).run h.live (hreserve idle)).2
  have haside : w.Aside w₁ := by
    rw [hloaded.rest_eq]
    exact w.aside_setThread t _
  rcases returns_loadFrom hstands (hp.congr hsteady.nesting_eq) with ⟨c, w₂, hload, hbrings⟩
  rcases hbrings.closure_eq with ⟨ups, hclosure, henv⟩
  refine ⟨c, w₂, Returns.bind hreserve hload, haside.trans hbrings.aside,
    hsteady.trans hbrings.steady, hbrings.stands, hbrings.live, ups, hclosure, fun env hglobals => ?_⟩
  exact henv env (haside.globals hglobals)

end CommandLine

end LuaHost
