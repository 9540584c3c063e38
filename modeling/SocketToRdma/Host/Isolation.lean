import SocketToRdma.Host.Routing
import Mathlib.Data.Finset.Insert
import Mathlib.Data.Finset.Erase

/-!
# Local and remote descriptors

The kernel of the host and the kernel of the server hand out descriptor numbers
independently; each only keeps a new number distinct from the ones in use on its own side.
The hooks tell a remote descriptor from a local one by the bare number. A `World` is the
table together with the descriptors in use on the two sides. Calls on a local descriptor
stay local exactly as long as no number is handed out by one side while it is in use on the
other.
-/

namespace SocketToRdma

open Run

/-- The table of the hooks, the descriptors in use on the host, and those in use on the
server. -/
structure World where
  fdHt : FDHashTable
  localFds : Finset (BitVec 32)
  remoteFds : Finset (BitVec 32)

/-- A local opening that is not hooked, a local closing that is not hooked, or a hooked
call. -/
inductive WorldAct where
  | localOpen (n : BitVec 32)
  | localClose (n : BitVec 32)
  | call (call : HookCall) (env : HookEnv)

namespace World

/-- The kernel of the server serves a forwarded call: a new descriptor is one that is not in
use there. -/
def serverKernel (w : World) (call : HookCall) (env : HookEnv) : Option World :=
  match call with
  | .socket | .accept _ | .epollCreate1 =>
      if env.reply.toInt < 0 then some w
      else if env.reply ∈ w.remoteFds then none
      else some { w with remoteFds := insert env.reply w.remoteFds }
  | .close d => some { w with remoteFds := w.remoteFds.erase d }
  | _ => some w

/-- The kernel of the host serves a call of the original function: a new descriptor is an
`int` that is not in use there. -/
def hostKernel (w : World) (call : HookCall) (env : HookEnv) : Option World :=
  match call with
  | .socket | .accept _ | .epollCreate1 =>
      let d := BitVec.ofInt 32 env.original
      if env.original < 0 then some w
      else if d.toInt = env.original ∧ d ∉ w.localFds then
        some { w with localFds := insert d w.localFds }
      else none
  | .close d => some { w with localFds := w.localFds.erase d }
  | _ => some w

/-- The world after an action. -/
def step (w : World) : WorldAct → Option World
  | .localOpen n =>
      if n ∈ w.localFds then none else some { w with localFds := insert n w.localFds }
  | .localClose n => some { w with localFds := w.localFds.erase n }
  | .call call env =>
      (call.run w.fdHt env).bind fun r =>
        match r.forward with
        | some _ => { w with fdHt := r.fdHt }.serverKernel call env
        | none => { w with fdHt := r.fdHt }.hostKernel call env

/-- A hooked call on a descriptor in use on the host is the call of the original function. -/
def Isolated (w : World) : WorldAct → Prop
  | .call call env =>
      ∀ d, call.fd = some d → d ∈ w.localFds → call.run w.fdHt env = some (callOriginal w.fdHt env)
  | _ => True

/-- A number handed out on the host has no entry in the table, and a positive number that the
server returns is not in use on the host. -/
def FreshNumbers (w : World) : WorldAct → Prop
  | .localOpen n => entries w.fdHt n = 0
  | .localClose _ => True
  | .call call env =>
      call.Opens → ∀ r d, call.run w.fdHt env = some r → r.ret = d.toInt →
        (r.forward = none → 0 ≤ d.toInt → entries w.fdHt d = 0) ∧
          (r.forward ≠ none → 0 < d.toInt → d ∉ w.localFds)

/-- The world at the start: the table is empty. -/
def initial (localFds remoteFds : Finset (BitVec 32)) : World :=
  ⟨createFDHashTable, localFds, remoteFds⟩

end World

/-- Allocations succeed, and thread ids are not zero. -/
def WorldAct.Ok : WorldAct → Prop
  | .call _ env => env.Ok
  | _ => True

/-! ### Steps of the world -/

namespace World

/-- The server changes neither the table nor the descriptors of the host. -/
theorem serverKernel_eq {w w' : World} {call : HookCall} {env : HookEnv}
    (h : w.serverKernel call env = some w') :
  w'.fdHt = w.fdHt ∧ w'.localFds = w.localFds
  := by
  unfold serverKernel at h
  split at h <;> try split_ifs at h
  all_goals
    obtain rfl := Option.some.inj h
    exact ⟨rfl, rfl⟩

/-- A descriptor in use on the host after a call of the original function was in use before
it, or is the number an opening call returned. -/
theorem hostKernel_cases {w w' : World} {call : HookCall} {env : HookEnv}
    (h : w.hostKernel call env = some w') :
  w'.fdHt = w.fdHt ∧
    ∀ d ∈ w'.localFds, d ∈ w.localFds ∨
      (call.Opens ∧ 0 ≤ env.original ∧ env.original = d.toInt)
  := by
  have hopens : call.Opens →
      (let d := BitVec.ofInt 32 env.original
        if env.original < 0 then some w
        else if d.toInt = env.original ∧ d ∉ w.localFds then
          some { w with localFds := insert d w.localFds }
        else none) = some w' →
      w'.fdHt = w.fdHt ∧ ∀ d ∈ w'.localFds, d ∈ w.localFds ∨
        (call.Opens ∧ 0 ≤ env.original ∧ env.original = d.toInt) := by
    intro hopens h
    simp only at h
    split_ifs at h with hneg hfresh
    · obtain rfl := Option.some.inj h
      exact ⟨rfl, fun d hd => Or.inl hd⟩
    · obtain rfl := Option.some.inj h
      use rfl
      intro d hd
      rcases Finset.mem_insert.mp hd with rfl | hd
      · right
        exact ⟨hopens, by omega, hfresh.1.symm⟩
      · left
        apply hd
  cases call with
  | socket => apply hopens trivial h
  | accept => apply hopens trivial h
  | epollCreate1 => apply hopens trivial h
  | close d =>
      obtain rfl := Option.some.inj h
      exact ⟨rfl, fun d hd => Or.inl (Finset.mem_of_mem_erase hd)⟩
  | _ =>
      obtain rfl := Option.some.inj h
      exact ⟨rfl, fun d hd => Or.inl hd⟩

/-- A hooked call is forwarded and leaves the descriptors of the host alone, or it is the call
of the original function and leaves the table alone. -/
theorem step_call {w w' : World} {call : HookCall} {env : HookEnv}
    (h : w.step (.call call env) = some w') :
  ∃ r, call.run w.fdHt env = some r ∧
    ((r.forward ≠ none ∧ w'.fdHt = r.fdHt ∧ w'.localFds = w.localFds) ∨
      (r = callOriginal w.fdHt env ∧ w.hostKernel call env = some w'))
  := by
  obtain ⟨r, hr, hkernel⟩ := Option.bind_eq_some_iff.mp h
  use r, hr
  rcases HookCall.run_cases hr with rfl | ⟨hfwd, -⟩
  · right
    exact ⟨rfl, hkernel⟩
  · left
    obtain ⟨forward, hforward⟩ := Option.ne_none_iff_exists'.mp hfwd
    rw [hforward] at hkernel
    obtain ⟨hfdHt, hlocal⟩ := serverKernel_eq hkernel
    exact ⟨hfwd, hfdHt, hlocal⟩

/-- The table routes, and no descriptor in use on the host has an entry. -/
def Separate (w : World) : Prop :=
  ∃ live, Routes w.fdHt live ∧ ∀ node ∈ live, node.key ∉ w.localFds

/-- Numbers that are fresh on both sides keep the two sides separate. -/
theorem Separate.step {w w' : World} {a : WorldAct} (h : w.Separate) (hok : a.Ok)
    (hfresh : w.FreshNumbers a) (hstep : w.step a = some w') :
  w'.Separate
  := by
  obtain ⟨live, hroutes, hsep⟩ := h
  cases a with
  | localOpen n =>
      simp only [World.step] at hstep
      split_ifs at hstep
      obtain rfl := Option.some.inj hstep
      use live, hroutes
      intro node hnode hmem
      rcases Finset.mem_insert.mp hmem with hkey | hmem
      · rw [FreshNumbers, hroutes.entries_eq, List.countP_eq_zero] at hfresh
        apply hfresh node hnode
        simpa using hkey
      · apply hsep node hnode hmem
  | localClose n =>
      obtain rfl := Option.some.inj hstep
      exact ⟨live, hroutes, fun node hnode hmem =>
        hsep node hnode (Finset.mem_of_mem_erase hmem)⟩
  | call call env =>
      obtain ⟨r, hr, ⟨hfwd, hfdHt, hlocal⟩ | ⟨rfl, hkernel⟩⟩ := step_call hstep
      · obtain ⟨live', hroutes', hkeys⟩ := hroutes.step hok hr
        refine ⟨live', hfdHt ▸ hroutes', ?_⟩
        rw [hlocal]
        intro node hnode
        rcases hkeys node hnode with ⟨node', hnode', hkey⟩ | ⟨hopens, -, hpos, hret⟩
        · rw [← hkey]
          apply hsep node' hnode'
        · apply (hfresh hopens r node.key hr hret).2 hfwd
          omega
      · obtain ⟨hfdHt, hlocal⟩ := hostKernel_cases hkernel
        refine ⟨live, hfdHt ▸ hroutes, ?_⟩
        intro node hnode hmem
        rcases hlocal node.key hmem with hmem | ⟨hopens, hpos, hret⟩
        · apply hsep node hnode hmem
        · have hentries := (hfresh hopens _ node.key hr hret).1 rfl (by omega)
          rw [hroutes.entries_eq, List.countP_eq_zero] at hentries
          apply hentries node hnode
          simp

/-- As long as the two sides are separate, a call on a descriptor in use on the host is the
call of the original function. -/
theorem Separate.isolated {w : World} (h : w.Separate) (a : WorldAct) :
  w.Isolated a
  := by
  cases a with
  | localOpen n => trivial
  | localClose n => trivial
  | call call env =>
      intro d hd hmem
      obtain ⟨live, hroutes, hsep⟩ := h
      have habsent : ¬ (tidBySearchByKey w.fdHt d ≠ 0 ∨ fdSearchByKey w.fdHt d ≠ 0) := by
        intro hlookup
        obtain ⟨node, hnode, rfl⟩ := hroutes.exists_mem_of_lookup hlookup
        apply hsep node hnode hmem
      rw [not_or, not_not, not_not] at habsent
      apply HookCall.run_of_lookup_eq_zero habsent.1 habsent.2 hd

end World

/-! ### A number in use on both sides -/

namespace World

/-- The first entry of a bucket can be removed without touching the descriptors of the host:
by a forwarded `close` of its descriptor, or, in the bucket `0`, by the exit of its thread. -/
theorem exists_step_removing_head {w : World} {live : List (Node 32)} (h : Routes w.fdHt live)
    {i : ℕ} {first : Node 32} {rest : List (Node 32)}
    (hbucket : Live.bucket live i = first :: rest) :
  ∃ call env w' live', w.step (.call call env) = some w' ∧ w'.localFds = w.localFds ∧
    Routes w'.fdHt live' ∧ Live.bucket live' i = rest
  := by
  by_cases hi : i = 0
  · subst hi
    refine ⟨.pthreadExit, ⟨first.value, true, false, 0, 0, .bump 32⟩,
      { w with fdHt := fdDeleteByValue w.fdHt first.value }, _, rfl, rfl,
      h.fdDeleteByValue first.value, ?_⟩
    have hfirst : Live.firstBucket live first.value (List.range htSz) = some 0 := by
      rw [show htSz = 1023 + 1 from rfl, List.range_succ_eq_map, Live.firstBucket,
        List.find?_cons_of_pos]
      simp [hbucket]
    rw [Live.deleteByValue, hfirst]
    simp only
    rw [Live.deleteIn, Live.bucket_eraseP, hbucket, List.eraseP_cons_of_pos]
    · have hmem : first ∈ Live.bucket live 0 := by simp [hbucket]
      simpa using (List.mem_filter.mp hmem).2
    · simp +contextual
  · have htid := h.tid_head_ne_zero hi hbucket
    let env : HookEnv := ⟨1, true, false, 0, 0, .bump 32⟩
    refine ⟨.close first.key, env,
      { w with fdHt := fdDeleteByKey w.fdHt first.key, remoteFds := w.remoteFds.erase first.key },
      _, ?_, rfl, h.fdDeleteByKey first.key, bucket_deleteByKey_head hbucket⟩
    rw [step, run_close htid rfl]
    rfl

/-- Any entry can be brought to the front of its bucket. -/
theorem exists_run_exposing {w : World} {live : List (Node 32)} (h : Routes w.fdHt live) {i : ℕ}
    {before after : List (Node 32)} {node : Node 32}
    (hbucket : Live.bucket live i = before ++ node :: after) :
  ∃ mid u live', run step w mid = some u ∧ u.localFds = w.localFds ∧ Routes u.fdHt live' ∧
    (Live.bucket live' i).head? = some node
  := by
  induction before generalizing w live with
  | nil =>
      use [], w, live
      simp [h, hbucket]
  | cons first before ih =>
      obtain ⟨call, env, w', live', hstep, hlocal, hroutes, hrest⟩ :=
        exists_step_removing_head h hbucket
      obtain ⟨mid, u, live'', hrun, hlocal', hroutes', hhead⟩ := ih hroutes hrest
      use .call call env :: mid, u, live''
      refine ⟨?_, by rw [hlocal', hlocal], hroutes', hhead⟩
      rw [run_cons_eq_some]
      use w'

/-- If a descriptor in use on the host has an entry, some calls lead to a call on it that is
forwarded. -/
theorem exists_not_isolated {w : World} {live : List (Node 32)} (h : Routes w.fdHt live)
    {node : Node 32} (hnode : node ∈ live) (hlocal : node.key ∈ w.localFds) :
  ∃ mid, ¬ Along step Isolated w mid
  := by
  have hmem : node ∈ Live.bucket live (hashFunction node.key) :=
    List.mem_filter.mpr ⟨hnode, by simp⟩
  obtain ⟨before, after, hbucket⟩ := List.append_of_mem hmem
  obtain ⟨mid, u, live', hrun, hlocal', hroutes, hhead⟩ := exists_run_exposing h hbucket
  have htid : fdSearchByKey u.fdHt node.key ≠ 0 := by
    rw [Ne, hroutes.represents.fdSearchByKey_eq_zero_iff hroutes.value_ne, not_not]
    exact ⟨node, hhead, rfl⟩
  let env : HookEnv := ⟨1, true, false, 0, 0, .bump 32⟩
  use mid ++ [.call (.write node.key 0) env]
  intro halong
  have hwrite := (halong.right hrun).1 node.key rfl (hlocal' ▸ hlocal)
  apply not_forwarded_of_original hwrite (forwarded_write htid rfl 0)

/-- The table routes after every run. -/
theorem routes_run {localFds remoteFds : Finset (BitVec 32)} {acts : List WorldAct} {w : World}
    (hok : ∀ a ∈ acts, a.Ok) (hrun : run step (initial localFds remoteFds) acts = some w) :
  ∃ live, Routes w.fdHt live
  := by
  apply run_invariant (I := fun u => ∃ live, Routes u.fdHt live) _ ⟨[], Routes.create⟩
    (along_of_mem hok) hrun
  rintro u a u' ⟨live, h⟩ ha hstep
  cases a with
  | localOpen n =>
      simp only [step] at hstep
      split_ifs at hstep
      obtain rfl := Option.some.inj hstep
      use live
  | localClose n =>
      obtain rfl := Option.some.inj hstep
      use live
  | call call env =>
      obtain ⟨r, hr, ⟨-, hfdHt, -⟩ | ⟨rfl, hkernel⟩⟩ := step_call hstep
      · obtain ⟨live', h', -⟩ := h.step ha hr
        use live'
        rw [hfdHt]
        apply h'
      · use live
        rw [(hostKernel_cases hkernel).1]
        apply h

/-- The number an opening call of the original function returned is in use on the host. -/
theorem mem_of_hostKernel {w w' : World} {call : HookCall} {env : HookEnv} {d : BitVec 32}
    (h : w.hostKernel call env = some w') (hopens : call.Opens) (hret : env.original = d.toInt)
    (hd : 0 ≤ d.toInt) :
  d ∈ w'.localFds
  := by
  have hd' : BitVec.ofInt 32 env.original = d := by
    rw [hret, BitVec.ofInt_toInt]
  have hkernel : (if env.original < 0 then some w
      else if d.toInt = env.original ∧ d ∉ w.localFds then
        some { w with localFds := insert d w.localFds }
      else none) = some w' := by
    cases call with
    | socket | accept | epollCreate1 =>
        rw [← h]
        simp only [hostKernel, hd']
    | _ => cases hopens
  rw [if_neg (by omega)] at hkernel
  split_ifs at hkernel
  obtain rfl := Option.some.inj hkernel
  apply Finset.mem_insert_self

/-- A number that is not fresh ends up in use on the host and in the table. -/
theorem exists_mem_of_not_fresh {w w' : World} {live : List (Node 32)} (h : Routes w.fdHt live)
    {a : WorldAct} (hok : a.Ok) (hstep : w.step a = some w') (hfresh : ¬ w.FreshNumbers a) :
  ∃ live', Routes w'.fdHt live' ∧ ∃ node ∈ live', node.key ∈ w'.localFds
  := by
  have hentry : ∀ d, entries w.fdHt d ≠ 0 → ∃ node ∈ live, node.key = d := by
    intro d hd
    rw [h.entries_eq, Ne, List.countP_eq_zero] at hd
    simpa using hd
  cases a with
  | localOpen n =>
      obtain ⟨node, hnode, rfl⟩ := hentry n hfresh
      simp only [step] at hstep
      split_ifs at hstep
      obtain rfl := Option.some.inj hstep
      exact ⟨live, h, node, hnode, Finset.mem_insert_self _ _⟩
  | localClose n => cases hfresh trivial
  | call call env =>
      simp only [FreshNumbers, not_forall] at hfresh
      obtain ⟨hopens, r, d, hr, hret, hnot⟩ := hfresh
      obtain ⟨r', hr', ⟨hfwd, hfdHt, hlocal⟩ | ⟨rfl, hkernel⟩⟩ := step_call hstep
      · obtain rfl := Option.some.inj (hr.symm.trans hr')
        -- the server returned a number that is in use on the host
        have hd : 0 < d.toInt ∧ d ∈ w.localFds := by
          by_contra hd
          apply hnot
          exact ⟨fun hnone => absurd hnone hfwd, fun _ hpos hmem => hd ⟨hpos, hmem⟩⟩
        obtain ⟨forward, rfl⟩ := HookCall.enter_of_pos hr hopens hfwd (by omega)
        obtain ⟨c, hc⟩ := Option.ne_none_iff_exists'.mp (hok.malloc w.fdHt.heap)
        have hreply : env.reply = d := by
          apply BitVec.eq_of_toInt_eq
          rw [← hret]
          simp [enter, fdInsertByValue, ChainTable.insertByValue, hc]
        refine ⟨live ++ [⟨env.reply, env.tid, hashFunction env.reply⟩], ?_,
          ⟨env.reply, env.tid, hashFunction env.reply⟩, by simp, ?_⟩
        · rw [hfdHt]
          apply h.fdInsertByValue (hok.malloc _) hok.tid
        · rw [hlocal, hreply]
          apply hd.2
      · obtain rfl := Option.some.inj (hr.symm.trans hr')
        -- the host handed out a number that has an entry
        have hd : 0 ≤ d.toInt ∧ entries w.fdHt d ≠ 0 := by
          simpa [callOriginal] using hnot
        obtain ⟨node, hnode, rfl⟩ := hentry d hd.2
        refine ⟨live, ?_, node, hnode, mem_of_hostKernel hkernel hopens hret hd.1⟩
        rw [(hostKernel_cases hkernel).1]
        apply h

/-- In a run all of whose openings return numbers fresh on both sides, every hooked call on a
descriptor in use on the host is the call of the original function; and whenever an opening
returns a number that is not, some calls lead to a call on such a descriptor that is
forwarded. -/
theorem local_calls_isolated (localFds remoteFds : Finset (BitVec 32)) :
  (∀ acts : List WorldAct, (∀ a ∈ acts, a.Ok) →
      Along step FreshNumbers (initial localFds remoteFds) acts →
        Along step Isolated (initial localFds remoteFds) acts) ∧
    ∀ (pre : List WorldAct) (w w' : World) (a : WorldAct), (∀ b ∈ pre ++ [a], b.Ok) →
      run step (initial localFds remoteFds) pre = some w → w.step a = some w' →
        ¬ w.FreshNumbers a →
          ∃ mid, ¬ Along step Isolated (initial localFds remoteFds) (pre ++ a :: mid)
  := by
  constructor
  · intro acts hok hfresh
    apply along_of_invariant (I := Separate) (C := fun w a => a.Ok ∧ w.FreshNumbers a)
    · intro w a w' hsep hC hstep
      apply hsep.step hC.1 hC.2 hstep
    · intro w a hsep _
      apply hsep.isolated
    · exact ⟨[], Routes.create, by simp⟩
    · apply (along_of_mem hok).and hfresh
  · intro pre w w' a hok hpre hstep hfresh
    obtain ⟨live, h⟩ := routes_run (fun b hb => hok b (List.mem_append_left _ hb)) hpre
    obtain ⟨live', h', node, hnode, hlocal⟩ :=
      exists_mem_of_not_fresh h (hok a (by simp)) hstep hfresh
    obtain ⟨mid, hmid⟩ := exists_not_isolated h' hnode hlocal
    use mid
    intro halong
    apply hmid
    apply (halong.right hpre).2 w' hstep

/-- A local opening, a `socket` and a `write` whose numbers do not clash. -/
theorem local_calls_isolated_fresh :
  Along step Isolated (initial {0#32, 1#32, 2#32} {0#32, 1#32, 2#32})
    [.localOpen 3#32, .call .socket replyFive, .call (.write 3#32 8) replyFive]
  := by
  apply (local_calls_isolated _ _).1
  · simp [WorldAct.Ok, replyFive_ok]
  · refine ⟨rfl, fun w hw => ⟨?_, fun w' _ => ⟨?_, fun _ _ => trivial⟩⟩⟩
    · obtain rfl := Option.some.inj hw
      intro _ r d hr hret
      obtain rfl := Option.some.inj hr
      constructor
      · rintro ⟨⟩
      · rintro - -
        have hd : d = 5#32 := BitVec.eq_of_toInt_eq (by rw [← hret]; rfl)
        rw [hd]
        decide
    · rintro ⟨⟩

/-- After the file `5` is opened on the host and the server returns `5` for a socket, a
`write` to the file is sent to the server. -/
theorem local_write_forwarded :
  ¬ Along step Isolated (initial {0#32, 1#32, 2#32} {0#32, 1#32, 2#32})
    [.localOpen 5#32, .call .socket replyFive, .call (.write 5#32 8) replyFive]
  := by
  intro halong
  have hwrite := ((halong.2 _ rfl).2 _ rfl).1 5#32 rfl (by decide)
  apply not_forwarded_of_original (a := (.write 5#32 8, replyFive)) hwrite
    (forwarded_write fd_afterSocket rfl 8)

end World

end SocketToRdma
