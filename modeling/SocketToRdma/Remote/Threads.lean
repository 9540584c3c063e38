import SocketToRdma.Lib.Parallel
import SocketToRdma.Remote.Transparency

/-!
# The threads of a program

Every thread of the host that makes calls has a connection of its own, and the server has a thread
for each of them; the threads of the server share the kernel. A step is one of any of these threads
or of the network card of a connection, or the kernel changes by itself, and the steps come in any
order.

The program is compared with one whose threads share a kernel on which their plain calls happen at
once, with the constants of the hooks and the server where these stand for arguments. The calls of
different threads overlap, and a request may wait in the network while others that were made after
it are served; still each call takes effect at one moment between its start and its return, and all
threads see the results that these moments, in their order, give on the kernel.
-/

namespace SocketToRdma

open QueuePair Run

variable {ι κ : Type}

/-- The step of a session on the kernel that it shares with others. -/
def System.sharedStep (K : Kernel κ) (p : Session × κ) (a : SystemAct κ) : Option (Session × κ) :=
  (System.step K ⟨p.1, p.2⟩ a).map fun s => (s.session, s.kernel)

/-- The step of a thread that calls the kernel that it shares with others. -/
def Direct.sharedStep (K : Kernel κ) (p : DirectPhase × κ) (a : DirectAct κ) :
    Option (DirectPhase × κ) :=
  (Direct.step K ⟨p.2, p.1⟩ a).map fun d => (d.phase, d.kernel)

/-- The sessions of the threads, and the kernel of the server. -/
abbrev Threads (ι κ : Type) : Type := (ι → Session) × κ

/-- The calls under way of the threads, and the kernel they call. -/
abbrev DirectThreads (ι κ : Type) : Type := (ι → DirectPhase) × κ

namespace Threads

/-- An action of one of the threads, of its connection, or of the kernel. -/
def step [DecidableEq ι] (K : Kernel κ) :
    Threads ι κ → ι × SystemAct κ → Option (Threads ι κ) :=
  parallel (System.sharedStep K)

/-- The action is one of plain calls and timely arrivals. -/
def Admits (K : Kernel κ) : Threads ι κ → ι × SystemAct κ → Prop :=
  ParallelCond fun p a => System.Admits K ⟨p.1, p.2⟩ a

/-- What the action shows of the calls of its thread. -/
def shows : Threads ι κ → ι × SystemAct κ → List (ι × DirectAct κ) :=
  parallelObs fun p a => System.shows ⟨p.1, p.2⟩ a

/-- A connection of every thread is set up. -/
def connected (h : ι → RInfo) (c : ι → ClientRInfo) (sends : ι → ℕ) (k : κ) : Threads ι κ :=
  (fun i => .connected (h i) (c i) (sends i), k)

end Threads

/-- An action of one of the threads on the kernel. -/
def DirectThreads.step [DecidableEq ι] (K : Kernel κ) :
    DirectThreads ι κ → ι × DirectAct κ → Option (DirectThreads ι κ) :=
  parallel (Direct.sharedStep K)

/-- A run of a thread is one on the kernel that it shares. -/
theorem Direct.run_sharedStep {K : Kernel κ} {d d' : Direct κ} {as : List (DirectAct κ)}
    (h : run (Direct.step K) d as = some d') :
  run (Direct.sharedStep K) (d.phase, d.kernel) as = some (d'.phase, d'.kernel)
  := by
  induction as generalizing d with
  | nil =>
      obtain rfl := Option.some.inj h
      rfl
  | cons a as ih =>
      obtain ⟨d₁, hd₁, hrun⟩ := run_cons_eq_some.mp h
      apply run_cons_eq_some.mpr
      use (d₁.phase, d₁.kernel)
      constructor
      · rw [Direct.sharedStep, hd₁]
        rfl
      · apply ih hrun

namespace Threads

/-- A session and the call under way of its thread. -/
def SameCall (s : Session) (p : DirectPhase) : Prop :=
  ∃ r, Related s r ∧ System.SamePhase r p

theorem SameCall.connected (h : RInfo) (c : ClientRInfo) (sends : ℕ) :
  SameCall (.connected h c sends) .idle
  := ⟨⟨h, c, .idle⟩, .idle (Net.connected sends) trivial, rfl⟩

/-- A thread between two calls is between two calls. -/
theorem SameCall.idle {s : Session} {p : DirectPhase} (h : SameCall s p)
    (hidle : s.host.pc = .idle) :
  p = .idle
  := by
  obtain ⟨r, hrel, hphase⟩ := h
  apply hphase.idle
  cases hrel with
  | idle => rfl
  | _ => cases hidle

/-- A session is simulated whatever else happens on the kernel. -/
theorem sharedStep_simulates (K : Kernel κ) :
  Simulates (System.sharedStep K) (Direct.sharedStep K)
    (fun (p : Session × κ) a => System.shows ⟨p.1, p.2⟩ a)
    (fun p a => System.Admits K ⟨p.1, p.2⟩ a) fun p q => SameCall p.1 q.1 ∧ q.2 = p.2
  := by
  rintro ⟨session, _⟩ a p' ⟨phase, k⟩ ⟨⟨r, hrel, hphase⟩, rfl⟩ hadmits hstep
  obtain ⟨s', hs', rfl⟩ := Option.map_eq_some_iff.mp hstep
  obtain ⟨d', hrun, r', hrep⟩ := System.system_simulates K _ a s' ⟨k, phase⟩
    ⟨r, hrel, rfl, hphase⟩ hadmits hs'
  exact ⟨_, Direct.run_sharedStep hrun, ⟨r', hrep.related, hrep.phase⟩, hrep.kernel⟩

/-- The threads on the kernel simulate the threads on their connections. -/
theorem threads_simulates [DecidableEq ι] (K : Kernel κ) :
  Simulates (step K) (DirectThreads.step K) shows (Admits K)
    fun (s : Threads ι κ) d => (∀ i, SameCall (s.1 i) (d.1 i)) ∧ d.2 = s.2
  := by
  apply (sharedStep_simulates K).parallel (S := fun k k' => k' = k)

end Threads

/-- What a run of any number of threads with plain calls shows, in any order of their steps, is a run
of threads that call the kernel themselves. -/
theorem threads_transparent [DecidableEq ι] (K : Kernel κ) (h : ι → RInfo) (c : ι → ClientRInfo)
    (sends : ι → ℕ) (k : κ) (acts : List (ι × SystemAct κ))
    (hacts : Along (Threads.step K) (Threads.Admits K) (.connected h c sends k) acts)
    {s : Threads ι κ} (hrun : run (Threads.step K) (.connected h c sends k) acts = some s) :
  ∃ d : DirectThreads ι κ,
    run (DirectThreads.step K) (fun _ => .idle, k)
      (observed (Threads.step K) Threads.shows (.connected h c sends k) acts) = some d ∧
    d.2 = s.2 ∧ ∀ i, (s.1 i).host.pc = .idle → d.1 i = .idle
  := by
  have hstart : (∀ i, Threads.SameCall ((Threads.connected h c sends k).1 i) .idle) ∧ k = k :=
    ⟨fun i => .connected (h i) (c i) (sends i), rfl⟩
  obtain ⟨d, hd, hcalls, hkernel⟩ := (Threads.threads_simulates K).run
    (t := (fun _ => .idle, k)) hstart hacts hrun
  exact ⟨d, hd, hkernel, fun i => (hcalls i).idle⟩

/-- Two threads that write three bytes each into one pipe; the calls overlap. -/
def twoWriteActs : List (Bool × SystemAct (List UInt8)) :=
  [(false, .call writeThree), (true, .call writeThree), (true, .act .host),
    (false, .act .host), (false, .act .arriveAtServer), (true, .act .arriveAtServer),
    (true, .act .server), (true, .act .server), (true, .act (.serve writeEnv)),
    (false, .act .server), (false, .act .server), (false, .act (.serve writeEnv)),
    (false, .act .server), (true, .act .server), (true, .act .arriveAtHost),
    (false, .act .arriveAtHost), (false, .act .host), (true, .act .host)]

/-- Two threads write into one pipe at the same time. -/
theorem threads_transparent_two_writes :
  ∃ d : DirectThreads Bool (List UInt8),
    run (DirectThreads.step pipe) (fun _ => .idle, [])
      (observed (Threads.step pipe) Threads.shows
        (.connected (fun _ => idleRInfo) (fun _ => .received .socket 0) (fun _ => 0) [])
        twoWriteActs) = some d ∧ ∀ i, d.1 i = .idle
  := by
  have hfits : writeThree.Fits := (by decide : 3 < 599988)
  have hanswers : ∀ {h' : RInfo} (k : List UInt8),
      prepareRequest idleRInfo writeThree.args = some h' → pipe.Answers k
        (calls (rdmaReqEvent writeEnv.val
          (.start ((ClientRInfo.received .socket 0).receive h'.posted))).trace)
        writeEnv.val.outcome := by
    intro h' k hprep
    apply ((PlainCall.received (m := zeros) hfits rfl hprep _).answers_iff hfits).mpr rfl
  have hacts : Along (Threads.step pipe) (Threads.Admits pipe)
      (.connected (fun _ => idleRInfo) (fun _ => .received .socket 0) (fun _ => 0) [])
      twoWriteActs := by
    iterate 2 refine along_cons hfits rfl ?_
    iterate 2 refine along_cons trivial rfl ?_
    iterate 2 refine along_cons (fun _ _ => nofun) rfl ?_
    iterate 2 refine along_cons trivial rfl ?_
    refine along_cons (hanswers _ rfl) rfl ?_
    iterate 2 refine along_cons trivial rfl ?_
    refine along_cons (hanswers _ rfl) rfl ?_
    iterate 2 refine along_cons trivial rfl ?_
    iterate 2 refine along_cons (timely_of_head rfl) rfl ?_
    refine along_cons trivial rfl ?_
    exact along_cons trivial rfl trivial
  obtain ⟨d, hd, -, hidle⟩ := threads_transparent pipe _ _ _ _ _ hacts rfl
  refine ⟨d, hd, ?_⟩
  intro i
  apply hidle
  cases i <;> rfl

end SocketToRdma
